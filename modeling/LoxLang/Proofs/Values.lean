import LoxLang.Machine.Operation

namespace LoxLang

variable {ε δ : Type}

/-- The same value, as far as operators can see. -/
inductive Value.Alike : Value ε → Value δ → Prop
  | nil : Alike .nil .nil
  | bool {b : Bool} : Alike (.bool b) (.bool b)
  | number {x : Float} : Alike (.number x) (.number x)
  | string {s : String} : Alike (.string s) (.string s)
  | function {f : Closure ε} {g : Closure δ} :
      f.identity = g.identity → f.decl.name = g.decl.name → Alike (.function f) (.function g)
  | native {f : Native} : Alike (.native f) (.native f)
  | cls {c : Class ε} {d : Class δ} :
      c.identity = d.identity → c.name = d.name → Alike (.cls c) (.cls d)
  | object {cell : Nat} {c : Class ε} {d : Class δ} :
      c.name = d.name → Alike (.object cell c) (.object cell d)

namespace Value.Alike

variable {a b : Value ε} {a' b' : Value δ}

theorem refl (a : Value ε) : a.Alike a := by
  cases a with
  | nil => exact nil
  | bool => exact bool
  | number => exact number
  | string => exact string
  | function => exact function rfl rfl
  | native => exact native
  | cls => exact cls rfl rfl
  | object => exact object rfl

theorem isTruthy (h : a.Alike a') : a.isTruthy = a'.isTruthy := by
  cases h with
  | @bool b => cases b <;> rfl
  | _ => rfl

theorem typeName (h : a.Alike a') : a.typeName = a'.typeName := by
  cases h with
  | object hname => exact hname
  | _ => rfl

theorem display (h : a.Alike a') : a.display = a'.display := by
  cases h with
  | function _ hname => rw [Value.display, Value.display, hname]
  | cls _ hname => exact hname
  | object hname => rw [Value.display, Value.display, hname]
  | @bool b => cases b <;> rfl
  | _ => rfl

theorem equals (h : a.Alike a') (h' : b.Alike b') : a.equals b = a'.equals b' := by
  cases h with
  | function hf =>
    cases h' with
    | function hg => simp only [Value.equals, hf, hg]
    | _ => rfl
  | cls hc =>
    cases h' with
    | cls hd => simp only [Value.equals, hc, hd]
    | _ => rfl
  | _ => cases h' <;> rfl

theorem unary (h : a.Alike a') (op : UnaryOp) :
    ∃ result : Except Error Literal,
      op.apply a = result.map .ofLiteral ∧ op.apply a' = result.map .ofLiteral := by
  cases op with
  | not =>
    refine ⟨.ok (.bool !a.isTruthy), rfl, ?_⟩
    rw [h.isTruthy]
    rfl
  | negate =>
    have herror : (.error (.nonNumberOperand .negate a'.typeName) : Except Error (Value δ)) =
        .error (.nonNumberOperand .negate a.typeName) := by rw [h.typeName]
    cases h with
    | @number x => exact ⟨.ok (.number (-x)), rfl, rfl⟩
    | _ => exact ⟨.error (.nonNumberOperand .negate _), rfl, herror⟩

theorem add (h : a.Alike a') (h' : b.Alike b') :
    ∃ result : Except Error Literal, BinaryOp.add.apply a b = result.map .ofLiteral ∧
      BinaryOp.add.apply a' b' = result.map .ofLiteral := by
  have herror : (.error (.invalidAddOperands a'.typeName b'.typeName) : Except Error (Value δ)) =
      .error (.invalidAddOperands a.typeName b.typeName) := by rw [h.typeName, h'.typeName]
  cases h with
  | @number x =>
    cases h' with
    | @number y => exact ⟨.ok (.number (x + y)), rfl, rfl⟩
    | _ => exact ⟨.error (.invalidAddOperands _ _), rfl, herror⟩
  | @string s =>
    cases h' with
    | @string t => exact ⟨.ok (.string (s ++ t)), rfl, rfl⟩
    | _ => exact ⟨.error (.invalidAddOperands _ _), rfl, herror⟩
  | _ => exact ⟨.error (.invalidAddOperands _ _), rfl, herror⟩

theorem binary (h : a.Alike a') (h' : b.Alike b') (op : BinaryOp) :
    ∃ result : Except Error Literal,
      op.apply a b = result.map .ofLiteral ∧ op.apply a' b' = result.map .ofLiteral := by
  have herror : (.error (.nonNumberOperands op a'.typeName b'.typeName) : Except Error (Value δ)) =
      .error (.nonNumberOperands op a.typeName b.typeName) := by rw [h.typeName, h'.typeName]
  cases op with
  | add => exact h.add h'
  | equal => exact ⟨.ok (.bool (a.equals b)), rfl, by rw [h.equals h']; rfl⟩
  | notEqual => exact ⟨.ok (.bool !a.equals b), rfl, by rw [h.equals h']; rfl⟩
  | subtract | multiply | divide =>
    cases h with
    | number =>
      cases h' with
      | number => exact ⟨.ok (.number _), rfl, rfl⟩
      | _ => exact ⟨.error (.nonNumberOperands _ _ _), rfl, herror⟩
    | _ => exact ⟨.error (.nonNumberOperands _ _ _), rfl, herror⟩
  | less | lessEqual | greater | greaterEqual =>
    cases h with
    | number =>
      cases h' with
      | number => exact ⟨.ok (.bool _), rfl, rfl⟩
      | _ => exact ⟨.error (.nonNumberOperands _ _ _), rfl, herror⟩
    | _ => exact ⟨.error (.nonNumberOperands _ _ _), rfl, herror⟩

end Value.Alike

end LoxLang
