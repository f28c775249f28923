import LoxLang.Proofs.Relabel
import LoxLang.Proofs.Scopes
import LoxLang.Proofs.Values

namespace LoxLang

namespace Bindings

variable {α β : Type} (f : α → β)

def map (b : Bindings α) : Bindings β :=
  ⟨b.entries.map fun entry => (entry.1, f entry.2)⟩

private theorem find?_map (name : String) (entries : List (String × α)) :
    find? name (entries.map fun entry => (entry.1, f entry.2)) = (find? name entries).map f := by
  induction entries with
  | nil => rfl
  | cons entry rest ih =>
    rw [List.map_cons, find?, find?, ih]
    by_cases h : entry.1 = name
    · rw [if_pos h, if_pos h, Option.map_some]
    · rw [if_neg h, if_neg h]

@[simp] theorem get?_map (b : Bindings α) (name : String) :
    (b.map f).get? name = (b.get? name).map f :=
  find?_map f name b.entries

private theorem put_map (name : String) (value : α) (entries : List (String × α)) :
    put name (f value) (entries.map fun entry => (entry.1, f entry.2)) =
      (put name value entries).map fun entry => (entry.1, f entry.2) := by
  induction entries with
  | nil => rfl
  | cons entry rest ih =>
    rw [List.map_cons, put, put, ih]
    by_cases h : entry.1 = name
    · rw [if_pos h, if_pos h, List.map_cons]
    · rw [if_neg h, if_neg h, List.map_cons]

@[simp] theorem map_insert (b : Bindings α) (name : String) (value : α) :
    (b.insert name value).map f = (b.map f).insert name (f value) :=
  congrArg Bindings.mk (put_map f name value b.entries).symm

@[simp] theorem map_empty : (empty : Bindings α).map f = empty := rfl

@[simp] theorem map_insertMany (b : Bindings α) (pairs : List (String × α)) :
    (b.insertMany pairs).map f =
      (b.map f).insertMany (pairs.map fun pair => (pair.1, f pair.2)) := by
  induction pairs generalizing b with
  | nil => rfl
  | cons pair rest ih =>
    obtain ⟨name, value⟩ := pair
    rw [insertMany_cons, ih, map_insert, List.map_cons, insertMany_cons]

end Bindings

variable {ε : Type}

def Closure.withoutSpans (f : Closure ε) : Closure ε :=
  { f with decl := f.decl.relabel .noSpans }

def Class.withoutSpans : Class ε → Class ε
  | ⟨identity, name, none, methods⟩ => ⟨identity, name, none, methods.map Closure.withoutSpans⟩
  | ⟨identity, name, some above, methods⟩ =>
    ⟨identity, name, some above.withoutSpans, methods.map Closure.withoutSpans⟩

def Value.withoutSpans : Value ε → Value ε
  | .function f => .function f.withoutSpans
  | .cls c => .cls c.withoutSpans
  | .object cell c => .object cell c.withoutSpans
  | other => other

def Flow.withoutSpans : Flow ε → Flow ε
  | .normal => .normal
  | .returned value => .returned value.withoutSpans

@[simp] theorem Class.name_withoutSpans (c : Class ε) : c.withoutSpans.name = c.name := by
  obtain ⟨identity, name, superclass, methods⟩ := c
  cases superclass <;> rw [Class.withoutSpans]

@[simp] theorem Class.identity_withoutSpans (c : Class ε) :
    c.withoutSpans.identity = c.identity := by
  obtain ⟨identity, name, superclass, methods⟩ := c
  cases superclass <;> rw [Class.withoutSpans]

theorem Class.method?_withoutSpans (name : String) (c : Class ε) :
    c.withoutSpans.method? name = (c.method? name).map Closure.withoutSpans := by
  match c with
  | ⟨_, _, none, methods⟩ =>
    rw [Class.withoutSpans, Class.method?, Class.method?, Bindings.get?_map]
    cases methods.get? name <;> rfl
  | ⟨_, _, some above, methods⟩ =>
    have ih := above.method?_withoutSpans name
    rw [Class.withoutSpans, Class.method?, Class.method?, Bindings.get?_map]
    cases methods.get? name with
    | some method => rfl
    | none => exact ih

theorem Value.alike_withoutSpans (v : Value ε) : v.Alike v.withoutSpans := by
  cases v with
  | nil => exact .nil
  | bool => exact .bool
  | number => exact .number
  | string => exact .string
  | function f =>
    refine .function rfl ?_
    rw [Closure.withoutSpans, name_relabel]
  | native => exact .native
  | cls c => exact .cls c.identity_withoutSpans.symm c.name_withoutSpans.symm
  | object cell c => exact .object c.name_withoutSpans.symm

@[simp] theorem Value.withoutSpans_ofLiteral (literal : Literal) :
    (Value.ofLiteral literal : Value ε).withoutSpans = .ofLiteral literal := by
  cases literal <;> rfl

/-! ## Scopes -/

theorem map_modify {α β : Type} {f : α → β} {g : α → α} {g' : β → β} (h : ∀ a, f (g a) = g' (f a))
    (xs : Array α) (i : Nat) : (xs.modify i g).map f = (xs.map f).modify i g' := by
  apply Array.ext_getElem?
  intro j
  simp only [Array.getElem?_map, Array.getElem?_modify]
  by_cases hj : i = j
  · rw [if_pos hj, if_pos hj]
    cases xs[j]? <;> simp [h]
  · rw [if_neg hj, if_neg hj]

def Scope.withoutSpans (scope : Scope) : Scope :=
  { scope with bindings := scope.bindings.map Value.withoutSpans }

namespace Scopes

variable (s : Scopes) (id : ScopeId) (name : String)

def withoutSpans : Scopes :=
  ⟨s.all.map Scope.withoutSpans⟩

@[simp] theorem next_withoutSpans : s.withoutSpans.next = s.next := by
  simp [next, withoutSpans]

@[simp] theorem own?_withoutSpans :
    s.withoutSpans.own? id name = (s.own? id name).map Value.withoutSpans := by
  simp only [own?, withoutSpans, Array.getElem?_map]
  cases s.all[id]? <;> simp [Scope.withoutSpans]

@[simp] theorem parent?_withoutSpans : s.withoutSpans.parent? id = s.parent? id := by
  simp only [parent?, withoutSpans, Array.getElem?_map]
  cases s.all[id]? <;> simp [Scope.withoutSpans]

@[simp] theorem ancestor?_withoutSpans (k : Nat) :
    s.withoutSpans.ancestor? k id = s.ancestor? k id := by
  induction k generalizing id with
  | zero => simp [ancestor?, withoutSpans]
  | succ k ih =>
    rw [ancestor?, ancestor?, parent?_withoutSpans]
    cases s.parent? id with
    | none => rfl
    | some parent => exact ih parent

@[simp] theorem getAt?_withoutSpans (k : Nat) :
    s.withoutSpans.getAt? id k name = (s.getAt? id k name).map Value.withoutSpans := by
  rw [getAt?, getAt?, ancestor?_withoutSpans]
  cases s.ancestor? k id <;> simp

private theorem ownerWithin?_withoutSpans (n : Nat) :
    s.withoutSpans.ownerWithin? name n id = s.ownerWithin? name n id := by
  induction n generalizing id with
  | zero => rfl
  | succ n ih =>
    rw [ownerWithin?, ownerWithin?, own?_withoutSpans, parent?_withoutSpans]
    cases s.own? id name with
    | some value => rfl
    | none =>
      cases s.parent? id with
      | none => rfl
      | some parent => exact ih parent

@[simp] theorem owner?_withoutSpans : s.withoutSpans.owner? id name = s.owner? id name := by
  rw [owner?, owner?, ownerWithin?_withoutSpans]
  simp [withoutSpans]

@[simp] theorem get?_withoutSpans :
    s.withoutSpans.get? id name = (s.get? id name).map Value.withoutSpans := by
  rw [get?, get?, owner?_withoutSpans]
  cases s.owner? id name <;> simp

theorem withoutSpans_push (scope : Scope) :
    (s.push scope).withoutSpans = s.withoutSpans.push scope.withoutSpans := by
  simp [push, withoutSpans]

theorem withoutSpans_define (value : Value ScopeId) :
    (s.define id name value).withoutSpans = s.withoutSpans.define id name value.withoutSpans := by
  unfold define withoutSpans
  rw [map_modify]
  intro scope
  simp [Scope.withoutSpans]

end Scopes

end LoxLang
