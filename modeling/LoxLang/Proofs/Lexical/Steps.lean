import LoxLang.Proofs.Lexical.Agree
import LoxLang.Proofs.Values

namespace LoxLang.Lexical
open World

variable {α β : Type} {floor : Nat} {w : World}

/-! ## Values -/

namespace World

theorem SameClass.name {c : Class ScopeId} {d : Class Env} (h : w.SameClass c d) :
    c.name = d.name := by
  cases h <;> rfl

theorem SameClass.identity {c : Class ScopeId} {d : Class Env} (h : w.SameClass c d) :
    c.identity = d.identity := by
  cases h <;> rfl

theorem SameClass.method? {c : Class ScopeId} {d : Class Env} (h : w.SameClass c d)
    (name : String) : Option.Rel w.SameMethod (c.method? name) (d.method? name) := by
  induction h with
  | @base identity className methods methods' hmethods =>
    have hname := hmethods name
    rw [Class.method?, Class.method?]
    generalize methods.get? name = m at hname
    generalize methods'.get? name = m' at hname
    cases hname with
    | some hm => exact .some hm
    | none => exact .none
  | @derived identity className methods methods' above above' _ hmethods ih =>
    have hname := hmethods name
    rw [Class.method?, Class.method?]
    generalize methods.get? name = m at hname
    generalize methods'.get? name = m' at hname
    cases hname with
    | some hm => exact .some hm
    | none => exact ih

theorem Same.alike {v : Value ScopeId} {v' : Value Env} (h : w.Same v v') : v.Alike v' := by
  cases h with
  | nil => exact .nil
  | bool => exact .bool
  | number => exact .number
  | string => exact .string
  | @function f g hf =>
    refine .function hf.identity ?_
    rw [hf.decl, name_relabel]
  | native => exact .native
  | cls hc => exact .cls hc.identity hc.name
  | object hc => exact .object hc.name

theorem same_ofLiteral (w : World) (literal : Literal) :
    w.Same (.ofLiteral literal) (.ofLiteral literal) := by
  cases literal with
  | nil => exact .nil
  | bool => exact .bool
  | number => exact .number
  | string => exact .string

inductive SameFlow (w : World) : Flow ScopeId → Flow Env → Prop
  | normal : SameFlow w .normal .normal
  | returned {v : Value ScopeId} {v' : Value Env} :
      w.Same v v' → SameFlow w (.returned v) (.returned v')

end World

theorem agree_settle (result : Except Error Literal) (span : Span) :
    Agree floor w (Machine.settle (result.map .ofLiteral) span)
      (settle (result.map .ofLiteral) span) (fun w' => w'.Same) := by
  cases result with
  | ok literal => exact .pure (same_ofLiteral w literal)
  | error e => exact .raise e span

theorem agree_writeLine (text : String) (span : Span) :
    Agree floor w (Machine.writeLine text span) (writeLine text span) (fun _ _ _ => True) := by
  intro m s hrel _
  have hleft : Machine.writeLine text span m =
      (unless (m.output.write (text ++ "\n").toUTF8).2 do
        Machine.raise (.writeFailed "stdout") span : LoxLang.Run Unit)
        { m with output := (m.output.write (text ++ "\n").toUTF8).1 } := rfl
  have hright : writeLine text span s =
      (unless (s.output.write (text ++ "\n").toUTF8).2 do
        raise (.writeFailed "stdout") span : Run Unit)
        { s with output := (s.output.write (text ++ "\n").toUTF8).1 } := rfl
  rw [hleft, hright, ← hrel.output]
  generalize m.output.write (text ++ "\n").toUTF8 = result
  obtain ⟨output, ok⟩ := result
  have hrel' : Rel w { m with output } { s with output } := { hrel with output := rfl }
  cases ok with
  | true => exact .ok (.refl floor w) hrel' trivial
  | false => exact .error (.refl floor w) hrel' fun _ h => Halt.noConfusion h

theorem agree_readClock (clock : Nat → Float) :
    Agree floor w (Machine.readClock clock) (readClock clock) (fun w' => w'.Same) := by
  intro m s hrel _
  have hleft : Machine.readClock clock m =
      .ok (.number (clock m.readings)) { m with readings := m.readings + 1 } := rfl
  have hright : readClock clock s =
      .ok (.number (clock s.readings)) { s with readings := s.readings + 1 } := rfl
  rw [hleft, hright, hrel.readings]
  exact .ok (.refl floor w) { hrel with readings := rfl } .number

theorem agree_checkArity (name : String) (expected got : Nat) (span : Span) :
    Agree floor w (Machine.checkArity name expected got span) (checkArity name expected got span)
      (fun _ _ _ => expected = got) := by
  unfold Machine.checkArity checkArity
  by_cases h : expected = got
  · rw [if_pos h, if_pos h]
    exact .pure h
  · rw [if_neg h, if_neg h]
    exact .raise _ _

theorem Agree.inFrame {p : LoxLang.Run α} {q : Run β} {P : World → α → β → Prop} (span : Span)
    (h : Agree floor w p q P) :
    Agree floor w (Machine.inFrame span p) (Lexical.inFrame span q) P := by
  intro m s hrel hfloor
  unfold Machine.inFrame Lexical.inFrame
  rw [← hrel.frames]
  by_cases hframes : m.frames ≥ Machine.maxFrames
  · rw [if_pos hframes, if_pos hframes]
    exact .error (.refl floor w) hrel fun _ h => Halt.noConfusion h
  · rw [if_neg hframes, if_neg hframes]
    have hends := h { m with frames := m.frames + 1 } { s with frames := m.frames + 1 }
      { hrel with frames := rfl } hfloor
    generalize p { m with frames := m.frames + 1 } = left at hends
    generalize q { s with frames := m.frames + 1 } = right at hends
    cases hends with
    | ok hw hrel' hP => exact .ok hw { hrel' with frames := congrArg (· - 1) hrel'.frames } hP
    | error hw hrel' hhalt =>
      exact .error hw { hrel' with frames := congrArg (· - 1) hrel'.frames } hhalt

/-! ## Functions and classes -/

theorem agree_newClosure (decl : FunDecl) (decl' : FunDecl) (id : ScopeId) (env : Env)
    (isInitializer : Bool) :
    Agree floor w (Machine.newClosure decl id isInitializer) (newClosure decl' env isInitializer)
      (fun _ f g => ∃ identity, f = ⟨identity, decl, id, isInitializer⟩ ∧
        g = ⟨identity, decl', env, isInitializer⟩) := by
  intro m s hrel _
  have hleft : Machine.newClosure decl id isInitializer m =
      .ok ⟨m.identity, decl, id, isInitializer⟩ { m with identity := m.identity + 1 } := rfl
  have hright : newClosure decl' env isInitializer s =
      .ok ⟨s.identity, decl', env, isInitializer⟩ { s with identity := s.identity + 1 } := rfl
  rw [hleft, hright, hrel.identity]
  exact .ok (.refl floor w) { hrel with identity := rfl } ⟨s.identity, rfl, rfl⟩

theorem agree_newObject {c : Class ScopeId} {d : Class Env} (h : w.SameClass c d) :
    Agree floor w (Machine.newObject c) (newObject d)
      (fun w' v v' => ∃ cell, v = .object cell c ∧ v' = .object cell d ∧ w'.Same v v') := by
  intro m s hrel _
  have hleft : Machine.newObject c m =
      .ok (.object m.objects.size c) { m with objects := m.objects.push .empty } := rfl
  have hright : newObject d s =
      .ok (.object s.objects.size d) { s with objects := s.objects.push .empty } := rfl
  rw [hleft, hright, hrel.objects]
  exact .ok (.refl floor w) hrel.newObject ⟨s.objects.size, rfl, rfl, .object h⟩

theorem agree_setField (cell : Nat) (name : String) {v : Value ScopeId} {v' : Value Env}
    (hv : w.Same v v') :
    Agree floor w (Machine.setField cell name v) (setField cell name v') (fun _ _ _ => True) :=
  fun _ _ hrel _ => .ok (.refl floor w) (hrel.setField cell name hv) trivial

/-- Adding one name to an environment is entering a scope of its own. -/
theorem bindName_eq_bindNames (env : Env) (name : String) (value : Value Env) :
    bindName env name value = bindNames env.enter [(name, value)] := rfl

theorem agree_bindName {frame : Frame} {frames : List Frame} {parent : ScopeId} {env : Env}
    {name : String} {v : Value ScopeId} {v' : Value Env} (hchain : w.Chain frames parent env)
    (hv : w.Same v v') (hdeclares : ∀ other, frame.declares other = true ↔ other = name)
    (hkept : Kept name v) :
    Agree floor w (Machine.newScope parent (Bindings.empty.insert name v)) (bindName env name v')
      (fun w' id env' => w'.At (frame :: frames) id env' ∧ floor ≤ id) := by
  have hscope : Bindings.empty.insert name v = Bindings.empty.insertMany [(name, v)] := rfl
  rw [bindName_eq_bindNames, hscope]
  refine agree_enter hchain (.cons ⟨rfl, hv⟩ .nil) (by simp) ?_ ?_
  · intro other
    rw [hdeclares]
    simp
  · intro pair hpair
    rw [List.mem_singleton.mp hpair]
    exact hkept

private theorem declares_thisFrame (name : String) :
    thisFrame.declares name = true ↔ name = "this" := by
  simp [thisFrame, eq_comm]

theorem declares_superFrame (name : String) : superFrame.declares name = true ↔ name = "super" := by
  simp [superFrame, eq_comm]

/-- A method that is bound to an instance is a function right inside of the scope of `this`. -/
theorem agree_bind {f : Closure ScopeId} {g : Closure Env} {cell : Nat} {c : Class ScopeId}
    {d : Class Env} (hf : w.SameMethod f g) (hc : w.SameClass c d) :
    Agree floor w (Machine.bind f (.object cell c)) (bind g (.object cell d))
      (fun w' f' g' => w'.SameFunction f' g' ∧ f'.decl = f.decl) := by
  obtain ⟨frames, hchain, hscoped⟩ := hf.code
  have hkept : Kept "this" (.object cell c) :=
    ⟨fun _ => ⟨cell, c, rfl⟩, fun h => absurd h (by decide)⟩
  apply (agree_bindName hchain (.object hc) declares_thisFrame hkept).bind
  intro w₁ id env _ hat
  rw [← hf.isInitializer]
  refine (agree_newClosure _ _ _ _ _).mono fun w₂ f' g' hw h => ?_
  obtain ⟨identity, rfl, rfl⟩ := h
  exact ⟨⟨rfl, hf.decl, rfl, thisFrame :: frames, hat.1.chain.mono hw, hscoped, fun _ => rfl⟩, rfl⟩

private theorem agree_boundMethod {c c' : Class ScopeId} {d d' : Class Env} (cell : Nat)
    (hc : w.SameClass c d) (hc' : w.SameClass c' d') (name : String) (span : Span) :
    Agree floor w
      (match c.method? name with
        | some method => .function <$> Machine.bind method (.object cell c')
        | none => Machine.raise (.noSuchAttribute c.name name) span : LoxLang.Run (Value ScopeId))
      (match d.method? name with
        | some method => .function <$> bind method (.object cell d')
        | none => raise (.noSuchAttribute d.name name) span : Run (Value Env))
      (fun w' => w'.Same) := by
  have hmethod := hc.method? name
  generalize c.method? name = method at hmethod
  generalize d.method? name = method' at hmethod
  cases hmethod with
  | some hm => exact (agree_bind hm hc').map fun _ _ _ _ hfg => .function hfg.1
  | none =>
    rw [hc.name]
    exact .raise _ _

theorem agree_property {v : Value ScopeId} {v' : Value Env} (hv : w.Same v v') (name : String)
    (span : Span) :
    Agree floor w (Machine.property v name span) (property v' name span) (fun w' => w'.Same) := by
  have hother : Agree floor w
      (Machine.raise (.propertyOnNonInstance v.typeName name) span : LoxLang.Run (Value ScopeId))
      (raise (.propertyOnNonInstance v'.typeName name) span : Run (Value Env))
      (fun w' => w'.Same) := by
    rw [hv.alike.typeName]
    exact .raise _ _
  cases hv with
  | @object cell c d hc =>
    refine .getThen fun m s hrel => ?_
    have hfield := hrel.fields cell name
    generalize (m.objects.getD cell .empty).get? name = field at hfield
    generalize (s.objects.getD cell .empty).get? name = field' at hfield
    cases hfield with
    | some hsame => exact .pure hsame
    | none => exact agree_boundMethod cell hc hc name span
  | _ => exact hother

theorem agree_superMethod {frames : List Frame} {id : ScopeId} {env : Env} {k : Nat}
    (hs : w.Sees frames id env) (hthis : distanceIn frames "this" = some k)
    (hsuper : distanceIn frames "super" = some (k + 1)) (name : String) (span : Span) :
    Agree floor w (Machine.superMethod id (some (k + 1)) name span) (superMethod env name span)
      (fun w' => w'.Same) := by
  obtain ⟨owner, location, howner, hlocation, hslot, hbound⟩ := hs.found "super" _ hsuper
  apply (agree_getAt howner hlocation hslot (hbound (.inr (.inr rfl)))).bind
  intro w₁ v v' hw₁ h
  obtain ⟨hv, hkept⟩ := h
  obtain ⟨c, rfl⟩ := hkept.2 rfl
  cases hv with
  | @cls _ d hc =>
    obtain ⟨owner, location, howner, hlocation, hslot, hbound⟩ :=
      (hs.mono hw₁).found "this" _ hthis
    apply (agree_getAt howner hlocation hslot (hbound (.inr (.inl rfl)))).bind
    intro w₂ x x' hw₂ h
    obtain ⟨hx, hkept⟩ := h
    obtain ⟨cell, c', rfl⟩ := hkept.1 rfl
    cases hx with
    | object hc' => exact agree_boundMethod cell (hc.mono hw₂) hc' name span

private theorem agree_newMethods {frames : List Frame} {id : ScopeId} {env : Env}
    {decls : List FunDecl}
    {methods : Bindings (Closure ScopeId)} {methods' : Bindings (Closure Env)}
    (hchain : w.Chain frames id env) (hscoped : scopedMethods (thisFrame :: frames) decls)
    (hmethods : ∀ key, Option.Rel w.SameMethod (methods.get? key) (methods'.get? key)) :
    Agree floor w (Machine.newMethods id decls methods)
      (newMethods env (decls.map (·.relabel .noDistances)) methods')
      (fun w' ms ms' => ∀ key, Option.Rel w'.SameMethod (ms.get? key) (ms'.get? key)) := by
  induction decls generalizing w methods methods' with
  | nil => exact .pure hmethods
  | cons decl rest ih =>
    rw [List.map_cons, Machine.newMethods, newMethods, name_relabel, isInitializer_relabel]
    refine (agree_newClosure _ _ _ _ _).bind fun w₁ f g hw h => ?_
    obtain ⟨identity, rfl, rfl⟩ := h
    refine ih (hchain.mono hw) hscoped.2 fun key => ?_
    rw [Bindings.get?_insert, Bindings.get?_insert]
    by_cases heq : key = decl.name
    · rw [if_pos heq, if_pos heq]
      exact .some ⟨rfl, rfl, rfl, frames, hchain.mono hw, hscoped.1⟩
    · rw [if_neg heq, if_neg heq]
      exact optionRel_mono (hmethods key) fun _ _ hm => hm.mono hw

private theorem agree_newClass (name : String) {superclass : Option (Class ScopeId)}
    {superclass' : Option (Class Env)} {methods : Bindings (Closure ScopeId)}
    {methods' : Bindings (Closure Env)} (habove : Option.Rel w.SameClass superclass superclass')
    (hmethods : ∀ key, Option.Rel w.SameMethod (methods.get? key) (methods'.get? key)) :
    Agree floor w (Machine.newClass name superclass methods) (newClass name superclass' methods')
      (fun w' => w'.SameClass) := by
  intro m s hrel _
  have hleft : Machine.newClass name superclass methods m =
      .ok ⟨m.identity, name, superclass, methods⟩ { m with identity := m.identity + 1 } := rfl
  have hright : newClass name superclass' methods' s =
      .ok ⟨s.identity, name, superclass', methods'⟩ { s with identity := s.identity + 1 } := rfl
  rw [hleft, hright, hrel.identity]
  refine .ok (.refl floor w) { hrel with identity := rfl } ?_
  cases habove with
  | none => exact .base hmethods
  | some habove => exact .derived habove hmethods

/-- The end of a class declaration. The methods see the scope `inner`, which is that of the class
or one inside of it. -/
theorem agree_declareClass {frames frames' : List Frame} {id inner : ScopeId} {env env' : Env}
    {name : String} {superclass : Option (Class ScopeId)} {superclass' : Option (Class Env)}
    {decls : List FunDecl} (hd : Declared w frames id env name)
    (hname : ¬Reserved name) (hb : w.Bound id name) (hchain : w.Chain frames' inner env')
    (habove : Option.Rel w.SameClass superclass superclass')
    (hscoped : scopedMethods (thisFrame :: frames') decls) (span : Span) :
    Agree (id + 1) w (Machine.declareClass id inner name superclass decls span)
      (declareClass env env' name superclass' (decls.map (·.relabel .noDistances)))
      (fun w' _ _ => w'.At (declareName name frames) id env) := by
  refine (agree_newMethods hchain hscoped fun key => .none).bind fun w₁ methods methods' hw₁ hm => ?_
  refine .emitThen _ ?_
  have habove₁ := optionRel_mono habove fun _ _ hc => hc.mono hw₁
  refine (agree_newClass name habove₁ hm).bind fun w₂ c d hw₂ hc => ?_
  have hw := hw₁.trans hw₂
  exact agree_assignByName (hd.mono hw) hname (hw.bound id name hb) (.cls hc)

theorem agree_callResult {f : Closure ScopeId} {g : Closure Env} {flow : Flow ScopeId}
    {flow' : Flow Env} (hf : w.SameFunction f g) (hflow : w.SameFlow flow flow') :
    Agree floor w (Machine.callResult f flow) (callResult g flow') (fun w' => w'.Same) := by
  unfold Machine.callResult callResult
  rw [← hf.isInitializer]
  by_cases h : f.isInitializer = true
  · rw [if_pos h, if_pos h]
    obtain ⟨frames, hchain, -, hthis⟩ := hf.code
    obtain ⟨owner, location, howner, hlocation, hslot, hbound⟩ := hchain.found (hthis h)
    exact (agree_getAt howner hlocation hslot hbound).mono fun _ _ _ _ h => h.1
  · rw [if_neg h, if_neg h]
    cases hflow with
    | normal => exact .pure .nil
    | returned hv => exact .pure hv

end LoxLang.Lexical
