import LoxLang.Proofs.Integrity.Sessions
import LoxLang.Proofs.Search
/-!
# Class declarations that fail

The name of a class is bound to `nil` before its superclass is looked up, so that
methods can refer to it, and to the class itself at the end. Once there is a
superclass, or none is asked for, nothing can fail any more. So there are two ways
to fail, and both leave the name bound to `nil`, whatever it was bound to before.
All other bindings stay as they were.
-/
namespace LoxLang.Machine

variable {m m' : Machine} {scope inner : ScopeId} {name : String}

/-! ## The end of a declaration -/

private theorem newMethods_ok (scope : ScopeId) (decls : List FunDecl)
    (methods : Bindings (Closure ScopeId)) (m : Machine) :
    ∃ methods' identity, newMethods scope decls methods m = .ok methods' { m with identity } := by
  induction decls generalizing methods m with
  | nil => exact ⟨methods, m.identity, rfl⟩
  | cons decl rest ih =>
    have hclosure : newClosure decl scope decl.isInitializer m =
        .ok ⟨m.identity, decl, scope, decl.isInitializer⟩ { m with identity := m.identity + 1 } :=
      rfl
    obtain ⟨methods', identity, hrest⟩ := ih
      (methods.insert decl.name ⟨m.identity, decl, scope, decl.isInitializer⟩)
      { m with identity := m.identity + 1 }
    refine ⟨methods', identity, ?_⟩
    rw [newMethods, bind_apply, hclosure]
    exact hrest

/-- A class whose name is bound can always be made. -/
theorem declareClass_ok (h : m.scopes.own? scope name ≠ none) (inner : ScopeId)
    (superclass : Option (Class ScopeId)) (decls : List FunDecl) (span : Span) :
    ∃ m', declareClass scope inner name superclass decls span m = .ok () m' := by
  obtain ⟨methods, identity, hmethods⟩ := newMethods_ok inner decls .empty m
  let m₁ : Machine :=
    { m with
      identity := identity + 1
      events := m.events.push (.declaredClass name methods.size) }
  have hassign : declareClass scope inner name superclass decls span m =
      assignByName scope name (.cls ⟨identity, name, superclass, methods⟩) span m₁ := by
    rw [declareClass, bind_apply, hmethods]
    rfl
  have howner : m₁.scopes.owner? scope name = some scope := Scopes.owner?_of_own? h
  exact ⟨_, hassign.trans (assignByName_of_some howner _ span)⟩

/-! ## The two ways to fail -/

/-- A variable is read without a change, or it is no global variable, or the machine is broken. -/
theorem lookup_cases (scope : ScopeId) (ref : Ref) (span : Span) (m : Machine) :
    (∃ value, lookup scope ref span m = .ok value m) ∨
    (ref.distance = none ∧ m.scopes.get? globals ref.name = none ∧
      lookup scope ref span m = .error (.raised ⟨.notDefined ref.name, span⟩) m) ∨
    ∃ fault, lookup scope ref span m = .error (.broken fault) m := by
  obtain ⟨name, distance⟩ := ref
  cases distance with
  | some distance =>
    have hlookup : lookup scope ⟨name, some distance⟩ span m = getAt scope distance name m := rfl
    rw [hlookup]
    cases hget : m.scopes.getAt? scope distance name with
    | some value => exact .inl ⟨value, getAt_of_some hget⟩
    | none => exact .inr (.inr ⟨_, getAt_of_none hget⟩)
  | none =>
    rw [lookup_eq_getByName]
    cases hget : m.scopes.get? globals name with
    | some value => exact .inl ⟨value, getByName_of_some hget span⟩
    | none => exact .inr (.inl ⟨rfl, rfl, getByName_of_none hget span⟩)

/-- Why a superclass is refused with an error: no global variable has its name, or its value is not
a class. -/
inductive Refused (m : Machine) (scope : ScopeId) (above : Located Ref) : Located Error → Prop
  | undefined (hglobal : above.value.distance = none)
      (hnone : m.scopes.get? globals above.value.name = none) :
      Refused m scope above ⟨.notDefined above.value.name, above.span⟩
  | notClass {value : Value ScopeId} (hvalue : lookup scope above.value above.span m = .ok value m)
      (hclass : ∀ c, value ≠ .cls c) :
      Refused m scope above ⟨.superclassInvalidType value.typeName, above.span⟩

def predefined (m : Machine) (scope : ScopeId) (name : String) : Machine :=
  { m with scopes := m.scopes.define scope name .nil }

private theorem own?_predefined (h : scope < m.scopes.next) (name : String) :
    (m.predefined scope name).scopes.own? scope name = some .nil :=
  Scopes.own?_define_self _ _ _ _ h

private theorem own?_predefined_other {id : ScopeId} {key : String}
    (h : ¬(id = scope ∧ key = name)) :
    (m.predefined scope name).scopes.own? id key = m.scopes.own? id key :=
  Scopes.own?_define_other _ _ _ _ _ _ h

def completeClass (scope : ScopeId) (name : String) (methods : List FunDecl) (span : Span) :
    Option (Located Ref) → Run (Flow ScopeId)
  | none => do
    declareClass scope scope name none methods span
    return .normal
  | some above => do
    match ← lookup scope above.value above.span with
    | .cls c =>
      let inner ← newScope scope (Bindings.empty.insert "super" (.cls c))
      declareClass scope inner name (some c) methods span
      return .normal
    | other => raise (.superclassInvalidType other.typeName) above.span

private theorem exec_classDecl (clock : Nat → Float) (n : Nat) (scope : ScopeId) (span : Span)
    (name : String) (superclass : Option (Located Ref)) (methods : List FunDecl) (m : Machine) :
    exec clock (n + 1) scope (.classDecl span name superclass methods) m =
      completeClass scope name methods span superclass (m.predefined scope name) := by
  cases superclass with
  | none => rw [exec]; rfl
  | some above => rw [exec]; rfl

/-- A declaration is completed, or its superclass is refused and nothing happens, or the machine is
broken. -/
theorem completeClass_cases (h : m.scopes.own? scope name ≠ none) (methods : List FunDecl)
    (span : Span) (superclass : Option (Located Ref)) :
    (∃ m', completeClass scope name methods span superclass m = .ok .normal m') ∨
    (∃ above e, superclass = some above ∧ Refused m scope above e ∧
      completeClass scope name methods span superclass m = .error (.raised e) m) ∨
    ∃ fault, completeClass scope name methods span superclass m = .error (.broken fault) m := by
  cases superclass with
  | none =>
    obtain ⟨m', hclass⟩ := declareClass_ok h scope none methods span
    exact .inl ⟨m', by rw [completeClass, bind_apply, hclass]; rfl⟩
  | some above =>
    rw [completeClass, bind_apply]
    rcases lookup_cases scope above.value above.span m with
      ⟨value, hvalue⟩ | ⟨hglobal, hnone, hfails⟩ | ⟨fault, hbroken⟩
    · rw [hvalue]
      cases value with
      | cls c =>
        -- The scope of the methods is a new one, in which the name of the class is not bound.
        let scopes := m.scopes.push ⟨Bindings.empty.insert "super" (.cls c), some scope⟩
        have hkept : scopes.own? scope name ≠ none := by
          have hold : scope ≠ m.scopes.next := Nat.ne_of_lt (Scopes.lt_of_own? h)
          rw [Scopes.own?_push, if_neg hold]
          exact h
        obtain ⟨m', hclass⟩ := declareClass_ok (m := { m with scopes }) hkept m.scopes.next
          (some c) methods span
        have hrest : (do
            let inner ← newScope scope (Bindings.empty.insert "super" (.cls c))
            declareClass scope inner name (some c) methods span
            return .normal : Run (Flow ScopeId)) m =
            (declareClass scope m.scopes.next name (some c) methods span >>= fun _ =>
              pure .normal) { m with scopes } := rfl
        refine .inl ⟨m', hrest.trans ?_⟩
        rw [bind_apply, hclass]
        rfl
      | _ =>
        exact .inr (.inl ⟨above, _, rfl, .notClass hvalue (fun _ hc => nomatch hc), rfl⟩)
    · rw [hfails]
      exact .inr (.inl ⟨above, _, rfl, .undefined hglobal hnone, rfl⟩)
    · rw [hbroken]
      exact .inr (.inr ⟨fault, rfl⟩)

/-- A class declaration fails with an error only if its superclass is refused, and then nothing has
happened but that its name was bound. -/
theorem exec_classDecl_raised {clock : Nat → Float} {n : Nat} {span : Span}
    {superclass : Option (Located Ref)} {methods : List FunDecl} {e : Located Error}
    (hscope : scope < m.scopes.next)
    (h : exec clock n scope (.classDecl span name superclass methods) m = .error (.raised e) m') :
    m' = m.predefined scope name ∧
      ∃ above, superclass = some above ∧ Refused (m.predefined scope name) scope above e := by
  cases n with
  | zero => rw [exec] at h; cases h
  | succ n =>
    have hbound : (m.predefined scope name).scopes.own? scope name ≠ none := by
      rw [own?_predefined hscope]
      exact Option.some_ne_none _
    rw [exec_classDecl] at h
    rcases completeClass_cases hbound methods span superclass with
      ⟨m₁, hends⟩ | ⟨above, e', hsuper, hrefused, hends⟩ | ⟨fault, hends⟩
    · rw [hends] at h
      cases h
    · rw [hends] at h
      obtain ⟨he, hm⟩ := EStateM.Result.error.inj h
      obtain rfl := Halt.raised.inj he
      exact ⟨hm.symm, above, hsuper, hrefused⟩
    · rw [hends] at h
      cases h

private theorem Moment.result_classDecl {clock : Nat → Float} {x : Moment} {span : Span}
    {superclass : Option (Located Ref)} {methods : List FunDecl} {e : Located Error}
    (htask : x.task = .exec scope (.classDecl span name superclass methods))
    (h : x.result clock = .error (.raised e) m') :
    exec clock x.fuel scope (.classDecl span name superclass methods) x.machine =
      .error (.raised e) m' := by
  rw [Moment.result, htask, Task.run, map_eq_pure_bind, bind_apply] at h
  cases hexec : exec clock x.fuel scope (.classDecl span name superclass methods) x.machine with
  | ok flow m₁ => rw [hexec] at h; cases h
  | error halt m₁ =>
    rw [hexec] at h
    obtain ⟨hhalt, hm⟩ := EStateM.Result.error.inj h
    rw [hhalt, hm]

/-- Wherever a session comes to a class declaration that ends in an error, the superclass has no
value or one that is not a class. The name of the class is then bound to `nil` in the scope of the
declaration, every other binding of every scope is what it was, and so is all else. -/
theorem failed_class_resets_its_name (clock : Nat → Float) (fuel : Nat) (room : Option Nat)
    (sources : List String) :
    ∀ x ∈ sessionMoments clock fuel sources (Machine.initial room),
      ∀ scope span name superclass methods e m',
        x.task = .exec scope (.classDecl span name superclass methods) →
        x.result clock = .error (.raised e) m' →
        (∃ above, superclass = some above ∧ Refused m' scope above e) ∧
        m'.scopes.own? scope name = some .nil ∧
        (∀ id key, ¬(id = scope ∧ key = name) →
          m'.scopes.own? id key = x.machine.scopes.own? id key) ∧
        m' = x.machine.predefined scope name := by
  have horderly := proceeds_session clock fuel sources (sound_initial room) fun _ _ _ _ => trivial
  intro x hx scope span name superclass methods e m' htask hresult
  have hready := (horderly.inside x hx).1.ready
  rw [htask] at hready
  obtain ⟨frames, -, hat⟩ := hready
  have hscope := hat.around.lt_next
  obtain ⟨rfl, hrefused⟩ := exec_classDecl_raised hscope (Moment.result_classDecl htask hresult)
  exact ⟨hrefused, own?_predefined hscope name, fun id key => own?_predefined_other, rfl⟩

def startsFailingClass (clock : Nat → Float) (x : Moment) : Bool :=
  match x.task, x.result clock with
  | .exec _ (.classDecl ..), .error (.raised _) _ => true
  | _, _ => false

/-- A local class whose superclass is a function. -/
theorem failed_class_resets_its_name_local :
    ∃ x ∈ sessionMoments (fun _ => 0) 20 ["{ fun f() {} class A < f {} }"] (Machine.initial none),
      ∃ scope span name superclass methods e m',
        x.task = .exec scope (.classDecl span name superclass methods) ∧
        x.result (fun _ => 0) = .error (.raised e) m' ∧
        m'.scopes.own? scope name = some .nil ∧ m' = x.machine.predefined scope name := by
  have hfound : (sessionMoments (fun _ => 0) 20 ["{ fun f() {} class A < f {} }"]
      (Machine.initial none)).any (startsFailingClass fun _ => 0) = true := by decide +kernel
  obtain ⟨x, hx, hcheck⟩ := List.any_eq_true.mp hfound
  unfold startsFailingClass at hcheck
  split at hcheck
  · rename_i scope span name superclass methods e m' htask hresult
    obtain ⟨-, hnil, -, hm⟩ := failed_class_resets_its_name (fun _ => 0) 20 none _ x hx scope span
      name superclass methods e m' htask hresult
    exact ⟨x, hx, scope, span, name, superclass, methods, e, m', htask, hresult, hnil, hm⟩
  · cases hcheck

def losesClass (clock : Nat → Float) (x : Moment) : Bool :=
  match x.task, x.result clock with
  | .exec scope (.classDecl _ name _ _), .error (.raised _) m' =>
    match x.machine.scopes.own? scope name, m'.scopes.own? scope name with
    | some (.cls _), some .nil => true
    | _, _ => false
  | _, _ => false

/-- A class is declared again with a superclass that does not exist: the first class is lost. -/
theorem failed_class_loses_earlier_class :
    ∃ x ∈ sessionMoments (fun _ => 0) 20 ["class A {}", "class A < B {}"] (Machine.initial none),
      ∃ scope span name superclass methods e m' c,
        x.task = .exec scope (.classDecl span name superclass methods) ∧
        x.result (fun _ => 0) = .error (.raised e) m' ∧
        x.machine.scopes.own? scope name = some (.cls c) ∧
        m'.scopes.own? scope name = some .nil := by
  have hfound : (sessionMoments (fun _ => 0) 20 ["class A {}", "class A < B {}"]
      (Machine.initial none)).any (losesClass fun _ => 0) = true := by decide +kernel
  obtain ⟨x, hx, hcheck⟩ := List.any_eq_true.mp hfound
  unfold losesClass at hcheck
  split at hcheck
  · rename_i scope span name superclass methods e m' htask hresult
    split at hcheck
    · rename_i c hbefore hafter
      exact ⟨x, hx, scope, span, name, superclass, methods, e, m', c, htask, hresult, hbefore,
        hafter⟩
    · cases hcheck
  · cases hcheck

end LoxLang.Machine
