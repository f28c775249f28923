import LoxLang.Proofs.Integrity.Sessions
/-!
# Where names come from

Global names come from the declarations at the top level of a program, and names
of other scopes from the declarations in their own block. No block, call, loop or
expression adds a name to a scope that was there before, except that an
initializer may assign to its own variable. Names are never lost.
-/
namespace LoxLang

namespace Bindings

variable {α : Type}

private theorem mem_names {b : Bindings α} {name : String} :
    name ∈ b.names ↔ b.get? name ≠ none := by
  obtain ⟨entries⟩ := b
  simp only [names, get?]
  induction entries with
  | nil => simp [find?]
  | cons entry rest ih =>
    obtain ⟨key, value⟩ := entry
    by_cases hkey : key = name
    · simp [find?, hkey]
    · have hne : ¬name = key := fun h => hkey h.symm
      simp only [List.map_cons, List.mem_cons, hne, false_or, ih, find?, hkey, if_false]

end Bindings

namespace Machine

def Binds (m : Machine) (id : ScopeId) (name : String) : Prop :=
  m.scopes.own? id name ≠ none

private theorem mem_globalNames {m : Machine} {name : String} :
    name ∈ m.globalNames ↔ m.Binds globals name := by
  unfold globalNames Binds Scopes.own?
  rw [(List.mergeSort_perm _ _).mem_iff]
  cases m.scopes.all[globals]? with
  | none => simp
  | some scope => exact Bindings.mem_names

variable (clock : Nat → Float) (fuel : Nat)

/-- The top-level statements that begin to run. -/
def started : List Stmt → Machine → List Stmt
  | [], _ => []
  | first :: others, m =>
    first :: match exec clock fuel globals first m with
      | .ok _ m' => started others m'
      | .error _ _ => []

/-- The top-level statements that run to their end. -/
def completed : List Stmt → Machine → List Stmt
  | [], _ => []
  | first :: others, m =>
    match exec clock fuel globals first m with
    | .ok _ m' => first :: completed others m'
    | .error _ _ => []

/-- What one top-level statement does to the global names. -/
theorem globals_exec {s : Stmt} (hs : s.Scoped []) {m : Machine} (hm : m.Sound fun _ => True) :
    Orderly clock (fun _ => True) (Context.orDeclared {} globals s.declared?.toList) m
      (exec clock fuel globals s m) (moments clock fuel {} (.exec globals s) m) fun flow m' =>
        (∀ v ∈ flow.values, v.Sound (fun _ => True) m') ∧
          ∀ name, s.declared? = some name → m'.Binds globals name :=
  (evaluatorProceeds clock _ fuel).exec hm rfl hs hm.global fun _ _ _ _ => trivial

private theorem binds_of_completed {program : List Stmt} (hprogram : scopedBody [] program)
    {m : Machine} (hm : m.Sound fun _ => True) {name : String}
    (hname : name ∈ (completed clock fuel program m).filterMap Stmt.declared?) :
    (ending (runAll clock fuel program m)).Binds globals name := by
  induction program generalizing m with
  | nil => exact absurd hname List.not_mem_nil
  | cons first others ih =>
    obtain ⟨hfirst, hothers⟩ := hprogram
    rw [framesAfter_nil] at hothers
    have hexec := globals_exec clock fuel hfirst hm
    rw [completed] at hname
    rw [runAll, bind_apply]
    cases hresult : exec clock fuel globals first m with
    | error halt m' =>
      rw [hresult] at hname
      exact absurd hname List.not_mem_nil
    | ok flow m' =>
      rw [hresult] at hname hexec
      have hm' : m'.Sound fun _ => True := hexec.sound
      rcases mem_declared_cons.mp hname with hname | hname
      · have hbound := (hexec.result flow m' rfl).2 name (Option.mem_toList.mp hname)
        have hrest := proceeds_runAll clock fuel hothers hm' fun _ _ _ _ => trivial
        exact hrest.later.names globals name hbound
      · exact ih hothers hm' hname

private theorem started_of_binds {program : List Stmt} (hprogram : scopedBody [] program)
    {m : Machine} (hm : m.Sound fun _ => True) {name : String}
    (hbound : (ending (runAll clock fuel program m)).Binds globals name) :
    m.Binds globals name ∨ name ∈ (started clock fuel program m).filterMap Stmt.declared? := by
  induction program generalizing m with
  | nil => exact .inl hbound
  | cons first others ih =>
    obtain ⟨hfirst, hothers⟩ := hprogram
    rw [framesAfter_nil] at hothers
    have hexec := globals_exec clock fuel hfirst hm
    have hroot : globals < m.scopes.next := hm.global.around.lt_next
    rw [started, mem_declared_cons]
    rw [runAll, bind_apply] at hbound
    -- What the first statement itself can have bound.
    have hown : (ending (exec clock fuel globals first m)).Binds globals name →
        m.Binds globals name ∨ name ∈ first.declared?.toList := by
      intro h
      rcases hexec.added globals hroot name h with h | ⟨-, h⟩ | h
      · exact .inl h
      · exact .inr h
      · exact nomatch h
    cases hresult : exec clock fuel globals first m with
    | error halt m' =>
      rw [hresult] at hbound hown
      exact (hown hbound).imp_right .inl
    | ok flow m' =>
      rw [hresult] at hbound hown hexec
      rcases ih hothers hexec.sound hbound with h | h
      · exact (hown h).imp_right .inl
      · exact .inr (.inr h)

private theorem globals_run (source : String) {m : Machine} (hm : m.Sound fun _ => True)
    (name : String) :
    let final := (m.run clock fuel source).2
    let program := runnable source
    (m.Binds globals name ∨
      name ∈ (completed clock fuel program (m.opened source)).filterMap Stmt.declared? →
        final.Binds globals name) ∧
      (final.Binds globals name → m.Binds globals name ∨
        name ∈ (started clock fuel program (m.opened source)).filterMap Stmt.declared?) := by
  have hopened : (m.opened source).Sound fun _ => True := hm.of_eq rfl rfl (Nat.le_refl _)
  have hscoped := scoped_runnable source
  have horderly := proceeds_advance clock fuel source hm fun _ _ _ _ => trivial
  have hkeeps : m.Binds globals name → (m.run clock fuel source).2.Binds globals name :=
    horderly.later.names globals name
  rcases step_cases clock fuel source with hstep | ⟨hnone, outcome, log, -, hstep⟩
  · have hsame : (m.run clock fuel source).2.scopes =
        (ending (runAll clock fuel (runnable source) (m.opened source))).scopes := by
      obtain ⟨events, hends⟩ :=
        conclude_machine (runAll clock fuel (runnable source) (m.opened source))
      simp only [run_eq, hstep, hends, flushed, withEvents]
    refine ⟨fun h => h.elim hkeeps fun h => ?_, fun h => ?_⟩
    · unfold Binds
      rw [hsame]
      exact binds_of_completed clock fuel hscoped hopened h
    · unfold Binds at h
      rw [hsame] at h
      exact started_of_binds clock fuel hscoped hopened h
  · have hsame : (m.run clock fuel source).2.scopes = m.scopes := by
      rw [run_eq, hstep]
      rfl
    refine ⟨fun h => h.elim hkeeps fun h => ?_, fun h => ?_⟩
    · rw [hnone] at h
      exact absurd h List.not_mem_nil
    · unfold Binds at h
      rw [hsame] at h
      exact .inl h

end Machine

open Machine

/-- In the course of every source of a session, names never disappear from a scope. What a task adds
to scopes that were there before it are the names that it declares as a statement of that scope, or
the variable in whose initializer it stands. So the global names after a source are those from
before, those of the top-level declarations that were completed, and possibly those of the
declarations that were started. -/
theorem names_come_from_declarations (clock : Nat → Float) (fuel : Nat) (room : Option Nat)
    (earlier : List String) (source : String) :
    (∀ x ∈ sourceMoments clock fuel source ((Machine.initial room).runSession clock fuel earlier).2,
      ∀ id < x.machine.scopes.next, ∀ name,
        (x.machine.Binds id name → (x.ending clock).Binds id name) ∧
        ((x.ending clock).Binds id name → x.machine.Binds id name ∨ x.task.Declares id name ∨
          x.task.IsExpression ∧ x.initializing = some (id, name))) ∧
      let m := ((Machine.initial room).runSession clock fuel earlier).2
      let final := (m.run clock fuel source).2
      (sourceMoments clock fuel source m).Pairwise (fun x y =>
        ∀ id name, x.machine.Binds id name → y.machine.Binds id name) ∧
      (∀ id name, m.Binds id name → final.Binds id name) ∧
      (∀ name, name ∈ m.globalNames ∨ name ∈ (completed clock fuel (runnable source)
        (m.opened source)).filterMap Stmt.declared? → name ∈ final.globalNames) ∧
      ∀ name ∈ final.globalNames, name ∈ m.globalNames ∨ name ∈ (started clock fuel
        (runnable source) (m.opened source)).filterMap Stmt.declared? := by
  have hm := sound_session clock fuel room earlier
  have horderly := proceeds_advance clock fuel source hm fun _ _ _ _ => trivial
  refine ⟨fun x hx id hid name => ?_, ?_, ?_, fun name => ?_, fun name => ?_⟩
  · obtain ⟨hsound, -, -⟩ := horderly.inside x hx
    refine ⟨hsound.later.names id name, fun hbound => ?_⟩
    rcases hsound.added id hid name hbound with h | h | h
    · exact .inl h
    · exact .inr (.inl h)
    · have hsome : x.initializing ≠ none := by
        rw [h]
        exact Option.some_ne_none _
      exact .inr (.inr ⟨hsound.context.resolve_left hsome, h⟩)
  · exact horderly.ordered.imp fun hlater => hlater.names
  · exact horderly.later.names
  · simp only [mem_globalNames]
    exact (globals_run clock fuel source hm name).1
  · simp only [mem_globalNames]
    exact (globals_run clock fuel source hm name).2

end LoxLang
