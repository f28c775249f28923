import LoxLang.Proofs.Lexical.Simulation
import LoxLang.Proofs.Scoping.Resolves

namespace LoxLang.Lexical
open World

variable (clock : Nat → Float) (fuel : Nat)

theorem at_globals {w : World} (h : Machine.globals < w.scopes.next) :
    w.At [] Machine.globals .global :=
  ⟨.global, fun frame hframe => absurd hframe (by simp), h⟩

private theorem agree_runAll {w : World} {program : List Stmt} (hprogram : scopedBody [] program)
    (hroot : Machine.globals < w.scopes.next) :
    Agree 0 w (Machine.runAll clock fuel program)
      (runAll clock fuel (program.map (·.relabel .noDistances))) (fun _ _ _ => True) := by
  induction program generalizing w with
  | nil => exact .pure trivial
  | cons first others ih =>
    have hothers : scopedBody [] others := framesAfter_nil first ▸ hprogram.2
    apply ((simulates clock fuel).exec (at_globals hroot) hprogram.1 (Nat.zero_le _)).bind
    intro w₁ _ _ hw _
    exact ih hothers (Nat.lt_of_lt_of_le hroot hw.next)

/-- Two runs have ended alike, and the machine is not broken. -/
structure EndAlike (r : Outcome × Machine) (r' : Outcome × State) : Prop where
  outcome : r.1 = r'.1
  sound : ∀ fault, r.1 ≠ .broken fault
  related : ∃ w, Rel w r.2 r'.2

private theorem endAlike_execute {w : World} {m : Machine} {s : State} {program : List Stmt}
    (hrel : Rel w m s) (hprogram : scopedBody [] program) :
    EndAlike (m.execute clock fuel program)
      (execute clock fuel (program.map (·.relabel .noDistances)) s) := by
  have hstart : Rel w { m with frames := 0 } { s with frames := 0 } := { hrel with frames := rfl }
  have hends := agree_runAll clock fuel hprogram hrel.rootLt _ _ hstart (Nat.zero_le _)
  unfold Machine.execute execute
  generalize Machine.runAll clock fuel program { m with frames := 0 } = left at hends
  generalize runAll clock fuel _ { s with frames := 0 } = right at hends
  cases hends with
  | @ok w' _ _ m' s' _ hrel' _ => exact ⟨rfl, fun _ h => Outcome.noConfusion h, w', hrel'⟩
  | @error w' halt m' s' _ hrel' hhalt =>
    cases halt with
    | raised e => exact ⟨rfl, fun _ h => Outcome.noConfusion h, w', hrel'.withEvents _⟩
    | broken fault => exact absurd rfl (hhalt fault)
    | outOfFuel => exact ⟨rfl, fun _ h => Outcome.noConfusion h, w', hrel'⟩

/-- A source that passes the check does what its text says without distances. -/
theorem endAlike_checked {w : World} {m : Machine} {s : State} {source : String}
    (hrel : Rel w m s) (hparse : (parse source).errors = [])
    (hresolve : (resolve (parse source).program).errors = []) :
    EndAlike (m.execute clock fuel (resolve (parse source).program).program)
      (execute clock fuel (parse source).program s) := by
  obtain ⟨hproper, hbare⟩ := proper_of_parse hparse
  obtain ⟨hscoped, hsame⟩ := scoped_of_resolve hproper hresolve
  have hends := endAlike_execute clock fuel hrel hscoped
  rw [hsame, hbare] at hends
  exact hends

private theorem endAlike_step {w : World} {m : Machine} {s : State} (hrel : Rel w m s)
    (source : String) :
    EndAlike (m.step clock fuel source) (step clock fuel source s) := by
  by_cases hparse : (parse source).errors = []
  · by_cases hresolve : (resolve (parse source).program).errors = []
    · obtain ⟨events, hstep⟩ := m.step_checked clock fuel hparse hresolve
      have hright : step clock fuel source s = execute clock fuel (parse source).program s := by
        simp [step, hparse, hresolve]
      rw [hstep, hright]
      exact endAlike_checked clock fuel (hrel.withEvents _) hparse hresolve
    · have hended := globalEnded_resolve (proper_of_parse hparse).1
      have hne : (resolve (parse source).program).errors.isEmpty = false := by
        simpa using hresolve
      simp only [Machine.step, step, hparse, hended, hne, List.isEmpty_nil, Bool.not_true,
        Bool.not_false, Bool.false_eq_true, if_false, if_true]
      exact ⟨rfl, fun _ h => Outcome.noConfusion h, w, hrel.withEvents _⟩
  · have hne : (parse source).errors.isEmpty = false := by simpa using hparse
    simp only [Machine.step, step, hne, Bool.not_false, if_true]
    exact ⟨rfl, fun _ h => Outcome.noConfusion h, w, hrel.withEvents _⟩

theorem rel_initial (room : Option Nat) :
    Rel ⟨[], (Machine.initial room).scopes⟩ (Machine.initial room) (initial room) where
  scopes := rfl
  root := rfl
  rootLt := Nat.zero_lt_one
  size := rfl
  nodup := .nil
  inner _ _ h := absurd h (by simp)
  slot _ _ _ h := absurd h (by simp)
  only id name hid h := absurd (Scopes.lt_of_own? h) (Nat.not_lt.mpr hid)
  globals name := by
    have hleft : (Machine.initial room).scopes.own? Machine.globals name =
        (Bindings.empty.insert "clock" (.native .clock)).get? name := rfl
    have hright : (initial room).globals.get? name =
        (Bindings.empty.insert "clock" (.native .clock)).get? name := rfl
    rw [hleft, hright, Bindings.get?_insert, Bindings.get?_insert]
    by_cases h : name = "clock"
    · rw [if_pos h, if_pos h]
      exact .some .native
    · rw [if_neg h, if_neg h]
      exact .none
  objects := rfl
  fields cell name := by
    simp [Machine.initial, initial]
  identity := rfl
  frames := rfl
  output := rfl
  readings := rfl

private theorem rel_flush {w : World} {m : Machine} {s : State} (h : Rel w m s) :
    Rel w m.flushed s.flushed :=
  { h with output := by rw [State.flushed, Machine.flushed, h.output] }

/-- A source that runs leads from related states to related states. -/
theorem rel_run {w : World} {m : Machine} {s : State} (hrel : Rel w m s) (source : String) :
    ∃ w', Rel w' (m.run clock fuel source).2 (step clock fuel source s).2.flushed := by
  obtain ⟨w', hrel'⟩ := (endAlike_step clock fuel hrel source).related
  rw [Machine.run_eq]
  exact ⟨w', rel_flush hrel'⟩

private theorem rel_session {w : World} {m : Machine} {s : State} (hrel : Rel w m s)
    (sources : List String) :
    ∃ w', Rel w' (m.runSession clock fuel sources).2 (session clock fuel sources s) := by
  induction sources generalizing w m s with
  | nil => exact ⟨w, hrel⟩
  | cons source sources ih =>
    obtain ⟨w', hrel'⟩ := rel_run clock fuel hrel source
    rw [Machine.runSession_cons, session]
    exact ih hrel'

theorem sound_session {w : World} {m : Machine} {s : State} (hrel : Rel w m s)
    (sources : List String) (report : Report) (hreport : report ∈ (m.runSession clock fuel sources).1)
    (fault : Fault) : report.outcome ≠ .broken fault := by
  induction sources generalizing w m s with
  | nil => exact absurd hreport (by simp [Machine.runSession])
  | cons source sources ih =>
    rw [Machine.runSession_cons] at hreport
    rcases List.mem_cons.mp hreport with rfl | hlater
    · rw [Machine.run_eq]
      exact (endAlike_step clock fuel hrel source).sound fault
    · obtain ⟨w', hrel'⟩ := rel_run clock fuel hrel source
      exact ih hrel' hlater

/-- In no session of sources does the machine contradict what resolution promised. -/
theorem session_never_broken (room : Option Nat) (sources : List String) :
    ∀ report ∈ ((Machine.initial room).runSession clock fuel sources).1,
      ∀ fault, report.outcome ≠ .broken fault :=
  fun report hreport fault => sound_session clock fuel (rel_initial room) sources report hreport fault

/-- A source calls methods of classes of an earlier one, after one that was rejected. -/
theorem session_with_classes_never_broken :
    ¬∃ fault, (((Machine.initial none).runSession (fun _ => 0) 100
      ["class A { m() { return this; } } class B < A { init(x) { this.x = x; } n() { super.m(); } }",
        "{ var a = a; }", "B(clock).n().x();"]).1.getLast (by simp [Machine.runSession_cons])).outcome =
      .broken fault := by
  intro h
  obtain ⟨fault, hfault⟩ := h
  exact session_never_broken _ _ none _ _ (List.getLast_mem _) fault hfault

/-- After any session, a source that passes the check writes the same bytes as under lexical
scoping, ends in the same way and leaves the same globals, objects and local variables. -/
theorem run_agrees_with_lexical_scoping (room : Option Nat) (earlier : List String)
    (source : String) (hparse : (parse source).errors = [])
    (hresolve : (resolve (parse source).program).errors = []) :
    let result := ((Machine.initial room).runSession clock fuel earlier).2.run clock fuel source
    let expected := execute clock fuel (parse source).program
      (session clock fuel earlier (initial room))
    result.1.outcome = expected.1 ∧ result.1.output = expected.2.output.written ∧
      ∃ w, Rel w result.2 expected.2.flushed := by
  obtain ⟨w, hrel⟩ := rel_session clock fuel (rel_initial room) earlier
  generalize ((Machine.initial room).runSession clock fuel earlier).2 = m at hrel ⊢
  obtain ⟨events, hstep⟩ := m.step_checked clock fuel hparse hresolve
  have hends := endAlike_checked clock fuel (hrel.withEvents events) hparse hresolve
  rw [← Machine.withEvents, ← hstep] at hends
  obtain ⟨w', hrel'⟩ := hends.related
  rw [Machine.run_eq]
  exact ⟨hends.outcome, congrArg (·.written) hrel'.output, w', rel_flush hrel'⟩

/-- A closure keeps to the variable that it saw when it was made. -/
theorem closure_agrees_with_lexical_scoping :
    let source := "{ fun f() { return a; } f(); var a = nil; fun g() { a = f; return this_; } g(); }"
    (parse source).errors = [] ∧ (resolve (parse source).program).errors = [] ∧
      let result := ((Machine.initial none).runSession (fun _ => 0) 100
        ["var a = clock;"]).2.run (fun _ => 0) 100 source
      let expected := execute (fun _ => 0) 100 (parse source).program
        (session (fun _ => 0) 100 ["var a = clock;"] (initial none))
      result.1.outcome = expected.1 ∧ result.1.output = expected.2.output.written ∧
        ∃ w, Rel w result.2 expected.2.flushed := by
  intro source
  have hparse : (parse source).errors = [] := by decide +kernel
  have hresolve : (resolve (parse source).program).errors = [] := by decide +kernel
  exact ⟨hparse, hresolve,
    run_agrees_with_lexical_scoping _ _ none ["var a = clock;"] source hparse hresolve⟩

end LoxLang.Lexical
