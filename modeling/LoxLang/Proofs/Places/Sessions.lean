import LoxLang.Proofs.Places.Reading
import LoxLang.Proofs.Places.Running
import LoxLang.Proofs.Scoping.Reports

namespace LoxLang

def Span.PointsIntoAny (sources : List String) (span : Span) : Prop :=
  ∃ source ∈ sources, span.PointsInto source

namespace Machine

variable (clock : Nat → Float) (fuel : Nat)

theorem Within.withEvents {P : Span → Prop} {m : Machine} (h : m.Within P)
    (events : Array Event) : (m.withEvents events).Within P :=
  ⟨h.scopes, h.objects⟩

theorem Within.flushed {P : Span → Prop} {m : Machine} (h : m.Within P) : m.flushed.Within P :=
  ⟨h.scopes, h.objects⟩

private theorem stays_runAll {P : Span → Prop} {program : List Stmt} (h : withinBody P program) :
    Stays P (runAll clock fuel program) fun _ => True := by
  induction program with
  | nil => exact .pure trivial
  | cons first others ih =>
    obtain ⟨hfirst, hothers⟩ := h
    exact ((evaluatorStays P clock fuel).exec globals first hfirst).bind fun _ _ => ih hothers

private theorem within_execute {P : Span → Prop} {program : List Stmt} {m : Machine}
    (hprogram : withinBody P program) (hm : m.Within P) :
    (m.execute clock fuel program).1.staticErrors = [] ∧
      (∀ e ∈ (m.execute clock fuel program).1.runtimeError, P e.span) ∧
      (m.execute clock fuel program).2.Within P := by
  have hends := stays_runAll clock fuel hprogram { m with frames := 0 } { hm with }
  unfold execute
  cases hresult : runAll clock fuel program { m with frames := 0 } with
  | ok value m' =>
    rw [hresult] at hends
    exact ⟨rfl, fun e he => absurd he (Option.not_mem_none e), hends.1⟩
  | error halt m' =>
    rw [hresult] at hends
    cases halt with
    | raised error =>
      refine ⟨rfl, ?_, { hends.1 with }⟩
      rintro _ ⟨⟩
      exact hends.2
    | broken fault => exact ⟨rfl, fun e he => absurd he (Option.not_mem_none e), hends.1⟩
    | outOfFuel => exact ⟨rfl, fun e he => absurd he (Option.not_mem_none e), hends.1⟩

/-- A source ended with errors at their places, and the machine has code of some sources only. -/
structure EndsPlaced (earlier : List String) (source : String) (ends : Outcome × Machine) :
    Prop where
  static : ∀ e ∈ ends.1.staticErrors, e.span.PointsInto source
  runtime : ∀ e ∈ ends.1.runtimeError, e.span.PointsIntoAny (earlier ++ [source])
  machine : ends.2.Within (Span.PointsIntoAny (earlier ++ [source]))

private theorem EndsPlaced.ofStatic {earlier : List String} {source : String} {outcome : Outcome}
    {m : Machine} (hstatic : ∀ e ∈ outcome.staticErrors, e.span.PointsInto source)
    (hruntime : outcome.runtimeError = none) (hm : m.Within (Span.PointsIntoAny earlier)) :
    EndsPlaced earlier source (outcome, m) where
  static := hstatic
  runtime e he := absurd (hruntime ▸ he) (Option.not_mem_none e)
  machine := hm.mono fun _ ⟨origin, horigin, h⟩ => ⟨origin, List.mem_append_left _ horigin, h⟩

private theorem endsPlaced_execute {earlier : List String} {source : String} {program : List Stmt}
    {m : Machine} (hprogram : withinBody (Span.PointsInto source) program)
    (hm : m.Within (Span.PointsIntoAny earlier)) :
    EndsPlaced earlier source (m.execute clock fuel program) := by
  have hcode : withinBody (Span.PointsIntoAny (earlier ++ [source])) program :=
    withinBody_mono (fun _ h => ⟨source, List.mem_append_right _ List.mem_cons_self, h⟩) hprogram
  have hmachine : m.Within (Span.PointsIntoAny (earlier ++ [source])) :=
    hm.mono fun _ ⟨origin, horigin, h⟩ => ⟨origin, List.mem_append_left _ horigin, h⟩
  obtain ⟨hstatic, hruntime, hends⟩ := within_execute clock fuel hcode hmachine
  exact ⟨fun e he => absurd (hstatic ▸ he) List.not_mem_nil, hruntime, hends⟩

private theorem endsPlaced_step {earlier : List String} {m : Machine}
    (hm : m.Within (Span.PointsIntoAny earlier)) (source : String) :
    EndsPlaced earlier source (m.step clock fuel source) := by
  obtain ⟨hparsed, hprogram⟩ := parse_pointsInto source
  by_cases hparse : (parse source).errors = []
  · obtain ⟨herrors, hsame⟩ := resolve_reports (proper_of_parse hparse).1
    by_cases hresolve : (resolve (parse source).program).errors = []
    -- Resolution only adds distances, so what runs is at the places of what was read.
    · have hresolved : withinBody (Span.PointsInto source)
          (resolve (parse source).program).program := by
        rwa [← withinBody_noDistances, hsame, withinBody_noDistances]
      obtain ⟨events, hstep⟩ := m.step_checked clock fuel hparse hresolve
      rw [hstep]
      exact endsPlaced_execute clock fuel hresolved (hm.withEvents events)
    · have hended := globalEnded_resolve (proper_of_parse hparse).1
      have hne : (resolve (parse source).program).errors.isEmpty = false := by
        simpa using hresolve
      have hstatic : ∀ e ∈ (resolve (parse source).program).errors, e.span.PointsInto source := by
        rw [herrors]
        exact within_violations hprogram
      simp only [Machine.step, hparse, hended, hne, List.isEmpty_nil, Bool.not_true,
        Bool.not_false, Bool.false_eq_true, if_false, if_true]
      exact .ofStatic hstatic rfl (hm.withEvents _)
  · have hne : (parse source).errors.isEmpty = false := by simpa using hparse
    simp only [Machine.step, hne, Bool.not_false, if_true]
    exact .ofStatic hparsed rfl (hm.withEvents _)

private theorem within_run {earlier : List String} {m : Machine}
    (hm : m.Within (Span.PointsIntoAny earlier)) (source : String) :
    (m.run clock fuel source).2.Within (Span.PointsIntoAny (earlier ++ [source])) := by
  rw [run_eq]
  exact (endsPlaced_step clock fuel hm source).machine.flushed

/-- After a session the machine has code of its sources only. -/
theorem within_session {earlier : List String} {m : Machine}
    (hm : m.Within (Span.PointsIntoAny earlier)) (sources : List String) :
    (m.runSession clock fuel sources).2.Within (Span.PointsIntoAny (earlier ++ sources)) := by
  induction sources generalizing earlier m with
  | nil => rwa [List.append_nil]
  | cons source sources ih =>
    have h := ih (within_run clock fuel hm source)
    rw [List.append_assoc, List.singleton_append] at h
    rw [runSession_cons]
    exact h

end Machine

open Machine

/-- After any session, the errors that are found before a source runs point into that source, and
an error that ends the run points into it or into an earlier source. -/
theorem errors_point_into_sources (clock : Nat → Float) (fuel : Nat) (room : Option Nat)
    (earlier : List String) (source : String) :
    let report := (((Machine.initial room).runSession clock fuel earlier).2.run clock fuel source).1
    (∀ e ∈ report.outcome.staticErrors, e.span.PointsInto source) ∧
      ∀ e ∈ report.outcome.runtimeError, ∃ origin ∈ earlier ++ [source],
        e.span.PointsInto origin := by
  have hinitial : (Machine.initial room).Within (Span.PointsIntoAny []) := .initial room
  have hsession := within_session clock fuel hinitial earlier
  have hends := endsPlaced_step clock fuel hsession source
  rw [run_eq]
  exact ⟨hends.static, hends.runtime⟩

/-- A function of an earlier source fails at its own place, which is not in the source that is
running. -/
theorem function_fails_outside_running_source :
    ∃ e, (((Machine.initial none).runSession (fun _ => 0) 12 ["fun f() { return a; }"]).2.run
        (fun _ => 0) 12 "f();").1.outcome = .failed e ∧ ¬e.span.PointsInto "f();" := by
  refine ⟨⟨.notDefined "a", ⟨17, 18⟩⟩, by decide +kernel, fun h => ?_⟩
  exact absurd h.inside (by decide)

end LoxLang
