import LoxLang.Proofs.Concatenation.Evaluation
import LoxLang.Proofs.Concatenation.Resolution
import LoxLang.Proofs.Concatenation.Tokens
/-!
# Joined sources

A session is what its sources are when they are joined: a source that ends well and
then another one do what one source does that has the second below the first. Only
places in the source are different, and so spans do not count here.
-/
namespace LoxLang

def Outcome.withoutSpans : Outcome → Outcome
  | .failed e => .failed ⟨e.value, Relabel.noSpans.span e.span⟩
  | other => other

namespace Machine

def withoutSpans (m : Machine) : Machine :=
  { m with
    scopes := m.scopes.withoutSpans
    objects := m.objects.map (·.map Value.withoutSpans) }

variable (clock : Nat → Float) (fuel : Nat)

private theorem mirrors_runAll {earlier : ByteArray} {depth : Nat} (program : List Stmt) :
    Mirrors earlier depth (runAll clock fuel program)
      (runAll clock fuel (program.map (·.relabel .noSpans))) id := by
  induction program with
  | nil => exact .pure rfl
  | cons first others ih => exact ((mirrored clock fuel).exec globals first).bind fun _ => ih

private theorem runAll_append (p q : List Stmt) :
    runAll clock fuel (p ++ q) = runAll clock fuel p >>= fun _ => runAll clock fuel q := by
  induction p with
  | nil => rfl
  | cons first others ih =>
    rw [List.cons_append, runAll, runAll, ih, bind_assoc]

private theorem shadows_execute {earlier : ByteArray} {m m' m₁ : Machine} {program : List Stmt}
    {outcome : Outcome} (h : Shadows earlier 0 { m with frames := 0 } m')
    (hrun : m.execute clock fuel program = (outcome, m₁)) :
    ∃ m₁', m'.execute clock fuel (program.map (·.relabel .noSpans)) =
      (outcome.withoutSpans, m₁') ∧ Shadows earlier 0 m₁ m₁' := by
  have hframes : { m' with frames := 0 } = m' := by rw [← h.frames']
  have hends := mirrors_runAll clock fuel program _ _ h
  unfold execute at hrun ⊢
  rw [hframes]
  generalize runAll clock fuel program { m with frames := 0 } = left at hends hrun
  generalize runAll clock fuel (program.map (·.relabel .noSpans)) m' = right at hends
  cases hends with
  | ok hm =>
    obtain ⟨rfl, rfl⟩ := Prod.mk.inj hrun
    exact ⟨_, rfl, hm⟩
  | @error halt _ _ hm =>
    cases halt with
    | raised e =>
      obtain ⟨rfl, rfl⟩ := Prod.mk.inj hrun
      exact ⟨_, rfl, { hm with }⟩
    | broken fault =>
      obtain ⟨rfl, rfl⟩ := Prod.mk.inj hrun
      exact ⟨_, rfl, hm⟩
    | outOfFuel =>
      obtain ⟨rfl, rfl⟩ := Prod.mk.inj hrun
      exact ⟨_, rfl, hm⟩

private theorem execute_append {m m₁ : Machine} {p : List Stmt} (q : List Stmt)
    (hrun : m.execute clock fuel p = (.finished, m₁)) (hframes : m₁.frames = 0) :
    m.execute clock fuel (p ++ q) = m₁.execute clock fuel q := by
  have hself : { m₁ with frames := 0 } = m₁ := by rw [← hframes]
  unfold execute at hrun ⊢
  rw [runAll_append, bind_apply, hself]
  generalize runAll clock fuel p { m with frames := 0 } = result at hrun ⊢
  cases result with
  | ok _ m₂ =>
    obtain ⟨-, rfl⟩ := Prod.mk.inj hrun
    rfl
  | error halt m₂ => cases halt <;> exact absurd hrun (by simp)

private theorem same_of_shadows {earlier earlier' : ByteArray} {depth : Nat} {a b m : Machine}
    (ha : Shadows earlier depth a m) (hb : Shadows earlier' depth b m) :
    a.flushed.withoutSpans = b.flushed.withoutSpans ∧
      earlier ++ a.output.written = earlier' ++ b.output.written := by
  refine ⟨?_, ha.written.symm.trans hb.written⟩
  unfold flushed withoutSpans
  simp only [mk.injEq, Output.mk.injEq, true_and, and_true]
  exact ⟨ha.scopes.symm.trans hb.scopes, ha.objects.symm.trans hb.objects,
    ha.identity.symm.trans hb.identity, ha.frames.trans hb.frames.symm,
    ha.room.symm.trans hb.room, ha.readings.symm.trans hb.readings⟩

private theorem shadows_withoutSpans (m : Machine) (events : Array Event) :
    Shadows .empty 0 { m.withEvents events with frames := 0 }
      { m.withoutSpans with frames := 0 } where
  scopes := rfl
  objects := rfl
  identity := rfl
  frames := rfl
  frames' := rfl
  written := ByteArray.empty_append.symm
  room := rfl
  readings := rfl

/-- A machine after a source is, for the next one, the same as if that source had gone on. -/
theorem shadows_flushed {m m' : Machine} (h : Shadows .empty 0 m m') (events : Array Event) :
    Shadows m.output.written 0 { m.flushed.withEvents events with frames := 0 } m' :=
  { h with
    frames := rfl
    written := by
      rw [h.written, ByteArray.empty_append]
      exact ByteArray.append_empty.symm }

/-- A program that ends well and then another one do what they do as one program. Events that the
machine has from before do not matter. -/
theorem execute_join {program p q : List Stmt} {m m' m₁ m₂ : Machine}
    {events events₁ events₂ : Array Event} {outcome outcome₂ : Outcome}
    (hsame : SameUpToSpans program (p ++ q))
    (hfirst : (m.withEvents events₁).execute clock fuel p = (.finished, m₁))
    (hsecond : (m₁.flushed.withEvents events₂).execute clock fuel q = (outcome₂, m₂))
    (hjoined : (m.withEvents events).execute clock fuel program = (outcome, m')) :
    m'.output.written = m₁.output.written ++ m₂.output.written ∧
      outcome.withoutSpans = outcome₂.withoutSpans ∧
      m'.flushed.withoutSpans = m₂.flushed.withoutSpans := by
  obtain ⟨s₁, hrun₁, hshadow₁⟩ := shadows_execute clock fuel (shadows_withoutSpans m events₁) hfirst
  obtain ⟨s₂, hrun₂, hshadow₂⟩ :=
    shadows_execute clock fuel (shadows_flushed hshadow₁ events₂) hsecond
  obtain ⟨s, hrun, hshadow⟩ := shadows_execute clock fuel (shadows_withoutSpans m events) hjoined
  rw [hsame, List.map_append, execute_append clock fuel _ hrun₁ hshadow₁.frames', hrun₂] at hrun
  obtain ⟨houtcome, rfl⟩ := Prod.mk.inj hrun
  obtain ⟨hmachine, hwritten⟩ := same_of_shadows hshadow hshadow₂
  rw [ByteArray.empty_append] at hwritten
  exact ⟨hwritten, houtcome.symm, hmachine⟩

end Machine

open Machine

/-- A source that ends well and then another one do what they do as one source, the second below
the first: if both pass the check, then so does the one source; it writes the same bytes, ends
with the same error or none, and leaves the same machine. -/
theorem run_join (clock : Nat → Float) (fuel : Nat) (m : Machine) (first second : String)
    (hparse₁ : (parse first).errors = []) (hresolve₁ : (resolve (parse first).program).errors = [])
    (hparse₂ : (parse second).errors = [])
    (hresolve₂ : (resolve (parse second).program).errors = [])
    (hfinished : (m.run clock fuel first).1.outcome = .finished) :
    let source := first ++ "\n" ++ second
    let before := m.run clock fuel first
    let after := before.2.run clock fuel second
    let joined := m.run clock fuel source
    (parse source).errors = [] ∧ (resolve (parse source).program).errors = [] ∧
      joined.1.output = before.1.output ++ after.1.output ∧
      joined.1.outcome.withoutSpans = after.1.outcome.withoutSpans ∧
      joined.2.withoutSpans = after.2.withoutSpans := by
  obtain ⟨hparse, hsame⟩ := parse_join hparse₁ hparse₂
  obtain ⟨hresolve, hprogram⟩ :=
    resolve_join hsame (proper_of_parse hparse₁).1 hresolve₁ hresolve₂
  simp only [run_eq] at hfinished ⊢
  obtain ⟨events₁, hstep₁⟩ := m.step_checked clock fuel hparse₁ hresolve₁
  obtain ⟨events, hstep⟩ := m.step_checked clock fuel hparse hresolve
  cases hfirst : m.step clock fuel first with
  | mk outcome₁ m₁ =>
    rw [hfirst] at hfinished hstep₁
    obtain rfl : outcome₁ = .finished := hfinished
    obtain ⟨events₂, hstep₂⟩ := m₁.flushed.step_checked clock fuel hparse₂ hresolve₂
    exact ⟨hparse, hresolve, execute_join clock fuel hprogram hstep₁.symm hstep₂.symm hstep.symm⟩

/-- The first source ends with a branch without `else` and a comment. In the second one the output
has no more room. -/
theorem run_join_class_then_error :
    let m := Machine.initial (some 20)
    let first := "class A { m() { print this; return a; } } var a = A(); if (a) a.m(); // end"
    let second := "a.m();"
    (m.run (fun _ => 0) 40 first).1.outcome = .finished ∧
      ((m.run (fun _ => 0) 40 first).2.run (fun _ => 0) 40 second).1.outcome.withoutSpans =
        .failed ⟨.writeFailed "stdout", ⟨0, 0⟩⟩ ∧
      let source := first ++ "\n" ++ second
      let before := m.run (fun _ => 0) 40 first
      let after := before.2.run (fun _ => 0) 40 second
      let joined := m.run (fun _ => 0) 40 source
      (parse source).errors = [] ∧ (resolve (parse source).program).errors = [] ∧
        joined.1.output = before.1.output ++ after.1.output ∧
        joined.1.outcome.withoutSpans = after.1.outcome.withoutSpans ∧
        joined.2.withoutSpans = after.2.withoutSpans := by
  intro m first second
  have hfinished : (m.run (fun _ => 0) 40 first).1.outcome = .finished := by decide +kernel
  exact ⟨hfinished, by decide +kernel, run_join (fun _ => 0) 40 m first second (by decide +kernel)
    (by decide +kernel) (by decide +kernel) (by decide +kernel) hfinished⟩

end LoxLang
