import LoxLang.Proofs.Course.Laws
/-!
# The count of calls

The machine counts the calls that are running. The count is right at every moment
of every run, it is never above its limit, and however a task ends it leaves the
count as it found it. A stack overflow is reported if and only if one more call is
about to begin while the count is at its limit.
-/
namespace LoxLang

namespace Machine

variable {α β : Type} {clock : Nat → Float}

/-- The task of a moment is a call expression whose callee and arguments have values. -/
def Moment.AttemptsCall (clock : Nat → Float) (x : Moment) (span : Span) : Prop :=
  ∃ n scope callee args f m values m', x.fuel = n + 1 ∧
    x.task = .eval scope (.call span callee args) ∧
    eval clock n scope callee x.machine = .ok f m ∧ evalAll clock n scope args m = .ok values m'

/-- A step ends with a stack overflow at a place. -/
def Overflows (result : EStateM.Result Halt Machine α) (span : Span) : Prop :=
  ∃ m, result = .error (.raised ⟨.stackOverflow, span⟩) m

/-- The count of calls is right at all moments of a step and the same at its end, and the step ends
with a stack overflow if and only if a call is attempted at the limit. -/
structure Counted (clock : Nat → Float) (p : Run α) (m : Machine) (moments : List Moment) :
    Prop where
  frames : (ending (p m)).frames = m.frames
  running : ∀ x ∈ moments, x.machine.frames = x.running.length ∧
    (x.ending clock).frames = x.machine.frames
  bounded : m.frames ≤ maxFrames → ∀ x ∈ moments, x.machine.frames ≤ maxFrames
  overflow : ∀ span, Overflows (p m) span ↔
    ∃ x ∈ moments, x.AttemptsCall clock span ∧ maxFrames ≤ x.running.length

private theorem not_overflows_ok (a : α) (m : Machine) (span : Span) :
    ¬Overflows (.ok a m) span := by
  rintro ⟨_, h⟩
  exact nomatch h

namespace Counted

variable {p : Run α} {f : α → Run β} {m : Machine}

theorem plain (h : Plain p) (m : Machine) : Counted clock p m [] where
  frames := (h.ending_eq m).1
  running _ hx := absurd hx List.not_mem_nil
  bounded _ _ hx := absurd hx List.not_mem_nil
  overflow span := by
    simp only [List.not_mem_nil, false_and, exists_false, iff_false]
    rintro ⟨m', hm'⟩
    exact h.errors m m' _ hm' trivial

theorem bind {front : List Moment} {next : α → Machine → List Moment}
    (hp : Counted clock p m front)
    (hf : ∀ a m', p m = .ok a m' → m'.frames = m.frames → Counted clock (f a) m' (next a m')) :
    Counted clock (p >>= f) m (front ++ after (p m) next) := by
  have hframes := hp.frames
  have hoverflow := hp.overflow
  cases hresult : p m with
  | error halt m' =>
    have hbind : (p >>= f) m = .error halt m' := by rw [bind_apply, hresult]
    have hsame : ∀ span, Overflows ((p >>= f) m) span ↔ Overflows (p m) span := by
      intro span
      simp only [hbind, hresult, Overflows, EStateM.Result.error.injEq]
    rw [after, List.append_nil]
    rw [hresult] at hframes
    refine ⟨?_, hp.running, hp.bounded, fun span => (hsame span).trans (hoverflow span)⟩
    rw [hbind]
    exact hframes
  | ok a m' =>
    rw [hresult] at hframes hoverflow
    have hrest := hf a m' hresult hframes
    have hbind : (p >>= f) m = f a m' := by rw [bind_apply, hresult]
    have hnone : ∀ span, ¬∃ x ∈ front, x.AttemptsCall clock span ∧ maxFrames ≤ x.running.length :=
      fun span h => not_overflows_ok a m' span ((hoverflow span).mpr h)
    refine ⟨?_, ?_, ?_, fun span => ?_⟩
    · rw [hbind]
      exact hrest.frames.trans hframes
    · exact List.forall_mem_append.mpr ⟨hp.running, hrest.running⟩
    · intro hm
      have hm' : m'.frames ≤ maxFrames := Nat.le_trans (Nat.le_of_eq hframes) hm
      exact List.forall_mem_append.mpr ⟨hp.bounded hm, hrest.bounded hm'⟩
    · rw [hbind, hrest.overflow span]
      simp only [List.mem_append, or_and_right, exists_or, hnone span, false_or, after]

theorem andThen {front : List Moment} (hp : Counted clock p m front)
    (hf : ∀ a m', Counted clock (f a) m' []) : Counted clock (p >>= f) m front := by
  have hbind : Counted clock (p >>= f) m (front ++ after (p m) fun _ _ => []) :=
    hp.bind fun a m' _ _ => hf a m'
  rwa [after_nil, List.append_nil] at hbind

/-- The start of a task that does not attempt a call at the limit. -/
theorem enter {rest : List Moment} (hp : Counted clock p m rest) {n : Nat} {ctx : Context}
    {task : Task} (hframes : m.frames = ctx.running.length) (values : α → List (Value ScopeId))
    (hrun : task.run clock n = values <$> p)
    (hcall : ∀ span, ¬(Moment.AttemptsCall clock ⟨ctx, n, task, m⟩ span ∧
      maxFrames ≤ ctx.running.length)) :
    Counted clock p m (⟨ctx, n, task, m⟩ :: rest) := by
  have hending : Moment.ending clock ⟨ctx, n, task, m⟩ = ending (p m) := by
    simp only [Moment.ending, Moment.result, hrun, ending_map]
  refine ⟨hp.frames, ?_, ?_, fun span => ?_⟩
  · refine List.forall_mem_cons.mpr ⟨⟨hframes, ?_⟩, hp.running⟩
    rw [hending]
    exact hp.frames
  · intro hm
    exact List.forall_mem_cons.mpr ⟨hm, hp.bounded hm⟩
  · rw [hp.overflow span]
    simp only [List.mem_cons, or_and_right, exists_or, exists_eq_left, hcall span, false_or]

theorem inFrame {body : List Moment} (span : Span) (hm : ¬m.frames ≥ maxFrames)
    (hp : Counted clock p { m with frames := m.frames + 1 } body) :
    Counted clock (inFrame span p) m body := by
  have hbody := hp.frames
  have hoverflow := hp.overflow
  have hbounded := hp.bounded (Nat.lt_of_not_le hm)
  refine ⟨?_, hp.running, fun _ => hbounded, fun span' => ?_⟩
  · unfold Machine.inFrame
    rw [if_neg hm]
    cases hresult : p { m with frames := m.frames + 1 } with
    | ok a m' =>
      rw [hresult] at hbody
      exact congrArg (· - 1) hbody
    | error halt m' =>
      rw [hresult] at hbody
      exact congrArg (· - 1) hbody
  · rw [← hoverflow span']
    unfold Machine.inFrame
    rw [if_neg hm]
    cases p { m with frames := m.frames + 1 } with
    | ok a m' => simp [Overflows]
    | error halt m' => simp [Overflows]

end Counted

def counting (clock : Nat → Float) : Judgement := fun _ ctx p m moments =>
  m.frames = ctx.running.length → Counted clock p m moments

private theorem counted_fullCall {n : Nat} (ih : Obeys clock (counting clock) n) {ctx : Context}
    {scope : ScopeId} {span : Span} {callee : Expr} {args : List Expr} {m m₁ m₂ : Machine}
    {f : Value ScopeId} {values : List (Value ScopeId)} (hm : m.frames = ctx.running.length)
    (hf : eval clock n scope callee m = .ok f m₁)
    (hvalues : evalAll clock n scope args m₁ = .ok values m₂) (hfull : m₂.frames ≥ maxFrames) :
    Counted clock (eval clock (n + 1) scope (.call span callee args)) m
      (moments clock (n + 1) ctx (.eval scope (.call span callee args)) m) := by
  have hcallee := ih.eval ctx scope callee m hm
  have hm₁ : m₁.frames = m.frames := by simpa [hf, ending] using hcallee.frames
  have hargs := ih.evalAll ctx scope args m₁ (hm₁.trans hm)
  have hm₂ : m₂.frames = m₁.frames := by simpa [hvalues, ending] using hargs.frames
  have hresult : eval clock (n + 1) scope (.call span callee args) m =
      .error (.raised ⟨.stackOverflow, span⟩) m₂ := by
    rw [eval, bind_apply, hf]
    simp only [bind_apply, hvalues, inFrame, if_pos hfull]
  have hlist : moments clock (n + 1) ctx (.eval scope (.call span callee args)) m =
      ⟨ctx, n + 1, .eval scope (.call span callee args), m⟩ ::
        (moments clock n ctx (.eval scope callee) m ++
          moments clock n ctx (.evalAll scope args) m₁) := by
    simp [moments, inside, insideExpr, after, hf, hvalues, hfull]
  -- Neither the callee nor the arguments overflow, because they have values.
  have hfront : ∀ span', ¬∃ x ∈ moments clock n ctx (.eval scope callee) m ++
      moments clock n ctx (.evalAll scope args) m₁,
      x.AttemptsCall clock span' ∧ maxFrames ≤ x.running.length := by
    rintro span' ⟨x, hx, hattempt⟩
    rcases List.mem_append.mp hx with hx | hx
    · have h := (hcallee.overflow span').mpr ⟨x, hx, hattempt⟩
      rw [hf] at h
      exact not_overflows_ok _ _ _ h
    · have h := (hargs.overflow span').mpr ⟨x, hx, hattempt⟩
      rw [hvalues] at h
      exact not_overflows_ok _ _ _ h
  rw [hlist]
  refine ⟨?_, ?_, ?_, fun span' => ?_⟩
  · rw [hresult]
    exact hm₂.trans hm₁
  · refine List.forall_mem_cons.mpr ⟨⟨hm, ?_⟩,
      List.forall_mem_append.mpr ⟨hcallee.running, hargs.running⟩⟩
    simp only [Moment.ending, Moment.result, Task.run, ending_map, hresult]
    exact hm₂.trans hm₁
  · intro hbound
    exact List.forall_mem_cons.mpr ⟨hbound, List.forall_mem_append.mpr
      ⟨hcallee.bounded hbound, hargs.bounded (Nat.le_trans (Nat.le_of_eq hm₁) hbound)⟩⟩
  · simp only [List.mem_cons, or_and_right, exists_or, exists_eq_left, hfront span', or_false]
    constructor
    · rintro ⟨m', hm'⟩
      rw [hresult] at hm'
      obtain rfl : span = span' :=
        (Located.mk.inj (Halt.raised.inj (EStateM.Result.error.inj hm').1)).2
      refine ⟨⟨n, scope, callee, args, f, m₁, values, m₂, rfl, rfl, hf, hvalues⟩, ?_⟩
      rw [← hm, ← hm₁, ← hm₂]
      exact hfull
    · rintro ⟨⟨n', scope', callee', args', f', m', values', m'', -, htask, -⟩, -⟩
      obtain ⟨-, hcall⟩ := Task.eval.inj htask
      obtain ⟨rfl, -⟩ := Expr.call.inj hcall
      exact ⟨m₂, hresult⟩

/-- A call expression. The call begins only if the count allows it. -/
theorem counting_call {n : Nat} (ih : Obeys clock (counting clock) n) (ctx : Context)
    (scope : ScopeId) (span : Span) (callee : Expr) (args : List Expr) (m : Machine)
    (hm : m.frames = ctx.running.length) :
    Counted clock (eval clock (n + 1) scope (.call span callee args)) m
      (moments clock (n + 1) ctx (.eval scope (.call span callee args)) m) := by
  by_cases hlimit : ∃ f m₁ values m₂, eval clock n scope callee m = .ok f m₁ ∧
      evalAll clock n scope args m₁ = .ok values m₂ ∧ m₂.frames ≥ maxFrames
  · obtain ⟨f, m₁, values, m₂, hf, hvalues, hfull⟩ := hlimit
    exact counted_fullCall ih hm hf hvalues hfull
  · have hbody : Counted clock (eval clock (n + 1) scope (.call span callee args)) m
        (inside clock (moments clock n) n ctx (.eval scope (.call span callee args)) m) := by
      rw [eval, inside, insideExpr]
      refine (ih.eval ctx scope callee m hm).bind fun f m₁ hf hm₁ => ?_
      refine (ih.evalAll ctx scope args m₁ (hm₁.trans hm)).bind fun values m₂ hvalues hm₂ => ?_
      have hroom : ¬m₂.frames ≥ maxFrames := fun h => hlimit ⟨f, m₁, values, m₂, hf, hvalues, h⟩
      have hinner : m₂.frames + 1 = (ctx.inCall span).running.length :=
        congrArg (· + 1) ((hm₂.trans hm₁).trans hm)
      rw [if_neg hroom]
      exact (ih.call (ctx.inCall span) f values span _ hinner).inFrame span hroom
    refine hbody.enter hm ([·]) rfl ?_
    rintro span' ⟨⟨n', scope', callee', args', f, m₁, values, m₂, hfuel, htask, hf, hvalues⟩, hfull⟩
    obtain rfl : n = n' := Nat.succ.inj hfuel
    obtain ⟨rfl, hcall⟩ := Task.eval.inj htask
    obtain ⟨-, rfl, rfl⟩ := Expr.call.inj hcall
    have hm₁ : m₁.frames = m.frames := by
      simpa [hf, ending] using (ih.eval ctx scope callee m hm).frames
    have hm₂ : m₂.frames = m₁.frames := by
      simpa [hvalues, ending] using (ih.evalAll ctx scope args m₁ (hm₁.trans hm)).frames
    refine hlimit ⟨f, m₁, values, m₂, hf, hvalues, ?_⟩
    rw [hm₂, hm₁, hm]
    exact hfull

/-- Writing may fail, but a failure to write is no stack overflow. -/
theorem counted_writeLine (text : String) (span : Span) (m : Machine) :
    Counted clock (writeLine text span) m [] := by
  have hwrite : writeLine text span m =
      (unless (m.output.write (text ++ "\n").toUTF8).2 do
        raise (.writeFailed "stdout") span : Run Unit)
        { m with output := (m.output.write (text ++ "\n").toUTF8).1 } := rfl
  refine ⟨?_, fun _ hx => absurd hx List.not_mem_nil, fun _ _ hx => absurd hx List.not_mem_nil,
    fun span' => ?_⟩
  · rw [hwrite]
    cases (m.output.write (text ++ "\n").toUTF8).2 <;> rfl
  · simp only [List.not_mem_nil, false_and, exists_false, iff_false]
    rintro ⟨m', hm'⟩
    rw [hwrite] at hm'
    cases hok : (m.output.write (text ++ "\n").toUTF8).2 with
    | true =>
      rw [hok] at hm'
      exact nomatch hm'
    | false =>
      rw [hok] at hm'
      have herror := Halt.raised.inj (EStateM.Result.error.inj hm').1
      exact nomatch congrArg Located.value herror

private theorem counting_print {n : Nat} (ih : Obeys clock (counting clock) n) (ctx : Context)
    (scope : ScopeId) (span : Span) (value : Expr) (m : Machine)
    (hm : m.frames = ctx.running.length) :
    Counted clock (exec clock (n + 1) scope (.print span value)) m
      (moments clock (n + 1) ctx (.exec scope (.print span value)) m) := by
  have hemit : Counted clock (emit (.printing value)) m [] := .plain (plain_emit _) m
  have hbody : Counted clock (exec clock (n + 1) scope (.print span value)) m
      (inside clock (moments clock n) n ctx (.exec scope (.print span value)) m) := by
    rw [exec, inside, insideStmt, ← List.nil_append (after _ _)]
    refine hemit.bind fun _ m₁ _ hm₁ => ?_
    refine (ih.eval ctx scope value m₁ (hm₁.trans hm)).andThen fun result m₂ => ?_
    exact (counted_writeLine result.display span m₂).andThen fun _ m₃ => .plain (.pure _) m₃
  refine hbody.enter hm Flow.values rfl ?_
  rintro span' ⟨⟨n', scope', callee, args, f, m₁, values, m₂, -, htask, -⟩, -⟩
  cases htask

private theorem law_counting (clock : Nat → Float) : Law clock (counting clock) where
  plain hp _ := .plain hp _
  bind hp hf hm := (hp hm).bind fun a m' hresult hframes => hf a m' hresult (hframes.trans hm)
  enter values hrun hordinary hp hm := by
    refine (hp hm).enter hm values hrun ?_
    rintro span ⟨⟨n, scope, callee, args, f, m, values, m', hfuel, htask, -⟩, -⟩
    rcases hordinary with rfl | hordinary
    · exact nomatch hfuel
    · simp only at htask
      subst htask
      exact hordinary
  pending target hp hm := hp hm
  callExpr ih ctx scope span callee args m := counting_call ih ctx scope span callee args m
  printStmt ih ctx scope span value m := counting_print ih ctx scope span value m

/-- However a task ends, the count is what it was. -/
theorem frames_run (clock : Nat → Float) (n : Nat) (task : Task) (m : Machine) :
    (ending (task.run clock n m)).frames = m.frames := by
  -- The law asks for the places of the calls that are running; any places do.
  let ctx : Context := { running := List.replicate m.frames default }
  have hm : m.frames = ctx.running.length := List.length_replicate.symm
  have hobeys := (law_counting clock).obeys n
  cases task with
  | eval scope e => simpa [Task.run] using (hobeys.eval ctx scope e m hm).frames
  | evalAll scope es => exact (hobeys.evalAll ctx scope es m hm).frames
  | call f args span => simpa [Task.run] using (hobeys.call ctx f args span m hm).frames
  | invoke f args => simpa [Task.run] using (hobeys.invoke ctx f args m hm).frames
  | execAll scope body => simpa [Task.run] using (hobeys.execAll ctx scope body m hm).frames
  | exec scope s => simpa [Task.run] using (hobeys.exec ctx scope s m hm).frames
  | execLoop scope e s => simpa [Task.run] using (hobeys.execLoop ctx scope e s m hm).frames

/-! ## Sources and sessions -/

variable (clock : Nat → Float) (fuel : Nat)

private theorem counted_source (source : String) (m : Machine) :
    Counted clock (runAll clock fuel (runnable source)) (m.opened source)
      (sourceMoments clock fuel source m) :=
  (law_counting clock).obeys_program fuel (runnable source) (m.opened source) rfl

theorem frames_step (source : String) {m : Machine} (hm : m.frames = 0) :
    (m.step clock fuel source).2.frames = 0 := by
  rcases step_cases clock fuel source with hstep | ⟨-, outcome, log, -, hstep⟩
  · obtain ⟨events, hends⟩ :=
      conclude_machine (runAll clock fuel (runnable source) (m.opened source))
    rw [hstep, hends, withEvents_frames, (counted_source clock fuel source m).frames]
    rfl
  · rw [hstep, withEvents_frames, hm]

theorem frames_session (sources : List String) {m : Machine} (hm : m.frames = 0) :
    (m.runSession clock fuel sources).2.frames = 0 := by
  induction sources generalizing m with
  | nil => exact hm
  | cons source sources ih =>
    rw [runSession_cons]
    refine ih ?_
    rw [run_machine, flushed_frames, frames_step clock fuel source hm]

/-- A source fails with a stack overflow if and only if it attempts one call too many. -/
theorem step_overflows_iff (source : String) (m : Machine) (span : Span) :
    (m.step clock fuel source).1.runtimeError = some ⟨.stackOverflow, span⟩ ↔
      ∃ x ∈ sourceMoments clock fuel source m,
        x.AttemptsCall clock span ∧ maxFrames ≤ x.running.length := by
  rcases step_cases clock fuel source with hstep | ⟨hnone, outcome, log, hruns, hstep⟩
  · rw [hstep, conclude_runtimeError]
    exact (counted_source clock fuel source m).overflow span
  · simp [hstep, hruns, sourceMoments, hnone, programMoments]

end Machine

open Machine

/-- However a task ends, the count of calls is what it was at the start, so no call that ends takes
it below zero. In the course of every source of a session, the count is the number of calls that are
running, at most the limit, and a stack overflow is reported exactly if one more call is attempted
at the limit. Before and after every source the count is zero. -/
theorem call_depth_exact (clock : Nat → Float) (fuel : Nat) (room : Option Nat)
    (earlier : List String) (source : String) :
    (∀ n task m, (ending (Task.run clock n task m)).frames = m.frames) ∧
      (∀ n callee args span (m : Machine),
        0 < (ending (call clock n callee args span { m with frames := m.frames + 1 })).frames) ∧
      let m := ((Machine.initial room).runSession clock fuel earlier).2
      let course := sourceMoments clock fuel source m
      (∀ x ∈ course, x.machine.frames = x.running.length ∧ x.running.length ≤ maxFrames ∧
        (x.ending clock).frames = x.running.length) ∧
      (∀ span, (m.run clock fuel source).1.outcome.runtimeError = some ⟨.stackOverflow, span⟩ ↔
        ∃ x ∈ course, x.AttemptsCall clock span ∧ x.running.length = maxFrames) ∧
      m.frames = 0 ∧ (m.run clock fuel source).2.frames = 0 := by
  refine ⟨frames_run clock, ?_, ?_⟩
  · intro n callee args span m
    have hframes := frames_run clock n (.call callee args span) { m with frames := m.frames + 1 }
    rw [Task.run, ending_map] at hframes
    rw [hframes]
    exact Nat.succ_pos m.frames
  intro m course
  have hm : m.frames = 0 := frames_session clock fuel earlier rfl
  have hcounted := counted_source clock fuel source m
  have hbounded : ∀ x ∈ course, x.running.length ≤ maxFrames := by
    intro x hx
    rw [← (hcounted.running x hx).1]
    exact hcounted.bounded (Nat.zero_le _) x hx
  refine ⟨?_, ?_, hm, ?_⟩
  · intro x hx
    obtain ⟨hopening, hclosing⟩ := hcounted.running x hx
    exact ⟨hopening, hbounded x hx, hclosing.trans hopening⟩
  · intro span
    rw [run_eq]
    refine (step_overflows_iff clock fuel source m span).trans ?_
    constructor
    · rintro ⟨x, hx, hattempt, hfull⟩
      exact ⟨x, hx, hattempt, Nat.le_antisymm (hbounded x hx) hfull⟩
    · rintro ⟨x, hx, hattempt, hfull⟩
      exact ⟨x, hx, hattempt, Nat.le_of_eq hfull.symm⟩
  · rw [run_machine, flushed_frames, frames_step clock fuel source hm]

end LoxLang
