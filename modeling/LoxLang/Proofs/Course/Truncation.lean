import LoxLang.Proofs.Course.Calls
/-!
# Output that does not fit

A run on a device that takes only so many bytes is the run on a device that takes
them all, up to the `print` that does not fit. There it writes what still fits and
stops. The two runs are compared step by step: as long as the output fits they
differ in nothing but the room that is left.
-/
namespace LoxLang

/-- The bytes that `print` writes for a value. -/
def Value.line (value : Value ScopeId) : ByteArray :=
  (value.display ++ "\n").toUTF8

namespace Machine

variable {α β : Type} {clock : Nat → Float} {limit : Nat}

def withRoom (m : Machine) (room : Option Nat) : Machine :=
  { m with output := { room } }

/-- A machine whose output may grow up to a limit only. -/
def limited (limit : Nat) (m : Machine) : Machine :=
  { m with output := ⟨m.output.written, some (limit - m.output.written.size)⟩ }

/-- The machine of a run that stopped in the middle of a line. -/
def cutOff (limit : Nat) (m : Machine) (value : Value ScopeId) (frames : Nat) : Machine :=
  let kept := value.line.extract 0 (limit - m.output.written.size)
  m.adjusted frames ⟨m.output.written ++ kept, some 0⟩

/-- The task of a moment is a `print` statement, which is about to write a value. -/
def Moment.Prints (clock : Nat → Float) (x : Moment) (span : Span) (value : Value ScopeId)
    (m : Machine) : Prop :=
  ∃ n scope e, x.fuel = n + 1 ∧ x.task = .exec scope (.print span e) ∧
    eval clock n scope e { x.machine with events := x.machine.events.push (.printing e) } =
      .ok value m

/-- The line of output during which the limit is passed. -/
structure Overruns (limit : Nat) (final : ByteArray) (m : Machine) (value : Value ScopeId) :
    Prop where
  written : ∃ rest, final = m.output.written ++ value.line ++ rest
  below : m.output.written.size ≤ limit
  above : limit < (m.output.written ++ value.line).size

private theorem Overruns.cutOff_written {final : ByteArray} {m : Machine} {value : Value ScopeId}
    (h : Overruns limit final m value) (frames : Nat) :
    (cutOff limit m value frames).output.written = final.extract 0 limit := by
  obtain ⟨rest, rfl⟩ := h.written
  have hbelow := h.below
  have habove := h.above
  rw [ByteArray.size_append] at habove
  have hfirst : m.output.written.extract 0 limit = m.output.written := by
    rw [← Nat.max_eq_left hbelow]
    exact ByteArray.extract_zero_max_size
  have hrest : rest.extract 0 (limit - (m.output.written.size + value.line.size)) = .empty := by
    rw [Nat.sub_eq_zero_of_le (Nat.le_of_lt habove)]
    simp
  simp only [ByteArray.extract_append, ByteArray.size_append, Nat.zero_sub, hfirst, hrest,
    ByteArray.append_empty, cutOff, adjusted]

/-- A step with unlimited output only adds to it. With limited output the step does the same if all
of it fits, and else it stops at a `print`. -/
structure Truncated (clock : Nat → Float) (limit : Nat) (p : Run α) (m : Machine)
    (moments : List Moment) : Prop where
  room : (ending (p m)).output.room = none
  grows : ∃ more, (ending (p m)).output.written = m.output.written ++ more
  fits : (ending (p m)).output.written.size ≤ limit →
    p (limited limit m) = onMachine (limited limit) (p m)
  overruns : m.output.written.size ≤ limit → limit < (ending (p m)).output.written.size →
    ∃ x ∈ moments, ∃ span value m' frames, x.Prints clock span value m' ∧
      Overruns limit (ending (p m)).output.written m' value ∧
      p (limited limit m) =
        .error (.raised ⟨.writeFailed "stdout", span⟩) (cutOff limit m' value frames)

private theorem size_le_of_append {a b c : ByteArray} (h : a = b ++ c) : b.size ≤ a.size := by
  rw [h, ByteArray.size_append]
  exact Nat.le_add_right _ _

namespace Truncated

variable {p : Run α} {f : α → Run β} {m : Machine} {front : List Moment}

private theorem size_le (h : Truncated clock limit p m front) :
    m.output.written.size ≤ (ending (p m)).output.written.size := by
  obtain ⟨more, hmore⟩ := h.grows
  exact size_le_of_append hmore

theorem mono {wider : List Moment} (h : Truncated clock limit p m front)
    (hsub : ∀ x ∈ front, x ∈ wider) : Truncated clock limit p m wider where
  room := h.room
  grows := h.grows
  fits := h.fits
  overruns hbelow habove := by
    obtain ⟨x, hx, hprint⟩ := h.overruns hbelow habove
    exact ⟨x, hsub x hx, hprint⟩

theorem plain (h : Plain p) {m : Machine} (hm : m.output.room = none) :
    Truncated clock limit p m [] := by
  obtain ⟨hframes, houtput⟩ := h.ending_eq m
  refine ⟨?_, ⟨.empty, ?_⟩, fun _ => ?_, fun hbelow habove => ?_⟩
  · rw [houtput]
    exact hm
  · rw [houtput, ByteArray.append_empty]
  · have hlimited : limited limit m =
        m.adjusted m.frames ⟨m.output.written, some (limit - m.output.written.size)⟩ := rfl
    rw [hlimited, h.apart]
    cases hresult : p m with
    | ok a m' =>
      rw [hresult, ending] at hframes houtput
      simp only [onMachine, limited, adjusted, ← hframes, ← houtput]
    | error halt m' =>
      rw [hresult, ending] at hframes houtput
      simp only [onMachine, limited, adjusted, ← hframes, ← houtput]
  · rw [houtput] at habove
    exact absurd hbelow (Nat.not_le_of_lt habove)

private theorem bind_error (hp : Truncated clock limit p m front) {halt : Halt} {m' : Machine}
    (hresult : p m = .error halt m') : Truncated clock limit (p >>= f) m front := by
  have hending : ending ((p >>= f) m) = ending (p m) := by simp only [bind_apply, hresult, ending]
  refine ⟨?_, ?_, fun hfits => ?_, fun hbelow habove => ?_⟩
  · rw [hending]
    exact hp.room
  · rw [hending]
    exact hp.grows
  · rw [hending] at hfits
    have hlimited := hp.fits hfits
    rw [hresult, onMachine] at hlimited
    rw [bind_apply, bind_apply, hlimited, hresult]
    rfl
  · rw [hending] at habove ⊢
    obtain ⟨x, hx, span, value, m₁, frames, hprint, hover, hlimited⟩ := hp.overruns hbelow habove
    refine ⟨x, hx, span, value, m₁, frames, hprint, hover, ?_⟩
    rw [bind_apply, hlimited]

/-- A step and what comes after it. The limit is passed in the one or in the other. -/
theorem bind_ok {back : List Moment} (hp : Truncated clock limit p m front) {a : α} {m' : Machine}
    (hresult : p m = .ok a m') (hf : Truncated clock limit (f a) m' back) :
    Truncated clock limit (p >>= f) m (front ++ back) := by
  have hbind : (p >>= f) m = f a m' := by rw [bind_apply, hresult]
  have hfirst : ending (p m) = m' := by rw [hresult, ending]
  obtain ⟨more, hmore⟩ := hp.grows
  obtain ⟨more', hmore'⟩ := hf.grows
  have hsize := hf.size_le
  have hlimited : m'.output.written.size ≤ limit →
      (p >>= f) (limited limit m) = f a (limited limit m') := by
    intro hfits
    have hstep := hp.fits (by rwa [hfirst])
    rw [bind_apply, hstep, hresult]
    rfl
  rw [hfirst] at hmore
  refine ⟨?_, ⟨more ++ more', ?_⟩, fun hfits => ?_, fun hbelow habove => ?_⟩
  · rw [hbind]
    exact hf.room
  · rw [hbind, hmore', hmore, ByteArray.append_assoc]
  · rw [hbind] at hfits ⊢
    rw [hlimited (Nat.le_trans hsize hfits)]
    exact hf.fits hfits
  · rw [hbind] at habove ⊢
    by_cases hmiddle : m'.output.written.size ≤ limit
    · obtain ⟨x, hx, span, value, m₁, frames, hprint, hover, hlast⟩ := hf.overruns hmiddle habove
      refine ⟨x, List.mem_append_right _ hx, span, value, m₁, frames, hprint, hover, ?_⟩
      rw [hlimited hmiddle]
      exact hlast
    · have hpassed : limit < (ending (p m)).output.written.size := by
        rw [hfirst]
        exact Nat.lt_of_not_le hmiddle
      obtain ⟨x, hx, span, value, m₁, frames, hprint, hover, hlast⟩ := hp.overruns hbelow hpassed
      -- What comes after the limit was passed is only in the unlimited run.
      have hwritten : ∃ rest, (ending (f a m')).output.written =
          m₁.output.written ++ value.line ++ rest := by
        obtain ⟨rest, hrest⟩ := hover.written
        rw [hfirst] at hrest
        exact ⟨rest ++ more', by rw [hmore', hrest, ByteArray.append_assoc]⟩
      refine ⟨x, List.mem_append_left _ hx, span, value, m₁, frames, hprint,
        ⟨hwritten, hover.below, hover.above⟩, ?_⟩
      rw [bind_apply, hlast]

theorem bind {next : α → Machine → List Moment} (hp : Truncated clock limit p m front)
    (hf : ∀ a m', p m = .ok a m' → m'.output.room = none →
      Truncated clock limit (f a) m' (next a m')) :
    Truncated clock limit (p >>= f) m (front ++ after (p m) next) := by
  have hroom := hp.room
  cases hresult : p m with
  | error halt m' =>
    rw [after, List.append_nil]
    exact hp.bind_error hresult
  | ok a m' =>
    rw [hresult, ending] at hroom
    exact hp.bind_ok hresult (hf a m' hresult hroom)

theorem andThen (hp : Truncated clock limit p m front)
    (hf : ∀ a m', m'.output.room = none → Truncated clock limit (f a) m' []) :
    Truncated clock limit (p >>= f) m front := by
  have hbind : Truncated clock limit (p >>= f) m (front ++ after (p m) fun _ _ => []) :=
    hp.bind fun a m' _ => hf a m'
  rwa [after_nil, List.append_nil] at hbind

theorem inFrame {body : List Moment} (span : Span) {m : Machine} (hm : ¬m.frames ≥ maxFrames)
    (hp : Truncated clock limit p { m with frames := m.frames + 1 } body) :
    Truncated clock limit (inFrame span p) m body := by
  have hrun : ∀ m₀ : Machine, m₀.frames = m.frames → Machine.inFrame span p m₀ =
      onMachine (fun m' => { m' with frames := m'.frames - 1 })
        (p { m₀ with frames := m₀.frames + 1 }) := by
    intro m₀ hframes
    unfold Machine.inFrame
    rw [if_neg (hframes ▸ hm)]
    cases p { m₀ with frames := m₀.frames + 1 } <;> rfl
  have houtput : (ending (Machine.inFrame span p m)).output =
      (ending (p { m with frames := m.frames + 1 })).output := by
    rw [hrun m rfl, ending_onMachine]
  have hlimited := hrun (limited limit m) rfl
  refine ⟨?_, ?_, fun hfits => ?_, fun hbelow habove => ?_⟩
  · rw [houtput]
    exact hp.room
  · rw [houtput]
    exact hp.grows
  · rw [houtput] at hfits
    have hbody : p { limited limit m with frames := (limited limit m).frames + 1 } = _ :=
      hp.fits hfits
    rw [hlimited, hrun m rfl, hbody]
    cases p { m with frames := m.frames + 1 } <;> rfl
  · rw [houtput] at habove ⊢
    obtain ⟨x, hx, span', value, m₁, frames, hprint, hover, hlast⟩ := hp.overruns hbelow habove
    have hbody : p { limited limit m with frames := (limited limit m).frames + 1 } = _ := hlast
    refine ⟨x, hx, span', value, m₁, frames - 1, hprint, hover, ?_⟩
    rw [hlimited, hbody]
    rfl

end Truncated

/-! ## Every run is truncated -/

def truncating (clock : Nat → Float) (limit : Nat) : Judgement := fun _ _ p m moments =>
  m.output.room = none → Truncated clock limit p m moments

private theorem truncating_call {n : Nat} (ih : Obeys clock (truncating clock limit) n)
    (ctx : Context) (scope : ScopeId) (span : Span) (callee : Expr) (args : List Expr) (m : Machine)
    (hm : m.output.room = none) :
    Truncated clock limit (eval clock (n + 1) scope (.call span callee args)) m
      (moments clock (n + 1) ctx (.eval scope (.call span callee args)) m) := by
  refine Truncated.mono ?_ fun x hx => List.mem_cons_of_mem _ hx
  rw [eval, inside, insideExpr]
  refine (ih.eval ctx scope callee m hm).bind fun f m₁ _ hm₁ => ?_
  refine (ih.evalAll ctx scope args m₁ hm₁).bind fun values m₂ _ hm₂ => ?_
  by_cases hfull : m₂.frames ≥ maxFrames
  · have hstop : ∀ m' : Machine, m'.frames = m₂.frames →
        inFrame span (call clock n f values span) m' =
          .error (.raised ⟨.stackOverflow, span⟩) m' := by
      intro m' hframes
      rw [inFrame, if_pos (hframes ▸ hfull)]
    rw [if_pos hfull]
    refine ⟨?_, ⟨.empty, ?_⟩, fun _ => ?_, fun hbelow habove => ?_⟩
    · rw [hstop m₂ rfl]
      exact hm₂
    · rw [hstop m₂ rfl, ByteArray.append_empty, ending]
    · rw [hstop m₂ rfl, hstop (limited limit m₂) rfl, onMachine]
    · rw [hstop m₂ rfl] at habove
      exact absurd hbelow (Nat.not_le_of_lt habove)
  · rw [if_neg hfull]
    have hbody := ih.call (ctx.inCall span) f values span { m₂ with frames := m₂.frames + 1 } hm₂
    exact hbody.inFrame span hfull

private theorem truncated_writeLine {x : Moment} {span : Span} {value : Value ScopeId} {m : Machine}
    (hx : x.Prints clock span value m) (hm : m.output.room = none) :
    Truncated clock limit (writeLine value.display span) m [x] := by
  have hwrite : ∀ m₀ : Machine, writeLine value.display span m₀ =
      (unless (m₀.output.write value.line).2 do raise (.writeFailed "stdout") span : Run Unit)
        { m₀ with output := (m₀.output.write value.line).1 } := fun _ => rfl
  have hfree : writeLine value.display span m =
      .ok () { m with output := ⟨m.output.written ++ value.line, none⟩ } := by
    rw [hwrite]
    simp only [Output.write, hm]
    rfl
  refine ⟨?_, ⟨value.line, ?_⟩, fun hfits => ?_, fun hbelow habove => ?_⟩
  · rw [hfree, ending]
  · rw [hfree, ending]
  · rw [hfree, ending, ByteArray.size_append] at hfits
    have hroom : value.line.size ≤ limit - m.output.written.size := by omega
    rw [hwrite, hfree]
    simp only [Output.write, limited, hroom, if_true, onMachine, ByteArray.size_append,
      Nat.sub_add_eq]
    rfl
  · rw [hfree, ending, ByteArray.size_append] at habove
    have hroom : ¬value.line.size ≤ limit - m.output.written.size := by omega
    refine ⟨x, List.mem_singleton_self x, span, value, m, m.frames, hx, ?_, ?_⟩
    · rw [hfree, ending]
      refine ⟨⟨.empty, ByteArray.append_empty.symm⟩, hbelow, ?_⟩
      rwa [ByteArray.size_append]
    · rw [hwrite]
      simp only [Output.write, limited, hroom, if_false, Bool.false_eq_true]
      rfl

private theorem truncating_print {n : Nat} (ih : Obeys clock (truncating clock limit) n)
    (ctx : Context)
    (scope : ScopeId) (span : Span) (e : Expr) (m : Machine) (hm : m.output.room = none) :
    Truncated clock limit (exec clock (n + 1) scope (.print span e)) m
      (moments clock (n + 1) ctx (.exec scope (.print span e)) m) := by
  let x : Moment := ⟨ctx, n + 1, .exec scope (.print span e), m⟩
  let m₀ : Machine := { m with events := m.events.push (.printing e) }
  have hemit : Truncated clock limit (emit (.printing e)) m [] := .plain (plain_emit _) hm
  have hwrite : ∀ value m₁, eval clock n scope e m₀ = .ok value m₁ → m₁.output.room = none →
      Truncated clock limit
        (writeLine value.display span >>= fun _ => pure (Flow.normal : Flow ScopeId)) m₁ [x] := by
    intro value m₁ hvalue hm₁
    have hline : Truncated clock limit (writeLine value.display span) m₁ [x] :=
      truncated_writeLine ⟨n, scope, e, rfl, rfl, hvalue⟩ hm₁
    exact hline.andThen fun _ m₂ hm₂ => .plain (.pure Flow.normal) hm₂
  have hbody : Truncated clock limit (exec clock (n + 1) scope (.print span e)) m
      (moments clock n ctx (.eval scope e) m₀ ++
        after (eval clock n scope e m₀) fun _ _ => [x]) := by
    rw [exec, ← List.nil_append (_ ++ _)]
    exact hemit.bind_ok rfl ((ih.eval ctx scope e m₀ hm).bind hwrite)
  refine hbody.mono fun y hy => ?_
  rcases List.mem_append.mp hy with hy | hy
  · exact List.mem_cons_of_mem _ hy
  · cases hvalue : eval clock n scope e m₀ with
    | ok value m₁ =>
      rw [hvalue, after] at hy
      rw [List.mem_singleton.mp hy]
      exact List.mem_cons_self
    | error halt m₁ =>
      rw [hvalue, after] at hy
      exact absurd hy List.not_mem_nil

private theorem law_truncating (clock : Nat → Float) (limit : Nat) :
    Law clock (truncating clock limit) where
  plain hp hm := .plain hp hm
  bind hp hf hm := (hp hm).bind hf
  enter _ _ _ hp hm := (hp hm).mono fun _ hx => List.mem_cons_of_mem _ hx
  pending _ hp := hp
  callExpr ih ctx scope span callee args m := truncating_call ih ctx scope span callee args m
  printStmt ih ctx scope span value m := truncating_print ih ctx scope span value m

/-! ## Sources and sessions -/

private theorem conclude_limited (r : EStateM.Result Halt Machine Unit) :
    conclude (onMachine (limited limit) r) =
      ((conclude r).1, limited limit (conclude r).2) := by
  cases r with
  | ok value m => rfl
  | error halt m => cases halt <;> rfl

variable (clock : Nat → Float) (fuel : Nat)

private theorem truncated_source (limit : Nat) (source : String) {m : Machine}
    (hm : m.output.room = none) :
    Truncated clock limit (runAll clock fuel (runnable source)) (m.opened source)
      (sourceMoments clock fuel source m) :=
  (law_truncating clock limit).obeys_program fuel (runnable source) (m.opened source) hm

private theorem step_written {source : String} {m : Machine}
    (hstep : m.step clock fuel source =
      conclude (runAll clock fuel (runnable source) (m.opened source))) :
    (m.step clock fuel source).2.output =
      (ending (runAll clock fuel (runnable source) (m.opened source))).output := by
  obtain ⟨events, hends⟩ :=
    conclude_machine (runAll clock fuel (runnable source) (m.opened source))
  rw [hstep, hends, withEvents_output]

/-- Output that fits makes no difference. -/
theorem step_fits (source : String) {m : Machine} (hm : m.output.room = none)
    (hfits : (m.step clock fuel source).2.output.written.size ≤ limit) :
    (limited limit m).step clock fuel source =
      ((m.step clock fuel source).1, limited limit (m.step clock fuel source).2) := by
  rcases step_cases clock fuel source with hstep | ⟨-, outcome, log, -, hstep⟩
  · rw [step_written clock fuel (hstep m)] at hfits
    have hsame : runAll clock fuel (runnable source) ((limited limit m).opened source) = _ :=
      (truncated_source clock fuel limit source hm).fits hfits
    rw [hstep, hstep, hsame, conclude_limited]
  · rw [hstep, hstep]
    rfl

/-- Output that does not fit is cut off, and the run with it. -/
theorem step_overruns (source : String) {m : Machine} (hm : m.output.room = none)
    (hbelow : m.output.written.size ≤ limit)
    (habove : limit < (m.step clock fuel source).2.output.written.size) :
    ∃ x ∈ sourceMoments clock fuel source m, ∃ span value m' frames,
      x.Prints clock span value m' ∧
      Overruns limit (m.step clock fuel source).2.output.written m' value ∧
      (limited limit m).step clock fuel source = conclude
        (.error (.raised ⟨.writeFailed "stdout", span⟩) (cutOff limit m' value frames)) := by
  rcases step_cases clock fuel source with hstep | ⟨-, outcome, log, -, hstep⟩
  · rw [step_written clock fuel (hstep m)] at habove ⊢
    obtain ⟨x, hx, span, value, m', frames, hprint, hover, hlimited⟩ :=
      (truncated_source clock fuel limit source hm).overruns hbelow habove
    refine ⟨x, hx, span, value, m', frames, hprint, hover, ?_⟩
    rw [hstep, ← hlimited]
    rfl
  · rw [hstep] at habove
    exact absurd hbelow (Nat.not_le_of_lt habove)

end Machine

open Machine

/-- After any session, a source runs on a device with room for `limit` bytes as it does on an
unlimited one. If all its output fits, then it ends the same. Otherwise the first `limit` bytes are
written and the run stops in the course of the `print` that writes the byte after these: the only
error is a failure to write, at the place of this `print`, and the machine is as it was when the
value to print was there. -/
theorem limited_output_truncates (clock : Nat → Float) (fuel : Nat) (room : Option Nat)
    (earlier : List String) (source : String) (limit : Nat) :
    let m := ((Machine.initial room).runSession clock fuel earlier).2
    let free := (m.withRoom none).run clock fuel source
    let cut := (m.withRoom (some limit)).run clock fuel source
    let out := free.1.output
    (out.size ≤ limit → cut = (free.1, free.2.withRoom (some (limit - out.size)))) ∧
      (limit < out.size →
        ∃ x ∈ sourceMoments clock fuel source (m.withRoom none), ∃ span value m',
          x.Prints clock span value m' ∧ Overruns limit out m' value ∧
          cut.1.output = out.extract 0 limit ∧
          cut.1.outcome.errors = [⟨.writeFailed "stdout", span⟩] ∧
          cut.1.events = m'.events.toList ++ [.runtimeError (.writeFailed "stdout")] ∧
          cut.2 = { m'.flushed with frames := 0, output := { room := some 0 } }) := by
  intro m free cut out
  have hfree : free = _ := run_eq clock fuel source (m.withRoom none)
  have hcut : cut = _ := run_eq clock fuel source (m.withRoom (some limit))
  have hstart : m.withRoom (some limit) = limited limit (m.withRoom none) := rfl
  have hout : out = ((m.withRoom none).step clock fuel source).2.output.written := by
    rw [show out = free.1.output from rfl, hfree]
  constructor
  · intro hfits
    rw [hout] at hfits
    rw [hcut, hfree, hstart, step_fits clock fuel source rfl hfits]
    rw [hout]
    rfl
  · intro hpassed
    rw [hout] at hpassed
    obtain ⟨x, hx, span, value, m', frames, hprint, hover, hstep⟩ :=
      step_overruns clock fuel source rfl (Nat.zero_le limit) hpassed
    rw [← hout] at hover
    have hframes : cut.2.frames = 0 := by
      have hm : m.frames = 0 := frames_session clock fuel earlier rfl
      have hlimited : (m.withRoom (some limit)).frames = 0 := hm
      rw [run_machine, flushed_frames, frames_step clock fuel source hlimited]
    rw [hstart, hstep] at hcut
    refine ⟨x, hx, span, value, m', hprint, hover, ?_, ?_, ?_, ?_⟩
    · rw [hcut]
      exact hover.cutOff_written frames
    · rw [hcut]
      rfl
    · rw [hcut]
      exact Array.toList_push
    · rw [hcut] at hframes ⊢
      have hzero : frames = 0 := hframes
      rw [hzero]
      rfl

end LoxLang
