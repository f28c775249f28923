import LoxLang.Proofs.Integrity.Methods
import LoxLang.Proofs.Returns.Kinds
/-!
# How a `return` leaves its function

A `return` ends the body it belongs to, however deep it stands in blocks, branches
and loops: nothing that the call goes through comes after it, and the call yields its
value. The statements of a program have no body to leave, so none of them ends in
this way.
-/
namespace LoxLang

open Machine

private theorem Flow.eq_returned {flow : Flow ScopeId} {value : Value ScopeId}
    (h : flow.values = [value]) : flow = .returned value := by
  cases flow with
  | normal => exact absurd h.symm (List.cons_ne_nil _ _)
  | returned other => rw [(List.cons.inj h).1]

namespace Machine

variable {clock : Nat → Float}

def Moment.course (clock : Nat → Float) (x : Moment) : List Moment :=
  moments clock x.fuel x.toContext x.task x.machine

def Task.IsReturn : Task → Prop
  | .exec _ (.ret ..) => True
  | _ => False

/-- The moment is the start of a `return` that ends with a value. -/
def Moment.Returns (clock : Nat → Float) (x : Moment) (value : Value ScopeId) (m : Machine) :
    Prop :=
  (∃ scope span e, x.task = .exec scope (.ret span e)) ∧ x.result clock = .ok [value] m

/-! ## Tasks of one call -/

/-- What is handed on inside of a call holds of all moments that belong to that call itself. -/
theorem forall_own {Q : Task → Prop}
    (hQ : ∀ x y, Starts clock x y → y.running = x.running → Q x.task → Q y.task) (n : Nat)
    (ctx : Context) {task : Task} (m : Machine) (h : Q task) :
    ∀ y ∈ moments clock n ctx task m, y.running = ctx.running → Q y.task := by
  -- Once a moment belongs to another call, all that it starts belongs to other calls.
  have hdeeper : ∀ y ∈ moments clock n ctx task m,
      ctx.running.length < y.running.length ∨ y.running = ctx.running ∧ Q y.task := by
    refine forall_moments (fun x y hx hxy => ?_) n ctx task m (.inr ⟨rfl, h⟩)
    rcases hxy.running with hsame | ⟨span, hlonger⟩
    · rcases hx with hdeep | ⟨hrunning, hx⟩
      · exact .inl (hsame ▸ hdeep)
      · exact .inr ⟨hsame.trans hrunning, hQ x y hxy hsame hx⟩
    · have hlength : y.running.length = x.running.length + 1 := congrArg List.length hlonger
      rcases hx with hdeep | ⟨hrunning, -⟩
      · exact .inl (by omega)
      · exact .inl (by rw [hlength, hrunning]; omega)
  intro y hy hown
  rcases hdeeper y hy with hdeep | ⟨-, hy⟩
  · rw [hown] at hdeep
    exact absurd hdeep (Nat.lt_irrefl _)
  · exact hy

def Task.OfExpr : Task → Prop
  | .eval .. | .evalAll .. => True
  | _ => False

private theorem ofExpr_handed_on {x y : Moment} (h : Starts clock x y)
    (hown : y.running = x.running) (hx : x.task.OfExpr) : y.task.OfExpr := by
  cases h with
  | call => exact absurd hown (List.cons_ne_self _ _)
  | operand | right | otherwise | arguments | fieldValue | firstValue | otherValues => trivial
  | _ => exact hx.elim

def Task.ReturnsAs (kind : BodyKind) : Task → Prop
  | .execAll _ body => bodyReturnsAs kind body
  | .exec _ s => s.ReturnsAs kind
  | .execLoop _ _ body => body.ReturnsAs kind
  | .eval .. | .evalAll .. => True
  | .call .. | .invoke .. => False

private theorem returnsAs_handed_on {kind : BodyKind} {x y : Moment} (h : Starts clock x y)
    (hown : y.running = x.running) (hx : x.task.ReturnsAs kind) : y.task.ReturnsAs kind := by
  cases h with
  | call => exact absurd hown (List.cons_ne_self _ _)
  | invoke | construct | code => exact hx.elim
  | firstStmt | yes => exact hx.1
  | otherStmts | no => exact hx.2
  | block | loop | loopBody | loopAgain => exact hx
  | _ => trivial

/-! ## Moments after a `return` -/

/-- No moment of the call at hand has a statement as its task. -/
def Quiet (running : List Span) (list : List Moment) : Prop :=
  ∀ y ∈ list, y.running = running → y.task.OfExpr

/-- Some code of a call went through the listed moments. What comes from the start of a `return` of
that call on belongs to this statement, and the code ends as the statement does. The code ends with
a value only in this way. -/
structure Leaves (clock : Nat → Float) (running : List Span)
    (r : EStateM.Result Halt Machine (Flow ScopeId)) (list : List Moment) : Prop where
  last : ∀ before y later value m, list = before ++ y :: later → y.running = running →
    y.Returns clock value m → y :: later = y.course clock ∧ r = .ok (.returned value) m
  found : ∀ value m, r = .ok (.returned value) m →
    ∃ y ∈ list, y.running = running ∧ y.Returns clock value m

private theorem quiet_eval (n : Nat) (ctx : Context) (scope : ScopeId) (e : Expr) (m : Machine) :
    Quiet ctx.running (moments clock n ctx (.eval scope e) m) :=
  forall_own (fun _ _ => ofExpr_handed_on) n ctx m trivial

private theorem Quiet.not_returns {running : List Span} {list : List Moment}
    (h : Quiet running list)
    {y : Moment} (hy : y ∈ list) (hown : y.running = running) {value : Value ScopeId}
    {m : Machine} : ¬y.Returns clock value m := by
  rintro ⟨⟨scope, span, e, htask⟩, -⟩
  have hexpr := h y hy hown
  rw [htask] at hexpr
  exact hexpr

private theorem append_eq_append_cons {α : Type} {front rest before later : List α} {a : α}
    (h : front ++ rest = before ++ a :: later) :
    (∃ between, front = before ++ a :: between ∧ later = between ++ rest) ∨
      ∃ between, rest = between ++ a :: later := by
  rcases List.append_eq_append_iff.mp h with ⟨between, -, hrest⟩ | ⟨between, hfront, hlater⟩
  · exact .inr ⟨between, hrest⟩
  · rcases List.cons_eq_append_iff.mp hlater with ⟨-, hrest⟩ | ⟨between', hbetween, hlater⟩
    · exact .inr ⟨[], hrest⟩
    · exact .inl ⟨between', hbetween ▸ hfront, hlater⟩

namespace Leaves

variable {running : List Span} {r : EStateM.Result Halt Machine (Flow ScopeId)}
  {front rest : List Moment} {α : Type}

private theorem of_quiet (hquiet : Quiet running rest)
    (hr : ∀ value m, r ≠ .ok (.returned value) m) :
    Leaves clock running r rest where
  last before y later value m hlist hown hreturns := by
    have hy : y ∈ rest := by simp [hlist]
    exact absurd hreturns (hquiet.not_returns hy hown)
  found value m h := absurd h (hr value m)

private theorem behind (hquiet : Quiet running front) (h : Leaves clock running r rest) :
    Leaves clock running r (front ++ rest) where
  last before y later value m hlist hown hreturns := by
    rcases append_eq_append_cons hlist with ⟨between, hfront, -⟩ | ⟨between, hrest⟩
    · have hy : y ∈ front := by simp [hfront]
      exact absurd hreturns (hquiet.not_returns hy hown)
    · exact h.last between y later value m hrest hown hreturns
  found value m hr := by
    obtain ⟨y, hy, hreturns⟩ := h.found value m hr
    exact ⟨y, List.mem_append_right front hy, hreturns⟩

theorem enter {x : Moment} (hx : ¬x.task.IsReturn) (h : Leaves clock running r rest) :
    Leaves clock running r (x :: rest) where
  last before y later value m hlist hown hreturns := by
    rcases List.cons_eq_append_iff.mp hlist with ⟨-, hcons⟩ | ⟨between, -, hrest⟩
    · obtain ⟨⟨scope, span, e, htask⟩, -⟩ := hreturns
      rw [← (List.cons.inj hcons).1, htask] at hx
      exact absurd trivial hx
    · exact h.last between y later value m hrest hown hreturns
  found value m hr := by
    obtain ⟨y, hy, hreturns⟩ := h.found value m hr
    exact ⟨y, List.mem_cons_of_mem x hy, hreturns⟩

private theorem bindQuiet {p : Run α} {f : α → Run (Flow ScopeId)} {m : Machine}
    {next : α → Machine → List Moment} (hquiet : Quiet running front)
    (hf : ∀ a m', p m = .ok a m' → Leaves clock running (f a m') (next a m')) :
    Leaves clock running ((p >>= f) m) (front ++ after (p m) next) := by
  rw [bind_apply]
  cases hp : p m with
  | ok a m' => exact (hf a m' hp).behind hquiet
  | error halt m' =>
    rw [after, List.append_nil]
    refine .of_quiet hquiet fun value m h => ?_
    cases h

private theorem bindPlain {p : Run α} {f : α → Run (Flow ScopeId)} {m : Machine}
    {next : α → Machine → List Moment}
    (hf : ∀ a m', p m = .ok a m' → Leaves clock running (f a m') (next a m')) :
    Leaves clock running ((p >>= f) m) (after (p m) next) :=
  bindQuiet (fun _ h => absurd h List.not_mem_nil) hf

theorem andThen {p q : Run (Flow ScopeId)} {m : Machine} {next : Machine → List Moment}
    (hp : Leaves clock running (p m) front)
    (hq : ∀ m', p m = .ok .normal m' → Leaves clock running (q m') (next m')) :
    Leaves clock running
      ((do match ← p with
        | .normal => q
        | .returned value => return .returned value) m)
      (front ++ after (p m) fun
        | .normal, m => next m
        | .returned _, _ => []) := by
  rw [bind_apply]
  cases hresult : p m with
  | error halt m' =>
    rw [after, List.append_nil]
    rw [hresult] at hp
    refine ⟨fun before y later value m hlist hown hreturns => ?_, fun value m h => ?_⟩
    · cases (hp.last before y later value m hlist hown hreturns).2
    · cases h
  | ok flow m' =>
    cases flow with
    | returned value =>
      rw [hresult] at hp
      rw [after, List.append_nil]
      exact hp
    | normal =>
      have hrest := hq m' hresult
      refine ⟨fun before y later value m hlist hown hreturns => ?_, fun value m h => ?_⟩
      · rcases append_eq_append_cons hlist with ⟨between, hfront, -⟩ | ⟨between, hnext⟩
        · -- The first part would have ended with the value.
          have hends := (hp.last before y between value m hfront hown hreturns).2
          rw [hresult] at hends
          cases hends
        · exact hrest.last between y later value m hnext hown hreturns
      · obtain ⟨y, hy, hreturns⟩ := hrest.found value m h
        exact ⟨y, List.mem_append_right front hy, hreturns⟩

end Leaves

/-! ## Statements -/

def Straight (p : Run (Flow ScopeId)) : Prop :=
  ∀ m value m', p m ≠ .ok (.returned value) m'

private theorem straight_normal : Straight (pure .normal) := by
  intro m value m' h
  cases h

private theorem straight_raise (error : Error) (span : Span) : Straight (raise error span) := by
  intro m value m' h
  cases h

theorem Straight.bind {α : Type} {p : Run α} {f : α → Run (Flow ScopeId)}
    (h : ∀ a, Straight (f a)) : Straight (p >>= f) := by
  intro m value m'
  rw [bind_apply]
  cases p m with
  | ok a m₁ => exact h a m₁ value m'
  | error halt m₁ =>
    intro h
    cases h

private theorem leaves_zero (running : List Span) (ctx : Context) (task : Task) (m : Machine) :
    Leaves clock running (.error .outOfFuel m) (moments clock 0 ctx task m) where
  last before y later value m' hlist hown hreturns := by
    have hy : y ∈ moments clock 0 ctx task m := by simp [hlist]
    obtain ⟨⟨scope, span, e, htask⟩, hresult⟩ := hreturns
    rw [List.mem_singleton.mp hy] at htask hresult
    simp only at htask
    rw [htask, Moment.result, Task.run, exec] at hresult
    cases hresult
  found value m' h := by cases h

structure CodeLeaves (clock : Nat → Float) (n : Nat) : Prop where
  execAll : ∀ ctx scope body m, Leaves clock ctx.running (Machine.execAll clock n scope body m)
    (moments clock n ctx (.execAll scope body) m)
  exec : ∀ ctx scope s m, Leaves clock ctx.running (Machine.exec clock n scope s m)
    (moments clock n ctx (.exec scope s) m)
  execLoop : ∀ ctx scope condition body m, Leaves clock ctx.running
    (Machine.execLoop clock n scope condition body m)
    (moments clock n ctx (.execLoop scope condition body) m)

private theorem leaves_ret (n : Nat) (ctx : Context) (scope : ScopeId) (span : Span)
    (e : Option Expr)
    (m : Machine) : Leaves clock ctx.running (exec clock (n + 1) scope (.ret span e) m)
      (moments clock (n + 1) ctx (.exec scope (.ret span e)) m) := by
  have hquiet : Quiet ctx.running
      (inside clock (moments clock n) n ctx (.exec scope (.ret span e)) m) := by
    cases e with
    | none => exact fun _ h => absurd h List.not_mem_nil
    | some e => exact quiet_eval n ctx scope e m
  refine ⟨fun before y later value m' hlist hown hreturns => ?_, fun value m' h => ?_⟩
  · rcases List.cons_eq_append_iff.mp hlist with ⟨-, hcons⟩ | ⟨between, -, hrest⟩
    · obtain ⟨hy, hlater⟩ := List.cons.inj hcons
      have hresult := hreturns.2
      rw [hy] at hresult
      refine ⟨?_, ?_⟩
      · rw [hlater, hy, Moment.course, moments]
      · rw [Moment.result, Task.run, map_eq_pure_bind, bind_apply] at hresult
        cases hexec : exec clock (n + 1) scope (.ret span e) m with
        | error halt m'' =>
          rw [hexec] at hresult
          cases hresult
        | ok flow m'' =>
          rw [hexec] at hresult
          obtain ⟨hvalues, rfl⟩ := EStateM.Result.ok.inj hresult
          rw [Flow.eq_returned hvalues]
    · have hy : y ∈ inside clock (moments clock n) n ctx (.exec scope (.ret span e)) m := by
        simp [hrest]
      exact absurd hreturns (hquiet.not_returns hy hown)
  · have hresult : Moment.result clock ⟨ctx, n + 1, .exec scope (.ret span e), m⟩ =
        .ok [value] m' := by
      rw [Moment.result, Task.run, map_eq_pure_bind, bind_apply, h]
      rfl
    exact ⟨⟨ctx, n + 1, .exec scope (.ret span e), m⟩, List.mem_cons_self, rfl,
      ⟨scope, span, e, rfl⟩, hresult⟩

section
variable {n : Nat} (ih : CodeLeaves clock n)
include ih

private theorem leaves_execAll (ctx : Context) (scope : ScopeId) (body : List Stmt) (m : Machine) :
    Leaves clock ctx.running (execAll clock (n + 1) scope body m)
      (moments clock (n + 1) ctx (.execAll scope body) m) := by
  refine .enter id ?_
  cases body with
  | nil =>
    rw [execAll]
    exact .of_quiet (fun _ h => absurd h List.not_mem_nil) (straight_normal m)
  | cons first others =>
    rw [execAll]
    exact (ih.exec ctx scope first m).andThen fun m' _ => ih.execAll ctx scope others m'

private theorem leaves_execLoop (ctx : Context) (scope : ScopeId) (condition : Expr) (body : Stmt)
    (m : Machine) : Leaves clock ctx.running (execLoop clock (n + 1) scope condition body m)
      (moments clock (n + 1) ctx (.execLoop scope condition body) m) := by
  refine .enter id ?_
  rw [execLoop]
  refine .bindQuiet (quiet_eval n ctx scope condition m) fun v m₁ _ => ?_
  cases v.isTruthy with
  | true =>
    exact (ih.exec ctx scope body m₁).andThen fun m₂ _ => ih.execLoop ctx scope condition body m₂
  | false => exact .of_quiet (fun _ h => absurd h List.not_mem_nil) (straight_normal m₁)

private theorem leaves_exec (ctx : Context) (scope : ScopeId) (s : Stmt) (m : Machine) :
    Leaves clock ctx.running (exec clock (n + 1) scope s m)
      (moments clock (n + 1) ctx (.exec scope s) m) := by
  have hnothing : Quiet ctx.running [] := fun _ h => absurd h List.not_mem_nil
  cases s with
  | ret span e => exact leaves_ret n ctx scope span e m
  | expr span e =>
    refine .enter id ?_
    rw [exec]
    refine .bindPlain fun _ m' _ => .of_quiet (quiet_eval n ctx scope e m') ?_
    exact Straight.bind (fun _ => straight_normal) m'
  | print span e =>
    refine .enter id ?_
    rw [exec]
    refine .bindPlain fun _ m' _ => .of_quiet (quiet_eval n ctx scope e m') ?_
    exact Straight.bind (fun _ => Straight.bind fun _ => straight_normal) m'
  | varDecl span name e =>
    refine .enter id ?_
    cases e with
    | none =>
      rw [exec]
      exact .of_quiet hnothing (Straight.bind (fun _ => straight_normal) m)
    | some e =>
      rw [exec]
      refine .of_quiet (quiet_eval n { ctx with initializing := some (scope, name) } scope e m) ?_
      exact Straight.bind (fun _ => Straight.bind fun _ => straight_normal) m
  | funDecl decl =>
    refine .enter id ?_
    rw [exec]
    exact .of_quiet hnothing
      (Straight.bind (fun _ => Straight.bind fun _ => straight_normal) m)
  | classDecl span name superclass methods =>
    refine .enter id (.of_quiet hnothing ?_)
    cases superclass with
    | none =>
      rw [exec]
      exact Straight.bind (fun _ => Straight.bind fun _ => straight_normal) m
    | some superclass =>
      rw [exec]
      refine Straight.bind (fun _ => Straight.bind fun above => ?_) m
      cases above with
      | cls above => exact Straight.bind fun _ => Straight.bind fun _ => straight_normal
      | _ => exact straight_raise _ _
  | block span body =>
    refine .enter id ?_
    rw [exec]
    exact .bindPlain fun inner m' _ => ih.execAll ctx inner body m'
  | branch span condition yes no =>
    refine .enter id ?_
    rw [exec.eq_def]
    refine .bindQuiet (quiet_eval n ctx scope condition m) fun v m' _ => ?_
    cases v.isTruthy with
    | true => exact ih.exec ctx scope yes m'
    | false =>
      cases no with
      | some no => exact ih.exec ctx scope no m'
      | none => exact .of_quiet hnothing (straight_normal m')
  | loop span condition body =>
    refine .enter id ?_
    rw [exec]
    exact ih.execLoop ctx scope condition body m

end

private theorem codeLeaves (clock : Nat → Float) (n : Nat) : CodeLeaves clock n := by
  induction n with
  | zero =>
    refine ⟨fun ctx scope body m => ?_, fun ctx scope s m => ?_,
      fun ctx scope condition body m => ?_⟩
    · rw [execAll]
      exact leaves_zero _ ctx _ m
    · rw [exec]
      exact leaves_zero _ ctx _ m
    · rw [execLoop]
      exact leaves_zero _ ctx _ m
  | succ n ih => exact ⟨leaves_execAll ih, leaves_exec ih, leaves_execLoop ih⟩

/-! ## Calls -/

private theorem leaves_invoke (n : Nat) (ctx : Context) (f : Closure ScopeId)
    (args : List (Value ScopeId)) (m : Machine) :
    Leaves clock ctx.running (runBody clock n f args m)
      (moments clock (n + 1) ctx (.invoke f args) m) :=
  .enter id
    (.bindPlain fun scope m' _ => (codeLeaves clock n).execAll ctx scope f.decl.body m')

/-- The body of a function that is called is left by `return` only. -/
theorem Moment.Invokes.leaves {x : Moment} {n : Nat} {f : Closure ScopeId}
    {args : List (Value ScopeId)} (h : x.Invokes n f args) :
    Leaves clock x.running (runBody clock n f args x.machine) (x.course clock) := by
  obtain ⟨ctx, fuel, task, m⟩ := x
  rcases h with ⟨span, hfuel, htask, harity⟩ | ⟨hfuel, htask⟩
  · simp only at hfuel htask
    subst hfuel htask
    have hcheck : checkArity f.decl.name f.decl.params.length args.length span m = .ok () m := by
      rw [checkArity, if_pos harity]
      rfl
    refine .enter id ?_
    rw [inside, insideCall, hcheck]
    exact leaves_invoke n ctx f args m
  · simp only at hfuel htask
    subst hfuel htask
    exact leaves_invoke n ctx f args m

/-- Code of a body ends with a value only where its kind allows a `return`, and with `nil` if the
`return` has no value. -/
theorem allowed_of_returned {kind : BodyKind} {n : Nat} {ctx : Context} {task : Task}
    {m m' : Machine} {r : EStateM.Result Halt Machine (Flow ScopeId)} {value : Value ScopeId}
    (htask : task.ReturnsAs kind) (h : Leaves clock ctx.running r (moments clock n ctx task m))
    (hr : r = .ok (.returned value) m') : ∃ e, kind.Allows e ∧ (e = none → value = .nil) := by
  obtain ⟨y, hy, hown, ⟨scope, span, e, hret⟩, hresult⟩ := h.found value m' hr
  have hkind := forall_own (fun _ _ => returnsAs_handed_on) n ctx m htask y hy hown
  rw [hret] at hkind
  refine ⟨e, hkind, fun hnone => ?_⟩
  rw [Moment.result, hret, hnone, Task.run] at hresult
  cases hfuel : y.fuel with
  | zero =>
    rw [hfuel, exec] at hresult
    cases hresult
  | succ k =>
    rw [hfuel, exec] at hresult
    exact (List.cons.inj (EStateM.Result.ok.inj hresult).1).1.symm

private theorem runnable_not_returned (n : Nat) {source : String} {s : Stmt}
    (hs : s ∈ runnable source)
    (scope : ScopeId) (m : Machine) (value : Value ScopeId) (m' : Machine) :
    exec clock n scope s m ≠ .ok (.returned value) m' := by
  intro hexec
  have hkind : (Task.exec scope s).ReturnsAs .program :=
    bodyReturnsAs_iff.mp (returnsAs_runnable source) s hs
  obtain ⟨e, hallows, -⟩ :=
    allowed_of_returned hkind ((codeLeaves clock n).exec {} scope s m) hexec
  exact hallows

private theorem runBody_initializer {n : Nat} {f : Closure ScopeId} {args : List (Value ScopeId)}
    {m m' : Machine} {value : Value ScopeId} (hf : f.From returningOrigin)
    (hinitializer : f.isInitializer = true)
    (h : runBody clock n f args m = .ok (.returned value) m') : value = .nil := by
  obtain ⟨kind, hkind, hreturns⟩ := hf
  rw [hkind hinitializer, FunDecl.returnsAs_iff] at hreturns
  rw [runBody, bind_apply] at h
  cases hscope : newScope f.env (Bindings.empty.insertMany (f.decl.params.zip args)) m with
  | error halt m₁ =>
    rw [hscope] at h
    cases h
  | ok scope m₁ =>
    rw [hscope] at h
    have htask : (Task.execAll scope f.decl.body).ReturnsAs .initializer := hreturns
    obtain ⟨e, hnone, hnil⟩ :=
      allowed_of_returned htask ((codeLeaves clock n).execAll {} scope f.decl.body m₁) h
    exact hnil hnone

/-- A function prepares an instance exactly if it is a bound method of that name. -/
theorem Moment.Sound.initializer_iff {x : Moment} (hx : x.Sound (·.isInitializer = false) clock)
    {n : Nat} {f : Closure ScopeId} {args : List (Value ScopeId)} (h : x.Invokes n f args) :
    f.isInitializer = true ↔ f.Bound x.machine.scopes ∧ f.decl.name = initializerName := by
  have hvalue : Value.function f ∈ x.task.values := by
    rcases h with ⟨span, -, htask, -⟩ | ⟨-, htask⟩ <;> rw [htask] <;> exact List.mem_cons_self
  have hf : f.Sound (·.isInitializer = false) x.machine := hx.ready.values _ hvalue
  constructor
  · intro hinitializer
    have hbound := hf.origin.resolve_left (by simp [hinitializer])
    refine ⟨hbound, ?_⟩
    obtain ⟨owner, g, cell, c, -, -, hsame⟩ := hbound
    simpa [FunDecl.isInitializer, hinitializer] using hsame.symm
  · rintro ⟨⟨owner, g, cell, c, -, -, hsame⟩, hname⟩
    simp [hsame, FunDecl.isInitializer, hname]

/-- What the call of a function yields, from how its body ends. -/
def yielded : EStateM.Result Halt Machine (Flow ScopeId) →
    EStateM.Result Halt Machine (List (Value ScopeId))
  | .ok .normal m => .ok [.nil] m
  | .ok (.returned value) m => .ok [value] m
  | .error halt m => .error halt m

private theorem Moment.Invokes.result_eq_yielded {x : Moment} {n : Nat} {f : Closure ScopeId}
    {args : List (Value ScopeId)} (h : x.Invokes n f args) (hf : f.isInitializer = false) :
    x.result clock = yielded (runBody clock n f args x.machine) := by
  rw [h.result, map_eq_pure_bind, bind_apply, bind_apply]
  cases runBody clock n f args x.machine with
  | error halt m => rfl
  | ok flow m => cases flow <;> simp [callResult, hf, yielded] <;> rfl

end Machine

/-- No statement of a program that is read and resolved without errors ends with a returned value.
In every session, of every function that is called: what the call goes through from the start of a
`return` of its body on belongs to that `return`, and the body ends with its value. If the function
is a method that prepares an instance, this value is `nil`. Otherwise the call yields the value, and
`nil` if the body runs to its end. -/
theorem return_ends_the_call (clock : Nat → Float) (fuel : Nat) (room : Option Nat)
    (sources : List String) :
    (∀ source, ∀ s ∈ runnable source, ∀ n scope m value m',
      exec clock n scope s m ≠ .ok (.returned value) m') ∧
    ∀ x ∈ sessionMoments clock fuel sources (Machine.initial room), ∀ n f args,
      x.Invokes n f args →
      Leaves clock x.running (runBody clock n f args x.machine) (x.course clock) ∧
      (f.Bound x.machine.scopes ∧ f.decl.name = initializerName → ∀ value m,
        runBody clock n f args x.machine = .ok (.returned value) m → value = .nil) ∧
      (¬(f.Bound x.machine.scopes ∧ f.decl.name = initializerName) →
        x.result clock = yielded (runBody clock n f args x.machine)) := by
  have hordinary : ∀ y ∈ sessionMoments clock fuel sources (Machine.initial room),
      ∀ f, y.MakesFunction f → f.isInitializer = false := by
    rintro y - f ⟨n, scope, decl, -, -, rfl⟩
    rfl
  have horderly := proceeds_session clock fuel sources (sound_initial room) hordinary
  have hreturning := returning_session clock fuel room sources
  refine ⟨fun source s hs n scope => runnable_not_returned n hs scope, ?_⟩
  intro x hx n f args hinvokes
  have hiff := (horderly.inside x hx).1.initializer_iff hinvokes
  have hfrom : f.From returningOrigin := by
    have htask := (hreturning x hx).task
    rcases hinvokes with ⟨span, -, heq, -⟩ | ⟨-, heq⟩ <;> rw [heq] at htask <;> exact htask.1
  refine ⟨hinvokes.leaves, fun hprepares value m hbody => ?_, fun hother => ?_⟩
  · exact runBody_initializer hfrom (hiff.mpr hprepares) hbody
  · have hnot : f.isInitializer = false := by
      rw [← Bool.not_eq_true, hiff]
      exact hother
    exact hinvokes.result_eq_yielded hnot

def returnsTrue : EStateM.Result Halt Machine (Flow ScopeId) → Bool
  | .ok (.returned (.bool value)) _ => value
  | _ => false

def startsTrueFunction (x : Moment) : Bool :=
  match x.task with
  | .invoke f args => f.decl.name != initializerName && x.fuel != 0 &&
      returnsTrue (runBody (fun _ => 0) (x.fuel - 1) f args x.machine)
  | _ => false

/-- A function is left from a branch inside of a loop. Neither the rest of the loop's body nor its
increment is run, and the call yields what was returned. -/
theorem return_ends_the_call_in_loop :
    ∃ x ∈ sessionMoments (fun _ => 0) 30
      ["fun f() { for (;; nil()) { if (true) { return true; } nil(); } } f() or nil();"]
      (Machine.initial none), ∃ n f args, x.Invokes n f args ∧
        returnsTrue (runBody (fun _ => 0) n f args x.machine) = true ∧
        x.result (fun _ => 0) = yielded (runBody (fun _ => 0) n f args x.machine) := by
  have hfound : (sessionMoments (fun _ => 0) 30
      ["fun f() { for (;; nil()) { if (true) { return true; } nil(); } } f() or nil();"]
      (Machine.initial none)).any startsTrueFunction = true := by decide +kernel
  obtain ⟨x, hx, hcheck⟩ := List.any_eq_true.mp hfound
  have hcall := (return_ends_the_call (fun _ => 0) 30 none _).2 x hx
  unfold startsTrueFunction at hcheck
  cases htask : x.task with
  | invoke f args =>
    simp only [htask, Bool.and_eq_true, bne_iff_ne] at hcheck
    obtain ⟨⟨hname, hfuel⟩, hreturns⟩ := hcheck
    have hinvokes : x.Invokes (x.fuel - 1) f args :=
      .inr ⟨(Nat.sub_add_cancel (Nat.pos_of_ne_zero hfuel)).symm, htask⟩
    obtain ⟨-, -, hresult⟩ := hcall (x.fuel - 1) f args hinvokes
    exact ⟨x, hx, x.fuel - 1, f, args, hinvokes, hreturns, hresult fun h => hname h.2⟩
  | _ => simp [htask] at hcheck

end LoxLang
