import LoxLang.Proofs.Course.Laws

namespace LoxLang

def Expr.firstOperand? : Expr → Option Expr
  | .literal .. | .var .. | .this .. | .super .. => none
  | .grouping _ e | .unary _ _ e | .assign _ _ e | .get _ e _ => some e
  | .binary _ _ e _ | .logical _ _ e _ | .call _ e _ | .set _ e _ _ => some e

namespace Machine

/-- One moment is the start of a task that the task of another moment starts itself. -/
inductive Starts (clock : Nat → Float) : Moment → Moment → Prop
  -- Expressions.
  | operand {n ctx scope e part m} (h : e.firstOperand? = some part) :
      Starts clock ⟨ctx, n + 1, .eval scope e, m⟩ ⟨ctx, n, .eval scope part, m⟩
  | right {n ctx scope span op left right a m m'} (h : eval clock n scope left m = .ok a m') :
      Starts clock ⟨ctx, n + 1, .eval scope (.binary span op left right), m⟩
        ⟨ctx, n, .eval scope right, m'⟩
  | otherwise {n ctx scope span op left right a m m'} (h : eval clock n scope left m = .ok a m')
      (undecided : a.isTruthy = decide (op = .and)) :
      Starts clock ⟨ctx, n + 1, .eval scope (.logical span op left right), m⟩
        ⟨ctx, n, .eval scope right, m'⟩
  | arguments {n ctx scope span callee args f m m'} (h : eval clock n scope callee m = .ok f m') :
      Starts clock ⟨ctx, n + 1, .eval scope (.call span callee args), m⟩
        ⟨ctx, n, .evalAll scope args, m'⟩
  | call {n ctx scope span callee args f values m m₁ m₂}
      (h : eval clock n scope callee m = .ok f m₁)
      (hargs : evalAll clock n scope args m₁ = .ok values m₂) (room : m₂.frames < maxFrames) :
      Starts clock ⟨ctx, n + 1, .eval scope (.call span callee args), m⟩
        ⟨ctx.inCall span, n, .call f values span, { m₂ with frames := m₂.frames + 1 }⟩
  | fieldValue {n ctx scope span object name value cell c m m'}
      (h : eval clock n scope object m = .ok (.object cell c) m') :
      Starts clock ⟨ctx, n + 1, .eval scope (.set span object name value), m⟩
        ⟨ctx, n, .eval scope value, m'⟩
  | firstValue {n ctx scope first others m} :
      Starts clock ⟨ctx, n + 1, .evalAll scope (first :: others), m⟩ ⟨ctx, n, .eval scope first, m⟩
  | otherValues {n ctx scope first others v m m'} (h : eval clock n scope first m = .ok v m') :
      Starts clock ⟨ctx, n + 1, .evalAll scope (first :: others), m⟩
        ⟨ctx, n, .evalAll scope others, m'⟩
  -- Calls.
  | invoke {n ctx f args span m} (arity : f.decl.params.length = args.length) :
      Starts clock ⟨ctx, n + 1, .call (.function f) args span, m⟩ ⟨ctx, n, .invoke f args, m⟩
  | construct {n ctx c args span initializer receiver method m m₁ m₂}
      (found : c.method? initializerName = some initializer)
      (arity : initializer.decl.params.length = args.length)
      (hobject : newObject c m = .ok receiver m₁)
      (hbind : bind initializer receiver m₁ = .ok method m₂) :
      Starts clock ⟨ctx, n + 1, .call (.cls c) args span, m⟩ ⟨ctx, n, .invoke method args, m₂⟩
  | code {n ctx f args scope m m'}
      (h : newScope f.env (Bindings.empty.insertMany (f.decl.params.zip args)) m = .ok scope m') :
      Starts clock ⟨ctx, n + 1, .invoke f args, m⟩ ⟨ctx, n, .execAll scope f.decl.body, m'⟩
  -- Statements.
  | firstStmt {n ctx scope first others m} :
      Starts clock ⟨ctx, n + 1, .execAll scope (first :: others), m⟩ ⟨ctx, n, .exec scope first, m⟩
  | otherStmts {n ctx scope first others m m'} (h : exec clock n scope first m = .ok .normal m') :
      Starts clock ⟨ctx, n + 1, .execAll scope (first :: others), m⟩
        ⟨ctx, n, .execAll scope others, m'⟩
  | expr {n ctx scope span value m m'} (h : emit (.evaluating value) m = .ok () m') :
      Starts clock ⟨ctx, n + 1, .exec scope (.expr span value), m⟩ ⟨ctx, n, .eval scope value, m'⟩
  | print {n ctx scope span value m m'} (h : emit (.printing value) m = .ok () m') :
      Starts clock ⟨ctx, n + 1, .exec scope (.print span value), m⟩ ⟨ctx, n, .eval scope value, m'⟩
  | ret {n ctx scope span value m} :
      Starts clock ⟨ctx, n + 1, .exec scope (.ret span (some value)), m⟩
        ⟨ctx, n, .eval scope value, m⟩
  | varDecl {n ctx scope span name value m} :
      Starts clock ⟨ctx, n + 1, .exec scope (.varDecl span name (some value)), m⟩
        ⟨{ ctx with initializing := some (scope, name) }, n, .eval scope value, m⟩
  | block {n ctx scope span body inner m m'} (h : newScope scope .empty m = .ok inner m') :
      Starts clock ⟨ctx, n + 1, .exec scope (.block span body), m⟩ ⟨ctx, n, .execAll inner body, m'⟩
  | condition {n ctx scope span condition yes no m} :
      Starts clock ⟨ctx, n + 1, .exec scope (.branch span condition yes no), m⟩
        ⟨ctx, n, .eval scope condition, m⟩
  | yes {n ctx scope span condition yes no v m m'} (h : eval clock n scope condition m = .ok v m')
      (holds : v.isTruthy = true) :
      Starts clock ⟨ctx, n + 1, .exec scope (.branch span condition yes no), m⟩
        ⟨ctx, n, .exec scope yes, m'⟩
  | no {n ctx scope span condition yes no v m m'} (h : eval clock n scope condition m = .ok v m')
      (fails : v.isTruthy = false) :
      Starts clock ⟨ctx, n + 1, .exec scope (.branch span condition yes (some no)), m⟩
        ⟨ctx, n, .exec scope no, m'⟩
  | loop {n ctx scope span condition body m} :
      Starts clock ⟨ctx, n + 1, .exec scope (.loop span condition body), m⟩
        ⟨ctx, n, .execLoop scope condition body, m⟩
  | loopCondition {n ctx scope condition body m} :
      Starts clock ⟨ctx, n + 1, .execLoop scope condition body, m⟩
        ⟨ctx, n, .eval scope condition, m⟩
  | loopBody {n ctx scope condition body v m m'} (h : eval clock n scope condition m = .ok v m')
      (holds : v.isTruthy = true) :
      Starts clock ⟨ctx, n + 1, .execLoop scope condition body, m⟩ ⟨ctx, n, .exec scope body, m'⟩
  | loopAgain {n ctx scope condition body v m m₁ m₂}
      (h : eval clock n scope condition m = .ok v m₁) (holds : v.isTruthy = true)
      (hbody : exec clock n scope body m₁ = .ok .normal m₂) :
      Starts clock ⟨ctx, n + 1, .execLoop scope condition body, m⟩
        ⟨ctx, n, .execLoop scope condition body, m₂⟩

variable {clock : Nat → Float}

theorem Starts.running {x y : Moment} (h : Starts clock x y) :
    y.running = x.running ∨ ∃ span, y.running = span :: x.running := by
  cases h with
  | call => exact .inr ⟨_, rfl⟩
  | _ => exact .inl rfl

private theorem mem_after {α : Type} {r : EStateM.Result Halt Machine α}
    {next : α → Machine → List Moment}
    {y : Moment} : y ∈ after r next ↔ ∃ a m, r = .ok a m ∧ y ∈ next a m := by
  cases r with
  | ok a m =>
    constructor
    · intro h
      exact ⟨a, m, rfl, h⟩
    · rintro ⟨_, _, ⟨⟩, h⟩
      exact h
  | error halt m => simp [after]

private theorem checkArity_eq_ok {name : String} {expected got : Nat} {span : Span} {m m' : Machine}
    (h : checkArity name expected got span m = .ok () m') : expected = got ∧ m' = m := by
  unfold checkArity at h
  by_cases harity : expected = got
  · simp only [harity, if_true] at h
    exact ⟨harity, (EStateM.Result.ok.inj h).2.symm⟩
  · simp only [harity, if_false] at h
    cases h

section
variable {sub : Context → Task → Machine → List Moment} {n : Nat} {ctx : Context} {m : Machine}
  {y : Moment}

abbrev StartsOneWith (clock : Nat → Float) (sub : Context → Task → Machine → List Moment)
    (x : Moment) (n : Nat) (y : Moment) : Prop :=
  ∃ ctx task m, Starts clock x ⟨ctx, n, task, m⟩ ∧ y ∈ sub ctx task m

private theorem starts_of_mem_insideExpr {scope : ScopeId} {e : Expr}
    (h : y ∈ insideExpr clock sub n ctx scope e m) :
    StartsOneWith clock sub ⟨ctx, n + 1, .eval scope e, m⟩ n y := by
  cases e with
  | literal | var | this | super => exact absurd h List.not_mem_nil
  | grouping | unary | assign | get => exact ⟨_, _, _, .operand rfl, h⟩
  | binary span op left right =>
    rcases List.mem_append.mp h with h | h
    · exact ⟨_, _, _, .operand rfl, h⟩
    · obtain ⟨a, m', ha, h⟩ := mem_after.mp h
      exact ⟨_, _, _, .right ha, h⟩
  | logical span op left right =>
    rcases List.mem_append.mp h with h | h
    · exact ⟨_, _, _, .operand rfl, h⟩
    · obtain ⟨a, m', ha, h⟩ := mem_after.mp h
      cases op with
      | or =>
        cases htruth : a.isTruthy with
        | true => simp [htruth] at h
        | false =>
          simp only [htruth] at h
          exact ⟨_, _, _, .otherwise ha htruth, h⟩
      | and =>
        cases htruth : a.isTruthy with
        | true =>
          simp only [htruth] at h
          exact ⟨_, _, _, .otherwise ha htruth, h⟩
        | false => simp [htruth] at h
  | call span callee args =>
    rcases List.mem_append.mp h with h | h
    · exact ⟨_, _, _, .operand rfl, h⟩
    obtain ⟨f, m₁, hf, h⟩ := mem_after.mp h
    rcases List.mem_append.mp h with h | h
    · exact ⟨_, _, _, .arguments hf, h⟩
    obtain ⟨values, m₂, hvalues, h⟩ := mem_after.mp h
    by_cases hroom : m₂.frames ≥ maxFrames
    · simp [hroom] at h
    · rw [if_neg hroom] at h
      exact ⟨_, _, _, .call hf hvalues (Nat.lt_of_not_le hroom), h⟩
  | set span object name value =>
    rcases List.mem_append.mp h with h | h
    · exact ⟨_, _, _, .operand rfl, h⟩
    · obtain ⟨receiver, m', hreceiver, h⟩ := mem_after.mp h
      cases receiver with
      | object cell c => exact ⟨_, _, _, .fieldValue hreceiver, h⟩
      | _ => exact absurd h List.not_mem_nil

private theorem starts_of_mem_insideCall {callee : Value ScopeId} {args : List (Value ScopeId)}
    {span : Span} (h : y ∈ insideCall sub ctx callee args span m) :
    StartsOneWith clock sub ⟨ctx, n + 1, .call callee args span, m⟩ n y := by
  cases callee with
  | function f =>
    obtain ⟨_, m', hcheck, hy⟩ := mem_after.mp h
    obtain ⟨harity, hsame⟩ := checkArity_eq_ok hcheck
    rw [hsame] at hy
    exact ⟨_, _, _, .invoke harity, hy⟩
  | cls c =>
    rw [insideCall] at h
    cases hfound : c.method? initializerName with
    | none => simp [hfound] at h
    | some initializer =>
      simp only [hfound] at h
      obtain ⟨_, m', hcheck, hy⟩ := mem_after.mp h
      obtain ⟨harity, hsame⟩ := checkArity_eq_ok hcheck
      rw [hsame] at hy
      obtain ⟨receiver, m₁, hobject, hy⟩ := mem_after.mp hy
      obtain ⟨method, m₂, hbind, hy⟩ := mem_after.mp hy
      exact ⟨_, _, _, .construct hfound harity hobject hbind, hy⟩
  | _ => exact absurd h List.not_mem_nil

private theorem starts_of_mem_insideStmt {scope : ScopeId} {s : Stmt}
    (h : y ∈ insideStmt clock sub n ctx scope s m) :
    StartsOneWith clock sub ⟨ctx, n + 1, .exec scope s, m⟩ n y := by
  cases s with
  | expr span value =>
    rw [insideStmt] at h
    obtain ⟨_, m', hemit, h⟩ := mem_after.mp h
    exact ⟨_, _, _, .expr hemit, h⟩
  | print span value =>
    rw [insideStmt] at h
    obtain ⟨_, m', hemit, h⟩ := mem_after.mp h
    exact ⟨_, _, _, .print hemit, h⟩
  | ret span value =>
    cases value with
    | none => exact absurd h List.not_mem_nil
    | some value => exact ⟨_, _, _, .ret, h⟩
  | varDecl span name value =>
    cases value with
    | none => exact absurd h List.not_mem_nil
    | some value => exact ⟨_, _, _, .varDecl, h⟩
  | funDecl | classDecl => exact absurd h List.not_mem_nil
  | block span body =>
    rw [insideStmt] at h
    obtain ⟨inner, m', hscope, h⟩ := mem_after.mp h
    exact ⟨_, _, _, .block hscope, h⟩
  | branch span condition yes no =>
    rcases List.mem_append.mp h with h | h
    · exact ⟨_, _, _, .condition, h⟩
    obtain ⟨v, m', hv, h⟩ := mem_after.mp h
    cases htruth : v.isTruthy with
    | true =>
      simp only [htruth, if_true] at h
      exact ⟨_, _, _, .yes hv htruth, h⟩
    | false =>
      simp only [htruth, Bool.false_eq_true, if_false] at h
      cases no with
      | none => exact absurd h List.not_mem_nil
      | some no => exact ⟨_, _, _, .no hv htruth, h⟩
  | loop span condition body => exact ⟨_, _, _, .loop, h⟩

private theorem starts_of_mem_inside {task : Task} (h : y ∈ inside clock sub n ctx task m) :
    StartsOneWith clock sub ⟨ctx, n + 1, task, m⟩ n y := by
  cases task with
  | eval scope e => exact starts_of_mem_insideExpr h
  | evalAll scope es =>
    cases es with
    | nil => exact absurd h List.not_mem_nil
    | cons first others =>
      rcases List.mem_append.mp h with h | h
      · exact ⟨_, _, _, .firstValue, h⟩
      · obtain ⟨v, m', hv, h⟩ := mem_after.mp h
        exact ⟨_, _, _, .otherValues hv, h⟩
  | call callee args span => exact starts_of_mem_insideCall h
  | invoke f args =>
    rw [inside] at h
    obtain ⟨scope, m', hscope, h⟩ := mem_after.mp h
    exact ⟨_, _, _, .code hscope, h⟩
  | execAll scope body =>
    cases body with
    | nil => exact absurd h List.not_mem_nil
    | cons first others =>
      rcases List.mem_append.mp h with h | h
      · exact ⟨_, _, _, .firstStmt, h⟩
      · obtain ⟨flow, m', hflow, h⟩ := mem_after.mp h
        cases flow with
        | normal => exact ⟨_, _, _, .otherStmts hflow, h⟩
        | returned value => exact absurd h List.not_mem_nil
  | exec scope s => exact starts_of_mem_insideStmt h
  | execLoop scope condition body =>
    rcases List.mem_append.mp h with h | h
    · exact ⟨_, _, _, .loopCondition, h⟩
    obtain ⟨v, m₁, hv, h⟩ := mem_after.mp h
    cases htruth : v.isTruthy with
    | false => simp [htruth] at h
    | true =>
      simp only [htruth, if_true] at h
      rcases List.mem_append.mp h with h | h
      · exact ⟨_, _, _, .loopBody hv htruth, h⟩
      · obtain ⟨flow, m₂, hflow, h⟩ := mem_after.mp h
        cases flow with
        | normal => exact ⟨_, _, _, .loopAgain hv htruth hflow, h⟩
        | returned value => exact absurd h List.not_mem_nil

end

/-- What is handed on to the tasks that a task starts holds of all of its moments. -/
theorem forall_moments {P : Moment → Prop} (hstep : ∀ x y, P x → Starts clock x y → P y) (n : Nat)
    (ctx : Context) (task : Task) (m : Machine) (h : P ⟨ctx, n, task, m⟩) :
    ∀ y ∈ moments clock n ctx task m, P y := by
  induction n generalizing ctx task m with
  | zero =>
    intro y hy
    rw [moments] at hy
    rw [List.mem_singleton.mp hy]
    exact h
  | succ n ih =>
    intro y hy
    rw [moments] at hy
    rcases List.mem_cons.mp hy with rfl | hy
    · exact h
    · obtain ⟨ctx', task', m', hstarts, hy⟩ := starts_of_mem_inside hy
      exact ih ctx' task' m' (hstep _ _ h hstarts) y hy

/-- What holds at the start of every top-level statement, because `I` holds between these, and is
handed on, holds of all moments of a program. -/
theorem forall_programMoments {P : Moment → Prop} {I : List Stmt → Machine → Prop} {fuel : Nat}
    (hstep : ∀ x y, P x → Starts clock x y → P y)
    (hfirst : ∀ first others m, I (first :: others) m → P ⟨{}, fuel, .exec globals first, m⟩)
    (hnext : ∀ first others m flow m', I (first :: others) m →
      exec clock fuel globals first m = .ok flow m' → I others m')
    (program : List Stmt) (m : Machine) (h : I program m) :
    ∀ x ∈ programMoments clock fuel program m, P x := by
  induction program generalizing m with
  | nil =>
    intro x hx
    exact absurd hx List.not_mem_nil
  | cons first others ih =>
    intro x hx
    rw [programMoments] at hx
    rcases List.mem_append.mp hx with hx | hx
    · exact forall_moments hstep fuel {} (.exec globals first) m (hfirst first others m h) x hx
    · obtain ⟨flow, m', hexec, hx⟩ := mem_after.mp hx
      exact ih m' (hnext first others m flow m' h hexec) x hx

/-- What holds of all moments of a program, because `J` holds before every source, holds of all
moments of a session. -/
theorem forall_sessionMoments {P : Moment → Prop} {J : Machine → Prop} {fuel : Nat}
    (hsource : ∀ source m, J m → ∀ x ∈ sourceMoments clock fuel source m, P x)
    (hrun : ∀ source m, J m → J (m.run clock fuel source).2) (sources : List String) (m : Machine)
    (h : J m) : ∀ x ∈ sessionMoments clock fuel sources m, P x := by
  induction sources generalizing m with
  | nil =>
    intro x hx
    exact absurd hx List.not_mem_nil
  | cons source sources ih =>
    intro x hx
    rcases List.mem_append.mp hx with hx | hx
    · exact hsource source m h x hx
    · exact ih _ (hrun source m h) x hx

end Machine

end LoxLang
