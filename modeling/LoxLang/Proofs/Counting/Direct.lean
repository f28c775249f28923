import LoxLang.Proofs.Lexical.Basic
import LoxLang.Proofs.Scoping.Proper
/-!
# Counting loops, run directly

A counting loop is read as a loop with blocks around it and in it. Here it is run
as what it is: in a scope of its own the initializer runs once, and then come the
rounds, each with the test, the body and the increment, all in that scope. Under
lexical scoping this is the same as running the tree.

Fuel bounds how deep evaluation goes. The parts of a loop get what is left for them
in its tree, so that the two also run out of fuel at the same point.
-/
namespace LoxLang

/-- The parts of a counting loop. The body is a statement, not a declaration. -/
structure ForLoop where
  init : Option Stmt
  condition : Option Expr
  increment : Option Expr
  body : Stmt
  plain : body.declared? = none

/-- The tree stands for the loop, whatever spans it has. -/
def ForLoop.HasTree (loop : ForLoop) (tree : Stmt) : Prop :=
  ∃ span test round, Grammar.Test loop.condition test ∧
    Grammar.Round loop.increment loop.body round ∧
    Grammar.Counting loop.init (.loop span test round) tree

theorem ForLoop.HasTree.declared? {loop : ForLoop} {tree : Stmt} (h : loop.HasTree tree) :
    tree.declared? = none := by
  obtain ⟨init, condition, increment, body, plain⟩ := loop
  obtain ⟨span, test, round, -, -, hcounting⟩ := h
  cases hcounting <;> rfl

/-- In its tree the body has a block around it if there is an increment. -/
def ForLoop.bodyFuel (loop : ForLoop) (n : Nat) : Nat :=
  if loop.increment.isSome then n - 2 else n

namespace Lexical

variable (clock : Nat → Float)

def followed (p q : Run (Flow Env)) : Run (Flow Env) := do
  match ← p with
  | .normal => q
  | .returned value => return .returned value

def flow (n : Nat) (env : Env) (s : Stmt) : Run (Flow Env) :=
  Prod.fst <$> exec clock n env s

/-- Whether another round begins. A condition that was left out always holds. -/
def forTest (n : Nat) (env : Env) : Option Expr → Run Bool
  | some e => (·.isTruthy) <$> eval clock n env e
  | none => return true

def forIncrement (n : Nat) (env : Env) : Option Expr → Run Unit
  | some e => do let _ ← eval clock n env e
  | none => return

/-- The rounds of a counting loop, all in the scope of the loop. -/
def forRounds (loop : ForLoop) (env : Env) : Nat → Run (Flow Env)
  | 0 => throw .outOfFuel
  | n + 1 => do
    if ← forTest clock n env loop.condition then
      followed (flow clock (loop.bodyFuel n) env loop.body) do
        forIncrement clock (n - 4) env loop.increment
        forRounds loop env n
    else return .normal

/-- A whole counting loop. The rounds see what the initializer declares in the new scope. -/
def execFor (loop : ForLoop) (env : Env) (n : Nat) : Run (Flow Env) :=
  match loop.init with
  | none => forRounds clock loop env.enter (n - 1)
  | some init => do
    match ← exec clock (n - 2) env.enter init with
    | (.normal, env) => forRounds clock loop env (n - 4)
    | (.returned value, _) => return .returned value

end Lexical

/-! ## Statements that declare nothing -/

mutual

/-- Declarations stand directly in bodies only. What functions and methods have inside is not
looked at. -/
def Stmt.Tidy : Stmt → Prop
  | .block _ body => tidyBody body
  | .branch _ _ yes no => (yes.Tidy ∧ yes.declared? = none) ∧ tidyElse no
  | .loop _ _ body => body.Tidy ∧ body.declared? = none
  | .expr .. | .print .. | .ret .. | .varDecl .. | .funDecl .. | .classDecl .. => True

def tidyElse : Option Stmt → Prop
  | some s => s.Tidy ∧ s.declared? = none
  | none => True

def tidyBody : List Stmt → Prop
  | [] => True
  | first :: others => first.Tidy ∧ tidyBody others

end

namespace Lexical

variable {clock : Nat → Float} {env env' : Env}

/-! ### Only the names of an environment matter -/

private theorem find?_congr (h : env.names = env'.names) (name : String) :
    env.find? name = env'.find? name := by
  rw [Env.find?, Env.find?, h]

private theorem lookup_congr (h : env.names = env'.names) (name : String) (span : Span) :
    lookup env name span = lookup env' name span := by
  simp only [lookup, getLocal, find?_congr h]

private theorem assign_congr (h : env.names = env'.names) (name : String) (value : Value Env)
    (span : Span) : assign env name value span = assign env' name value span := by
  simp only [assign, find?_congr h]

private theorem superMethod_congr (h : env.names = env'.names) (name : String) (span : Span) :
    superMethod env name span = superMethod env' name span := by
  simp only [superMethod, getLocal, find?_congr h]

private theorem eval_congr (h : env.names = env'.names) (n : Nat) :
    (∀ e, eval clock n env e = eval clock n env' e) ∧
      ∀ es, evalAll clock n env es = evalAll clock n env' es := by
  induction n with
  | zero =>
    constructor
    · intro e
      rw [eval, eval]
    · intro es
      rw [evalAll, evalAll]
  | succ n ih =>
    obtain ⟨heval, hall⟩ := ih
    constructor
    · intro e
      cases e <;>
        simp only [eval, heval, hall, lookup_congr h, assign_congr h, superMethod_congr h]
    · intro es
      cases es with
      | nil => rw [evalAll, evalAll]
      | cons first others => simp only [evalAll, heval, hall]

private theorem exec_zero (env : Env) (s : Stmt) : exec clock 0 env s = throw .outOfFuel := by
  rw [exec]

private theorem flow_zero (env : Env) (s : Stmt) : flow clock 0 env s = throw .outOfFuel := by
  rw [flow, exec_zero]
  rfl

def branchOf (clock : Nat → Float) (n : Nat) (env : Env) (yes : Stmt) (no : Option Stmt)
    (value : Value Env) : Run (Flow Env × Env) :=
  if value.isTruthy then exec clock n env yes
  else match no with
    | some no => exec clock n env no
    | none => return (.normal, env)

private theorem exec_branch (n : Nat) (env : Env) (span : Span) (condition : Expr) (yes : Stmt)
    (no : Option Stmt) : exec clock (n + 1) env (.branch span condition yes no) =
      eval clock n env condition >>= branchOf clock n env yes no := by
  rw [exec.eq_def]
  rfl

private theorem execLoop_succ (n : Nat) (env : Env) (condition : Expr) (body : Stmt) :
    execLoop clock (n + 1) env condition body = do
      let value ← eval clock n env condition
      if value.isTruthy then followed (flow clock n env body) (execLoop clock n env condition body)
      else return .normal := by
  rw [execLoop]
  refine bind_congr fun value => ?_
  cases value.isTruthy with
  | false => rfl
  | true =>
    simp only [if_true, followed, flow, bind_map_left]
    refine bind_congr fun r => ?_
    obtain ⟨outcome, after⟩ := r
    cases outcome <;> rfl

/-- A statement that declares nothing can as well be run in a new scope. -/
theorem flow_congr (h : env.names = env'.names) (n : Nat) :
    (∀ s : Stmt, s.Tidy → s.declared? = none → flow clock n env s = flow clock n env' s) ∧
      ∀ condition (s : Stmt), s.Tidy → s.declared? = none →
        execLoop clock n env condition s = execLoop clock n env' condition s := by
  induction n with
  | zero =>
    constructor
    · intro s _ _
      rw [flow_zero, flow_zero]
    · intro condition s _ _
      rw [execLoop, execLoop]
  | succ n ih =>
    obtain ⟨hflow, hloop⟩ := ih
    have heval : ∀ e, eval clock n env e = eval clock n env' e := (eval_congr h n).1
    constructor
    · intro s htidy hplain
      cases s with
      | expr | print => simp only [flow, exec, map_bind, map_pure, heval]
      | ret span value =>
        cases value <;> simp only [flow, exec, map_bind, map_pure, heval]
      | varDecl | funDecl | classDecl => exact absurd hplain (Option.some_ne_none _)
      | block span body => simp only [flow, exec, map_bind, map_pure, Env.enter, h]
      | branch span condition yes no =>
        obtain ⟨⟨hyes, hyesPlain⟩, hno⟩ := htidy
        simp only [flow, exec_branch, map_bind, heval]
        refine bind_congr fun value => ?_
        unfold branchOf
        cases value.isTruthy with
        | true => exact hflow yes hyes hyesPlain
        | false =>
          cases no with
          | none => simp
          | some no => exact hflow no hno.1 hno.2
      | loop span condition body =>
        simp only [flow, exec, map_bind, map_pure, hloop condition body htidy.1 htidy.2]
    · intro condition s htidy hplain
      rw [execLoop_succ, execLoop_succ, heval, hflow s htidy hplain,
        hloop condition s htidy hplain]

private theorem exec_plain (n : Nat) {s : Stmt} (htidy : s.Tidy) (hplain : s.declared? = none) :
    exec clock n env s = (·, env) <$> flow clock n env s := by
  induction n generalizing s with
  | zero =>
    rw [flow_zero, exec]
    rfl
  | succ n ih =>
    cases s with
    | expr | print => simp only [flow, exec, map_bind, map_pure]
    | ret span value => cases value <;> simp only [flow, exec, map_bind, map_pure]
    | varDecl | funDecl | classDecl => exact absurd hplain (Option.some_ne_none _)
    | block span body => simp only [flow, exec, map_bind, map_pure]
    | loop span condition body => simp only [flow, exec, map_bind, map_pure]
    | branch span condition yes no =>
      obtain ⟨⟨hyes, hyesPlain⟩, hno⟩ := htidy
      simp only [flow, exec_branch, map_bind]
      refine bind_congr fun value => ?_
      unfold branchOf
      cases value.isTruthy with
      | true => exact ih hyes hyesPlain
      | false =>
        cases no with
        | none => simp
        | some no => exact ih hno.1 hno.2

/-! ### The tree of a counting loop -/

private theorem followed_normal (p : Run (Flow Env)) : followed p (return .normal) = p := by
  have hpure : ∀ outcome : Flow Env, (match outcome with
      | .normal => pure .normal
      | .returned value => pure (.returned value) : Run (Flow Env)) = pure outcome := by
    intro outcome
    cases outcome <;> rfl
  simp only [followed, hpure, bind_pure]

private theorem followed_throw (halt : Halt) (q : Run (Flow Env)) :
    followed (throw halt) q = throw halt := rfl

private theorem followed_followed {α : Type} (p q : Run (Flow Env)) (step : Run α) :
    followed (followed p (step >>= fun _ => return .normal)) q =
      followed p (step >>= fun _ => q) := by
  simp only [followed, bind_assoc]
  refine bind_congr fun outcome => ?_
  cases outcome with
  | normal => simp only [bind_assoc, pure_bind]
  | returned value => rfl

private theorem execAll_cons (n : Nat) {first : Stmt} (others : List Stmt) (htidy : first.Tidy)
    (hplain : first.declared? = none) : execAll clock (n + 1) env (first :: others) =
      followed (flow clock n env first) (execAll clock n env others) := by
  rw [execAll, exec_plain n htidy hplain, bind_map_left]
  refine bind_congr fun outcome => ?_
  cases outcome <;> rfl

private theorem execAll_singleton (n : Nat) {s : Stmt} (htidy : s.Tidy)
    (hplain : s.declared? = none) :
    execAll clock (n + 1) env [s] = flow clock n env s := by
  rw [execAll_cons n [] htidy hplain]
  cases n with
  | zero => rw [flow_zero, followed_throw]
  | succ n => rw [execAll, followed_normal]

private theorem flow_expr (n : Nat) (span : Span) (e : Expr) :
    flow clock n env (.expr span e) = eval clock (n - 1) env e >>= fun _ => return .normal := by
  cases n with
  | zero =>
    rw [flow_zero, eval]
    rfl
  | succ n => simp only [flow, exec, map_bind, map_pure, Nat.add_sub_cancel]

private theorem flow_loop (n : Nat) (span : Span) (condition : Expr) (body : Stmt) :
    flow clock n env (.loop span condition body) = execLoop clock (n - 1) env condition body := by
  cases n with
  | zero => rw [flow_zero, execLoop]
  | succ n => simp only [flow, exec, map_bind, map_pure, bind_pure, Nat.add_sub_cancel]

private theorem flow_block (n : Nat) (span : Span) (body : List Stmt) :
    flow clock (n + 1) env (.block span body) = execAll clock n env.enter body := by
  simp only [flow, exec, map_bind, map_pure, bind_pure]

/-- A round with an increment. The increment sees what the body sees. -/
theorem flow_round (n : Nat) (span span' : Span) {body : Stmt} (e : Expr) (htidy : body.Tidy)
    (hplain : body.declared? = none) :
    flow clock n env (.block span [body, .expr span' e]) =
      followed (flow clock (n - 2) env body)
        (eval clock (n - 4) env e >>= fun _ => return .normal) := by
  match n with
  | 0 => rw [flow_zero, flow_zero, followed_throw]
  | 1 => rw [flow_block, execAll, flow_zero, followed_throw]
  | 2 => rw [flow_block, execAll_cons 0 _ htidy hplain, flow_zero, flow_zero, followed_throw,
      followed_throw]
  | n + 3 =>
    have hsame : env.enter.names = env.names := rfl
    have hexpr : (Stmt.expr span' e).Tidy := trivial
    have hdepth : n + 3 - 4 = n - 1 := by omega
    rw [flow_block, execAll_cons (n + 1) _ htidy hplain, execAll_singleton n hexpr rfl, flow_expr,
      (flow_congr hsame (n + 1)).1 body htidy hplain, (eval_congr hsame (n - 1)).1 e, hdepth]
    rfl

private theorem execLoop_eq_forRounds {loop : ForLoop} {test : Expr} {round : Stmt}
    (htest : Grammar.Test loop.condition test)
    (hround : Grammar.Round loop.increment loop.body round) (htidy : round.Tidy) (env : Env)
    (n : Nat) : execLoop clock n env test round = forRounds clock loop env n := by
  induction n with
  | zero => rw [execLoop, forRounds]
  | succ n ih =>
    -- The code of one round, and then all the others.
    have hbody : followed (flow clock n env round) (execLoop clock n env test round) =
        followed (flow clock (loop.bodyFuel n) env loop.body)
          (forIncrement clock (n - 4) env loop.increment >>= fun _ =>
            forRounds clock loop env n) := by
      rw [ih]
      obtain ⟨init, condition, increment, body, hplain⟩ := loop
      cases hround with
      | plain =>
        simp only [ForLoop.bodyFuel, forIncrement, pure_bind]
        rfl
      | increment =>
        rw [flow_round n _ _ _ htidy.1 hplain, followed_followed]
        simp only [ForLoop.bodyFuel, forIncrement, bind_assoc, pure_bind]
        rfl
    rw [execLoop_succ, forRounds, hbody]
    cases hcondition : loop.condition with
    | some e =>
      rw [hcondition] at htest
      cases htest with
      | given => simp only [forTest, bind_map_left]
    | none =>
      rw [hcondition] at htest
      cases htest with
      | always =>
        simp only [forTest, pure_bind, if_true]
        cases n with
        | zero =>
          have hfuel : loop.bodyFuel 0 = 0 := by simp [ForLoop.bodyFuel]
          rw [eval, hfuel, flow_zero, followed_throw]
          rfl
        | succ n =>
          rw [eval, pure_bind]
          rfl

/-- Under lexical scoping, a counting loop and its tree do the same. -/
theorem flow_eq_execFor {loop : ForLoop} {tree : Stmt} (htree : loop.HasTree tree)
    (htidy : tree.Tidy) (env : Env) (n : Nat) :
    flow clock n env tree = execFor clock loop env n := by
  obtain ⟨span, test, round, htest, hround, hcounting⟩ := htree
  unfold execFor
  cases hinit : loop.init with
  | none =>
    rw [hinit] at hcounting
    cases hcounting with
    | plain =>
      have hsame : env.names = env.enter.names := rfl
      rw [flow_loop, (flow_congr hsame (n - 1)).2 test round htidy.1 htidy.2,
        execLoop_eq_forRounds htest hround htidy.1]
  | some init =>
    rw [hinit] at hcounting
    cases hcounting with
    | initialized =>
      obtain ⟨-, hloop, -⟩ := htidy
      dsimp only
      match n with
      | 0 =>
        rw [flow_zero, Nat.zero_sub, exec_zero]
        rfl
      | 1 =>
        have hnone : 1 - 2 = 0 := rfl
        rw [flow_block, execAll, hnone, exec_zero]
        rfl
      | 2 =>
        rw [flow_block, execAll, exec]
        rfl
      | n + 3 =>
        have hdepth : n + 3 - 4 = n - 1 := by omega
        have hinitDepth : n + 3 - 2 = n + 1 := rfl
        rw [flow_block, execAll, hdepth, hinitDepth]
        refine bind_congr fun r => ?_
        obtain ⟨outcome, inner⟩ := r
        cases outcome with
        | returned value => rfl
        | normal =>
          show execAll clock (n + 1) inner [.loop span test round] = _
          rw [execAll_singleton n hloop rfl, flow_loop, execLoop_eq_forRounds htest hround hloop.1]

end Lexical

end LoxLang
