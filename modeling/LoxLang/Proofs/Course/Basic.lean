import LoxLang.Proofs.Scoping.Resolves
/-!
# The course of a run

Everything that a run goes through. A run is made of tasks: expressions and
statements to evaluate, values to call. A moment is the start of a task, with the
machine as it is then and with what is known from the tasks around it: which calls
are running, and which variable is being initialized. The moments of a run are
listed in the order in which they come.
-/
namespace LoxLang

variable {ε : Type}

def Flow.values : Flow ε → List (Value ε)
  | .normal => []
  | .returned value => [value]

namespace Machine

/-- The machine at the end of a step, however the step ends. -/
def ending {α : Type} : EStateM.Result Halt Machine α → Machine
  | .ok _ m | .error _ m => m

/-- What the evaluator can be asked to do. -/
inductive Task
  | eval (scope : ScopeId) (e : Expr)
  | evalAll (scope : ScopeId) (es : List Expr)
  | call (callee : Value ScopeId) (args : List (Value ScopeId)) (span : Span)
  | invoke (f : Closure ScopeId) (args : List (Value ScopeId))
  | execAll (scope : ScopeId) (body : List Stmt)
  | exec (scope : ScopeId) (s : Stmt)
  | execLoop (scope : ScopeId) (condition : Expr) (body : Stmt)

namespace Task

def values : Task → List (Value ScopeId)
  | .call callee args _ => callee :: args
  | .invoke f args => .function f :: args
  | _ => []

def run (clock : Nat → Float) (n : Nat) : Task → Run (List (Value ScopeId))
  | .eval scope e => ([·]) <$> Machine.eval clock n scope e
  | .evalAll scope es => Machine.evalAll clock n scope es
  | .call callee args span => ([·]) <$> Machine.call clock n callee args span
  | .invoke f args => ([·]) <$> Machine.invoke clock n f args
  | .execAll scope body => Flow.values <$> Machine.execAll clock n scope body
  | .exec scope s => Flow.values <$> Machine.exec clock n scope s
  | .execLoop scope condition body => Flow.values <$> Machine.execLoop clock n scope condition body

end Task

/-- What is known from the tasks around a task. -/
structure Context where
  /-- The places of the calls that are running, innermost first. -/
  running : List Span := []
  /-- The variable whose initializer the task is a part of. -/
  initializing : Option (ScopeId × String) := none

def Context.inCall (ctx : Context) (span : Span) : Context where
  running := span :: ctx.running

/-- The start of a task. -/
structure Moment extends Context where
  fuel : Nat
  task : Task
  machine : Machine

namespace Moment

variable (clock : Nat → Float) (x : Moment)

def result : EStateM.Result Halt Machine (List (Value ScopeId)) :=
  x.task.run clock x.fuel x.machine

def ending : Machine :=
  Machine.ending (x.result clock)

def yields : List (Value ScopeId) :=
  match x.result clock with
  | .ok values _ => values
  | .error _ _ => []

end Moment

/-- The moments after a step, if it has a result. -/
def after {α : Type} (result : EStateM.Result Halt Machine α)
    (next : α → Machine → List Moment) : List Moment :=
  match result with
  | .ok a m => next a m
  | .error _ _ => []

variable (clock : Nat → Float)

section
variable (sub : Context → Task → Machine → List Moment) (n : Nat) (ctx : Context)

/-- The moments inside of an expression with `n + 1` fuel; `sub` lists those of a task with `n`. -/
def insideExpr (scope : ScopeId) : Expr → Machine → List Moment
  | .literal .., _ | .var .., _ | .this .., _ | .super .., _ => []
  | .grouping _ e, m | .unary _ _ e, m | .assign _ _ e, m | .get _ e _, m =>
    sub ctx (.eval scope e) m
  | .binary _ _ left right, m =>
    sub ctx (.eval scope left) m ++ after (eval clock n scope left m) fun _ m =>
      sub ctx (.eval scope right) m
  | .logical _ op left right, m =>
    sub ctx (.eval scope left) m ++ after (eval clock n scope left m) fun a m =>
      match op, a.isTruthy with
      | .or, true | .and, false => []
      | _, _ => sub ctx (.eval scope right) m
  | .call span callee args, m =>
    sub ctx (.eval scope callee) m ++ after (eval clock n scope callee m) fun f m =>
      sub ctx (.evalAll scope args) m ++ after (evalAll clock n scope args m) fun values m =>
        -- A call that is one too many does not begin.
        if m.frames ≥ maxFrames then []
        else sub (ctx.inCall span) (.call f values span) { m with frames := m.frames + 1 }
  | .set _ object _ value, m =>
    sub ctx (.eval scope object) m ++ after (eval clock n scope object m) fun
      | .object .., m => sub ctx (.eval scope value) m
      | _, _ => []

def insideCall (callee : Value ScopeId) (args : List (Value ScopeId)) (span : Span)
    (m : Machine) : List Moment :=
  match callee with
  | .function f =>
    after (checkArity f.decl.name f.decl.params.length args.length span m) fun _ m =>
      sub ctx (.invoke f args) m
  | .cls c =>
    match c.method? initializerName with
    | some initializer =>
      after (checkArity c.name initializer.decl.params.length args.length span m) fun _ m =>
        after (newObject c m) fun receiver m =>
          after (bind initializer receiver m) fun method m => sub ctx (.invoke method args) m
    | none => []
  | _ => []

def insideStmt (scope : ScopeId) : Stmt → Machine → List Moment
  | .expr _ value, m =>
    after (emit (.evaluating value) m) fun _ m => sub ctx (.eval scope value) m
  | .print _ value, m =>
    after (emit (.printing value) m) fun _ m => sub ctx (.eval scope value) m
  | .ret _ (some value), m => sub ctx (.eval scope value) m
  | .varDecl _ name (some value), m =>
    sub { ctx with initializing := some (scope, name) } (.eval scope value) m
  | .ret _ none, _ | .varDecl _ _ none, _ | .funDecl _, _ | .classDecl .., _ => []
  | .block _ body, m =>
    after (newScope scope .empty m) fun inner m => sub ctx (.execAll inner body) m
  | .branch _ condition yes no, m =>
    sub ctx (.eval scope condition) m ++ after (eval clock n scope condition m) fun value m =>
      if value.isTruthy then sub ctx (.exec scope yes) m
      else match no with
        | some no => sub ctx (.exec scope no) m
        | none => []
  | .loop _ condition body, m => sub ctx (.execLoop scope condition body) m

def inside : Task → Machine → List Moment
  | .eval scope e, m => insideExpr clock sub n ctx scope e m
  | .evalAll _ [], _ => []
  | .evalAll scope (first :: others), m =>
    sub ctx (.eval scope first) m ++ after (eval clock n scope first m) fun _ m =>
      sub ctx (.evalAll scope others) m
  | .call callee args span, m => insideCall sub ctx callee args span m
  | .invoke f args, m =>
    after (newScope f.env (Bindings.empty.insertMany (f.decl.params.zip args)) m) fun scope m =>
      sub ctx (.execAll scope f.decl.body) m
  | .execAll _ [], _ => []
  | .execAll scope (first :: others), m =>
    sub ctx (.exec scope first) m ++ after (exec clock n scope first m) fun
      | .normal, m => sub ctx (.execAll scope others) m
      | .returned _, _ => []
  | .exec scope s, m => insideStmt clock sub n ctx scope s m
  | .execLoop scope condition body, m =>
    sub ctx (.eval scope condition) m ++ after (eval clock n scope condition m) fun value m =>
      if value.isTruthy then
        sub ctx (.exec scope body) m ++ after (exec clock n scope body m) fun
          | .normal, m => sub ctx (.execLoop scope condition body) m
          | .returned _, _ => []
      else []

end

/-- The moments of a task: its own start, and all that it starts. -/
def moments : Nat → Context → Task → Machine → List Moment
  | 0, ctx, task, machine => [⟨ctx, 0, task, machine⟩]
  | n + 1, ctx, task, machine =>
    ⟨ctx, n + 1, task, machine⟩ :: inside clock (moments n) n ctx task machine

def programMoments (fuel : Nat) : List Stmt → Machine → List Moment
  | [], _ => []
  | first :: others, m =>
    moments clock fuel {} (.exec globals first) m ++
      after (exec clock fuel globals first m) fun _ m => programMoments fuel others m

/-! ## Sources and sessions -/

/-- The statements of a source that are run: all of them, or none if there are static errors. -/
def runnable (source : String) : List Stmt :=
  let program := (parse source).program
  if (parse source).errors = [] ∧ (resolve program).errors = [] then (resolve program).program
  else []

def opened (m : Machine) (source : String) : Machine :=
  let resolution := resolve (parse source).program
  let events := m.events.push .resolving ++ resolution.lookups.map Event.resolved
  { m with events := events.push (.running resolution.program.length), frames := 0 }

def conclude : EStateM.Result Halt Machine Unit → Outcome × Machine
  | .ok _ m => (.finished, m)
  | .error (.raised e) m => (.failed e, { m with events := m.events.push (.runtimeError e.value) })
  | .error (.broken fault) m => (.broken fault, m)
  | .error .outOfFuel m => (.outOfFuel, m)

private theorem execute_opened (fuel : Nat) (program : List Stmt) (m : Machine) (source : String) :
    (m.opened source).execute clock fuel program =
      conclude (runAll clock fuel program (m.opened source)) := by
  have hsame : { m.opened source with frames := 0 } = m.opened source := rfl
  unfold execute
  rw [hsame]
  cases runAll clock fuel program (m.opened source) with
  | ok value m' => rfl
  | error halt m' => cases halt <;> rfl

@[simp] theorem withEvents_frames (m : Machine) (events : Array Event) :
    (m.withEvents events).frames = m.frames := rfl

@[simp] theorem withEvents_output (m : Machine) (events : Array Event) :
    (m.withEvents events).output = m.output := rfl

@[simp] theorem flushed_frames (m : Machine) : m.flushed.frames = m.frames := rfl

theorem run_machine (fuel : Nat) (source : String) (m : Machine) :
    (m.run clock fuel source).2 = (m.step clock fuel source).2.flushed := by
  rw [run_eq]

theorem conclude_machine (r : EStateM.Result Halt Machine Unit) :
    ∃ events, (conclude r).2 = (ending r).withEvents events := by
  cases r with
  | ok value m => exact ⟨m.events, rfl⟩
  | error halt m =>
    cases halt with
    | raised error => exact ⟨m.events.push (.runtimeError error.value), rfl⟩
    | _ => exact ⟨m.events, rfl⟩

theorem conclude_runtimeError (r : EStateM.Result Halt Machine Unit) (e : Located Error) :
    (conclude r).1.runtimeError = some e ↔ ∃ m, r = .error (.raised e) m := by
  cases r with
  | ok value m => simp [conclude, Outcome.runtimeError]
  | error halt m => cases halt <;> simp [conclude, Outcome.runtimeError]

/-- A source is run, or it has static errors and only these are logged. -/
theorem step_cases (fuel : Nat) (source : String) :
    (∀ m : Machine, m.step clock fuel source =
      conclude (runAll clock fuel (runnable source) (m.opened source))) ∨
    (runnable source = [] ∧ ∃ (outcome : Outcome) (log : Array Event → Array Event),
      outcome.runtimeError = none ∧
      ∀ m : Machine, m.step clock fuel source = (outcome, m.withEvents (log m.events))) := by
  by_cases hparse : (parse source).errors = []
  · have hended := globalEnded_resolve (proper_of_parse hparse).1
    by_cases hresolve : (resolve (parse source).program).errors = []
    · refine .inl fun m => ?_
      rw [← execute_opened]
      simp [step, runnable, opened, execute, hparse, hresolve, hended]
    · refine .inr ⟨by simp [runnable, hresolve], .rejected (resolve (parse source).program).errors,
        fun events => (events.push .resolving ++
          (resolve (parse source).program).lookups.map Event.resolved).push
            (.resolutionErrors (resolve (parse source).program).errors.length), rfl, fun m => ?_⟩
      simp [step, hparse, hresolve, hended, withEvents]
  · refine .inr ⟨by simp [runnable, hparse], .malformed (parse source).errors,
      fun events => events.push (.syntaxErrors (parse source).errors.length), rfl, fun m => ?_⟩
    simp [step, hparse, withEvents]

def sourceMoments (fuel : Nat) (source : String) (m : Machine) : List Moment :=
  programMoments clock fuel (runnable source) (m.opened source)

/-- The moments of sources that run in order. -/
def sessionMoments (fuel : Nat) : List String → Machine → List Moment
  | [], _ => []
  | source :: sources, m =>
    sourceMoments clock fuel source m ++ sessionMoments fuel sources (m.run clock fuel source).2

end Machine

end LoxLang
