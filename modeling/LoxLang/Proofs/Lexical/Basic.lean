import LoxLang.Session
/-!
# Lexical scoping

A reference for what names mean. Here no distance is looked at. An environment is
an immutable map from names to locations: every local declaration extends it by a
new location, and a closure keeps the environment that it was made in. A name that
the environment does not have is looked up among the globals. Everything else is
as on the machine.
-/
namespace LoxLang.Lexical

/-- The local names that code can see, each with its location, innermost first. Outside of all
blocks and functions there are none, and what is declared there is global. -/
inductive Env
  | global
  | inner (names : List (String × Nat))

namespace Env

def names : Env → List (String × Nat)
  | global => []
  | inner names => names

def find? (env : Env) (name : String) : Option Nat :=
  env.names.lookup name

def extend (env : Env) (name : String) (location : Nat) : Env :=
  inner ((name, location) :: env.names)

def enter (env : Env) : Env :=
  inner env.names

end Env

/-- The state of a run. -/
structure State where
  /-- The local variables; one that is still being initialized has no value. -/
  cells : Array (Option (Value Env))
  globals : Bindings (Value Env)
  objects : Array (Bindings (Value Env))
  identity : Nat
  frames : Nat
  output : Output
  readings : Nat

def State.cell? (s : State) (location : Nat) : Option (Value Env) :=
  s.cells[location]?.join

abbrev Run := EStateM Halt State

def initial (room : Option Nat) : State where
  cells := #[]
  globals := Bindings.empty.insert "clock" (.native .clock)
  objects := #[]
  identity := 0
  frames := 0
  output := { room }
  readings := 0

def raise {α : Type} (error : Error) (span : Span) : Run α :=
  throw (.raised ⟨error, span⟩)

def fault {α : Type} (what : Fault) : Run α :=
  throw (.broken what)

def alloc (value : Option (Value Env)) : Run Nat :=
  modifyGet fun s => (s.cells.size, { s with cells := s.cells.push value })

def store (location : Nat) (value : Value Env) : Run Unit :=
  modify fun s => { s with cells := s.cells.setIfInBounds location (some value) }

def defineGlobal (name : String) (value : Value Env) : Run Unit :=
  modify fun s => { s with globals := s.globals.insert name value }

/-- The environment after the declaration of a name, which has no value yet. -/
def declare (env : Env) (name : String) : Run Env :=
  match env with
  | .global => return .global
  | .inner _ => env.extend name <$> alloc none

def define (env : Env) (name : String) (value : Value Env) : Run Unit :=
  match env.find? name with
  | some location => store location value
  | none => defineGlobal name value

def bindName (env : Env) (name : String) (value : Value Env) : Run Env :=
  env.extend name <$> alloc (some value)

def bindNames : Env → List (String × Value Env) → Run Env
  | env, [] => return env
  | env, (name, value) :: rest => do bindNames (← bindName env name value) rest

def getLocal (env : Env) (name : String) : Run (Value Env) := do
  match (env.find? name).bind (← get).cell? with
  | some value => return value
  | none => fault (.unbound name)

/-- Reads a variable: a local one, or else a global one. -/
def lookup (env : Env) (name : String) (span : Span) : Run (Value Env) := do
  if (env.find? name).isSome then getLocal env name
  else match (← get).globals.get? name with
    | some value => return value
    | none => raise (.notDefined name) span

/-- Assigns to a variable: a local one, or else a global one that is there already. -/
def assign (env : Env) (name : String) (value : Value Env) (span : Span) : Run Unit := do
  match env.find? name with
  | some location => store location value
  | none =>
    if (← get).globals.binds name then defineGlobal name value
    else raise (.notDefined name) span

def newClosure (decl : FunDecl) (env : Env) (isInitializer : Bool) : Run (Closure Env) :=
  modifyGet fun s =>
    (⟨s.identity, decl, env, isInitializer⟩, { s with identity := s.identity + 1 })

def newClass (name : String) (superclass : Option (Class Env)) (methods : Bindings (Closure Env)) :
    Run (Class Env) :=
  modifyGet fun s =>
    (⟨s.identity, name, superclass, methods⟩, { s with identity := s.identity + 1 })

def newObject (c : Class Env) : Run (Value Env) :=
  modifyGet fun s => (.object s.objects.size c, { s with objects := s.objects.push .empty })

def bind (method : Closure Env) (receiver : Value Env) : Run (Closure Env) := do
  let env ← bindName method.env "this" receiver
  newClosure method.decl env method.isInitializer

def newMethods (env : Env) : List FunDecl → Bindings (Closure Env) → Run (Bindings (Closure Env))
  | [], methods => return methods
  | decl :: rest, methods => do
    let method ← newClosure decl env decl.isInitializer
    newMethods env rest (methods.insert decl.name method)

def property (receiver : Value Env) (name : String) (span : Span) : Run (Value Env) := do
  match receiver with
  | .object cell c =>
    match ((← get).objects.getD cell .empty).get? name with
    | some value => return value
    | none =>
      match c.method? name with
      | some method => .function <$> bind method receiver
      | none => raise (.noSuchAttribute c.name name) span
  | other => raise (.propertyOnNonInstance other.typeName name) span

def setField (cell : Nat) (name : String) (value : Value Env) : Run Unit :=
  modify fun s => { s with objects := s.objects.modify cell (·.insert name value) }

def superMethod (env : Env) (name : String) (span : Span) : Run (Value Env) := do
  match ← getLocal env "super" with
  | .cls c =>
    match ← getLocal env "this" with
    | .object cell d =>
      match c.method? name with
      | some method => .function <$> bind method (.object cell d)
      | none => raise (.noSuchAttribute c.name name) span
    | _ => fault .thisNotInstance
  | _ => fault .superNotClass

/-- Ends the declaration of a class: makes its methods, which see the environment `inner`, and
gives the class to its name. -/
def declareClass (env inner : Env) (name : String) (superclass : Option (Class Env))
    (decls : List FunDecl) : Run Unit := do
  let methods ← newMethods inner decls .empty
  let c ← newClass name superclass methods
  define env name (.cls c)

def writeLine (text : String) (span : Span) : Run Unit := do
  let ok ← modifyGet fun s =>
    let (output, ok) := s.output.write (text ++ "\n").toUTF8
    (ok, { s with output })
  unless ok do raise (.writeFailed "stdout") span

def readClock (clock : Nat → Float) : Run (Value Env) :=
  modifyGet fun s => (.number (clock s.readings), { s with readings := s.readings + 1 })

def checkArity (name : String) (expected got : Nat) (span : Span) : Run Unit :=
  unless expected = got do raise (.arityMismatch name expected got) span

def inFrame {α : Type} (span : Span) (body : Run α) : Run α := fun s =>
  if s.frames ≥ Machine.maxFrames then .error (.raised ⟨.stackOverflow, span⟩) s
  else
    match body { s with frames := s.frames + 1 } with
    | .ok value s => .ok value { s with frames := s.frames - 1 }
    | .error halt s => .error halt { s with frames := s.frames - 1 }

def settle (result : Except Error (Value Env)) (span : Span) : Run (Value Env) :=
  match result with
  | .ok value => return value
  | .error e => raise e span

def callResult (f : Closure Env) (flow : Flow Env) : Run (Value Env) :=
  if f.isInitializer then getLocal f.env "this"
  else match flow with
    | .returned value => return value
    | .normal => return .nil

variable (clock : Nat → Float)

mutual

def eval : Nat → Env → Expr → Run (Value Env)
  | 0, _, _ => throw .outOfFuel
  | n + 1, env, e =>
    match e with
    | .literal _ value => return .ofLiteral value
    | .var span ref => lookup env ref.name span
    | .this span _ => lookup env "this" span
    | .super span _ method => superMethod env method span
    | .grouping _ inner => eval n env inner
    | .unary span op operand => do
      let value ← eval n env operand
      settle (op.apply value) span
    | .binary span op left right => do
      let a ← eval n env left
      let b ← eval n env right
      settle (op.apply a b) span
    | .logical _ op left right => do
      let a ← eval n env left
      match op, a.isTruthy with
      | .or, true | .and, false => return a
      | _, _ => eval n env right
    | .assign span target value => do
      let value ← eval n env value
      assign env target.name value span
      return value
    | .call span callee args => do
      let callee ← eval n env callee
      let args ← evalAll n env args
      inFrame span (call n callee args span)
    | .get span object name => do
      let receiver ← eval n env object
      property receiver name span
    | .set span object name value => do
      match ← eval n env object with
      | .object cell _ =>
        let value ← eval n env value
        setField cell name value
        return value
      | other => raise (.fieldOnNonInstance other.typeName name) span

def evalAll : Nat → Env → List Expr → Run (List (Value Env))
  | 0, _, _ => throw .outOfFuel
  | _ + 1, _, [] => return []
  | n + 1, env, first :: others => do
    let value ← eval n env first
    let values ← evalAll n env others
    return value :: values

def call : Nat → Value Env → List (Value Env) → Span → Run (Value Env)
  | 0, _, _, _ => throw .outOfFuel
  | n + 1, callee, args, span =>
    match callee with
    | .function f => do
      checkArity f.decl.name f.decl.params.length args.length span
      invoke n f args
    | .cls c =>
      match c.method? initializerName with
      | some initializer => do
        checkArity c.name initializer.decl.params.length args.length span
        let receiver ← newObject c
        let method ← bind initializer receiver
        let _ ← invoke n method args
        return receiver
      | none => do
        checkArity c.name 0 args.length span
        newObject c
    | .native .clock => do
      checkArity "clock" 0 args.length span
      readClock clock
    | other => raise (.notCallable other.typeName) span

/-- Runs the body of a function; every parameter has a location of its own. -/
def invoke : Nat → Closure Env → List (Value Env) → Run (Value Env)
  | 0, _, _ => throw .outOfFuel
  | n + 1, f, args => do
    let env ← bindNames f.env.enter (f.decl.params.zip args)
    let flow ← execAll n env f.decl.body
    callResult f flow

/-- Runs statements in order; each sees what the ones before it declared. -/
def execAll : Nat → Env → List Stmt → Run (Flow Env)
  | 0, _, _ => throw .outOfFuel
  | _ + 1, _, [] => return .normal
  | n + 1, env, first :: others => do
    match ← exec n env first with
    | (.normal, env) => execAll n env others
    | (.returned value, _) => return .returned value

/-- Runs a statement. The second component is the environment after it. -/
def exec : Nat → Env → Stmt → Run (Flow Env × Env)
  | 0, _, _ => throw .outOfFuel
  | n + 1, env, stmt =>
    match stmt with
    | .expr _ value => do
      let _ ← eval n env value
      return (.normal, env)
    | .print span value => do
      let result ← eval n env value
      writeLine result.display span
      return (.normal, env)
    | .ret _ (some value) => do
      let result ← eval n env value
      return (.returned result, env)
    | .ret _ none => return (.returned .nil, env)
    | .varDecl _ name (some value) => do
      let env ← declare env name
      let result ← eval n env value
      define env name result
      return (.normal, env)
    | .varDecl _ name none => do
      let env ← declare env name
      define env name .nil
      return (.normal, env)
    | .funDecl decl => do
      let env ← declare env decl.name
      let f ← newClosure decl env false
      define env decl.name (.function f)
      return (.normal, env)
    | .classDecl _ name none methods => do
      let env ← declare env name
      define env name .nil
      declareClass env env name none methods
      return (.normal, env)
    | .classDecl _ name (some superclass) methods => do
      let env ← declare env name
      define env name .nil
      match ← lookup env superclass.value.name superclass.span with
      | .cls above =>
        let inner ← bindName env "super" (.cls above)
        declareClass env inner name (some above) methods
        return (.normal, env)
      | other => raise (.superclassInvalidType other.typeName) superclass.span
    | .block _ body => do
      let flow ← execAll n env.enter body
      return (flow, env)
    | .branch _ condition yes no => do
      let value ← eval n env condition
      if value.isTruthy then exec n env yes
      else match no with
        | some no => exec n env no
        | none => return (.normal, env)
    | .loop _ condition body => do
      let flow ← execLoop n env condition body
      return (flow, env)

def execLoop : Nat → Env → Expr → Stmt → Run (Flow Env)
  | 0, _, _, _ => throw .outOfFuel
  | n + 1, env, condition, body => do
    let value ← eval n env condition
    if value.isTruthy then
      match ← exec n env body with
      | (.normal, _) => execLoop n env condition body
      | (.returned value, _) => return .returned value
    else return .normal

end

def runAll (fuel : Nat) : List Stmt → Run Unit
  | [] => return
  | first :: others => do
    let _ ← exec clock fuel .global first
    runAll fuel others

def execute (fuel : Nat) (program : List Stmt) (s : State) : Outcome × State :=
  match runAll clock fuel program { s with frames := 0 } with
  | .ok _ s => (.finished, s)
  | .error (.raised e) s => (.failed e, s)
  | .error (.broken fault) s => (.broken fault, s)
  | .error .outOfFuel s => (.outOfFuel, s)

/-- Reads, checks and runs a source. The check gives errors; its distances are not used. -/
def step (fuel : Nat) (source : String) (s : State) : Outcome × State :=
  let parsed := parse source
  let errors := (resolve parsed.program).errors
  if !parsed.errors.isEmpty then (.malformed parsed.errors, s)
  else if !errors.isEmpty then (.rejected errors, s)
  else execute clock fuel parsed.program s

/-- What stays for the next source: all but the output. -/
def State.flushed (s : State) : State :=
  { s with output := { s.output with written := .empty } }

def session (fuel : Nat) : List String → State → State
  | [], s => s
  | source :: sources, s => session fuel sources (step clock fuel source s).2.flushed

end LoxLang.Lexical
