import LoxLang.Event
import LoxLang.Machine.Operation
import LoxLang.Machine.Output
import LoxLang.Machine.Scopes
/-!
# The machine

Everything that a running program can change, and the elementary steps on it. A
step gives a result or halts the run; a run halts for an error of the program,
for lack of fuel, or because the machine itself is broken. The last never
happens to a program that was resolved without errors.
-/
namespace LoxLang

structure Machine where
  /-- All scopes; the first is the global one. -/
  scopes : Scopes
  /-- The fields of every instance. -/
  objects : Array (Bindings (Value ScopeId))
  identity : Nat
  frames : Nat
  output : Output
  readings : Nat
  events : Array Event

/-- Ways in which resolution can lose count of its scopes, or a machine can contradict what
resolution promised. -/
inductive Fault
  | globalScopeEnded
  | noScope
  | unbound (name : String)
  | superUnresolved
  | superNotClass
  | thisNotInstance
deriving DecidableEq

/-- Why a run stops early. -/
inductive Halt
  | raised (error : Located Error)
  | broken (fault : Fault)
  | outOfFuel
deriving DecidableEq

abbrev Run := EStateM Halt Machine

namespace Machine

/-- The number of calls that may run inside each other. -/
def maxFrames : Nat := 1024

def globals : ScopeId := 0

/-- A machine at the start of a session, with room for the given number of bytes of output. -/
def initial (room : Option Nat) : Machine where
  scopes := ⟨#[⟨Bindings.empty.insert "clock" (.native .clock), none⟩]⟩
  objects := #[]
  identity := 0
  frames := 0
  output := { room }
  readings := 0
  events := #[]

def raise {α : Type} (error : Error) (span : Span) : Run α :=
  throw (.raised ⟨error, span⟩)

def fault {α : Type} (what : Fault) : Run α :=
  throw (.broken what)

def emit (event : Event) : Run Unit :=
  modify fun m => { m with events := m.events.push event }

def newScope (parent : ScopeId) (bindings : Bindings (Value ScopeId)) : Run ScopeId :=
  modifyGet fun m => (m.scopes.next, { m with scopes := m.scopes.push ⟨bindings, some parent⟩ })

def define (scope : ScopeId) (name : String) (value : Value ScopeId) : Run Unit :=
  modify fun m => { m with scopes := m.scopes.define scope name value }

/-- Reads a name at a known distance, where it must be bound. -/
def getAt (scope : ScopeId) (distance : Nat) (name : String) : Run (Value ScopeId) := do
  match (← get).scopes.getAt? scope distance name with
  | some value => return value
  | none => fault (.unbound name)

def assignAt (scope : ScopeId) (distance : Nat) (name : String) (value : Value ScopeId) :
    Run Unit := do
  match (← get).scopes.ancestor? distance scope with
  | none => fault .noScope
  | some owner => define owner name value

/-- Overwrites the nearest binding of a name; it is an error if there is none. -/
def assignByName (scope : ScopeId) (name : String) (value : Value ScopeId) (span : Span) :
    Run Unit := do
  match (← get).scopes.owner? scope name with
  | some owner => define owner name value
  | none => raise (.notDefined name) span

/-- Reads a variable: at its distance if it is local, else among the globals by name. -/
def lookup (scope : ScopeId) (ref : Ref) (span : Span) : Run (Value ScopeId) := do
  match ref.distance with
  | some distance => getAt scope distance ref.name
  | none =>
    match (← get).scopes.get? globals ref.name with
    | some value => return value
    | none => raise (.notDefined ref.name) span

def assign (scope : ScopeId) (ref : Ref) (value : Value ScopeId) (span : Span) : Run Unit :=
  match ref.distance with
  | some distance => assignAt scope distance ref.name value
  | none => assignByName globals ref.name value span

def newClosure (decl : FunDecl) (scope : ScopeId) (isInitializer : Bool) : Run (Closure ScopeId) :=
  modifyGet fun m =>
    (⟨m.identity, decl, scope, isInitializer⟩, { m with identity := m.identity + 1 })

def newClass (name : String) (superclass : Option (Class ScopeId))
    (methods : Bindings (Closure ScopeId)) : Run (Class ScopeId) :=
  modifyGet fun m =>
    (⟨m.identity, name, superclass, methods⟩, { m with identity := m.identity + 1 })

def newObject (c : Class ScopeId) : Run (Value ScopeId) :=
  modifyGet fun m => (.object m.objects.size c, { m with objects := m.objects.push .empty })

/-- A method whose scope binds `this` to the receiver. -/
def bind (method : Closure ScopeId) (receiver : Value ScopeId) : Run (Closure ScopeId) := do
  let scope ← newScope method.env (Bindings.empty.insert "this" receiver)
  newClosure method.decl scope method.isInitializer

/-- The methods of a class declaration, of which a later one replaces an earlier one. -/
def newMethods (scope : ScopeId) :
    List FunDecl → Bindings (Closure ScopeId) → Run (Bindings (Closure ScopeId))
  | [], methods => return methods
  | decl :: rest, methods => do
    let method ← newClosure decl scope decl.isInitializer
    newMethods scope rest (methods.insert decl.name method)

/-- The property of an instance: a field, or else a method bound to the instance. -/
def property (receiver : Value ScopeId) (name : String) (span : Span) : Run (Value ScopeId) := do
  match receiver with
  | .object cell c =>
    match ((← get).objects.getD cell .empty).get? name with
    | some value => return value
    | none =>
      match c.method? name with
      | some method => .function <$> bind method receiver
      | none => raise (.noSuchAttribute c.name name) span
  | other => raise (.propertyOnNonInstance other.typeName name) span

def setField (cell : Nat) (name : String) (value : Value ScopeId) : Run Unit :=
  modify fun m => { m with objects := m.objects.modify cell (·.insert name value) }

/-- A method of the superclass, bound to the instance that the code runs for. -/
def superMethod (scope : ScopeId) (distance : Option Nat) (name : String) (span : Span) :
    Run (Value ScopeId) := do
  match distance with
  | some (inner + 1) =>
    match ← getAt scope (inner + 1) "super" with
    | .cls c =>
      match ← getAt scope inner "this" with
      | .object cell d =>
        match c.method? name with
        | some method => .function <$> bind method (.object cell d)
        | none => raise (.noSuchAttribute c.name name) span
      | _ => fault .thisNotInstance
    | _ => fault .superNotClass
  | _ => fault .superUnresolved

/-- Ends the declaration of a class whose name is bound already: makes its methods, which see the
scope `inner`, and binds the class to its name. -/
def declareClass (scope inner : ScopeId) (name : String) (superclass : Option (Class ScopeId))
    (decls : List FunDecl) (span : Span) : Run Unit := do
  let methods ← newMethods inner decls .empty
  emit (.declaredClass name methods.size)
  let c ← newClass name superclass methods
  assignByName scope name (.cls c) span

def writeLine (text : String) (span : Span) : Run Unit := do
  let ok ← modifyGet fun m =>
    let (output, ok) := m.output.write (text ++ "\n").toUTF8
    (ok, { m with output })
  unless ok do raise (.writeFailed "stdout") span

def readClock (clock : Nat → Float) : Run (Value ScopeId) :=
  modifyGet fun m => (.number (clock m.readings), { m with readings := m.readings + 1 })

def checkArity (name : String) (expected got : Nat) (span : Span) : Run Unit :=
  unless expected = got do raise (.arityMismatch name expected got) span

/-- Runs the body of a call, which counts as running for as long as it takes. -/
def inFrame {α : Type} (span : Span) (body : Run α) : Run α := fun m =>
  if m.frames ≥ maxFrames then .error (.raised ⟨.stackOverflow, span⟩) m
  else
    match body { m with frames := m.frames + 1 } with
    | .ok value m => .ok value { m with frames := m.frames - 1 }
    | .error halt m => .error halt { m with frames := m.frames - 1 }

def settle (result : Except Error (Value ScopeId)) (span : Span) : Run (Value ScopeId) :=
  match result with
  | .ok value => return value
  | .error e => raise e span

/-- The value that a call yields: an initializer gives the instance, another function what it
returned or `nil`. -/
def callResult (f : Closure ScopeId) (flow : Flow ScopeId) : Run (Value ScopeId) :=
  if f.isInitializer then getAt f.env 0 "this"
  else match flow with
    | .returned value => return value
    | .normal => return .nil

end Machine

end LoxLang
