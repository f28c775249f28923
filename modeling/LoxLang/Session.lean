import LoxLang.Diagnostic
import LoxLang.Machine.Eval
import LoxLang.Tree.Parser
import LoxLang.Tree.Resolve
/-!
# Sessions

A session runs sources one after the other on one machine, so that global names
stay. A source with errors that can be seen before it runs is not run at all; an
error while it runs ends the run and keeps what was done until then.
-/
namespace LoxLang

inductive Outcome
  /-- The text of the source is wrong. -/
  | malformed (errors : List (Located Error))
  /-- Names, or parts that depend on their place, are used wrongly. -/
  | rejected (errors : List (Located Error))
  | finished
  | failed (error : Located Error)
  | broken (fault : Fault)
  | outOfFuel
deriving DecidableEq

namespace Outcome

def staticErrors : Outcome → List (Located Error)
  | malformed errors | rejected errors => errors
  | _ => []

def runtimeError : Outcome → Option (Located Error)
  | failed error => some error
  | _ => none

def errors (o : Outcome) : List (Located Error) :=
  o.staticErrors ++ o.runtimeError.toList

def diagnostics (file : SourceFile) (o : Outcome) : String :=
  String.join (o.errors.map (Diagnostic.render file))

end Outcome

/-- What a source did: how it ended, the bytes it wrote and the events on the way. -/
structure Report where
  outcome : Outcome
  output : ByteArray
  events : List Event

namespace Machine

def runAll (clock : Nat → Float) (fuel : Nat) : List Stmt → Run Unit
  | [] => return
  | first :: others => do
    let _ ← exec clock fuel globals first
    runAll clock fuel others

/-- Runs a resolved program. No call is running when it starts. -/
def execute (clock : Nat → Float) (fuel : Nat) (program : List Stmt) (m : Machine) :
    Outcome × Machine :=
  match runAll clock fuel program { m with frames := 0 } with
  | .ok _ m => (.finished, m)
  | .error (.raised e) m => (.failed e, { m with events := m.events.push (.runtimeError e.value) })
  | .error (.broken fault) m => (.broken fault, m)
  | .error .outOfFuel m => (.outOfFuel, m)

/-- Reads, checks and runs a source; the machine already has the events so far. -/
def step (clock : Nat → Float) (fuel : Nat) (source : String) (m : Machine) : Outcome × Machine :=
  let parsed := parse source
  if !parsed.errors.isEmpty then
    (.malformed parsed.errors,
      { m with events := m.events.push (.syntaxErrors parsed.errors.length) })
  else
    let resolution := resolve parsed.program
    let events := m.events.push .resolving ++ resolution.lookups.map Event.resolved
    if resolution.globalEnded then (.broken .globalScopeEnded, { m with events })
    else if !resolution.errors.isEmpty then
      (.rejected resolution.errors,
        { m with events := events.push (.resolutionErrors resolution.errors.length) })
    else
      execute clock fuel resolution.program
        { m with events := events.push (.running resolution.program.length) }

/-- Runs a source. What it wrote and logged goes into the report, all else stays. -/
def run (clock : Nat → Float) (fuel : Nat) (source : String) (m : Machine) : Report × Machine :=
  let (outcome, m) := m.step clock fuel source
  (⟨outcome, m.output.written, m.events.toList⟩,
    { m with output := { m.output with written := .empty }, events := #[] })

def flushed (m : Machine) : Machine :=
  { m with output := { m.output with written := .empty }, events := #[] }

theorem run_eq (clock : Nat → Float) (fuel : Nat) (source : String) (m : Machine) :
    m.run clock fuel source =
      let result := m.step clock fuel source
      (⟨result.1, result.2.output.written, result.2.events.toList⟩, result.2.flushed) := by
  unfold run
  cases m.step clock fuel source
  rfl

def runSession (clock : Nat → Float) (fuel : Nat) : List String → Machine → List Report × Machine
  | [], m => ([], m)
  | source :: sources, m =>
    let (report, m) := m.run clock fuel source
    let (reports, m) := m.runSession clock fuel sources
    (report :: reports, m)

theorem runSession_cons (clock : Nat → Float) (fuel : Nat) (source : String) (sources : List String)
    (m : Machine) :
    m.runSession clock fuel (source :: sources) =
      let result := m.run clock fuel source
      let rest := result.2.runSession clock fuel sources
      (result.1 :: rest.1, rest.2) := by
  rw [runSession]

/-- More fuel than any run can use up in practice. -/
def ampleFuel : Nat := Nat.pow 2 62

def globalNames (m : Machine) : List String :=
  (m.scopes.all[globals]?.map (·.bindings.names)).getD [] |>.mergeSort (· ≤ ·)

/-- A one-line description of the machine: its global names and the number of running calls. -/
def describe (m : Machine) : String :=
  let names := ", ".intercalate (m.globalNames.map Text.quoted)
  let globals := s!"Env \x7b names: [{names}], parent: None \x7d"
  s!"Interpreter \x7b globals: {globals}, stdout: _, frames: {m.frames} \x7d"

end Machine

end LoxLang
