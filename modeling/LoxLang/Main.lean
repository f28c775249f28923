import LoxLang.Prompt
import LoxLang.Script
import Std.Time.DateTime.Timestamp
/-!
# The command line

`run PATH` runs a script; `repl`, or no argument, starts an interactive session
on standard input.
-/
namespace LoxLang.Main

/-- The time in seconds since 1970. It stands still while a source runs. -/
def readClock : IO (Nat → Float) := do
  let now ← Std.Time.Timestamp.now
  let seconds := Float.ofScientific now.toNanosecondsSinceUnixEpoch.val.toNat true 9
  return fun _ => seconds

def readScript (path : String) : IO (Except Unreadable ByteArray) := do
  try
    return .ok (← IO.FS.readBinFile path)
  catch
    | .noFileOrDirectory .. => return .error .notFound
    | e => return .error (.other (toString e))

def runScript (path : String) : IO UInt32 := do
  let result := Script.run (← readClock) Machine.ampleFuel path (← readScript path)
  (← IO.getStdout).write result.stdout
  (← IO.getStdout).flush
  IO.eprint result.stderr
  return result.exitCode.toUInt32

/-- Reads lines until they are a complete source, or until the input ends. -/
partial def readSource (input : IO.FS.Stream) (sofar : String) : IO (Option String) := do
  IO.print (if sofar.isEmpty then Prompt.standard.left else Prompt.standard.continuation)
  (← IO.getStdout).flush
  let line ← input.getLine
  if line.isEmpty then return if sofar.isEmpty then none else some sofar
  let source := sofar ++ line
  if isComplete source then return some source
  readSource input source

partial def interact (input : IO.FS.Stream) (machine : Machine) : IO UInt32 := do
  match ← readSource input "" with
  | none => return 0
  | some source =>
    let (report, machine) := machine.run (← readClock) Machine.ampleFuel source
    (← IO.getStdout).write report.output
    (← IO.getStdout).flush
    IO.eprint (report.outcome.diagnostics ⟨"<stdin>", source⟩)
    interact input machine

end LoxLang.Main

open LoxLang.Main in
def main : List String → IO UInt32
  | ["run", path] => runScript path
  | [] | ["repl"] => do interact (← IO.getStdin) (LoxLang.Machine.initial none)
  | _ => do
    IO.eprintln "usage: lox [repl | run PATH]"
    return 2
