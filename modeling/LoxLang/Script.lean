import LoxLang.Session

namespace LoxLang

inductive Unreadable
  | notFound
  | notText
  | other (reason : String)
deriving DecidableEq

def Unreadable.message : Unreadable → String
  | notFound => "No such file or directory (os error 2)"
  | notText => "stream did not contain valid UTF-8"
  | other reason => reason

/-- What running a script comes to. -/
structure ScriptResult where
  exitCode : UInt8
  stdout : ByteArray
  stderr : String

namespace Script

def exitStaticError : UInt8 := 65
def exitRuntimeError : UInt8 := 70
def exitUnreadable : UInt8 := 74

def decode (bytes : ByteArray) : Except Unreadable String :=
  match String.fromUTF8? bytes with
  | some text => .ok text
  | none => .error .notText

def exitCode (o : Outcome) : UInt8 :=
  if !o.staticErrors.isEmpty then exitStaticError
  else if o.runtimeError.isSome then exitRuntimeError
  else 0

/-- Runs the script at a path, given the bytes there or the reason why there are none. -/
def run (clock : Nat → Float) (fuel : Nat) (path : String)
    (content : Except Unreadable ByteArray) : ScriptResult :=
  match content.bind decode with
  | .error reason =>
    ⟨exitUnreadable, .empty, s!"error: could not read {path}: {reason.message}\n"⟩
  | .ok text =>
    let (report, _) := (Machine.initial none).run clock fuel text
    ⟨exitCode report.outcome, report.output, report.outcome.diagnostics ⟨path, text⟩⟩

end Script

end LoxLang
