import LoxLang.Operator
import LoxLang.Text.Quoted

namespace LoxLang
open Text

inductive Error
  -- Properties of values.
  | fieldOnNonInstance (type name : String)
  | noSuchAttribute (type name : String)
  | propertyOnNonInstance (type name : String)
  -- Output.
  | writeFailed (file : String)
  -- Names.
  | accessInsideInitializer (name : String)
  | alreadyDefined (name : String)
  | notDefined (name : String)
  -- Calls that nest too deep.
  | stackOverflow
  -- The text of a program and where its parts may stand.
  | inheritFromSelf (name : String)
  | invalidAssignTarget
  | returnInInitializer
  | returnOutsideFunction
  | superOutsideClass
  | superWithoutSuperclass
  | thisOutsideClass
  | tooManyArguments (max : Nat)
  | tooManyParameters (max : Nat)
  | unexpectedInput (text : String)
  | unexpectedEnd (expected : String)
  | unexpectedToken (text expected : String)
  | unterminatedString
  -- Operands and callees.
  | arityMismatch (name : String) (expected got : Nat)
  | invalidAddOperands (left right : String)
  | nonNumberOperand (op : UnaryOp) (operand : String)
  | nonNumberOperands (op : BinaryOp) (left right : String)
  | notCallable (type : String)
  | superclassInvalidType (type : String)
deriving DecidableEq, Inhabited

namespace Error

/-- The family that an error is announced under. -/
inductive Kind
  | property | output | naming | nesting | grammar | typing
deriving DecidableEq, Inhabited

def Kind.label : Kind → String
  | property => "AttributeError"
  | output => "IOError"
  | naming => "NameError"
  | nesting => "OverflowError"
  | grammar => "SyntaxError"
  | typing => "TypeError"

def kind : Error → Kind
  | fieldOnNonInstance .. | noSuchAttribute .. | propertyOnNonInstance .. => .property
  | writeFailed .. => .output
  | accessInsideInitializer .. | alreadyDefined .. | notDefined .. => .naming
  | stackOverflow => .nesting
  | inheritFromSelf .. | invalidAssignTarget | returnInInitializer | returnOutsideFunction
  | superOutsideClass | superWithoutSuperclass | thisOutsideClass | tooManyArguments ..
  | tooManyParameters .. | unexpectedInput .. | unexpectedEnd .. | unexpectedToken ..
  | unterminatedString => .grammar
  | arityMismatch .. | invalidAddOperands .. | nonNumberOperand .. | nonNumberOperands ..
  | notCallable .. | superclassInvalidType .. => .typing

def text : Error → String
  | fieldOnNonInstance .. => "Only instances have fields."
  | noSuchAttribute _ name => s!"Undefined property '{name}'."
  | propertyOnNonInstance .. => "Only instances have properties."
  | writeFailed file => s!"unable to write to file: {quoted file}"
  | accessInsideInitializer _ => "Can't read local variable in its own initializer."
  | alreadyDefined _ => "Already a variable with this name in this scope."
  | notDefined name => s!"Undefined variable '{name}'."
  | stackOverflow => "Stack overflow."
  | inheritFromSelf _ => "A class can't inherit from itself."
  | invalidAssignTarget => "Invalid assignment target."
  | returnInInitializer => "Can't return a value from an initializer."
  | returnOutsideFunction => "Can't return from top-level code."
  | superOutsideClass => "Can't use 'super' outside of a class."
  | superWithoutSuperclass => "Can't use 'super' in a class with no superclass."
  | thisOutsideClass => "Can't use 'this' outside of a class."
  | tooManyArguments max => s!"Can't have more than {max} arguments."
  | tooManyParameters max => s!"Can't have more than {max} parameters."
  | unexpectedInput text => s!"Unexpected input {quoted text}."
  | unexpectedEnd expected => s!"Expect {expected}, found end of file."
  | unexpectedToken text expected => s!"Expect {expected}, found {quoted text}."
  | unterminatedString => "Unterminated string."
  | arityMismatch _ expected got => s!"Expected {expected} arguments but got {got}."
  | invalidAddOperands .. => "Operands must be two numbers or two strings."
  | nonNumberOperand .. => "Operand must be a number."
  | nonNumberOperands .. => "Operands must be numbers."
  | notCallable _ => "Can only call functions and classes."
  | superclassInvalidType _ => "Superclass must be a class."

/-- The full text of an error: its kind and its sentence. -/
def message (e : Error) : String :=
  s!"{e.kind.label}: {e.text}"

def notes : Error → List String
  | fieldOnNonInstance type _ | propertyOnNonInstance type _ =>
    [s!"receiver has type {quoted type}"]
  | noSuchAttribute type _ => [s!"no field or method on {quoted type}"]
  | accessInsideInitializer name | alreadyDefined name => [s!"while declaring {quoted name}"]
  | stackOverflow => ["the call stack grew too deep, check for unbounded recursion"]
  | arityMismatch name _ _ => [s!"while calling {name}()"]
  | invalidAddOperands left right => [s!"operand types are {quoted left} and {quoted right}"]
  | nonNumberOperand op operand =>
    [s!"unsupported operand type for {op.spelling}: {quoted operand}"]
  | nonNumberOperands op left right =>
    [s!"unsupported operand types for {op.spelling}: {quoted left} and {quoted right}"]
  | notCallable type => [s!"{quoted type} object is not callable"]
  | superclassInvalidType type => [s!"found {quoted type}"]
  | _ => []

/-- Errors that more input could still mend. -/
def isOpenEnded : Error → Bool
  | unexpectedEnd _ | unterminatedString => true
  | _ => false

end Error

end LoxLang
