import LoxLang.Decimal.Shortest
import LoxLang.Text.Quoted
import LoxLang.Tree.Basic

namespace LoxLang

/-- Numbers are written without an exponent, strings between quotes. -/
def Literal.display : Literal → String
  | nil => "nil"
  | bool true => "true"
  | bool false => "false"
  | number x => Decimal.ofFloat .always x
  | string s => Text.quoted s

mutual

def Expr.display : Expr → String
  | .literal _ value => value.display
  | .var _ ref => ref.name
  | .this .. => "this"
  | .super _ _ method => s!"(. super {method})"
  | .grouping _ inner => s!"(group {inner.display})"
  | .unary _ op operand => s!"({op.spelling} {operand.display})"
  | .binary _ op left right => s!"({op.spelling} {left.display} {right.display})"
  | .logical _ op left right => s!"({op.spelling} {left.display} {right.display})"
  | .assign _ target value => s!"(= {target.name} {value.display})"
  | .call _ callee args => s!"(call {callee.display}{displayArguments args})"
  | .get _ object name => s!"(. {object.display} {name})"
  | .set _ object name value => s!"(= (. {object.display} {name}) {value.display})"

def displayArguments : List Expr → String
  | [] => ""
  | first :: others => s!" {first.display}{displayArguments others}"

end

/-- The text of the expression that a statement is about: the value of an expression, print or
initialised variable statement. -/
def Stmt.display? : Stmt → Option String
  | expr _ value | print _ value | varDecl _ _ (some value) => some value.display
  | _ => none

end LoxLang
