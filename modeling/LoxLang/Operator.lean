namespace LoxLang

inductive UnaryOp
  | negate
  | not
deriving DecidableEq, Inhabited, Repr

/-- Operators whose two operands are both evaluated. -/
inductive BinaryOp
  | add | subtract | multiply | divide
  | less | lessEqual | greater | greaterEqual | equal | notEqual
deriving DecidableEq, Inhabited, Repr

/-- Operators that may skip their right operand. -/
inductive LogicalOp
  | and
  | or
deriving DecidableEq, Inhabited, Repr

def UnaryOp.spelling : UnaryOp → String
  | negate => "-"
  | not => "!"

def BinaryOp.spelling : BinaryOp → String
  | add => "+"
  | subtract => "-"
  | multiply => "*"
  | divide => "/"
  | less => "<"
  | lessEqual => "<="
  | greater => ">"
  | greaterEqual => ">="
  | equal => "=="
  | notEqual => "!="

def LogicalOp.spelling : LogicalOp → String
  | and => "and"
  | or => "or"

end LoxLang
