import LoxLang.Error
import LoxLang.Machine.Value

namespace LoxLang

variable {ε : Type}

def BinaryOp.apply (op : BinaryOp) (left right : Value ε) : Except Error (Value ε) :=
  match op, left, right with
  | .add, .number a, .number b => .ok (.number (a + b))
  | .add, .string a, .string b => .ok (.string (a ++ b))
  | .add, a, b => .error (.invalidAddOperands a.typeName b.typeName)
  | .subtract, .number a, .number b => .ok (.number (a - b))
  | .multiply, .number a, .number b => .ok (.number (a * b))
  | .divide, .number a, .number b => .ok (.number (a / b))
  | .less, .number a, .number b => .ok (.bool (a < b))
  | .lessEqual, .number a, .number b => .ok (.bool (a ≤ b))
  | .greater, .number a, .number b => .ok (.bool (a > b))
  | .greaterEqual, .number a, .number b => .ok (.bool (a ≥ b))
  | .equal, a, b => .ok (.bool (a.equals b))
  | .notEqual, a, b => .ok (.bool (!a.equals b))
  | op, a, b => .error (.nonNumberOperands op a.typeName b.typeName)

def UnaryOp.apply (op : UnaryOp) (operand : Value ε) : Except Error (Value ε) :=
  match op, operand with
  | .negate, .number x => .ok (.number (-x))
  | .negate, other => .error (.nonNumberOperand .negate other.typeName)
  | .not, value => .ok (.bool !value.isTruthy)

end LoxLang
