import BlockScript.Diagnostic

/-!
# Operators

The operators of expressions, how tightly they bind, and what they do to values. Arithmetic and
order take two numbers; `+` also joins texts as soon as one side is a string; equality and
negation of a condition take all values.
-/

namespace BlockScript

/-- The operators between two operands. -/
inductive BinaryOp where
  | equal | notEqual
  | greater | greaterEqual | less | lessEqual
  | subtract | add
  | multiply | divide
deriving DecidableEq, Repr

/-- The operators before one operand. -/
inductive UnaryOp where
  | negate | not
deriving DecidableEq, Repr

namespace BinaryOp

/-- The operator that a token between two operands stands for. -/
def ofKind? : Token.Kind → Option BinaryOp
  | .equalEqual => some equal
  | .bangEqual => some notEqual
  | .greater => some greater
  | .greaterEqual => some greaterEqual
  | .less => some less
  | .lessEqual => some lessEqual
  | .minus => some subtract
  | .plus => some add
  | .star => some multiply
  | .slash => some divide
  | _ => none

/-- How tightly an operator binds. Those of one level group to the left. -/
def level : BinaryOp → Nat
  | equal | notEqual => 1
  | greater | greaterEqual | less | lessEqual => 2
  | subtract | add => 3
  | multiply | divide => 4

/-- An operation on two numbers, and a fault for other operands. -/
def onNumbers (f : Float → Float → Value) : Value → Value → Except RuntimeFault Value
  | .number x, .number y => .ok (f x y)
  | left, right => .error (.operandsNotNumbers left.kind right.kind)

/-- The sum of two numbers, or the two texts joined where one side is a string. -/
def sum : Value → Value → Except RuntimeFault Value
  | .number x, .number y => .ok (.number (x + y))
  | .string s, right => .ok (.string (s ++ right.text))
  | left, .string t => .ok (.string (left.text ++ t))
  | left, right => .error (.operandsNotAddable left.kind right.kind)

/-- The value of an operation. -/
def apply (op : BinaryOp) (left right : Value) : Except RuntimeFault Value :=
  match op with
  | equal => .ok (.boolean (left.isEqual right))
  | notEqual => .ok (.boolean !(left.isEqual right))
  | greater => onNumbers (fun x y => .boolean (decide (x > y))) left right
  | greaterEqual => onNumbers (fun x y => .boolean (decide (x ≥ y))) left right
  | less => onNumbers (fun x y => .boolean (decide (x < y))) left right
  | lessEqual => onNumbers (fun x y => .boolean (decide (x ≤ y))) left right
  | subtract => onNumbers (fun x y => .number (x - y)) left right
  | add => sum left right
  | multiply => onNumbers (fun x y => .number (x * y)) left right
  | divide => onNumbers (fun x y => .number (x / y)) left right

end BinaryOp

namespace UnaryOp

/-- The operator that a token before an operand stands for. -/
def ofKind? : Token.Kind → Option UnaryOp
  | .minus => some negate
  | .bang => some not
  | _ => none

/-- The value of an operation. -/
def apply (op : UnaryOp) (operand : Value) : Except RuntimeFault Value :=
  match op, operand with
  | negate, .number x => .ok (.number (-x))
  | negate, operand => .error (.operandNotNumber operand.kind)
  | not, operand => .ok (.boolean !operand.isTruthy)

end UnaryOp

end BlockScript
