import BlockScript.Environment
import BlockScript.Expr

/-!
# The value of an expression

Operands are evaluated from left to right, each in the environment that the ones before it left.
The environment is returned with every outcome, since an assignment made before a fault stays.
-/

namespace BlockScript.Expr

/-- The value of a unary operation, or the fault at its operator. -/
def applyUnary (op : Token) (operand : Value) : Except Diagnostic Value :=
  match UnaryOp.ofKind? op.kind with
  | some o => (o.apply operand).mapError (.runtime op)
  | none => .error (.runtime op .unknownOperator)

/-- The value of a binary operation, or the fault at its operator. -/
def applyBinary (op : Token) (left right : Value) : Except Diagnostic Value :=
  match BinaryOp.ofKind? op.kind with
  | some o => (o.apply left right).mapError (.runtime op)
  | none => .error (.runtime op .unknownOperator)

/-- The value of an expression, and the environment after it. -/
def eval (env : Environment) : Expr → Except Diagnostic Value × Environment
  | literal value => (.ok value, env)
  | var name => (env.read name, env)
  | grouping inner => inner.eval env
  | unary op operand =>
    match operand.eval env with
    | (.error d, env) => (.error d, env)
    | (.ok value, env) => (applyUnary op value, env)
  | binary left op right =>
    match left.eval env with
    | (.error d, env) => (.error d, env)
    | (.ok l, env) =>
      match right.eval env with
      | (.error d, env) => (.error d, env)
      | (.ok r, env) => (applyBinary op l r, env)
  | assign name value =>
    match value.eval env with
    | (.error d, env) => (.error d, env)
    | (.ok v, env) =>
      match env.write name v with
      | .error d => (.error d, env)
      | .ok env => (.ok v, env)

end BlockScript.Expr
