import BlockScript.Operator
import BlockScript.Text.Quoted

/-!
# Expressions

Operators and names keep the token they were written with, since diagnostics point at it. A tree
that was not parsed may hold any token there; `Expr.WellFormed` says that each operator is one.
-/

namespace BlockScript

/-- A tree of operators and assignments over literals and names. -/
inductive Expr where
  | literal (value : Value)
  | var (name : Token)
  | grouping (inner : Expr)
  | unary (op : Token) (operand : Expr)
  | binary (left : Expr) (op : Token) (right : Expr)
  | assign (name : Token) (value : Expr)
deriving DecidableEq, Repr

namespace Expr

/-- Every operator of the tree is written with a token that stands for one. -/
def WellFormed : Expr → Prop
  | literal _ | var _ => True
  | grouping inner => inner.WellFormed
  | unary op operand => (UnaryOp.ofKind? op.kind).isSome ∧ operand.WellFormed
  | binary left op right =>
    left.WellFormed ∧ (BinaryOp.ofKind? op.kind).isSome ∧ right.WellFormed
  | assign _ value => value.WellFormed

/-- A literal in a printed tree, where strings are quoted. -/
def literalText : Value → String
  | .string s => Text.quote s
  | value => value.text

/-- The tree of an expression in parentheses, each operator before its operands. -/
def text : Expr → String
  | literal value => literalText value
  | var name => name.lexeme
  | grouping inner => "(group " ++ inner.text ++ ")"
  | unary op operand => "(" ++ op.lexeme ++ " " ++ operand.text ++ ")"
  | binary left op right => "(" ++ op.lexeme ++ " " ++ left.text ++ " " ++ right.text ++ ")"
  | assign name value => "(= " ++ name.lexeme ++ " " ++ value.text ++ ")"

end Expr

end BlockScript
