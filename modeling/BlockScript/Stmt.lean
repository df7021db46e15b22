import BlockScript.Expr

/-!
# Statements

A program is a list of statements; a block is a list of statements with a scope of its own.
-/

namespace BlockScript

/-- A block, a declaration, an expression for its effect, or a print. -/
inductive Stmt where
  | block (body : List Stmt)
  | declare (name : Token) (initializer? : Option Expr)
  | expression (e : Expr)
  | print (e : Expr)
deriving Repr

namespace Stmt

mutual

/-- The tree of a statement in parentheses. -/
def text : Stmt → String
  | block body => "(block" ++ bodyText body ++ ")"
  | declare name (some initializer) => "(var " ++ name.lexeme ++ " " ++ initializer.text ++ ")"
  | declare name none => "(var " ++ name.lexeme ++ ")"
  | expression e => "(; " ++ e.text ++ ")"
  | print e => "(print " ++ e.text ++ ")"

/-- The trees of statements, each after a space. -/
def bodyText : List Stmt → String
  | [] => ""
  | s :: rest => " " ++ s.text ++ bodyText rest

end

mutual

/-- Every operator of the statement is written with a token that stands for one. -/
def WellFormed : Stmt → Prop
  | block body => AllWellFormed body
  | declare _ (some initializer) => initializer.WellFormed
  | declare _ none => True
  | expression e => e.WellFormed
  | print e => e.WellFormed

/-- Every operator of the statements is written with a token that stands for one. -/
def AllWellFormed : List Stmt → Prop
  | [] => True
  | s :: rest => s.WellFormed ∧ AllWellFormed rest

end

end Stmt

end BlockScript
