import BlockScript.Expr.Eval
import BlockScript.Output

/-!
# Machines

A machine is what statements act on: the open scopes and the output.
-/

namespace BlockScript

/-- What statements act on. -/
structure Machine where
  environment : Environment
  output : Output

namespace Machine

/-- A machine that has run nothing, with an output of the given capacity. -/
def new (capacity? : Option Nat) : Machine := ⟨.empty, .empty capacity?⟩

/-- Evaluates an expression. -/
def eval (m : Machine) (e : Expr) : Except Diagnostic Value × Machine :=
  match e.eval m.environment with
  | (result, env) => (result, { m with environment := env })

/-- Declares a name in the current scope. -/
def define (m : Machine) (name : Token) (value : Value) : Machine :=
  { m with environment := m.environment.define name.lexeme value }

/-- Prints a value on a line of its own. -/
def print (m : Machine) (value : Value) : Except Diagnostic Unit × Machine :=
  match m.output.write (value.text ++ "\n") with
  | (true, out) => (.ok (), { m with output := out })
  | (false, out) => (.error .outputClosed, { m with output := out })

/-- Opens a scope within the current one. -/
def openScope (m : Machine) : Machine := { m with environment := m.environment.openScope.2 }

/-- Closes the current scope. -/
def closeScope (m : Machine) : Machine := { m with environment := m.environment.closeScope }

end Machine

end BlockScript
