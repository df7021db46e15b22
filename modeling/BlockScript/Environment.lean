import BlockScript.Diagnostic
import Std.Data.ExtTreeMap

/-!
# Environments

The scopes that are open while a script runs. They lie in an array, each with the index of the
scope around it; the scope at index 0 is global and is never closed. A name is looked up from the
current scope outwards, and the first scope that binds it counts.

`Environment.WellFormed` describes the environments that the operations make: each scope lies
right after the one around it, and the last one is current.
-/

namespace BlockScript

/-- The bindings of one scope, and the index of the scope around it. -/
structure Scope where
  parent? : Option Nat
  bindings : Std.ExtTreeMap String Value

namespace Scope

/-- Whether two scopes bind the same names to values with the same contents, within the same
    scope. -/
def hasSameContents (s t : Scope) : Bool :=
  s.parent? == t.parent? &&
    s.bindings.size == t.bindings.size &&
    (s.bindings.toList.zip t.bindings.toList).all fun ((m, a), (n, b)) =>
      m == n && a.hasSameContents b

end Scope

/-- The open scopes. -/
structure Environment where
  scopes : Array Scope
  /-- The index of the scope that declarations go to. -/
  current : Nat

namespace Environment

/-- The environment of a new session, with an empty global scope. -/
def empty : Environment := ⟨#[⟨none, ∅⟩], 0⟩

/-- How many scopes are open, the global one included. -/
def depth (env : Environment) : Nat := env.scopes.size

/-- Each scope but the first lies right after the one around it, and the last one is current. -/
structure WellFormed (env : Environment) : Prop where
  current_eq : env.current + 1 = env.scopes.size
  parent?_zero : ∀ scope, env.scopes[0]? = some scope → scope.parent? = none
  parent?_succ : ∀ i scope, env.scopes[i + 1]? = some scope → scope.parent? = some i

/-- Opens a scope within the current one and makes it current. Its index comes first. -/
def openScope (env : Environment) : Nat × Environment :=
  let opened := env.scopes.size
  (opened, ⟨env.scopes.push ⟨some env.current, ∅⟩, opened⟩)

/-- Closes the current scope, unless it is the global one. -/
def closeScope (env : Environment) : Environment :=
  match env.scopes[env.current]? with
  | some ⟨some parent, _⟩ => ⟨env.scopes.take env.current, parent⟩
  | _ => env

/-- The first scope that binds the name, from the scope `i` outwards. A scope lies after the one
    around it, which is what the test on `parent` makes sure of. -/
def resolveFrom (env : Environment) (name : String) (i : Nat) : Option Nat :=
  match env.scopes[i]? with
  | none => none
  | some scope =>
    if scope.bindings.contains name then
      some i
    else
      match scope.parent? with
      | none => none
      | some parent => if parent < i then env.resolveFrom name parent else none

/-- The innermost scope that binds the name. -/
def resolve (env : Environment) (name : String) : Option Nat := env.resolveFrom name env.current

/-- The value of the name in the scope `i`. -/
def valueIn (env : Environment) (i : Nat) (name : String) : Option Value :=
  env.scopes[i]?.bind fun scope => scope.bindings[name]?

/-- Gives the name a value in the scope `i`. -/
def bindIn (env : Environment) (i : Nat) (name : String) (value : Value) : Environment :=
  { env with
    scopes := env.scopes.modify i fun scope =>
      { scope with bindings := scope.bindings.insert name value } }

/-- Declares the name in the current scope, where it may be bound already. -/
def define (env : Environment) (name : String) (value : Value) : Environment :=
  env.bindIn env.current name value

/-- The value of the name in the innermost scope that binds it. -/
def get? (env : Environment) (name : String) : Option Value :=
  (env.resolve name).bind fun i => env.valueIn i name

/-- Gives the name a new value in the innermost scope that binds it, if there is one. -/
def assign? (env : Environment) (name : String) (value : Value) : Option Environment :=
  (env.resolve name).map fun i => env.bindIn i name value

/-- The value of the name in the global scope. -/
def getGlobal? (env : Environment) (name : String) : Option Value := env.valueIn 0 name

/-- The value of the name that the token spells, or the fault that it has none. -/
def read (env : Environment) (name : Token) : Except Diagnostic Value :=
  match env.get? name.lexeme with
  | some value => .ok value
  | none => .error (.runtime name .undefinedVariable)

/-- The environment in which the name that the token spells has a new value, or the fault that it
    had none. -/
def write (env : Environment) (name : Token) (value : Value) : Except Diagnostic Environment :=
  match env.assign? name.lexeme value with
  | some env => .ok env
  | none => .error (.runtime name .undefinedVariable)

/-- Whether two environments have the same scopes with the same contents, and the same one
    current. -/
def hasSameContents (env other : Environment) : Bool :=
  env.current == other.current &&
    env.scopes.size == other.scopes.size &&
    (env.scopes.toList.zip other.scopes.toList).all fun (s, t) => s.hasSameContents t

end Environment

end BlockScript
