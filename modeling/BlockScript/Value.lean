import BlockScript.Number

/-!
# Values

What an expression of the language evaluates to. There are two notions of equality. `==` in a
script is `isEqual`, for which NaN equals itself; `hasSameContents` compares component by
component, and for it NaN does not. Neither relates values of different kinds.
-/

namespace BlockScript

/-- What an expression evaluates to, and what a name is bound to. -/
inductive Value where
  | nil
  | boolean (b : Bool)
  | number (x : Float)
  | string (s : String)
deriving DecidableEq, Repr

/-- The kinds of values that operators distinguish. -/
inductive Value.Kind where
  | boolean
  | nil
  | number
  | string
deriving DecidableEq, Repr

namespace Value

/-- The name of a kind in messages. -/
def Kind.name : Kind → String
  | .boolean => "boolean"
  | .nil => "nil"
  | .number => "number"
  | .string => "string"

/-- The kind of a value. -/
def kind : Value → Kind
  | .nil => .nil
  | .boolean _ => .boolean
  | .number _ => .number
  | .string _ => .string

/-- Equality in a script: numbers by value, where NaN equals itself and both zeros are equal. -/
def isEqual : Value → Value → Bool
  | .nil, .nil => true
  | .boolean a, .boolean b => a == b
  | .number x, .number y => if x.isNaN && y.isNaN then true else x == y
  | .string s, .string t => s == t
  | _, _ => false

/-- Equality of the components: as `isEqual`, but NaN differs from itself. -/
def hasSameContents : Value → Value → Bool
  | .nil, .nil => true
  | .boolean a, .boolean b => a == b
  | .number x, .number y => x == y
  | .string s, .string t => s == t
  | _, _ => false

/-- Every value counts as true in a condition except `false` and `nil`. -/
def isTruthy : Value → Bool
  | .nil => false
  | .boolean b => b
  | _ => true

/-- The text of a value when it is printed or joined to a string. -/
def text : Value → String
  | .nil => "nil"
  | .boolean b => if b then "true" else "false"
  | .number x => Number.text x
  | .string s => s

end Value

end BlockScript
