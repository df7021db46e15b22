/-!
# Positions in a source

A position is a line and a column, both counted from 1. Reading a character moves a position
on: a line feed begins a new line, and every other character takes one column.
-/

namespace BlockScript

/-- A place in a source text. -/
structure Position where
  line : Nat
  column : Nat
deriving DecidableEq, Repr

namespace Position

/-- Where every source begins. -/
def start : Position := ⟨1, 1⟩

/-- The place that follows the character `c` at `p`. -/
def advance (p : Position) (c : Char) : Position :=
  if c = '\n' then ⟨p.line + 1, 1⟩ else ⟨p.line, p.column + 1⟩

/-- The place that follows the text `cs` at `p`. -/
def after (p : Position) (cs : List Char) : Position := cs.foldl advance p

@[simp] theorem after_nil (p : Position) : p.after [] = p := rfl

@[simp] theorem after_cons (p : Position) (c : Char) (cs : List Char) :
    p.after (c :: cs) = (p.advance c).after cs := rfl

@[simp] theorem after_append (p : Position) (cs ds : List Char) :
    p.after (cs ++ ds) = (p.after cs).after ds :=
  List.foldl_append

end Position

end BlockScript
