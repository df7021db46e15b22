import BlockScript.Diagnostic

/-!
# Pieces of a source

A source falls into pieces: blanks, comments, lexemes of tokens, and text that begins no token.
`Piece.lead` finds the first piece of a text and `Piece.split` all of them. A piece is as long as
possible: a comment lasts to the end of its line, a number takes every digit, a word every letter,
digit and underscore, and a string runs to the next double quote, or takes the whole rest where
there is none.
-/

namespace BlockScript

/-- What the text of a piece is. -/
inductive Piece.Content where
  /-- A blank character or a comment, which stand for nothing. -/
  | blank
  /-- The lexeme of a token. -/
  | token (kind : Token.Kind)
  /-- Text that begins no token. -/
  | fault (fault : LexicalFault)
deriving DecidableEq, Repr

/-- A piece of a source: its text, and what that is. -/
structure Piece where
  content : Piece.Content
  text : List Char
deriving DecidableEq, Repr

namespace Piece

/-- Whether a word may begin with the character. -/
def isWordStart (c : Char) : Bool := c.isAlpha || c = '_'

/-- Whether a word may go on with the character. -/
def isWordPart (c : Char) : Bool := isWordStart c || c.isDigit

/-- A token of one character, or of two where an equals sign follows. -/
def leadOperator (short long : Token.Kind) (cs : List Char) : Content × Nat :=
  if cs.head? = some '=' then (.token long, 1) else (.token short, 0)

/-- A comment, where a second slash follows, or a division sign. -/
def leadSlash (cs : List Char) : Content × Nat :=
  if cs.head? = some '/' then (.blank, (cs.takeWhile (· ≠ '\n')).length) else (.token .slash, 0)

/-- A string literal, of which `cs` is what follows the opening quote. -/
def leadString (cs : List Char) : Content × Nat :=
  let contents := cs.takeWhile (· ≠ '"')
  match cs.drop contents.length with
  | [] => (.fault .unterminatedString, contents.length)
  | _ :: _ => (.token (.string (String.ofList contents)), contents.length + 1)

/-- How many characters of `cs` go on a number after its first digit. A point belongs to the
    number only where a digit follows it. -/
def numberLength (cs : List Char) : Nat :=
  let whole := (cs.takeWhile Char.isDigit).length
  match cs.drop whole with
  | '.' :: d :: rest =>
    if d.isDigit then whole + 2 + (rest.takeWhile Char.isDigit).length else whole
  | _ => whole

/-- A number literal that begins with the digit `c`. -/
def leadNumber (c : Char) (cs : List Char) : Content × Nat :=
  let lexeme := c :: cs.take (numberLength cs)
  match Number.read? lexeme with
  | some value => (.token (.number value), numberLength cs)
  | none => (.fault (.unreadableNumber (String.ofList lexeme)), numberLength cs)

/-- A keyword or a name that begins with the letter `c`. -/
def leadWord (c : Char) (cs : List Char) : Content × Nat :=
  let rest := cs.takeWhile isWordPart
  (.token (.ofWord (String.ofList (c :: rest))), rest.length)

/-- What the first piece of the text `c :: cs` is, and how many characters of `cs` belong to it. -/
def lead (c : Char) (cs : List Char) : Content × Nat :=
  match c with
  | '(' => (.token .leftParen, 0)
  | ')' => (.token .rightParen, 0)
  | '{' => (.token .leftBrace, 0)
  | '}' => (.token .rightBrace, 0)
  | ',' => (.token .comma, 0)
  | '.' => (.token .dot, 0)
  | '-' => (.token .minus, 0)
  | '+' => (.token .plus, 0)
  | ';' => (.token .semicolon, 0)
  | '*' => (.token .star, 0)
  | '!' => leadOperator .bang .bangEqual cs
  | '=' => leadOperator .equal .equalEqual cs
  | '<' => leadOperator .less .lessEqual cs
  | '>' => leadOperator .greater .greaterEqual cs
  | '/' => leadSlash cs
  | '"' => leadString cs
  | ' ' | '\r' | '\t' | '\n' => (.blank, 0)
  | c =>
    if c.isDigit then leadNumber c cs
    else if isWordStart c then leadWord c cs
    else (.fault (.unexpectedCharacter c), 0)

/-- The pieces of a text, in order. -/
def split : List Char → List Piece
  | [] => []
  | c :: cs =>
    let (content, more) := lead c cs
    ⟨content, c :: cs.take more⟩ :: split (cs.drop more)
termination_by cs => cs.length
decreasing_by simp only [List.length_drop, List.length_cons]; omega

/-- The pieces of a text make it up. -/
theorem flatMap_text_split (cs : List Char) : (split cs).flatMap text = cs := by
  fun_induction split cs with
  | case1 => rfl
  | case2 c cs content more _ ih => simp [ih, List.take_append_drop]

end Piece

end BlockScript
