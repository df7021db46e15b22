import BlockScript.Position
import BlockScript.Value

/-!
# Tokens

A token is a lexeme of the source together with its kind and the place where it begins. The
kinds of literals carry what they denote.
-/

namespace BlockScript

/-- The kinds of tokens. The keywords that no construct of the language uses are reserved. -/
inductive Token.Kind where
  | leftParen | rightParen | leftBrace | rightBrace
  | comma | dot | minus | plus | semicolon | slash | star
  | bang | bangEqual | equal | equalEqual
  | greater | greaterEqual | less | lessEqual
  | identifier
  | string (contents : String)
  | number (value : Float)
  | kwAnd | kwClass | kwElse | kwFalse | kwFor | kwFun | kwIf | kwNil | kwOr
  | kwPrint | kwReturn | kwSuper | kwThis | kwTrue | kwVar | kwWhile
  | endOfFile
deriving DecidableEq, Repr

/-- A lexeme of a source. -/
structure Token where
  kind : Token.Kind
  lexeme : String
  position : Position
deriving DecidableEq, Repr

namespace Token

namespace Kind

/-- The name of a kind in a token dump. -/
def name : Kind → String
  | leftParen => "LEFT_PAREN"
  | rightParen => "RIGHT_PAREN"
  | leftBrace => "LEFT_BRACE"
  | rightBrace => "RIGHT_BRACE"
  | comma => "COMMA"
  | dot => "DOT"
  | minus => "MINUS"
  | plus => "PLUS"
  | semicolon => "SEMICOLON"
  | slash => "SLASH"
  | star => "STAR"
  | bang => "BANG"
  | bangEqual => "BANG_EQUAL"
  | equal => "EQUAL"
  | equalEqual => "EQUAL_EQUAL"
  | greater => "GREATER"
  | greaterEqual => "GREATER_EQUAL"
  | less => "LESS"
  | lessEqual => "LESS_EQUAL"
  | identifier => "IDENTIFIER"
  | string _ => "STRING"
  | number _ => "NUMBER"
  | kwAnd => "AND"
  | kwClass => "CLASS"
  | kwElse => "ELSE"
  | kwFalse => "FALSE"
  | kwFor => "FOR"
  | kwFun => "FUN"
  | kwIf => "IF"
  | kwNil => "NIL"
  | kwOr => "OR"
  | kwPrint => "PRINT"
  | kwReturn => "RETURN"
  | kwSuper => "SUPER"
  | kwThis => "THIS"
  | kwTrue => "TRUE"
  | kwVar => "VAR"
  | kwWhile => "WHILE"
  | endOfFile => "EOF"

/-- The keywords and how they are spelt. -/
def keywords : List (String × Kind) := [
  ("and", kwAnd), ("class", kwClass), ("else", kwElse), ("false", kwFalse), ("for", kwFor),
  ("fun", kwFun), ("if", kwIf), ("nil", kwNil), ("or", kwOr), ("print", kwPrint),
  ("return", kwReturn), ("super", kwSuper), ("this", kwThis), ("true", kwTrue), ("var", kwVar),
  ("while", kwWhile)]

/-- The kind of a word: a keyword where it is spelt as one, otherwise a name. -/
def ofWord (word : String) : Kind := (keywords.lookup word).getD identifier

/-- The kinds of tokens that carry no literal. -/
def plain : List Kind := [
  leftParen, rightParen, leftBrace, rightBrace, comma, dot, minus, plus, semicolon, slash, star,
  bang, bangEqual, equal, equalEqual, greater, greaterEqual, less, lessEqual, identifier,
  kwAnd, kwClass, kwElse, kwFalse, kwFor, kwFun, kwIf, kwNil, kwOr, kwPrint, kwReturn, kwSuper,
  kwThis, kwTrue, kwVar, kwWhile, endOfFile]

/-- The value that a token of this kind denotes by itself. -/
def literal? : Kind → Option Value
  | string contents => some (.string contents)
  | number value => some (.number value)
  | _ => none

end Kind

/-- Whether the token marks the end of the source. -/
def isEnd (t : Token) : Bool := t.kind = .endOfFile

/-- The line of a token in a token dump. -/
def dump (t : Token) : String :=
  s!"{t.lexeme} {t.kind.name} line:{t.position.line} column:{t.position.column}"

end Token

end BlockScript
