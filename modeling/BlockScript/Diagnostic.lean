import BlockScript.Token

/-!
# Diagnostics

Everything that can go wrong while a source is scanned, parsed and run, with its cause, the
message for the cause and the text that reports it.
-/

namespace BlockScript

/-- Why no token begins at some place of a source. -/
inductive LexicalFault where
  | unexpectedCharacter (c : Char)
  | unterminatedString
  | unreadableNumber (lexeme : String)
deriving DecidableEq, Repr

/-- Why a token does not fit where it stands. -/
inductive SyntaxFault where
  | expectedStatement
  | expectedVariableName
  | expectedSemicolonAfterDeclaration
  | expectedSemicolonAfterValue
  | expectedSemicolonAfterExpression
  | expectedBraceAfterBlock
  | expectedExpression
  | expectedParenAfterExpression
  | invalidAssignmentTarget
deriving DecidableEq, Repr

/-- Why an operator cannot be applied, or a name not be resolved. -/
inductive RuntimeFault where
  | undefinedVariable
  | operandsNotNumbers (left right : Value.Kind)
  | operandsNotAddable (left right : Value.Kind)
  | operandNotNumber (operand : Value.Kind)
  | unknownOperator
deriving DecidableEq, Repr

/-- What is wrong, and where. -/
inductive Diagnostic where
  /-- No token begins at the place. -/
  | lexical (position : Position) (fault : LexicalFault)
  /-- The token does not fit the grammar. -/
  | syntactic (token : Token) (fault : SyntaxFault)
  /-- The tokens ran out, and not even the end of the source was marked. -/
  | unexpectedEnd
  /-- The operator or the name could not be evaluated. -/
  | runtime (token : Token) (fault : RuntimeFault)
  /-- The output took not all of a print. -/
  | outputClosed
deriving DecidableEq, Repr

/-- The stage of a run to which a diagnostic belongs. -/
inductive Diagnostic.Stage where
  | scanning
  | parsing
  | running
  | writing
deriving DecidableEq, Repr

/-- The message for text that begins no token. -/
def LexicalFault.message : LexicalFault → String
  | unexpectedCharacter c => s!"Unexpected character '{c}'."
  | unterminatedString => "Unterminated string literal."
  | unreadableNumber lexeme => s!"Could not convert {lexeme} into a number."

/-- The message for a token that does not fit. -/
def SyntaxFault.message : SyntaxFault → String
  | expectedStatement => "Expected statement."
  | expectedVariableName => "Expected variable name."
  | expectedSemicolonAfterDeclaration => "Expected ';' after variable declaration."
  | expectedSemicolonAfterValue => "Expected ';' after value."
  | expectedSemicolonAfterExpression => "Expected ';' after expression."
  | expectedBraceAfterBlock => "Expected '\x7d' after block."
  | expectedExpression => "Expected expression."
  | expectedParenAfterExpression => "Expected ')' after expression."
  | invalidAssignmentTarget => "Invalid assignment target."

/-- Whether the token that does not fit is read before that is found. An assignment is judged
    once its equals sign was read. -/
def SyntaxFault.isAfterToken : SyntaxFault → Bool
  | invalidAssignmentTarget => true
  | _ => false

/-- The message for a fault at an operator or a name that is spelt `lexeme`. -/
def RuntimeFault.message (lexeme : String) : RuntimeFault → String
  | undefinedVariable => s!"Undefined variable '{lexeme}'."
  | operandsNotNumbers left right =>
    s!"Operands of '{lexeme}' must be numbers, got {left.name} and {right.name}."
  | operandsNotAddable left right =>
    "Operands of '+' must be two numbers or include a string, " ++
      s!"got {left.name} and {right.name}."
  | operandNotNumber operand => s!"Operand of '-' must be a number, got {operand.name}."
  | unknownOperator => s!"Unknown operator '{lexeme}'."

namespace Diagnostic

/-- The diagnostics among results, in order. -/
def ofResults {α : Type} (results : List (Except Diagnostic α)) : List Diagnostic :=
  results.filterMap fun
    | .ok _ => none
    | .error d => some d

/-- What is wrong, without the place. -/
def message : Diagnostic → String
  | lexical _ fault => fault.message
  | syntactic _ fault => fault.message
  | unexpectedEnd => "Unexpected end of input."
  | runtime token fault => fault.message token.lexeme
  | outputClosed => "closed"

/-- The stage at which a diagnostic arises. -/
def stage : Diagnostic → Stage
  | lexical .. => .scanning
  | syntactic .. | unexpectedEnd => .parsing
  | runtime .. => .running
  | outputClosed => .writing

/-- The beginning of a report, up to the word for the fault. -/
def placeText (p : Position) : String := s!"[line {p.line}, column {p.column}] "

/-- Where a report locates the token: at its lexeme, or at the end of the source. -/
def tokenText (t : Token) : String := if t.isEnd then " at end" else s!" at '{t.lexeme}'"

/-- What stands before the message in a report. -/
def header : Diagnostic → String
  | lexical position _ => placeText position ++ "Error"
  | syntactic token _ | runtime token _ => placeText token.position ++ "Error" ++ tokenText token
  | unexpectedEnd | outputClosed => "Error"

/-- The report of a diagnostic, on one line unless a lexeme has several. -/
def report (d : Diagnostic) : String := d.header ++ ": " ++ d.message

end Diagnostic

end BlockScript
