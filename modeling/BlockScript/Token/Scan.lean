import BlockScript.Piece

/-!
# The tokens of a source

Scanning places the pieces of a source, drops the blank ones, and makes each of the others a
token or a diagnostic. A token that marks the end follows all of them.
-/

namespace BlockScript

namespace Piece

/-- The pieces, each with the place where it begins, when the first begins at `p`. -/
def placed (p : Position) : List Piece → List (Position × Piece)
  | [] => []
  | piece :: rest => (p, piece) :: placed (p.after piece.text) rest

/-- The token or the diagnostic that a piece at `p` gives rise to, if it is not blank. -/
def item? (p : Position) (piece : Piece) : Option (Except Diagnostic Token) :=
  match piece.content with
  | .blank => none
  | .token kind => some (.ok ⟨kind, String.ofList piece.text, p⟩)
  | .fault fault => some (.error (.lexical p fault))

end Piece

/-- The result of scanning a source. -/
structure Scan where
  /-- The tokens in order; the last one marks the end of the source. -/
  tokens : List Token
  /-- A diagnostic for each text that begins no token, in order. -/
  diagnostics : List Diagnostic
deriving DecidableEq, Repr

namespace Scan

/-- The tokens and the diagnostics of a source, in order. -/
def items (source : String) : List (Except Diagnostic Token) :=
  (Piece.placed .start (Piece.split source.toList)).filterMap fun (p, piece) => piece.item? p

/-- The token that marks the end of a source. -/
def endToken (source : String) : Token := ⟨.endOfFile, "", Position.start.after source.toList⟩

/-- Scans a whole source. -/
def ofSource (source : String) : Scan where
  tokens := (items source).filterMap Except.toOption ++ [endToken source]
  diagnostics := Diagnostic.ofResults (items source)

end Scan

end BlockScript
