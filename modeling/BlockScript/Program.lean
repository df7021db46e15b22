import BlockScript.Stmt.Parse
import BlockScript.Token.Scan

/-!
# Programs

A program is the list of statements of a source that scans and parses without a fault. Where there
are faults, all those of the first stage that has any are reported.
-/

namespace BlockScript.Program

/-- The tokens of a source, or what is wrong with its lexemes. -/
def tokens (source : String) : Except (List Diagnostic) (List Token) :=
  let scan := Scan.ofSource source
  if scan.diagnostics.isEmpty then .ok scan.tokens else .error scan.diagnostics

/-- The statements that the tokens make up, or what is wrong with them. -/
def ofTokens (ts : List Token) : Except (List Diagnostic) (List Stmt) :=
  let results := (Stmt.parseAll ts).1
  let diagnostics := Diagnostic.ofResults results
  if diagnostics.isEmpty then .ok (results.filterMap Except.toOption) else .error diagnostics

/-- The statements of a source, or what is wrong with it. -/
def ofSource (source : String) : Except (List Diagnostic) (List Stmt) :=
  match tokens source with
  | .error diagnostics => .error diagnostics
  | .ok ts => ofTokens ts

end BlockScript.Program
