import BlockScript.Program
import BlockScript.Stmt.Exec

/-!
# Sessions

A session feeds one source after another to a machine, which keeps the bindings from source to
source. A source is run as a whole, or statement by statement as each one is read, or it is
evaluated as an expression. A source with a lexical fault is rejected in every case.
-/

namespace BlockScript.Session

/-- How the run of a whole source ends. -/
inductive Outcome where
  /-- It does not scan or parse, and nothing was run. -/
  | rejected (diagnostics : List Diagnostic)
  /-- A statement failed. -/
  | failed (diagnostic : Diagnostic)
  | finished
deriving DecidableEq, Repr

/-- Runs a source that has no static fault. -/
def run (m : Machine) (source : String) : Outcome × Machine :=
  match Program.ofSource source with
  | .error diagnostics => (.rejected diagnostics, m)
  | .ok program =>
    match Stmt.execAll m program with
    | (.ok (), m) => (.finished, m)
    | (.error d, m) => (.failed d, m)

/-- Reads and runs one statement after the other. A statement that fails does not keep the next
    one from running, but one that does not fit the grammar ends the run. -/
def runTokens (m : Machine) (ts : List Token) : List (Except Diagnostic Unit) × Machine :=
  if _atEnd : Stmt.atEnd ts then
    ([], m)
  else
    match _parsed : Stmt.parse ts with
    | (.error d, _) => ([.error d], m)
    | (.ok s, rest) =>
      let (result, m) := s.exec m
      let (results, m) := runTokens m rest
      (result :: results, m)
termination_by ts.length
decreasing_by exact Stmt.length_lt_of_parse_eq_ok (by simpa using _atEnd) _parsed

/-- Reads and runs the statements of a source one after the other. -/
def runEach (m : Machine) (source : String) :
    Except (List Diagnostic) (List (Except Diagnostic Unit)) × Machine :=
  match Program.tokens source with
  | .error diagnostics => (.error diagnostics, m)
  | .ok ts =>
    match runTokens m ts with
    | (results, m) => (.ok results, m)

/-- Evaluates the expression at the beginning of a source, and tells what is left unread. -/
def eval (m : Machine) (source : String) :
    Except (List Diagnostic) (Except Diagnostic Value × List Token) × Machine :=
  match Program.tokens source with
  | .error diagnostics => (.error diagnostics, m)
  | .ok ts =>
    match Expr.parse ts with
    | (.error d, rest) => (.ok (.error d, rest), m)
    | (.ok e, rest) =>
      match m.eval e with
      | (result, m) => (.ok (result, rest), m)

end BlockScript.Session
