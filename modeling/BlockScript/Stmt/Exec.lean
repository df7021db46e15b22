import BlockScript.Machine
import BlockScript.Stmt

/-!
# Running statements

Statements run in order up to the first fault; what they declared, assigned and printed before it
stays. A block closes its scope whether or not one of its statements fails.
-/

namespace BlockScript.Stmt

mutual

/-- Runs a statement. -/
def exec (m : Machine) : Stmt → Except Diagnostic Unit × Machine
  | block body =>
    match execAll m.openScope body with
    | (result, m) => (result, m.closeScope)
  | declare name none => (.ok (), m.define name .nil)
  | declare name (some initializer) =>
    match m.eval initializer with
    | (.error d, m) => (.error d, m)
    | (.ok value, m) => (.ok (), m.define name value)
  | expression e =>
    match m.eval e with
    | (.error d, m) => (.error d, m)
    | (.ok _, m) => (.ok (), m)
  | print e =>
    match m.eval e with
    | (.error d, m) => (.error d, m)
    | (.ok value, m) => m.print value

/-- Runs statements up to the first that fails. -/
def execAll (m : Machine) : List Stmt → Except Diagnostic Unit × Machine
  | [] => (.ok (), m)
  | s :: rest =>
    match s.exec m with
    | (.error d, m) => (.error d, m)
    | (.ok (), m) => execAll m rest

end

end BlockScript.Stmt
