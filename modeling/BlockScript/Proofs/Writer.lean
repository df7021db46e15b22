import BlockScript.Stmt.Exec

/-!
# Runs that print to any writer

`Stmt.execWith` runs a statement like `Stmt.exec`, but hands each value that is printed to a
`Writer`, of which nothing is known: its state is of any type, and it may refuse a value for any
reason. With the output of a machine for a writer it is the ordinary run (`Stmt.execAll_eq`).
-/

namespace BlockScript

/-- What takes a value that is printed: whether it did, or for what reason not, and its state after
    that. -/
abbrev Writer (σ ε : Type) := Value → σ → Except ε Unit × σ

/-- Why statements stop: something is wrong with them, or a value was refused. -/
inductive Stop (ε : Type) where
  | fault (d : Diagnostic)
  | refused (reason : ε)

/-- The output of a machine takes a value as a line, and refuses it if there is no room. -/
def Output.writer : Writer Output Unit := fun value out =>
  match out.write (value.text ++ "\n") with
  | (true, out) => (.ok (), out)
  | (false, out) => (.error (), out)

/-- What is reported when statements stop that print to the output of a machine. -/
def Stop.diagnostic : Stop Unit → Diagnostic
  | .fault d => d
  | .refused () => .outputClosed

/-- The outcome for a machine of a run that prints to its output. -/
def Machine.ofOutcome :
    Except (Stop Unit) Unit × Environment × Output → Except Diagnostic Unit × Machine
  | (result, env, out) => (result.mapError Stop.diagnostic, ⟨env, out⟩)

namespace Stmt

variable {σ ε : Type}

mutual

/-- Runs a statement that prints to the writer `w`, whose state is `state`. -/
def execWith (w : Writer σ ε) (env : Environment) (state : σ) :
    Stmt → Except (Stop ε) Unit × Environment × σ
  | block body =>
    match execAllWith w env.openScope.2 state body with
    | (result, env, state) => (result, env.closeScope, state)
  | declare name none => (.ok (), env.define name.lexeme .nil, state)
  | declare name (some initializer) =>
    match initializer.eval env with
    | (.error d, env) => (.error (.fault d), env, state)
    | (.ok value, env) => (.ok (), env.define name.lexeme value, state)
  | expression e =>
    match e.eval env with
    | (.error d, env) => (.error (.fault d), env, state)
    | (.ok _, env) => (.ok (), env, state)
  | print e =>
    match e.eval env with
    | (.error d, env) => (.error (.fault d), env, state)
    | (.ok value, env) =>
      match w value state with
      | (result, state) => (result.mapError .refused, env, state)

/-- Runs statements up to the first that stops. -/
def execAllWith (w : Writer σ ε) (env : Environment) (state : σ) :
    List Stmt → Except (Stop ε) Unit × Environment × σ
  | [] => (.ok (), env, state)
  | s :: rest =>
    match s.execWith w env state with
    | (.error stop, env, state) => (.error stop, env, state)
    | (.ok (), env, state) => execAllWith w env state rest

end

end Stmt

theorem Machine.print_eq (m : Machine) (value : Value) :
    m.print value =
      match Output.writer value m.output with
      | (result, out) => Machine.ofOutcome (result.mapError .refused, m.environment, out) := by
  rw [print, Output.writer]
  rcases m.output.write (value.text ++ "\n") with ⟨_ | _, out⟩ <;> rfl

namespace Stmt

mutual

/-- The ordinary run of a statement is the one that prints to the output of the machine. -/
theorem exec_eq (m : Machine) : (s : Stmt) →
    s.exec m = Machine.ofOutcome (s.execWith Output.writer m.environment m.output)
  | block body => by
    rw [exec, execAll_eq m.openScope body, execWith]
    rfl
  | declare name none => rfl
  | declare name (some initializer) => by
    rw [exec, execWith, Machine.eval]
    rcases initializer.eval m.environment with ⟨_ | _, env⟩ <;> rfl
  | expression e => by
    rw [exec, execWith, Machine.eval]
    rcases e.eval m.environment with ⟨_ | _, env⟩ <;> rfl
  | print e => by
    rw [exec, execWith, Machine.eval]
    rcases e.eval m.environment with ⟨_ | value, env⟩
    · rfl
    · exact Machine.print_eq _ value

/-- The ordinary run of statements is the one that prints to the output of the machine. -/
theorem execAll_eq (m : Machine) : (ss : List Stmt) →
    execAll m ss = Machine.ofOutcome (execAllWith Output.writer m.environment m.output ss)
  | [] => rfl
  | s :: rest => by
    rw [execAll, exec_eq m s, execAllWith]
    rcases s.execWith Output.writer m.environment m.output with ⟨_ | _, env, out⟩
    · rfl
    · exact execAll_eq ⟨env, out⟩ rest

end

end Stmt

end BlockScript
