import BlockScript.Proofs.Reachable

/-!
# Evaluation that stops at what cannot happen

`Expr.evalChecked` and `Stmt.execChecked` evaluate and run in the same way as `Expr.eval` and
`Stmt.exec`, but have no outcome as soon as a scope is asked for by an index at which there is none,
a walk over the scopes does not go outwards, or an operation has a token that is no operator. On
well formed trees in well formed environments none of that happens, and the outcome is the ordinary
one (`Expr.evalChecked_eq`, `Stmt.execAllChecked_eq`).
-/

namespace BlockScript

/-! ## Environments -/

namespace Environment

/-- The first scope that binds the name, from the scope `i` outwards, where each index on the way is
    that of a scope, and smaller than the one before it. -/
def resolveFromChecked (env : Environment) (name : String) (i : Nat) : Option (Option Nat) :=
  match env.scopes[i]? with
  | none => none
  | some scope =>
    if scope.bindings.contains name then
      some (some i)
    else
      match scope.parent? with
      | none => some none
      | some parent => if parent < i then env.resolveFromChecked name parent else none

/-- The value of the name, or the fault that it has none. -/
def readChecked (env : Environment) (name : Token) : Option (Except Diagnostic Value) :=
  (env.resolveFromChecked name.lexeme env.current).bind fun
    | none => some (.error (.runtime name .undefinedVariable))
    | some i => env.scopes[i]?.map fun scope =>
      match scope.bindings[name.lexeme]? with
      | some value => .ok value
      | none => .error (.runtime name .undefinedVariable)

/-- Gives the name a value in the scope `i`, which there has to be. -/
def bindInChecked (env : Environment) (i : Nat) (name : String) (value : Value) :
    Option Environment :=
  env.scopes[i]?.map fun _ => env.bindIn i name value

/-- The environment in which the name has a new value, or the fault that it had none. -/
def writeChecked (env : Environment) (name : Token) (value : Value) :
    Option (Except Diagnostic Environment) :=
  (env.resolveFromChecked name.lexeme env.current).bind fun
    | none => some (.error (.runtime name .undefinedVariable))
    | some i => (env.bindInChecked i name.lexeme value).map .ok

/-- Declares the name in the current scope, which there has to be. -/
def defineChecked (env : Environment) (name : String) (value : Value) : Option Environment :=
  env.bindInChecked env.current name value

/-- Closes the current scope, which there has to be. -/
def closeScopeChecked (env : Environment) : Option Environment :=
  env.scopes[env.current]?.map fun _ => env.closeScope

namespace WellFormed

variable {env : Environment}

theorem resolveFromChecked_eq (h : env.WellFormed) (name : String) {i : Nat}
    (hi : i < env.scopes.size) :
    env.resolveFromChecked name i = some (env.resolveFrom name i) := by
  induction i with
  | zero =>
    have hscope := Array.getElem?_eq_getElem hi
    rw [resolveFromChecked, resolveFrom, hscope]
    simp only [h.parent?_zero _ hscope]
    split <;> rfl
  | succ i ih =>
    have hscope := Array.getElem?_eq_getElem hi
    rw [resolveFromChecked, resolveFrom, hscope]
    simp only [h.parent?_succ i _ hscope, if_pos (Nat.lt_succ_self i)]
    split
    · rfl
    · exact ih (Nat.lt_of_succ_lt hi)

theorem bindInChecked_eq {i : Nat} (hi : i < env.scopes.size) (name : String) (value : Value) :
    env.bindInChecked i name value = some (env.bindIn i name value) := by
  rw [bindInChecked, Array.getElem?_eq_getElem hi, Option.map_some]

theorem readChecked_eq (h : env.WellFormed) (name : Token) :
    env.readChecked name = some (env.read name) := by
  rw [readChecked, h.resolveFromChecked_eq name.lexeme h.current_lt, Option.bind_some,
    Environment.read, get?, resolve]
  cases hresolve : env.resolveFrom name.lexeme env.current with
  | none => rfl
  | some i =>
    have hi := Nat.lt_of_le_of_lt (h.le_of_resolveFrom h.current_lt hresolve) h.current_lt
    cases hvalue : env.scopes[i].bindings[name.lexeme]? <;>
      simp only [Array.getElem?_eq_getElem hi, Option.map_some, Option.bind_some, valueIn, hvalue]

theorem writeChecked_eq (h : env.WellFormed) (name : Token) (value : Value) :
    env.writeChecked name value = some (env.write name value) := by
  rw [writeChecked, h.resolveFromChecked_eq name.lexeme h.current_lt, Option.bind_some,
    Environment.write, assign?, resolve]
  cases hresolve : env.resolveFrom name.lexeme env.current with
  | none => rfl
  | some i =>
    have hi := Nat.lt_of_le_of_lt (h.le_of_resolveFrom h.current_lt hresolve) h.current_lt
    simp only [bindInChecked_eq hi]
    rfl

theorem defineChecked_eq (h : env.WellFormed) (name : String) (value : Value) :
    env.defineChecked name value = some (env.define name value) :=
  bindInChecked_eq h.current_lt name value

theorem closeScopeChecked_eq (h : env.WellFormed) :
    env.closeScopeChecked = some env.closeScope := by
  rw [closeScopeChecked, Array.getElem?_eq_getElem h.current_lt, Option.map_some]

end WellFormed

end Environment

/-! ## Expressions -/

namespace Expr

/-- The value of an expression and the environment after it, where each index is that of a scope
    and each operator is one. -/
def evalChecked (env : Environment) : Expr → Option (Except Diagnostic Value × Environment)
  | literal value => some (.ok value, env)
  | var name => (env.readChecked name).map fun result => (result, env)
  | grouping inner => inner.evalChecked env
  | unary op operand =>
    (operand.evalChecked env).bind fun
      | (.error d, env) => some (.error d, env)
      | (.ok value, env) =>
        (UnaryOp.ofKind? op.kind).map fun o => ((o.apply value).mapError (.runtime op), env)
  | binary left op right =>
    (left.evalChecked env).bind fun
      | (.error d, env) => some (.error d, env)
      | (.ok l, env) =>
        (right.evalChecked env).bind fun
          | (.error d, env) => some (.error d, env)
          | (.ok r, env) =>
            (BinaryOp.ofKind? op.kind).map fun o => ((o.apply l r).mapError (.runtime op), env)
  | assign name value =>
    (value.evalChecked env).bind fun
      | (.error d, env) => some (.error d, env)
      | (.ok v, env) =>
        (env.writeChecked name v).map fun
          | .error d => (.error d, env)
          | .ok env => (.ok v, env)

/-- A well formed expression is evaluated in a well formed environment without any index out of
    bounds and without an operation that has no operator. -/
theorem evalChecked_eq {e : Expr} (he : e.WellFormed) {env : Environment} (h : env.WellFormed) :
    e.evalChecked env = some (e.eval env) := by
  induction e generalizing env with
  | literal value => rfl
  | var name => rw [evalChecked, h.readChecked_eq]; rfl
  | grouping inner ih => exact ih he h
  | unary op operand ih =>
    rw [evalChecked, ih he.2 h, eval, Option.bind_some]
    obtain ⟨o, ho⟩ := Option.isSome_iff_exists.mp he.1
    rcases operand.eval env with ⟨_ | value, after⟩
    · rfl
    · simp only [ho, applyUnary, Option.map_some]
  | binary left op right ihl ihr =>
    have hmiddle := left.wellFormed_eval h
    rw [evalChecked, ihl he.1 h, eval, Option.bind_some]
    obtain ⟨o, ho⟩ := Option.isSome_iff_exists.mp he.2.1
    generalize left.eval env = outcome at hmiddle
    obtain ⟨result, middle⟩ := outcome
    cases result with
    | error d => rfl
    | ok l =>
      simp only [ihr he.2.2 hmiddle, Option.bind_some]
      rcases right.eval middle with ⟨_ | r, after⟩
      · rfl
      · simp only [ho, applyBinary, Option.map_some]
  | assign name value ih =>
    have hmiddle := value.wellFormed_eval h
    rw [evalChecked, ih he h, eval, Option.bind_some]
    generalize value.eval env = outcome at hmiddle
    obtain ⟨result, middle⟩ := outcome
    cases result with
    | error d => rfl
    | ok v =>
      cases hwrite : middle.write name v <;>
        simp only [hmiddle.writeChecked_eq, Option.map_some, hwrite]

end Expr

/-! ## Statements -/

namespace Machine

/-- Evaluates an expression, where nothing that cannot happen does. -/
def evalChecked (m : Machine) (e : Expr) : Option (Except Diagnostic Value × Machine) :=
  (e.evalChecked m.environment).map fun (result, env) => (result, { m with environment := env })

/-- Declares a name in the current scope, which there has to be. -/
def defineChecked (m : Machine) (name : Token) (value : Value) : Option Machine :=
  (m.environment.defineChecked name.lexeme value).map fun env => { m with environment := env }

/-- Closes the current scope, which there has to be. -/
def closeScopeChecked (m : Machine) : Option Machine :=
  m.environment.closeScopeChecked.map fun env => { m with environment := env }

variable {m : Machine}

theorem evalChecked_eq (h : m.environment.WellFormed) {e : Expr} (he : e.WellFormed) :
    m.evalChecked e = some (m.eval e) := by
  rw [evalChecked, Expr.evalChecked_eq he h]
  rfl

theorem defineChecked_eq (h : m.environment.WellFormed) (name : Token) (value : Value) :
    m.defineChecked name value = some (m.define name value) := by
  rw [defineChecked, h.defineChecked_eq]
  rfl

theorem closeScopeChecked_eq (h : m.environment.WellFormed) :
    m.closeScopeChecked = some m.closeScope := by
  rw [closeScopeChecked, h.closeScopeChecked_eq]
  rfl

end Machine

namespace Stmt

mutual

/-- Runs a statement, where nothing that cannot happen does. -/
def execChecked (m : Machine) : Stmt → Option (Except Diagnostic Unit × Machine)
  | block body =>
    (execAllChecked m.openScope body).bind fun (result, m) =>
      m.closeScopeChecked.map fun m => (result, m)
  | declare name none => (m.defineChecked name .nil).map fun m => (.ok (), m)
  | declare name (some initializer) =>
    (m.evalChecked initializer).bind fun
      | (.error d, m) => some (.error d, m)
      | (.ok value, m) => (m.defineChecked name value).map fun m => (.ok (), m)
  | expression e =>
    (m.evalChecked e).map fun
      | (.error d, m) => (.error d, m)
      | (.ok _, m) => (.ok (), m)
  | print e =>
    (m.evalChecked e).map fun
      | (.error d, m) => (.error d, m)
      | (.ok value, m) => m.print value

/-- Runs statements up to the first that fails, where nothing that cannot happen does. -/
def execAllChecked (m : Machine) : List Stmt → Option (Except Diagnostic Unit × Machine)
  | [] => some (.ok (), m)
  | s :: rest =>
    (s.execChecked m).bind fun
      | (.error d, m) => some (.error d, m)
      | (.ok (), m) => execAllChecked m rest

end

mutual

theorem execChecked_eq {m : Machine} (h : m.environment.WellFormed) : (s : Stmt) →
    s.WellFormed → s.execChecked m = some (s.exec m)
  | block body, hs => by
    have hopened : m.openScope.environment.WellFormed := h.openScope
    have hbody := wellFormed_execAll hopened body
    rw [execChecked, execAllChecked_eq hopened body hs, exec, Option.bind_some]
    generalize execAll m.openScope body = outcome at hbody
    obtain ⟨result, after⟩ := outcome
    simp only [Machine.closeScopeChecked_eq hbody, Option.map_some]
  | declare name none, _ => by
    rw [execChecked, Machine.defineChecked_eq h, exec]
    rfl
  | declare name (some initializer), hs => by
    have hvalue := Machine.wellFormed_eval h initializer
    rw [execChecked, Machine.evalChecked_eq h hs, exec, Option.bind_some]
    generalize m.eval initializer = outcome at hvalue
    obtain ⟨result, middle⟩ := outcome
    cases result with
    | error d => rfl
    | ok value => simp only [Machine.defineChecked_eq hvalue, Option.map_some]
  | expression e, hs => by
    rw [execChecked, Machine.evalChecked_eq h hs, exec]
    rcases m.eval e with ⟨_ | value, after⟩ <;> rfl
  | print e, hs => by
    rw [execChecked, Machine.evalChecked_eq h hs, exec]
    rcases m.eval e with ⟨_ | value, after⟩ <;> rfl

/-- Well formed statements run in a well formed environment without any index out of bounds and
    without an operation that has no operator. -/
theorem execAllChecked_eq {m : Machine} (h : m.environment.WellFormed) : (ss : List Stmt) →
    AllWellFormed ss → execAllChecked m ss = some (execAll m ss)
  | [], _ => rfl
  | s :: rest, hss => by
    have hs := wellFormed_exec h s
    rw [execAllChecked, execChecked_eq h s hss.1, execAll, Option.bind_some]
    generalize s.exec m = outcome at hs
    obtain ⟨result, middle⟩ := outcome
    cases result with
    | error d => rfl
    | ok _ => exact execAllChecked_eq hs rest hss.2

end

end Stmt

end BlockScript
