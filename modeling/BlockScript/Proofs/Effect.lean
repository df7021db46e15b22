import BlockScript.Stmt.Exec

/-!
# What is done to an environment

Whatever the outcome, all that code does to the environment in which it runs is to assign names, to
declare names, and to do both within scopes that it opens and closes. An `Environment.Effect` is a
relation between two environments that holds wherever this is all that happens between them, and so
it holds between those before and after a run (`Effect.eval`, `Effect.exec`, `Effect.execAll`).
-/

namespace BlockScript

/-- The names that an assignment in the expression gives a new value. -/
def Expr.assigned : Expr → List String
  | literal _ | var _ => []
  | grouping inner => inner.assigned
  | unary _ operand => operand.assigned
  | binary left _ right => left.assigned ++ right.assigned
  | assign name value => name.lexeme :: value.assigned

namespace Stmt

mutual

/-- The names that an assignment anywhere in the statement gives a new value. -/
def assigned : Stmt → List String
  | block body => allAssigned body
  | declare _ none => []
  | declare _ (some initializer) => initializer.assigned
  | expression e => e.assigned
  | print e => e.assigned

/-- The names that an assignment anywhere in the statements gives a new value. -/
def allAssigned : List Stmt → List String
  | [] => []
  | s :: rest => s.assigned ++ allAssigned rest

end

/-- The name that the statement itself declares. What stands in a block is declared within it. -/
def declared : Stmt → List String
  | declare name _ => [name.lexeme]
  | block _ | expression _ | print _ => []

end Stmt

/-- The relation `R declared` between the environment before something is done and the one after it
    holds if nothing is done, one thing after the other, or any of what code does: a name that is
    `assigned` gets a new value in the scope in which it is found, a name that is `declared` gets
    one in the current scope, or anything is done in a scope that is opened for it. -/
structure Environment.Effect (R : List String → Environment → Environment → Prop)
    (assigned : List String) : Prop where
  refl : ∀ {declared} env, R declared env env
  trans : ∀ {declared env middle after}, R declared env middle → R declared middle after →
    R declared env after
  assign : ∀ {declared env i name}, env.resolve name = some i → name ∈ assigned → ∀ value,
    R declared env (env.bindIn i name value)
  define : ∀ {declared env name}, name ∈ declared → ∀ value,
    R declared env (env.define name value)
  block : ∀ {declared inner env after}, R inner env.openScope.2 after →
    R declared env after.closeScope

/-- Printing changes no binding, whether or not the output takes it. -/
theorem Machine.environment_print (m : Machine) (value : Value) :
    (m.print value).2.environment = m.environment := by
  unfold Machine.print
  split <;> rfl

namespace Environment.Effect

variable {R : List String → Environment → Environment → Prop} {assigned : List String}

/-- Evaluating an expression assigns names. -/
theorem eval (h : Effect R assigned) (declared : List String) {e : Expr}
    (hassigned : e.assigned ⊆ assigned) (env : Environment) : R declared env (e.eval env).2 := by
  -- An operand that fails ends the evaluation, in the environment that it leaves.
  induction e generalizing env with
  | literal value => exact h.refl env
  | var name => exact h.refl env
  | grouping inner ih => exact ih hassigned env
  | unary op operand ih =>
    have hoperand := ih hassigned env
    rw [Expr.eval]
    generalize operand.eval env = outcome at hoperand
    rcases outcome with ⟨_ | value, after⟩ <;> exact hoperand
  | binary left op right ihl ihr =>
    obtain ⟨hl, hr⟩ := List.append_subset.mp hassigned
    have hleft := ihl hl env
    rw [Expr.eval]
    generalize left.eval env = outcome at hleft
    obtain ⟨_ | l, middle⟩ := outcome
    · exact hleft
    · have hright := h.trans hleft (ihr hr middle)
      simp only
      generalize right.eval middle = outcome at hright
      rcases outcome with ⟨_ | r, after⟩ <;> exact hright
  | assign name value ih =>
    obtain ⟨hname, hrest⟩ := List.cons_subset.mp hassigned
    have hvalue := ih hrest env
    rw [Expr.eval]
    generalize value.eval env = outcome at hvalue
    obtain ⟨_ | v, middle⟩ := outcome
    · exact hvalue
    · simp only [Environment.write, Environment.assign?]
      cases hresolve : middle.resolve name.lexeme with
      | none => exact hvalue
      | some i => exact h.trans hvalue (h.assign hresolve hname v)

theorem machine_eval (h : Effect R assigned) (declared : List String) {e : Expr}
    (hassigned : e.assigned ⊆ assigned) (m : Machine) :
    R declared m.environment (m.eval e).2.environment :=
  h.eval declared hassigned m.environment

mutual

/-- Running a statement assigns names and declares at most its own one. -/
theorem exec (h : Effect R assigned) {declared : List String} (m : Machine) : (s : Stmt) →
    s.assigned ⊆ assigned → s.declared ⊆ declared →
    R declared m.environment (s.exec m).2.environment
  | .block body => fun hassigned _ =>
    -- what the block declares goes with its scope, so that it need not be `declared`
    h.block (h.execAll m.openScope body hassigned (List.Subset.refl _))
  | .declare name none => fun _ hdeclared => h.define (hdeclared List.mem_cons_self) .nil
  | .declare name (some initializer) => by
    intro hassigned hdeclared
    have hvalue := h.machine_eval declared hassigned m
    rw [Stmt.exec]
    generalize m.eval initializer = outcome at hvalue
    obtain ⟨_ | value, middle⟩ := outcome
    · exact hvalue
    · exact h.trans hvalue (h.define (hdeclared List.mem_cons_self) value)
  | .expression e => by
    intro hassigned _
    have hvalue := h.machine_eval declared hassigned m
    rw [Stmt.exec]
    generalize m.eval e = outcome at hvalue
    rcases outcome with ⟨_ | value, after⟩ <;> exact hvalue
  | .print e => by
    intro hassigned _
    have hvalue := h.machine_eval declared hassigned m
    rw [Stmt.exec]
    generalize m.eval e = outcome at hvalue
    obtain ⟨_ | value, middle⟩ := outcome
    · exact hvalue
    · simp only [Machine.environment_print]
      exact hvalue

/-- Running statements one after the other assigns names and declares at most their own ones. -/
theorem execAll (h : Effect R assigned) {declared : List String} (m : Machine) :
    (ss : List Stmt) → Stmt.allAssigned ss ⊆ assigned → ss.flatMap Stmt.declared ⊆ declared →
    R declared m.environment (Stmt.execAll m ss).2.environment
  | [] => fun _ _ => h.refl m.environment
  | s :: rest => by
    intro hassigned hdeclared
    obtain ⟨hfirst, hrest⟩ := List.append_subset.mp hassigned
    obtain ⟨hown, hothers⟩ := List.append_subset.mp hdeclared
    have hs := h.exec m s hfirst hown
    rw [Stmt.execAll]
    generalize s.exec m = outcome at hs
    obtain ⟨_ | _, middle⟩ := outcome
    · exact hs
    · exact h.trans hs (h.execAll middle rest hrest hothers)

end

end Environment.Effect

end BlockScript
