import BlockScript.Proofs.ScopeFrame
import BlockScript.Proofs.Writer

/-!
# Runs in related environments

A `Simulation` is a relation between two environments that reading, assigning, declaring and the
opening and closing of scopes keep, for each number of scopes that were opened since two runs began.
The same statements then give the same result in related environments and print the same values,
and they leave environments that are related again (`Simulation.execAllWith`). Which names they may
mention, and which they may declare outside of all blocks, is part of the simulation.
-/

namespace BlockScript

/-- The names that occur in the expression. -/
def Expr.names : Expr → List String
  | literal _ => []
  | var name => [name.lexeme]
  | grouping inner => inner.names
  | unary _ operand => operand.names
  | binary left _ right => left.names ++ right.names
  | assign name value => name.lexeme :: value.names

namespace Stmt

mutual

/-- The names that occur in the statement. -/
def names : Stmt → List String
  | block body => allNames body
  | declare name none => [name.lexeme]
  | declare name (some initializer) => name.lexeme :: initializer.names
  | expression e => e.names
  | print e => e.names

/-- The names that occur in the statements. -/
def allNames : List Stmt → List String
  | [] => []
  | s :: rest => s.names ++ allNames rest

end

end Stmt

/-- The relations `R n`, where `n` counts the scopes that were opened since two runs began, are kept
    by what is done with names that satisfy `mentions`. Outside of all blocks, where `n` is zero, a
    name that is declared also satisfies `declares`. -/
structure Simulation (R : Nat → Environment → Environment → Prop)
    (mentions declares : String → Prop) : Prop where
  get? : ∀ {n env env' name}, R n env env' → mentions name → env.get? name = env'.get? name
  assign? : ∀ {n env env' name}, R n env env' → mentions name → ∀ value,
    (env.assign? name value = none ∧ env'.assign? name value = none) ∨
      ∃ after after', env.assign? name value = some after ∧
        env'.assign? name value = some after' ∧ R n after after'
  define : ∀ {n env env' name}, R n env env' → mentions name → (n = 0 → declares name) →
    ∀ value, R n (env.define name value) (env'.define name value)
  openScope : ∀ {n env env'}, R n env env' → R (n + 1) env.openScope.2 env'.openScope.2
  closeScope : ∀ {n env env'}, R (n + 1) env env' → R n env.closeScope env'.closeScope

namespace Simulation

variable {R : Nat → Environment → Environment → Prop} {mentions declares : String → Prop}
  {n : Nat} {env env' : Environment} {σ ε : Type}

theorem read (h : Simulation R mentions declares) (henv : R n env env') {name : Token}
    (hname : mentions name.lexeme) : env.read name = env'.read name := by
  rw [Environment.read, Environment.read, h.get? henv hname]

theorem write (h : Simulation R mentions declares) (henv : R n env env') {name : Token}
    (hname : mentions name.lexeme) (value : Value) :
    (∃ d, env.write name value = .error d ∧ env'.write name value = .error d) ∨
      ∃ after after', env.write name value = .ok after ∧ env'.write name value = .ok after' ∧
        R n after after' := by
  rw [Environment.write, Environment.write]
  rcases h.assign? henv hname value with ⟨hw, hw'⟩ | ⟨after, after', hw, hw', hafter⟩
  · rw [hw, hw']
    exact .inl ⟨_, rfl, rfl⟩
  · rw [hw, hw']
    exact .inr ⟨after, after', rfl, rfl, hafter⟩

/-- An expression has the same value in related environments, or the same fault. -/
theorem eval (h : Simulation R mentions declares) {e : Expr} (hnames : ∀ name ∈ e.names,
    mentions name) (henv : R n env env') :
    ∃ result after after', e.eval env = (result, after) ∧ e.eval env' = (result, after') ∧
      R n after after' := by
  induction e generalizing env env' with
  | literal value => exact ⟨_, _, _, rfl, rfl, henv⟩
  | var name =>
    refine ⟨_, _, _, rfl, ?_, henv⟩
    rw [Expr.eval, h.read henv (hnames _ (List.mem_singleton_self _))]
  | grouping inner ih => exact ih hnames henv
  | unary op operand ih =>
    obtain ⟨result, after, after', ho, ho', hafter⟩ := ih hnames henv
    rw [Expr.eval, Expr.eval, ho, ho']
    cases result <;> exact ⟨_, _, _, rfl, rfl, hafter⟩
  | binary left op right ihl ihr =>
    obtain ⟨hleft, hright⟩ := List.forall_mem_append.mp hnames
    obtain ⟨result, middle, middle', hl, hl', hmiddle⟩ := ihl hleft henv
    rw [Expr.eval, Expr.eval, hl, hl']
    cases result with
    | error d => exact ⟨_, _, _, rfl, rfl, hmiddle⟩
    | ok l =>
      obtain ⟨result, after, after', hr, hr', hafter⟩ := ihr hright hmiddle
      simp only [hr, hr']
      cases result <;> exact ⟨_, _, _, rfl, rfl, hafter⟩
  | assign name value ih =>
    obtain ⟨hname, hvalue⟩ := List.forall_mem_cons.mp hnames
    obtain ⟨result, middle, middle', hv, hv', hmiddle⟩ := ih hvalue henv
    rw [Expr.eval, Expr.eval, hv, hv']
    cases result with
    | error d => exact ⟨_, _, _, rfl, rfl, hmiddle⟩
    | ok v =>
      rcases h.write hmiddle hname v with ⟨d, hw, hw'⟩ | ⟨after, after', hw, hw', hafter⟩
      · simp only [hw, hw']
        exact ⟨_, _, _, rfl, rfl, hmiddle⟩
      · simp only [hw, hw']
        exact ⟨_, _, _, rfl, rfl, hafter⟩

mutual

/-- A statement does the same in related environments. -/
theorem execWith (h : Simulation R mentions declares) (w : Writer σ ε) {n : Nat}
    {env env' : Environment} (henv : R n env env') (state : σ) : (s : Stmt) →
    (∀ name ∈ s.names, mentions name) → (n = 0 → ∀ name ∈ s.declared, declares name) →
    ∃ result after after' last, s.execWith w env state = (result, after, last) ∧
      s.execWith w env' state = (result, after', last) ∧ R n after after'
  | .block body => by
    intro hnames _
    obtain ⟨result, after, after', last, hb, hb', hafter⟩ :=
      h.execAllWith w (h.openScope henv) state body hnames (fun hzero => nomatch hzero)
    rw [Stmt.execWith, Stmt.execWith, hb, hb']
    exact ⟨_, _, _, _, rfl, rfl, h.closeScope hafter⟩
  | .declare name none => by
    intro hnames hdeclared
    have hname := List.mem_singleton_self name.lexeme
    exact ⟨_, _, _, _, rfl, rfl,
      h.define henv (hnames _ hname) (fun hzero => hdeclared hzero _ hname) .nil⟩
  | .declare name (some initializer) => by
    intro hnames hdeclared
    obtain ⟨hname, hinitializer⟩ := List.forall_mem_cons.mp hnames
    obtain ⟨result, after, after', hv, hv', hafter⟩ := h.eval hinitializer henv
    rw [Stmt.execWith, Stmt.execWith, hv, hv']
    cases result with
    | error d => exact ⟨_, _, _, _, rfl, rfl, hafter⟩
    | ok value =>
      exact ⟨_, _, _, _, rfl, rfl,
        h.define hafter hname (fun hzero => hdeclared hzero _ (List.mem_singleton_self _)) value⟩
  | .expression e => by
    intro hnames _
    obtain ⟨result, after, after', hv, hv', hafter⟩ := h.eval hnames henv
    rw [Stmt.execWith, Stmt.execWith, hv, hv']
    cases result <;> exact ⟨_, _, _, _, rfl, rfl, hafter⟩
  | .print e => by
    intro hnames _
    obtain ⟨result, after, after', hv, hv', hafter⟩ := h.eval hnames henv
    rw [Stmt.execWith, Stmt.execWith, hv, hv']
    cases result <;> exact ⟨_, _, _, _, rfl, rfl, hafter⟩

/-- Statements do the same in related environments, one after the other. -/
theorem execAllWith (h : Simulation R mentions declares) (w : Writer σ ε) {n : Nat}
    {env env' : Environment} (henv : R n env env') (state : σ) : (ss : List Stmt) →
    (∀ name ∈ Stmt.allNames ss, mentions name) →
    (n = 0 → ∀ s ∈ ss, ∀ name ∈ s.declared, declares name) →
    ∃ result after after' last, Stmt.execAllWith w env state ss = (result, after, last) ∧
      Stmt.execAllWith w env' state ss = (result, after', last) ∧ R n after after'
  | [] => fun _ _ => ⟨_, _, _, _, rfl, rfl, henv⟩
  | s :: rest => by
    intro hnames hdeclared
    obtain ⟨hfirst, hrest⟩ := List.forall_mem_append.mp hnames
    obtain ⟨result, middle, middle', last, hs, hs', hmiddle⟩ :=
      h.execWith w henv state s hfirst fun hzero => hdeclared hzero s List.mem_cons_self
    rw [Stmt.execAllWith, Stmt.execAllWith, hs, hs']
    cases result with
    | error stop => exact ⟨_, _, _, _, rfl, rfl, hmiddle⟩
    | ok _ =>
      exact h.execAllWith w hmiddle last rest hrest fun hzero t ht =>
        hdeclared hzero t (List.mem_cons_of_mem s ht)

end

end Simulation

end BlockScript
