import BlockScript.Proofs.Effect
import BlockScript.Proofs.ScopeStack

/-!
# Reachable machines

`Machine.Reachable` are the machines that come from new ones by evaluating expressions and running
statements, whatever the outcome. Their environments are well formed
(`Machine.Reachable.wellFormed`), because all that code does to one keeps it so
(`Environment.WellFormed.effect`).
-/

namespace BlockScript

namespace Environment

variable {env : Environment}

/-- Every well formed environment represents a stack of maps. -/
theorem WellFormed.exists_represents (h : env.WellFormed) : ∃ s, env.Represents s := by
  have hlength : env.bindings.length = env.current + 1 := by
    rw [length_bindings, h.current_eq]
  cases hmaps : env.bindings.reverse with
  | nil => simp [List.reverse_eq_nil_iff.mp hmaps] at hlength
  | cons top below =>
    refine ⟨⟨top, below⟩, h, ?_⟩
    rw [ScopeStack.maps, ← hmaps, List.reverse_reverse]

theorem WellFormed.openScope (h : env.WellFormed) : env.openScope.2.WellFormed := by
  obtain ⟨s, hs⟩ := h.exists_represents
  exact hs.openScope.wellFormed

theorem WellFormed.closeScope (h : env.WellFormed) : env.closeScope.WellFormed := by
  obtain ⟨s, hs⟩ := h.exists_represents
  exact hs.closeScope.wellFormed

/-- What code does keeps an environment well formed. -/
theorem WellFormed.effect (assigned : List String) :
    Effect (fun _ env after => env.WellFormed → after.WellFormed) assigned where
  refl _ h := h
  trans hmiddle hafter h := hafter (hmiddle h)
  assign _ _ value h := h.bindIn _ _ value
  define _ value h := h.bindIn _ _ value
  block hbody h := (hbody h.openScope).closeScope

end Environment

/-- Whatever the outcome, evaluating an expression keeps the environment well formed. -/
theorem Expr.wellFormed_eval {env : Environment} (h : env.WellFormed) (e : Expr) :
    (e.eval env).2.WellFormed :=
  (Environment.WellFormed.effect e.assigned).eval [] (List.Subset.refl _) env h

theorem Machine.wellFormed_eval {m : Machine} (h : m.environment.WellFormed) (e : Expr) :
    (m.eval e).2.environment.WellFormed :=
  e.wellFormed_eval h

/-- Whatever the outcome, running a statement keeps the environment well formed. -/
theorem Stmt.wellFormed_exec {m : Machine} (h : m.environment.WellFormed) (s : Stmt) :
    (s.exec m).2.environment.WellFormed :=
  (Environment.WellFormed.effect s.assigned).exec m s (List.Subset.refl _) (List.Subset.refl _) h

theorem Stmt.wellFormed_execAll {m : Machine} (h : m.environment.WellFormed) (ss : List Stmt) :
    (execAll m ss).2.environment.WellFormed :=
  (Environment.WellFormed.effect (allAssigned ss)).execAll m ss (List.Subset.refl _)
    (List.Subset.refl _) h

/-- The machine comes from a new one by evaluating expressions and running statements. -/
inductive Machine.Reachable : Machine → Prop
  | new (capacity? : Option Nat) : Reachable (.new capacity?)
  | eval {m : Machine} (e : Expr) : Reachable m → Reachable (m.eval e).2
  | exec {m : Machine} (s : Stmt) : Reachable m → Reachable (s.exec m).2

theorem Machine.Reachable.wellFormed {m : Machine} (h : m.Reachable) :
    m.environment.WellFormed := by
  induction h with
  | new capacity? => exact Environment.Represents.empty.wellFormed
  | eval e _ ih => exact Machine.wellFormed_eval ih e
  | exec s _ ih => exact Stmt.wellFormed_exec ih s

end BlockScript
