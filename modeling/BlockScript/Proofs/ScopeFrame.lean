import BlockScript.Console
import BlockScript.Proofs.Effect
import BlockScript.Proofs.ScopeStack

/-!
# What running changes of the open scopes

A run may end in the middle of an expression within any number of blocks, and yet the same scopes
are open afterwards. `Environment.Frame` says what is left of them: each scope keeps its names,
the current one gains at most the names that the statements declare themselves, and a value
differs only where its name was assigned or declared. A frame is an `Environment.Effect`, so that
every expression and every statement keeps to its own, whatever the outcome
(`Machine.frame_of_run`).
-/

namespace BlockScript

namespace Environment

/-- For each open scope the index of the one around it, the global scope first. -/
def parents (env : Environment) : List (Option Nat) := env.scopes.toList.map Scope.parent?

/-- Between two environments the current scope may have gained names that are `declared`, and the
    values of those there and of names that are `assigned` may differ. All else is the same. -/
structure Frame (before after : Environment) (declared assigned : List String) : Prop where
  current_eq : after.current = before.current
  parents_eq : after.parents = before.parents
  keeps : ∀ i name, (before.valueIn i name).isSome → (after.valueIn i name).isSome
  gains : ∀ i name, before.valueIn i name = none → (after.valueIn i name).isSome →
    i = before.current ∧ name ∈ declared
  differs : ∀ i name value, before.valueIn i name = some value →
    after.valueIn i name ≠ some value → name ∈ assigned ∨ i = before.current ∧ name ∈ declared

theorem length_parents (env : Environment) : env.parents.length = env.depth := by
  rw [parents, List.length_map, Array.length_toList, depth]

theorem valueIn_bindIn (env : Environment) (i j : Nat) (name other : String) (value : Value) :
    (env.bindIn i name value).valueIn j other =
      if i = j ∧ name = other ∧ j < env.depth then some value else env.valueIn j other := by
  unfold valueIn
  rw [getElem?_scopes_bindIn]
  by_cases hij : i = j
  · rw [if_pos hij]
    by_cases hj : j < env.scopes.size
    · simp only [Array.getElem?_eq_getElem hj, Option.map_some, Option.bind_some,
        Std.ExtTreeMap.getElem?_insert, Std.LawfulEqCmp.compare_eq_iff_eq]
      simp [hij, depth, hj]
    · simp [depth, hj]
  · rw [if_neg hij, if_neg fun h => hij h.1]

theorem parents_bindIn (env : Environment) (i : Nat) (name : String) (value : Value) :
    (env.bindIn i name value).parents = env.parents := by
  apply List.ext_getElem?
  intro j
  simp only [parents, List.getElem?_map, Array.getElem?_toList, getElem?_scopes_bindIn]
  split
  · cases env.scopes[j]? <;> rfl
  · rfl

theorem depth_bindIn (env : Environment) (i : Nat) (name : String) (value : Value) :
    (env.bindIn i name value).depth = env.depth := by
  simp [bindIn, depth]

theorem lt_depth_of_valueIn {env : Environment} {i : Nat} {name : String}
    (h : (env.valueIn i name).isSome) : i < env.depth := by
  by_cases hi : i < env.scopes.size
  · exact hi
  · simp [valueIn, Array.getElem?_eq_none (Nat.le_of_not_lt hi)] at h

/-- The scope in which a name is found binds it. -/
theorem isSome_valueIn_resolveFrom {env : Environment} {name : String} {i k : Nat}
    (h : env.resolveFrom name i = some k) : (env.valueIn k name).isSome := by
  fun_induction env.resolveFrom name i with
  | case1 => cases h
  | case2 i scope hscope hbound =>
    cases h
    rw [valueIn, hscope, Option.bind_some, ← Std.ExtTreeMap.contains_eq_isSome_getElem?]
    exact hbound
  | case3 => cases h
  | case4 i scope hscope hbound parent hparent hlt ih => exact ih h
  | case5 => cases h

theorem parents_openScope (env : Environment) :
    env.openScope.2.parents = env.parents ++ [some env.current] := by
  simp [parents, openScope]

theorem depth_openScope (env : Environment) : env.openScope.2.depth = env.depth + 1 := by
  simp [openScope, depth]

/-- A scope that was just opened binds nothing. -/
theorem valueIn_openScope (env : Environment) (i : Nat) (name : String) :
    env.openScope.2.valueIn i name = env.valueIn i name := by
  rw [valueIn, valueIn, openScope, Array.getElem?_push]
  by_cases hi : i = env.scopes.size
  · simp [hi]
  · rw [if_neg hi]

/-- Closing the last scope leaves those before it, with the one around it current. -/
theorem closeScope_eq {env : Environment} {parents : List (Option Nat)} {parent : Nat}
    (hparents : env.parents = parents ++ [some parent]) (hcurrent : env.current = parents.length) :
    env.closeScope = ⟨env.scopes.take parents.length, parent⟩ := by
  have hlast : env.parents[parents.length]? = some (some parent) := by
    rw [hparents, List.getElem?_concat_length]
  rw [Environment.parents, List.getElem?_map, Array.getElem?_toList] at hlast
  obtain ⟨scope, hscope, hparent⟩ := Option.map_eq_some_iff.mp hlast
  rw [closeScope, hcurrent, hscope]
  obtain ⟨parent?, bindings⟩ := scope
  subst hparent
  rfl

theorem valueIn_take (env : Environment) (n current i : Nat) (name : String) :
    valueIn ⟨env.scopes.take n, current⟩ i name = if i < n then env.valueIn i name else none := by
  have hscope : (env.scopes.take n)[i]? = if i < n then env.scopes[i]? else none := by
    rw [← Array.getElem?_toList, ← Array.getElem?_toList]
    simp [List.getElem?_take]
  rw [valueIn, valueIn, hscope]
  split <;> rfl

namespace Frame

variable {env middle after : Environment} {declared assigned : List String}

theorem refl (env : Environment) : env.Frame env declared assigned := by
  refine ⟨rfl, rfl, fun _ _ h => h, ?_, ?_⟩
  · intro i name hnone hsome
    rw [hnone] at hsome
    cases hsome
  · intro i name value hvalue hne
    exact absurd hvalue hne

theorem depth_eq (h : env.Frame after declared assigned) : after.depth = env.depth := by
  rw [← length_parents, h.parents_eq, length_parents]

/-- What happens one after the other keeps to one frame if each part does. -/
theorem trans (h : env.Frame middle declared assigned)
    (hafter : middle.Frame after declared assigned) : env.Frame after declared assigned := by
  refine ⟨hafter.current_eq.trans h.current_eq, hafter.parents_eq.trans h.parents_eq, ?_, ?_, ?_⟩
  · intro i name hsome
    exact hafter.keeps i name (h.keeps i name hsome)
  · intro i name hnone hsome
    cases hmiddle : middle.valueIn i name with
    | none => exact h.current_eq ▸ hafter.gains i name hmiddle hsome
    | some value => exact h.gains i name hnone (by rw [hmiddle]; rfl)
  · intro i name value hvalue hne
    by_cases hmiddle : middle.valueIn i name = some value
    · exact h.current_eq ▸ hafter.differs i name value hmiddle hne
    · exact h.differs i name value hvalue hmiddle

/-- A value that is bound where the name is bound already, or in the current scope. -/
theorem bindIn {i : Nat} {name : String} (value : Value)
    (h : (env.valueIn i name).isSome ∧ name ∈ assigned ∨ i = env.current ∧ name ∈ declared) :
    env.Frame (env.bindIn i name value) declared assigned := by
  refine ⟨rfl, parents_bindIn env i name value, ?_, ?_, ?_⟩
  · intro j other hsome
    rw [valueIn_bindIn]
    split
    · rfl
    · exact hsome
  · intro j other hnone hsome
    rw [valueIn_bindIn] at hsome
    split at hsome
    case isTrue hbound =>
      obtain ⟨rfl, rfl, -⟩ := hbound
      rcases h with ⟨hold, -⟩ | hnew
      · rw [hnone] at hold
        cases hold
      · exact hnew
    case isFalse =>
      rw [hnone] at hsome
      cases hsome
  · intro j other old hvalue hne
    rw [valueIn_bindIn] at hne
    split at hne
    case isTrue hbound =>
      obtain ⟨rfl, rfl, -⟩ := hbound
      exact h.imp And.right id
    case isFalse => exact absurd hvalue hne

/-- Closing the scope that was opened first leaves those that were open before. -/
theorem closeScope_eq (h : env.openScope.2.Frame after declared assigned) :
    after.closeScope = ⟨after.scopes.take env.depth, env.current⟩ := by
  have hparents : after.parents = env.parents ++ [some env.current] := by
    rw [h.parents_eq, parents_openScope]
  have hcurrent : after.current = env.parents.length := by
    rw [h.current_eq, length_parents]
    rfl
  rw [Environment.closeScope_eq hparents hcurrent, length_parents]

theorem valueIn_closeScope (h : env.openScope.2.Frame after declared assigned) (i : Nat)
    (name : String) : after.closeScope.valueIn i name =
      if i < env.depth then after.valueIn i name else none := by
  rw [h.closeScope_eq, valueIn_take]

/-- Of what happens within a scope of its own, only assignments are left when it is closed. -/
theorem closeScope (h : env.openScope.2.Frame after declared assigned) {outside : List String} :
    env.Frame after.closeScope outside assigned := by
  -- The scope that was open is not one of those that stay, so that none of them was current.
  have hnot : ∀ i, i < env.depth → i ≠ env.openScope.2.current := fun i hi => Nat.ne_of_lt hi
  refine ⟨by rw [h.closeScope_eq], ?_, ?_, ?_, ?_⟩
  · have htake : after.closeScope.parents = after.parents.take env.parents.length := by
      rw [h.closeScope_eq, length_parents]
      simp [parents]
    rw [htake, h.parents_eq, parents_openScope, List.take_left]
  · intro i name hsome
    rw [h.valueIn_closeScope, if_pos (lt_depth_of_valueIn hsome)]
    exact h.keeps i name (by rw [valueIn_openScope]; exact hsome)
  · intro i name hnone hsome
    rw [h.valueIn_closeScope] at hsome
    split at hsome
    case isTrue hi =>
      rw [← valueIn_openScope] at hnone
      exact absurd (h.gains i name hnone hsome).1 (hnot i hi)
    case isFalse => cases hsome
  · intro i name value hsome hne
    have hi : i < env.depth := lt_depth_of_valueIn (by rw [hsome]; rfl)
    rw [h.valueIn_closeScope, if_pos hi] at hne
    rw [← valueIn_openScope] at hsome
    rcases h.differs i name value hsome hne with hname | ⟨hopen, -⟩
    · exact .inl hname
    · exact absurd hopen (hnot i hi)

/-- Whatever code does, the names that it declares and assigns are a frame for it. -/
theorem effect (assigned : List String) :
    Effect (fun declared env after => env.Frame after declared assigned) assigned where
  refl := .refl
  trans := .trans
  assign hresolve hname value := .bindIn value (.inl ⟨isSome_valueIn_resolveFrom hresolve, hname⟩)
  define hname value := .bindIn value (.inr ⟨rfl, hname⟩)
  block hbody := hbody.closeScope

end Frame

end Environment

/-- Evaluating an expression declares nothing. -/
theorem Expr.frame_eval (env : Environment) (e : Expr) :
    env.Frame (e.eval env).2 [] e.assigned :=
  (Environment.Frame.effect e.assigned).eval [] (List.Subset.refl _) env

theorem Machine.frame_eval (m : Machine) (e : Expr) :
    m.environment.Frame (m.eval e).2.environment [] e.assigned :=
  e.frame_eval m.environment

/-- A statement declares at most its own name, and assigns what is assigned within it. -/
theorem Stmt.frame_exec (m : Machine) (s : Stmt) :
    m.environment.Frame (s.exec m).2.environment s.declared s.assigned :=
  (Environment.Frame.effect s.assigned).exec m s (List.Subset.refl _) (List.Subset.refl _)

/-- Statements that run one after the other declare at most their own names. -/
theorem Stmt.frame_execAll (m : Machine) (ss : List Stmt) :
    m.environment.Frame (execAll m ss).2.environment (ss.flatMap declared) (allAssigned ss) :=
  (Environment.Frame.effect (allAssigned ss)).execAll m ss (List.Subset.refl _)
    (List.Subset.refl _)

/-! ## Whole runs -/

/-- The run of a source opens as many scopes as it closes, also where a statement fails. -/
theorem Session.depth_run (m : Machine) (source : String) :
    (run m source).2.environment.depth = m.environment.depth := by
  unfold run
  cases Program.ofSource source with
  | error ds => rfl
  | ok program =>
    have hdepth := (Stmt.frame_execAll m program).depth_eq
    simp only
    generalize Stmt.execAll m program = outcome at hdepth
    rcases outcome with ⟨_ | _, after⟩ <;> exact hdepth

namespace Console

theorem environment_writeLines (c : Console) (lines : List String) :
    (c.writeLines lines).machine.environment = c.machine.environment := by
  induction lines generalizing c with
  | nil => rfl
  | cons line rest ih => exact ih (c.write (line ++ "\n"))

theorem machine_report (c : Console) (failure : Failure) (ds : List Diagnostic) :
    (c.report failure ds).2.machine = c.machine := by
  have hreported : (ds.foldl (fun c d => c.writeError d.report) c).machine = c.machine := by
    induction ds generalizing c with
    | nil => rfl
    | cons d rest ih => exact ih (c.writeError d.report)
  unfold report
  split
  · rfl
  · exact hreported

theorem machine_feed_run (c : Console) (source : String) :
    (c.feed .run source).2.machine = (Session.run c.machine source).2 := by
  rw [feed]
  rcases Session.run c.machine source with ⟨_ | _ | _, m⟩
  · exact machine_report _ _ _
  · exact machine_report _ _ _
  · rfl

/-- What is done with a source leaves as many scopes open as there were. -/
theorem depth_feed (c : Console) (mode : Mode) (source : String) :
    (c.feed mode source).2.machine.environment.depth = c.machine.environment.depth := by
  cases mode with
  | tokens =>
    simp only [feed]
    rw [machine_report, environment_writeLines]
  | trees =>
    simp only [feed]
    split
    · rw [machine_report]
    · rw [environment_writeLines]
  | run => rw [machine_feed_run, Session.depth_run]

end Console

/-- Whatever the outcome, evaluating an expression and running a statement, or statements one
    after the other, keep to their frames: the scopes that are open, the one that is current and
    the names that each binds stay as they are, but that the current one gains names that the
    statements declare themselves, and values differ only where they were assigned or declared.
    So a script and each line at the prompt end at the depth at which they began. -/
theorem Machine.frame_of_run :
    (∀ (m : Machine) (e : Expr), m.environment.Frame (m.eval e).2.environment [] e.assigned) ∧
    (∀ (m : Machine) (s : Stmt),
      m.environment.Frame (s.exec m).2.environment s.declared s.assigned) ∧
    (∀ (m : Machine) (ss : List Stmt), m.environment.Frame (Stmt.execAll m ss).2.environment
      (ss.flatMap Stmt.declared) (Stmt.allAssigned ss)) ∧
    (∀ (m : Machine) (source : String),
      (Session.run m source).2.environment.depth = m.environment.depth) ∧
    ∀ (c : Console) (mode : Console.Mode) (source : String),
      (c.feed mode source).2.machine.environment.depth = c.machine.environment.depth :=
  ⟨Machine.frame_eval, Stmt.frame_exec, Stmt.frame_execAll, Session.depth_run, Console.depth_feed⟩

end BlockScript
