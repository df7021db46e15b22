import BlockScript.Proofs.InternalFailure
import BlockScript.Proofs.ScopeFrame
import Mathlib.Data.List.Basic

/-!
# What a statement that fails leaves

A statement may assign names before it fails, and nothing of that is undone.
`Stmt.assignmentsMade` are the assignments that running the statement comes to, in order. Nothing
else changes the scopes that were open, and a declaration that fails binds nothing
(`Stmt.valueIn_of_exec_error`). So every global name stays bound and has the value of the last
assignment to it, or its old one where there is none (`Stmt.failed_keeps_globals`).
-/

namespace BlockScript

/-- An assignment that was carried out: the number of the scope that binds the name, and the value
    that the name has there from then on. -/
structure Assignment where
  scope : Nat
  name : String
  value : Value

namespace Assignment

/-- The value that the last of the assignments to the name in the scope `i` gave it, if there is
    one. -/
def lastValue? (made : List Assignment) (i : Nat) (name : String) : Option Value :=
  (made.reverse.find? fun a => a.scope == i && a.name == name).map value

variable (i : Nat) (name : String)

theorem lastValue?_append (made more : List Assignment) :
    lastValue? (made ++ more) i name = (lastValue? more i name).or (lastValue? made i name) := by
  rw [lastValue?, List.reverse_append, List.find?_append, Option.map_or, lastValue?, lastValue?]

/-- Carrying out an assignment in one of the scopes that are open. -/
theorem valueIn_bindIn {env : Environment} {a : Assignment} (h : a.scope < env.depth) :
    (env.bindIn a.scope a.name a.value).valueIn i name =
      (lastValue? [a] i name).or (env.valueIn i name) := by
  rw [Environment.valueIn_bindIn]
  simp only [lastValue?, List.reverse_singleton, List.find?_singleton, Bool.and_eq_true, beq_iff_eq]
  by_cases hbound : a.scope = i ∧ a.name = name
  · rw [if_pos ⟨hbound.1, hbound.2, hbound.1 ▸ h⟩, if_pos hbound]
    rfl
  · rw [if_neg fun h => hbound ⟨h.1, h.2.1⟩, if_neg hbound]
    rfl

end Assignment

open Assignment (lastValue?)

/-- The assignments that evaluating the expression comes to, in order. None is made after a fault,
    and none to a name that is unbound. -/
def Expr.assignmentsMade (env : Environment) : Expr → List Assignment
  | literal _ | var _ => []
  | grouping inner => inner.assignmentsMade env
  | unary _ operand => operand.assignmentsMade env
  | binary left _ right =>
    left.assignmentsMade env ++
      match left.eval env with
      | (.error _, _) => []
      | (.ok _, env) => right.assignmentsMade env
  | assign name value =>
    value.assignmentsMade env ++
      match value.eval env with
      | (.error _, _) => []
      | (.ok v, env) => (env.resolve name.lexeme).toList.map fun i => ⟨i, name.lexeme, v⟩

namespace Stmt

mutual

/-- The assignments that running the statement comes to, in order. -/
def assignmentsMade (m : Machine) : Stmt → List Assignment
  | block body => allAssignmentsMade m.openScope body
  | declare _ none => []
  | declare _ (some initializer) => initializer.assignmentsMade m.environment
  | expression e => e.assignmentsMade m.environment
  | print e => e.assignmentsMade m.environment

/-- The assignments that running the statements comes to, in order. -/
def allAssignmentsMade (m : Machine) : List Stmt → List Assignment
  | [] => []
  | s :: rest =>
    s.assignmentsMade m ++
      match s.exec m with
      | (.error _, _) => []
      | (.ok (), m) => allAssignmentsMade m rest

end

end Stmt

/-! ## Values after a run -/

theorem Environment.valueIn_define {env : Environment} {i : Nat} {name target : String}
    (value : Value) (h : i ≠ env.current ∨ name ≠ target) :
    (env.define target value).valueIn i name = env.valueIn i name := by
  refine (env.valueIn_bindIn ..).trans (if_neg ?_)
  rintro ⟨hcurrent, hname, -⟩
  exact h.elim (fun hne => hne hcurrent.symm) fun hne => hne hname.symm

/-- Evaluating an expression changes values only by the assignments that it comes to. -/
theorem Expr.valueIn_eval (env : Environment) (e : Expr) (i : Nat) (name : String) :
    (e.eval env).2.valueIn i name =
      (lastValue? (e.assignmentsMade env) i name).or (env.valueIn i name) := by
  induction e generalizing env with
  | literal value => rfl
  | var other => rfl
  | grouping inner ih => exact ih env
  | unary op operand ih =>
    have hoperand := ih env
    rw [eval, assignmentsMade]
    generalize operand.eval env = outcome at hoperand
    rcases outcome with ⟨_ | value, after⟩ <;> exact hoperand
  | binary left op right ihl ihr =>
    have hleft := ihl env
    rw [eval, assignmentsMade, Assignment.lastValue?_append]
    generalize left.eval env = outcome at hleft
    obtain ⟨result, middle⟩ := outcome
    cases result with
    | error d => exact hleft
    | ok l =>
      have hright := ihr middle
      simp only at hleft ⊢
      rw [Option.or_assoc, ← hleft, ← hright]
      rcases right.eval middle with ⟨_ | r, after⟩ <;> rfl
  | assign target value ih =>
    have hvalue := ih env
    rw [eval, assignmentsMade, Assignment.lastValue?_append]
    generalize value.eval env = outcome at hvalue
    obtain ⟨result, middle⟩ := outcome
    cases result with
    | error d => exact hvalue
    | ok v =>
      simp only [Environment.write, Environment.assign?] at hvalue ⊢
      rw [Option.or_assoc, ← hvalue]
      cases hresolve : middle.resolve target.lexeme with
      | none => rfl
      | some k =>
        have hk : k < middle.depth :=
          Environment.lt_depth_of_valueIn (Environment.isSome_valueIn_resolveFrom hresolve)
        exact Assignment.valueIn_bindIn i name (a := ⟨k, target.lexeme, v⟩) hk

theorem Machine.valueIn_eval (m : Machine) (e : Expr) (i : Nat) (name : String) :
    (m.eval e).2.environment.valueIn i name =
      (lastValue? (e.assignmentsMade m.environment) i name).or (m.environment.valueIn i name) :=
  e.valueIn_eval m.environment i name

namespace Stmt

mutual

/-- Running a statement changes values by the assignments that it comes to, and besides only that
    of the name that it declares itself, in the current scope. -/
theorem valueIn_exec (m : Machine) {i : Nat} (hi : i < m.environment.depth) (name : String) :
    (s : Stmt) → i ≠ m.environment.current ∨ name ∉ s.declared →
    (s.exec m).2.environment.valueIn i name =
      (lastValue? (s.assignmentsMade m) i name).or (m.environment.valueIn i name)
  | block body, _ => by
    have hopen : i < m.environment.openScope.2.depth := by
      rw [Environment.depth_openScope]
      exact Nat.lt_succ_of_lt hi
    -- what the block declares is not declared in the scope `i`
    have hcurrent : i ≠ m.environment.openScope.2.current := Nat.ne_of_lt hi
    have hbody := valueIn_execAll m.openScope hopen name body (.inl hcurrent)
    have hframe := frame_execAll m.openScope body
    have hbefore : m.openScope.environment.valueIn i name = m.environment.valueIn i name :=
      m.environment.valueIn_openScope i name
    rw [exec, assignmentsMade, ← hbefore, ← hbody]
    exact (hframe.valueIn_closeScope i name).trans (if_pos hi)
  | declare target none, h =>
    Environment.valueIn_define .nil (h.imp_right List.ne_of_not_mem_cons)
  | declare target (some initializer), h => by
    have hvalue := m.valueIn_eval initializer i name
    have hframe := m.frame_eval initializer
    rw [exec, assignmentsMade, ← hvalue]
    generalize m.eval initializer = outcome at hframe
    obtain ⟨result, after⟩ := outcome
    cases result with
    | error d => rfl
    | ok value =>
      rw [← hframe.current_eq] at h
      exact Environment.valueIn_define value (h.imp_right List.ne_of_not_mem_cons)
  | expression e, _ => by
    have hvalue := m.valueIn_eval e i name
    rw [exec, assignmentsMade, ← hvalue]
    rcases m.eval e with ⟨_ | value, after⟩ <;> rfl
  | print e, _ => by
    have hvalue := m.valueIn_eval e i name
    rw [exec, assignmentsMade, ← hvalue]
    rcases m.eval e with ⟨_ | value, after⟩
    · rfl
    · exact congrArg (·.valueIn i name) (after.environment_print value)

theorem valueIn_execAll (m : Machine) {i : Nat} (hi : i < m.environment.depth) (name : String) :
    (ss : List Stmt) → i ≠ m.environment.current ∨ name ∉ ss.flatMap declared →
    (execAll m ss).2.environment.valueIn i name =
      (lastValue? (allAssignmentsMade m ss) i name).or (m.environment.valueIn i name)
  | [], _ => rfl
  | s :: rest, h => by
    have hs := valueIn_exec m hi name s
      (h.imp_right fun hnot hmem => hnot (List.mem_append_left _ hmem))
    have hframe := frame_exec m s
    rw [execAll, allAssignmentsMade, Assignment.lastValue?_append, Option.or_assoc, ← hs]
    generalize s.exec m = outcome at hframe
    obtain ⟨result, middle⟩ := outcome
    cases result with
    | error d => rfl
    | ok _ =>
      refine valueIn_execAll middle (hframe.depth_eq ▸ hi) name rest ?_
      rw [hframe.current_eq]
      exact h.imp_right fun hnot hmem => hnot (List.mem_append_right _ hmem)

end

end Stmt

/-! ## Failure -/

namespace Environment.Frame

variable {env after : Environment} {assigned : List String}

/-- Where nothing is declared, each scope binds the same names as before. -/
theorem isSome_valueIn_iff (h : env.Frame after [] assigned) (i : Nat) (name : String) :
    (after.valueIn i name).isSome ↔ (env.valueIn i name).isSome := by
  refine ⟨fun hafter => ?_, h.keeps i name⟩
  cases hbefore : env.valueIn i name with
  | none => exact absurd (h.gains i name hbefore hafter).2 List.not_mem_nil
  | some value => rfl

/-- Where nothing is declared, a name that is not assigned has the same value as before. -/
theorem valueIn_eq (h : env.Frame after [] assigned) (i : Nat) {name : String}
    (hname : name ∉ assigned) : after.valueIn i name = env.valueIn i name := by
  cases hbefore : env.valueIn i name with
  | none =>
    rw [← Option.not_isSome_iff_eq_none, h.isSome_valueIn_iff, hbefore]
    nofun
  | some value =>
    by_cases hafter : after.valueIn i name = some value
    · exact hafter
    · rcases h.differs i name value hbefore hafter with hassigned | ⟨-, hdeclared⟩
      · exact absurd hassigned hname
      · exact absurd hdeclared List.not_mem_nil

end Environment.Frame

namespace Stmt

/-- A statement that fails declares nothing: it is no declaration, or the initializer fails. -/
theorem declared_eq_nil_or {m after : Machine} {s : Stmt} {d : Diagnostic}
    (h : s.exec m = (.error d, after)) :
    s.declared = [] ∨ ∃ name initializer, s = .declare name (some initializer) ∧
      m.eval initializer = (.error d, after) := by
  cases s with
  | block | expression | print => exact .inl rfl
  | declare name initializer? =>
    cases initializer? with
    | none => cases h
    | some initializer =>
      refine .inr ⟨name, initializer, rfl, ?_⟩
      rw [exec] at h
      generalize m.eval initializer = outcome at h
      obtain ⟨_ | value, middle⟩ := outcome
      · cases h
        rfl
      · cases h

/-- A statement that fails adds no name to a scope that was open. -/
theorem frame_of_exec_error {m after : Machine} {s : Stmt} {d : Diagnostic}
    (h : s.exec m = (.error d, after)) :
    m.environment.Frame after.environment [] s.assigned := by
  rcases declared_eq_nil_or h with hdeclared | ⟨name, initializer, rfl, heval⟩
  · have hframe := frame_exec m s
    rwa [h, hdeclared] at hframe
  · have hframe := m.frame_eval initializer
    rwa [heval] at hframe

/-- A statement that fails changes the scopes that were open by the assignments that it came to,
    and in no other way. -/
theorem valueIn_of_exec_error {m after : Machine} {s : Stmt} {d : Diagnostic}
    (h : s.exec m = (.error d, after)) {i : Nat} (hi : i < m.environment.depth) (name : String) :
    after.environment.valueIn i name =
      (lastValue? (s.assignmentsMade m) i name).or (m.environment.valueIn i name) := by
  rcases declared_eq_nil_or h with hdeclared | ⟨target, initializer, rfl, heval⟩
  · have hvalue := valueIn_exec m hi name s (.inr (by simp [hdeclared]))
    rwa [h] at hvalue
  · have hvalue := m.valueIn_eval initializer i name
    rwa [heval] at hvalue

/-- Where only the global scope is open, a statement that fails leaves the same names bound, each to
    the value of the last assignment to it that the statement came to, or to its old value where
    there is none. That is so in particular if the statement does not assign the name at all. -/
theorem failed_keeps_globals {m after : Machine} {s : Stmt} {d : Diagnostic}
    (hdepth : m.environment.depth = 1) (h : s.exec m = (.error d, after)) (name : String) :
    ((after.environment.getGlobal? name).isSome ↔ (m.environment.getGlobal? name).isSome) ∧
    after.environment.getGlobal? name =
      (lastValue? (s.assignmentsMade m) 0 name).or (m.environment.getGlobal? name) ∧
    (name ∉ s.assigned →
      after.environment.getGlobal? name = m.environment.getGlobal? name) := by
  have hframe := frame_of_exec_error h
  exact ⟨hframe.isSome_valueIn_iff 0 name,
    valueIn_of_exec_error h (hdepth ▸ Nat.zero_lt_one) name, hframe.valueIn_eq 0⟩

/-- Where `a` is nil, `{ a = true; var a; a = -a; }` fails at the minus. By then it has assigned the
    global `a`, and the `a` of its own that it declared after that is gone. -/
theorem failed_keeps_globals_shadowed :
    ((Machine.new none).define ⟨.identifier, "a", ⟨1, 5⟩⟩ .nil).environment.depth = 1 ∧
    ∃ after, (block [
        .expression (.assign ⟨.identifier, "a", ⟨2, 3⟩⟩ (.literal (.boolean true))),
        .declare ⟨.identifier, "a", ⟨2, 17⟩⟩ none,
        .expression (.assign ⟨.identifier, "a", ⟨2, 20⟩⟩
          (.unary ⟨.minus, "-", ⟨2, 24⟩⟩ (.var ⟨.identifier, "a", ⟨2, 25⟩⟩)))]).exec
        ((Machine.new none).define ⟨.identifier, "a", ⟨1, 5⟩⟩ .nil) =
        (.error (.runtime ⟨.minus, "-", ⟨2, 24⟩⟩ (.operandNotNumber .nil)), after) ∧
      after.environment.getGlobal? "a" = some (.boolean true) := by
  have hdepth : ((Machine.new none).define ⟨.identifier, "a", ⟨1, 5⟩⟩ .nil).environment.depth = 1 :=
    Environment.depth_bindIn _ 0 "a" .nil
  obtain ⟨after, hexec⟩ : ∃ after, (block [
      .expression (.assign ⟨.identifier, "a", ⟨2, 3⟩⟩ (.literal (.boolean true))),
      .declare ⟨.identifier, "a", ⟨2, 17⟩⟩ none,
      .expression (.assign ⟨.identifier, "a", ⟨2, 20⟩⟩
        (.unary ⟨.minus, "-", ⟨2, 24⟩⟩ (.var ⟨.identifier, "a", ⟨2, 25⟩⟩)))]).exec
      ((Machine.new none).define ⟨.identifier, "a", ⟨1, 5⟩⟩ .nil) =
      (.error (.runtime ⟨.minus, "-", ⟨2, 24⟩⟩ (.operandNotNumber .nil)), after) :=
    ⟨_, Prod.ext (by decide +kernel) rfl⟩
  obtain ⟨-, hvalue, -⟩ := failed_keeps_globals hdepth hexec "a"
  exact ⟨hdepth, after, hexec, hvalue.trans (by decide +kernel)⟩

/-- A statement that fails may have assigned a global name. After `var a = 1;` the source
    `(a = 2) + nil;` fails, and `a` is two. -/
theorem failed_changes_global :
    ¬ ∀ (m after : Machine) (s : Stmt) (t : Token) (fault : RuntimeFault),
      m.Reachable → m.environment.depth = 1 → s.IsRead →
      s.exec m = (.error (.runtime t fault), after) →
      (∀ name value, m.environment.getGlobal? name = some value →
        after.environment.getGlobal? name = some value) ∧
      ∀ name, m.environment.getGlobal? name = none →
        after.environment.getGlobal? name = none := by
  intro hkeeps
  have htokens : (Scan.ofSource "(a = 2) + nil;").tokens =
      [⟨.leftParen, "(", ⟨1, 1⟩⟩, ⟨.identifier, "a", ⟨1, 2⟩⟩, ⟨.equal, "=", ⟨1, 4⟩⟩,
        ⟨.number 2, "2", ⟨1, 6⟩⟩, ⟨.rightParen, ")", ⟨1, 7⟩⟩, ⟨.plus, "+", ⟨1, 9⟩⟩,
        ⟨.kwNil, "nil", ⟨1, 11⟩⟩, ⟨.semicolon, ";", ⟨1, 14⟩⟩, ⟨.endOfFile, "", ⟨1, 15⟩⟩] := by
    decide +kernel
  have hread : IsRead (.expression (.binary
      (.grouping (.assign ⟨.identifier, "a", ⟨1, 2⟩⟩ (.literal (.number 2))))
      ⟨.plus, "+", ⟨1, 9⟩⟩ (.literal .nil))) :=
    ⟨(Scan.ofSource "(a = 2) + nil;").tokens, .inl (by rw [htokens]; rfl)⟩
  have hreachable : (exec (.new none) (.declare ⟨.identifier, "a", ⟨1, 5⟩⟩
      (some (.literal (.number 1))))).2.Reachable := .exec _ (.new none)
  have hsame := (hkeeps _ _ _ ⟨.plus, "+", ⟨1, 9⟩⟩ (.operandsNotAddable .number .nil) hreachable
    (by decide +kernel) hread (Prod.ext (by decide +kernel) rfl)).1 "a" (.number 1)
    (by decide +kernel)
  revert hsame
  decide +kernel

end Stmt

end BlockScript
