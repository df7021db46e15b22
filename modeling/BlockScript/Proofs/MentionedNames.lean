import BlockScript.Proofs.Reachable
import BlockScript.Proofs.Simulation

/-!
# Code depends only on the names it mentions

`Environment.AgreeOn` relates environments in which the given names are bound in the same scopes to
the same values; what other names are bound to, and where, is left open. It is not enough that the
values agree that are found for the names: a binding that is shadowed comes to light when the scope
that shadows it is closed. Statements that mention no other names give the same result in such
environments and print the same. They leave environments that agree again, and in each of them all
other names as they were (`Stmt.execAll_agreeOn`).
-/

namespace BlockScript

namespace Environment

/-- As many scopes are open in both environments, and in each of them the names have the same
    values, or none. -/
structure AgreeOn (names : List String) (env env' : Environment) : Prop where
  depth_eq : env.depth = env'.depth
  valueIn_eq : ∀ i, ∀ name ∈ names, env.valueIn i name = env'.valueIn i name

/-- There are `n` scopes more than in the environment `base`. Names other than the given ones are
    bound in the same scopes as there to the same values. -/
structure KeepsOthers (names : List String) (base : Environment) (n : Nat) (env : Environment) :
    Prop where
  wellFormed : env.WellFormed
  depth_eq : env.depth = base.depth + n
  valueIn_eq : ∀ i, ∀ name ∉ names, env.valueIn i name = base.valueIn i name

/-! ## Names in the scopes of an environment -/

section

variable {env env' : Environment}

theorem mem_bindings_iff {i : Nat} {scope : Scope} (h : env.scopes[i]? = some scope)
    (name : String) : name ∈ scope.bindings ↔ (env.valueIn i name).isSome := by
  rw [valueIn, h, Option.bind_some, Std.ExtTreeMap.mem_iff_isSome_getElem?]

/-- Where a name is found depends on the scopes that bind it and on nothing else. -/
theorem WellFormed.resolveFrom_congr (h : env.WellFormed) (h' : env'.WellFormed) {name : String}
    (hvalue : ∀ i, env.valueIn i name = env'.valueIn i name) {i : Nat} (hi : i < env.depth)
    (hi' : i < env'.depth) : env.resolveFrom name i = env'.resolveFrom name i := by
  have hscope := Array.getElem?_eq_getElem hi
  have hscope' := Array.getElem?_eq_getElem hi'
  rw [h.resolveFrom_eq name hscope, h'.resolveFrom_eq name hscope']
  simp only [mem_bindings_iff hscope, mem_bindings_iff hscope', hvalue i]
  cases i with
  | zero => rfl
  | succ j =>
    simp only [h.resolveFrom_congr h' hvalue (Nat.lt_of_succ_lt hi) (Nat.lt_of_succ_lt hi')]

theorem WellFormed.depth_pos (h : env.WellFormed) : 0 < env.depth := by
  have hcurrent := h.current_eq
  rw [depth]
  omega

/-- Well formed environments of one depth have the same scope current. -/
theorem WellFormed.current_congr (h : env.WellFormed) (h' : env'.WellFormed)
    (hdepth : env.depth = env'.depth) : env.current = env'.current := by
  have hcurrent := h.current_eq
  have hcurrent' := h'.current_eq
  rw [depth, depth] at hdepth
  omega

theorem WellFormed.closeScope_of_depth (h : env.WellFormed) {d : Nat} (hd : 0 < d)
    (hdepth : env.depth = d + 1) : env.closeScope = ⟨env.scopes.take d, d - 1⟩ := by
  have hcurrent : env.current = d - 1 + 1 := by
    have hsize := h.current_eq
    rw [depth] at hdepth
    omega
  rw [h.closeScope_succ hcurrent, Nat.sub_add_cancel hd]

theorem WellFormed.depth_closeScope (h : env.WellFormed) {d : Nat} (hd : 0 < d)
    (hdepth : env.depth = d + 1) : env.closeScope.depth = d := by
  rw [depth] at hdepth
  rw [h.closeScope_of_depth hd hdepth]
  simp [depth, hdepth]

theorem WellFormed.valueIn_closeScope (h : env.WellFormed) {d : Nat} (hd : 0 < d)
    (hdepth : env.depth = d + 1) (i : Nat) (name : String) :
    env.closeScope.valueIn i name = if i < d then env.valueIn i name else none := by
  rw [h.closeScope_of_depth hd hdepth, valueIn_take]

theorem valueIn_eq_none {i : Nat} (hi : env.depth ≤ i) (name : String) :
    env.valueIn i name = none := by
  rw [← Option.not_isSome_iff_eq_none]
  intro hsome
  exact Nat.not_lt_of_le hi (lt_depth_of_valueIn hsome)

end

/-! ## Names that are left alone -/

namespace KeepsOthers

variable {names : List String} {base env : Environment} {n : Nat}

theorem refl (h : base.WellFormed) : KeepsOthers names base 0 base :=
  ⟨h, rfl, fun _ _ _ => rfl⟩

theorem bindIn (h : KeepsOthers names base n env) (i : Nat) {name : String} (hname : name ∈ names)
    (value : Value) : KeepsOthers names base n (env.bindIn i name value) := by
  refine ⟨h.wellFormed.bindIn i name value, ?_, ?_⟩
  · rw [depth_bindIn, h.depth_eq]
  · intro j other hother
    rw [valueIn_bindIn, if_neg, h.valueIn_eq j other hother]
    rintro ⟨-, rfl, -⟩
    exact hother hname

theorem openScope (h : KeepsOthers names base n env) :
    KeepsOthers names base (n + 1) env.openScope.2 := by
  refine ⟨h.wellFormed.openScope, ?_, ?_⟩
  · rw [depth_openScope, h.depth_eq, Nat.add_assoc]
  · intro i name hname
    rw [valueIn_openScope, h.valueIn_eq i name hname]

theorem closeScope (h : KeepsOthers names base (n + 1) env) (hbase : 0 < base.depth) :
    KeepsOthers names base n env.closeScope := by
  have hpos : 0 < base.depth + n := Nat.add_pos_left hbase n
  refine ⟨h.wellFormed.closeScope, h.wellFormed.depth_closeScope hpos h.depth_eq, ?_⟩
  intro i name hname
  rw [h.wellFormed.valueIn_closeScope hpos h.depth_eq, h.valueIn_eq i name hname]
  split
  case isTrue => rfl
  case isFalse hi =>
    -- a scope that was opened later binds no such name, so that none is lost with it
    exact (valueIn_eq_none (Nat.le_trans (Nat.le_add_right _ n) (Nat.le_of_not_lt hi)) name).symm

end KeepsOthers

/-! ## Names on which environments agree -/

namespace AgreeOn

variable {names : List String} {env env' base base' : Environment} {n : Nat}

theorem resolve_eq (h : env.AgreeOn names env') (hwf : env.WellFormed) (hwf' : env'.WellFormed)
    {name : String} (hname : name ∈ names) : env.resolve name = env'.resolve name := by
  rw [resolve, resolve, hwf.current_congr hwf' h.depth_eq]
  have hlt : env'.current < env'.depth := hwf'.current_lt
  exact hwf.resolveFrom_congr hwf' (fun i => h.valueIn_eq i name hname) (h.depth_eq ▸ hlt) hlt

theorem get?_eq (h : env.AgreeOn names env') (hwf : env.WellFormed) (hwf' : env'.WellFormed)
    {name : String} (hname : name ∈ names) : env.get? name = env'.get? name := by
  rw [get?, get?, h.resolve_eq hwf hwf' hname]
  exact Option.bind_congr fun i _ => h.valueIn_eq i name hname

theorem bindIn (h : env.AgreeOn names env') (i : Nat) (name : String) (value : Value) :
    (env.bindIn i name value).AgreeOn names (env'.bindIn i name value) := by
  refine ⟨?_, ?_⟩
  · rw [depth_bindIn, depth_bindIn, h.depth_eq]
  · intro j other hother
    rw [valueIn_bindIn, valueIn_bindIn, h.depth_eq, h.valueIn_eq j other hother]

theorem openScope (h : env.AgreeOn names env') :
    env.openScope.2.AgreeOn names env'.openScope.2 := by
  refine ⟨?_, ?_⟩
  · rw [depth_openScope, depth_openScope, h.depth_eq]
  · intro i name hname
    rw [valueIn_openScope, valueIn_openScope, h.valueIn_eq i name hname]

theorem closeScope (h : env.AgreeOn names env') (hwf : env.WellFormed) (hwf' : env'.WellFormed)
    {d : Nat} (hd : 0 < d) (hdepth : env.depth = d + 1) :
    env.closeScope.AgreeOn names env'.closeScope := by
  have hdepth' : env'.depth = d + 1 := h.depth_eq ▸ hdepth
  refine ⟨?_, ?_⟩
  · rw [hwf.depth_closeScope hd hdepth, hwf'.depth_closeScope hd hdepth']
  · intro i name hname
    rw [hwf.valueIn_closeScope hd hdepth, hwf'.valueIn_closeScope hd hdepth',
      h.valueIn_eq i name hname]

/-- Reading, assigning and declaring the names keeps them the same in both environments, and the
    other names of each what they were in the beginning. -/
theorem simulation (names : List String) (hbase : 0 < base.depth) (hbase' : 0 < base'.depth) :
    Simulation
      (fun n env env' => env.AgreeOn names env' ∧ KeepsOthers names base n env ∧
        KeepsOthers names base' n env')
      (· ∈ names) (fun _ => True) where
  get? := by
    rintro n env env' name ⟨hagree, h, h'⟩ hname
    exact hagree.get?_eq h.wellFormed h'.wellFormed hname
  assign? := by
    rintro n env env' name ⟨hagree, h, h'⟩ hname value
    rw [Environment.assign?, Environment.assign?,
      hagree.resolve_eq h.wellFormed h'.wellFormed hname]
    cases env'.resolve name with
    | none => exact .inl ⟨rfl, rfl⟩
    | some i =>
      exact .inr ⟨_, _, rfl, rfl, hagree.bindIn i name value, h.bindIn i hname value,
        h'.bindIn i hname value⟩
  define := by
    rintro n env env' name ⟨hagree, h, h'⟩ hname - value
    rw [Environment.define, Environment.define,
      h.wellFormed.current_congr h'.wellFormed hagree.depth_eq]
    exact ⟨hagree.bindIn _ name value, h.bindIn _ hname value, h'.bindIn _ hname value⟩
  openScope := by
    rintro n env env' ⟨hagree, h, h'⟩
    exact ⟨hagree.openScope, h.openScope, h'.openScope⟩
  closeScope := by
    rintro n env env' ⟨hagree, h, h'⟩
    exact ⟨hagree.closeScope h.wellFormed h'.wellFormed (Nat.add_pos_left hbase n) h.depth_eq,
      h.closeScope hbase, h'.closeScope hbase'⟩

end AgreeOn

end Environment

namespace Stmt

open Environment (AgreeOn KeepsOthers)

/-- With any writer, statements do the same in environments that agree on the names they mention. -/
theorem execAllWith_agreeOn {σ ε : Type} (w : Writer σ ε) (state : σ) {env env' : Environment}
    (h : env.WellFormed) (h' : env'.WellFormed) {ss : List Stmt}
    (hagree : env.AgreeOn (allNames ss) env') :
    ∃ result after after' last, execAllWith w env state ss = (result, after, last) ∧
      execAllWith w env' state ss = (result, after', last) ∧
      after.AgreeOn (allNames ss) after' ∧ KeepsOthers (allNames ss) env 0 after ∧
      KeepsOthers (allNames ss) env' 0 after' :=
  (AgreeOn.simulation (allNames ss) h.depth_pos h'.depth_pos).execAllWith w
    ⟨hagree, .refl h, .refl h'⟩ state ss (fun _ hname => hname) (fun _ _ _ _ _ => trivial)

/-- Statements give the same result and print the same in environments that agree, scope by scope,
    on the names they mention, whatever takes what is printed. The environments agree again after
    that, and each has all other names bound in the scopes and to the values it had before. -/
theorem execAll_agreeOn {m m' : Machine} (h : m.environment.WellFormed)
    (h' : m'.environment.WellFormed) {ss : List Stmt}
    (hagree : m.environment.AgreeOn (allNames ss) m'.environment) :
    (m.output = m'.output →
      (execAll m ss).1 = (execAll m' ss).1 ∧
      (execAll m ss).2.output = (execAll m' ss).2.output ∧
      (execAll m ss).2.environment.AgreeOn (allNames ss) (execAll m' ss).2.environment ∧
      KeepsOthers (allNames ss) m.environment 0 (execAll m ss).2.environment ∧
      KeepsOthers (allNames ss) m'.environment 0 (execAll m' ss).2.environment) ∧
    ∀ {σ ε : Type} (w : Writer σ ε) (state : σ), ∃ result after after' last,
      execAllWith w m.environment state ss = (result, after, last) ∧
      execAllWith w m'.environment state ss = (result, after', last) ∧
      after.AgreeOn (allNames ss) after' ∧ KeepsOthers (allNames ss) m.environment 0 after ∧
      KeepsOthers (allNames ss) m'.environment 0 after' := by
  refine ⟨?_, fun w state => execAllWith_agreeOn w state h h' hagree⟩
  intro houtput
  obtain ⟨result, after, after', last, hrun, hrun', hafter⟩ :=
    execAllWith_agreeOn Output.writer m.output h h' hagree
  rw [execAll_eq, execAll_eq, ← houtput, hrun, hrun']
  exact ⟨rfl, rfl, hafter⟩

/-- What `var x = nil; print x;` prints does not depend on whether `y` is bound, and `y` keeps its
    value where it is. -/
theorem execAll_agreeOn_unmentioned :
    (Machine.new none).environment.AgreeOn ["x", "x"]
      ((Machine.new none).define ⟨.identifier, "y", ⟨1, 1⟩⟩ (.boolean true)).environment ∧
    (execAll (Machine.new none)
      [.declare ⟨.identifier, "x", ⟨2, 5⟩⟩ (some (.literal .nil)),
        .print (.var ⟨.identifier, "x", ⟨2, 20⟩⟩)]).2.output =
    (execAll ((Machine.new none).define ⟨.identifier, "y", ⟨1, 1⟩⟩ (.boolean true))
      [.declare ⟨.identifier, "x", ⟨2, 5⟩⟩ (some (.literal .nil)),
        .print (.var ⟨.identifier, "x", ⟨2, 20⟩⟩)]).2.output ∧
    (execAll ((Machine.new none).define ⟨.identifier, "y", ⟨1, 1⟩⟩ (.boolean true))
      [.declare ⟨.identifier, "x", ⟨2, 5⟩⟩ (some (.literal .nil)),
        .print (.var ⟨.identifier, "x", ⟨2, 20⟩⟩)]).2.environment.valueIn 0 "y" =
      some (.boolean true) := by
  have hwf : (Machine.new none).environment.WellFormed := (Machine.Reachable.new none).wellFormed
  have hagree : (Machine.new none).environment.AgreeOn ["x", "x"]
      ((Machine.new none).define ⟨.identifier, "y", ⟨1, 1⟩⟩ (.boolean true)).environment := by
    refine ⟨(Environment.depth_bindIn _ 0 "y" _).symm, ?_⟩
    intro i name hname
    obtain rfl : name = "x" := by simpa using hname
    exact ((Environment.valueIn_bindIn _ 0 i "y" "x" _).trans (if_neg (by simp))).symm
  obtain ⟨-, houtput, -, -, hkeeps⟩ := (@execAll_agreeOn _ _ hwf (hwf.bindIn 0 "y" _)
    [.declare ⟨.identifier, "x", ⟨2, 5⟩⟩ (some (.literal .nil)),
      .print (.var ⟨.identifier, "x", ⟨2, 20⟩⟩)] hagree).1 rfl
  refine ⟨hagree, houtput, ?_⟩
  rw [hkeeps.valueIn_eq 0 "y" (by decide)]
  exact (Environment.valueIn_bindIn _ 0 0 "y" "y" _).trans (if_pos ⟨rfl, rfl, Nat.zero_lt_one⟩)

end Stmt

end BlockScript
