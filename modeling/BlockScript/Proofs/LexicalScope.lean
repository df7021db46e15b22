import BlockScript.Proofs.Failure
import BlockScript.Proofs.Reachable
import BlockScript.Proofs.ScopeFrame
import Mathlib.Data.Finset.Dedup
import Mathlib.Data.Finset.Insert

/-!
# Scoping is lexical

`Stmt.resolve` walks a program in textual order with a stack of name sets and gives each read of a
name and each assignment the scope that it refers to, without running anything. `Stmt.execIn` runs
a program in which each name is read and assigned in just that scope, and notes where a lookup
would have found it. Running looks every name up, and yet it does the same, and every name is found
where it was resolved to (`Stmt.scoping_is_lexical`).
-/

namespace BlockScript

/-- The names that each scope binds, those of the innermost scope first. -/
abbrev NameStack := List (Finset String)

namespace NameStack

/-- The number of the innermost scope that binds the name, where the outermost one has the
    number 0. -/
def scopeOf? (name : String) : NameStack → Option Nat
  | [] => none
  | names :: outer => if name ∈ names then some outer.length else scopeOf? name outer

/-- Adds the name to the innermost scope. -/
def declare (name : String) : NameStack → NameStack
  | [] => []
  | names :: outer => insert name names :: outer

theorem tail_declare (name : String) (stack : NameStack) :
    (stack.declare name).tail = stack.tail := by
  cases stack <;> rfl

end NameStack

/-- What is done with a name. -/
inductive Access where
  | read
  | assign
deriving DecidableEq, Repr

/-- A place where a name is read or assigned, and the number of the scope that it refers to, or
    none where it is unbound. -/
structure Occurrence where
  access : Access
  name : Token
  scope? : Option Nat
deriving DecidableEq, Repr

/-- The reads and the assignments of the expression, each in the scope that it refers to. An
    assignment comes after those in the value that it assigns. -/
def Expr.occurrences (stack : NameStack) : Expr → List Occurrence
  | literal _ => []
  | var name => [⟨.read, name, stack.scopeOf? name.lexeme⟩]
  | grouping inner => inner.occurrences stack
  | unary _ operand => operand.occurrences stack
  | binary left _ right => left.occurrences stack ++ right.occurrences stack
  | assign name value =>
    value.occurrences stack ++ [⟨.assign, name, stack.scopeOf? name.lexeme⟩]

namespace Stmt

mutual

/-- The reads and the assignments of the statement, each in the scope that it refers to, and the
    names that are bound after the statement. -/
def resolve (stack : NameStack) : Stmt → List Occurrence × NameStack
  | block body =>
    let inner := resolveAll (∅ :: stack) body
    (inner.1, inner.2.tail)
  | declare name none => ([], stack.declare name.lexeme)
  | declare name (some initializer) =>
    (initializer.occurrences stack, stack.declare name.lexeme)
  | expression e => (e.occurrences stack, stack)
  | print e => (e.occurrences stack, stack)

/-- The reads and the assignments of the statements, each in the scope that it refers to, and the
    names that are bound after the statements. -/
def resolveAll (stack : NameStack) : List Stmt → List Occurrence × NameStack
  | [] => ([], stack)
  | s :: rest =>
    let first := s.resolve stack
    let last := resolveAll first.2 rest
    (first.1 ++ last.1, last.2)

end

mutual

/-- A statement binds names in the innermost scope only. -/
theorem tail_resolve (stack : NameStack) : (s : Stmt) → (s.resolve stack).2.tail = stack.tail
  | block body => congrArg List.tail (tail_resolveAll (∅ :: stack) body)
  | declare name none => stack.tail_declare name.lexeme
  | declare name (some _) => stack.tail_declare name.lexeme
  | expression _ => rfl
  | print _ => rfl

theorem tail_resolveAll (stack : NameStack) : (ss : List Stmt) →
    (resolveAll stack ss).2.tail = stack.tail
  | [] => rfl
  | s :: rest => (tail_resolveAll (s.resolve stack).2 rest).trans (tail_resolve stack s)

end

/-- What stands in a block is not bound after it. -/
theorem resolve_block (stack : NameStack) (body : List Stmt) :
    ((block body).resolve stack).2 = stack :=
  tail_resolveAll (∅ :: stack) body

end Stmt

/-! ## Running in the scopes that were resolved -/

/-- What was run: how it ended, the state it left, and which names were accessed on the way, each
    with the scope in which a lookup found it. -/
structure Traced (σ α : Type) where
  result : Except Diagnostic α
  state : σ
  accesses : List Occurrence

namespace Traced

variable {σ τ α β : Type}

/-- The result and the state, with no regard to what was accessed. -/
def outcome (t : Traced σ α) : Except Diagnostic α × σ := (t.result, t.state)

/-- Nothing was accessed. -/
def silent (outcome : Except Diagnostic α × σ) : Traced σ α := ⟨outcome.1, outcome.2, []⟩

/-- Goes on from the result, if there is one. -/
def andThen (t : Traced σ α) (next : α → σ → Traced σ β) : Traced σ β :=
  match t.result with
  | .error d => ⟨.error d, t.state, t.accesses⟩
  | .ok a =>
    let last := next a t.state
    ⟨last.result, last.state, t.accesses ++ last.accesses⟩

/-- The state as a part of a larger one. -/
def mapState (f : σ → τ) (t : Traced σ α) : Traced τ α := ⟨t.result, f t.state, t.accesses⟩

end Traced

namespace Environment

/-- The names that each scope binds. -/
def names (env : Environment) : NameStack :=
  (env.bindings.map fun map => map.keys.toFinset).reverse

/-- Reads the name in the scope that is given. -/
def readIn (env : Environment) (scope? : Option Nat) (name : Token) : Traced Environment Value where
  result :=
    match scope?.bind fun i => env.valueIn i name.lexeme with
    | some value => .ok value
    | none => .error (.runtime name .undefinedVariable)
  state := env
  accesses := [⟨.read, name, env.resolve name.lexeme⟩]

/-- Assigns the name in the scope that is given. -/
def assignIn (env : Environment) (scope? : Option Nat) (name : Token) (value : Value) :
    Traced Environment Value where
  result := if scope?.isSome then .ok value else .error (.runtime name .undefinedVariable)
  state := (scope?.map fun i => env.bindIn i name.lexeme value).getD env
  accesses := [⟨.assign, name, env.resolve name.lexeme⟩]

end Environment

/-- The value of an expression of which each name is accessed in the scope that it refers to. -/
def Expr.evalIn (stack : NameStack) (env : Environment) : Expr → Traced Environment Value
  | literal value => .silent (.ok value, env)
  | var name => env.readIn (stack.scopeOf? name.lexeme) name
  | grouping inner => inner.evalIn stack env
  | unary op operand =>
    (operand.evalIn stack env).andThen fun value env => .silent (applyUnary op value, env)
  | binary left op right =>
    (left.evalIn stack env).andThen fun l env =>
      (right.evalIn stack env).andThen fun r env => .silent (applyBinary op l r, env)
  | assign name value =>
    (value.evalIn stack env).andThen fun v env =>
      env.assignIn (stack.scopeOf? name.lexeme) name v

/-- Evaluates an expression of which each name is accessed in the scope that it refers to. -/
def Machine.evalIn (m : Machine) (stack : NameStack) (e : Expr) : Traced Machine Value :=
  (e.evalIn stack m.environment).mapState fun env => { m with environment := env }

namespace Stmt

mutual

/-- Runs a statement of which each name is accessed in the scope that it refers to. -/
def execIn (stack : NameStack) (m : Machine) : Stmt → Traced Machine Unit
  | block body => (execAllIn (∅ :: stack) m.openScope body).mapState Machine.closeScope
  | declare name none => .silent (.ok (), m.define name .nil)
  | declare name (some initializer) =>
    (m.evalIn stack initializer).andThen fun value m => .silent (.ok (), m.define name value)
  | expression e => (m.evalIn stack e).andThen fun _ m => .silent (.ok (), m)
  | print e => (m.evalIn stack e).andThen fun value m => .silent (m.print value)

/-- Runs statements of which each name is accessed in the scope that it refers to. -/
def execAllIn (stack : NameStack) (m : Machine) : List Stmt → Traced Machine Unit
  | [] => .silent (.ok (), m)
  | s :: rest =>
    (s.execIn stack m).andThen fun _ m => execAllIn (s.resolve stack).2 m rest

end

end Stmt

/-! ## What a run may access -/

namespace Traced

variable {σ τ α β : Type}

/-- The accesses are those of the occurrences that the run reached: it takes them one after the
    other, all of them if it ends well, and stops at one that is unbound, for which it fails. -/
structure Follows (t : Traced σ α) (occurrences : List Occurrence) : Prop where
  in_order : t.accesses <+: occurrences
  complete : ∀ a, t.result = .ok a → t.accesses = occurrences
  stops : ∀ before occurrence after, t.accesses = before ++ occurrence :: after →
    occurrence.scope? = none →
    after = [] ∧ t.result = .error (.runtime occurrence.name .undefinedVariable)
  raised : ∀ name, t.result = .error (.runtime name .undefinedVariable) →
    ∃ before occurrence, t.accesses = before ++ [occurrence] ∧ occurrence.name = name ∧
      occurrence.scope? = none

theorem outcome_andThen (t : Traced σ α) (next : α → σ → Traced σ β) :
    (t.andThen next).outcome =
      match t.outcome with
      | (.error d, s) => (.error d, s)
      | (.ok a, s) => (next a s).outcome := by
  obtain ⟨result, state, accesses⟩ := t
  cases result <;> rfl

theorem follows_silent {outcome : Except Diagnostic α × σ}
    (h : ∀ name, outcome.1 ≠ .error (.runtime name .undefinedVariable)) :
    (silent outcome).Follows [] := by
  refine ⟨List.prefix_rfl, fun _ _ => rfl, ?_, fun name hname => absurd hname (h name)⟩
  intro before occurrence after heq
  simp [silent] at heq

/-- One access, which fails if and only if the occurrence is unbound. -/
theorem follows_single {t : Traced σ α} {occurrence : Occurrence}
    (haccesses : t.accesses = [occurrence])
    (hunbound : occurrence.scope? = none →
      t.result = .error (.runtime occurrence.name .undefinedVariable))
    (hfailed : ∀ d, t.result = .error d → occurrence.scope? = none) :
    t.Follows [occurrence] := by
  refine ⟨by rw [haccesses], fun _ _ => haccesses, ?_, ?_⟩
  · intro before other after heq hnone
    rw [haccesses] at heq
    obtain ⟨rfl, hlast⟩ | ⟨_, -, hlast⟩ := List.cons_eq_append_iff.mp heq
    · obtain ⟨rfl, rfl⟩ := List.cons.inj hlast
      exact ⟨rfl, hunbound hnone⟩
    · simp at hlast
  · intro name hname
    have hnone := hfailed _ hname
    rw [hunbound hnone] at hname
    cases hname
    exact ⟨[], occurrence, haccesses, rfl, hnone⟩

theorem Follows.mapState {t : Traced σ α} {occurrences : List Occurrence}
    (h : t.Follows occurrences) (f : σ → τ) : (t.mapState f).Follows occurrences :=
  ⟨h.in_order, h.complete, h.stops, h.raised⟩

/-- What follows a run that ends well goes on with the occurrences after those of the run. -/
theorem Follows.andThen {t : Traced σ α} {next : α → σ → Traced σ β}
    {occurrences more : List Occurrence} (h : t.Follows occurrences)
    (hnext : ∀ a, t.result = .ok a → (next a t.state).Follows more) :
    (t.andThen next).Follows (occurrences ++ more) := by
  obtain ⟨result, state, accesses⟩ := t
  cases result with
  | error d =>
    refine ⟨List.prefix_append_of_prefix h.in_order, fun _ => nofun, ?_, ?_⟩
    · intro before occurrence after heq hnone
      obtain ⟨hafter, hresult⟩ := h.stops before occurrence after heq hnone
      exact ⟨hafter, congrArg Except.error (Except.error.inj hresult)⟩
    · intro name hname
      exact h.raised name (congrArg Except.error (Except.error.inj hname))
  | ok a =>
    have hlast := hnext a rfl
    obtain rfl : accesses = occurrences := h.complete a rfl
    refine ⟨(List.prefix_append_right_inj accesses).mpr hlast.in_order, ?_, ?_, ?_⟩
    · intro b hb
      exact congrArg (accesses ++ ·) (hlast.complete b hb)
    · intro before occurrence after heq hnone
      -- Nothing that was accessed before is unbound, since the run went on after it.
      rcases List.append_eq_append_iff.mp heq with ⟨skipped, -, hrest⟩ | ⟨rest, hfront, hrest⟩
      · exact hlast.stops skipped occurrence after hrest hnone
      · cases rest with
        | nil => exact hlast.stops [] occurrence after hrest.symm hnone
        | cons first rest =>
          obtain ⟨rfl, -⟩ := List.cons.inj hrest
          obtain ⟨-, hfailed⟩ := h.stops before _ rest hfront hnone
          cases hfailed
    · intro name hname
      obtain ⟨before, occurrence, heq, hoccurrence⟩ := hlast.raised name hname
      refine ⟨accesses ++ before, occurrence, ?_, hoccurrence⟩
      rw [List.append_assoc, ← heq]
      rfl

/-- What follows a run, and accesses nothing, and does not fail for a name. -/
theorem Follows.andThen_silent {t : Traced σ α} {next : α → σ → Except Diagnostic β × σ}
    {occurrences : List Occurrence} (h : t.Follows occurrences)
    (hnext : ∀ a s name, (next a s).1 ≠ .error (.runtime name .undefinedVariable)) :
    (t.andThen fun a s => silent (next a s)).Follows occurrences := by
  rw [← List.append_nil occurrences]
  exact h.andThen fun a _ => follows_silent (hnext a t.state)

end Traced

/-! ## Lookups find what was resolved -/

namespace Environment

variable {env : Environment}

theorem names_eq_mapsBelow (h : env.WellFormed) :
    env.names = (env.mapsBelow (env.current + 1)).map fun map => map.keys.toFinset := by
  rw [mapsBelow, h.current_eq, ← length_bindings, List.take_length, List.map_reverse, names]

theorem WellFormed.resolveFrom_eq_scopeOf? (h : env.WellFormed) {i : Nat} (name : String)
    (hi : i < env.scopes.size) :
    env.resolveFrom name i =
      NameStack.scopeOf? name ((env.mapsBelow (i + 1)).map fun map => map.keys.toFinset) := by
  have hlength : (env.mapsBelow i).length = i := by
    rw [mapsBelow, List.length_reverse, List.length_take, length_bindings]
    omega
  have hscope := Array.getElem?_eq_getElem hi
  rw [mapsBelow_succ hscope, h.resolveFrom_eq name hscope, List.map_cons, NameStack.scopeOf?]
  simp only [List.mem_toFinset, Std.ExtTreeMap.mem_keys, List.length_map, hlength]
  split
  case isTrue => rfl
  case isFalse =>
    cases i with
    | zero => simp [mapsBelow, NameStack.scopeOf?]
    | succ j => exact h.resolveFrom_eq_scopeOf? name (Nat.lt_of_succ_lt hi)

/-- A lookup finds a name in the scope that it is resolved to. -/
theorem WellFormed.resolve_eq_scopeOf? (h : env.WellFormed) (name : String) :
    env.resolve name = env.names.scopeOf? name := by
  rw [names_eq_mapsBelow h, resolve, h.resolveFrom_eq_scopeOf? name h.current_lt]

theorem exists_valueIn_of_resolve {name : String} {i : Nat} (h : env.resolve name = some i) :
    ∃ value, env.valueIn i name = some value :=
  Option.isSome_iff_exists.mp (isSome_valueIn_resolveFrom h)

/-- Reading in the scope in which a lookup finds the name is reading the name. -/
theorem outcome_readIn (env : Environment) (name : Token) :
    (env.readIn (env.resolve name.lexeme) name).outcome = (env.read name, env) := rfl

theorem follows_readIn (env : Environment) (name : Token) :
    (env.readIn (env.resolve name.lexeme) name).Follows
      [⟨.read, name, env.resolve name.lexeme⟩] := by
  apply Traced.follows_single rfl
  · intro hnone
    simp only at hnone
    simp only [readIn, hnone, Option.bind_none]
  · intro d hfailed
    cases hresolve : env.resolve name.lexeme with
    | none => rfl
    | some i =>
      obtain ⟨value, hvalue⟩ := exists_valueIn_of_resolve hresolve
      simp only [readIn, hresolve, Option.bind_some, hvalue] at hfailed
      cases hfailed

/-- Assigning in the scope in which a lookup finds the name is assigning the name. -/
theorem outcome_assignIn (env : Environment) (name : Token) (value : Value) :
    (env.assignIn (env.resolve name.lexeme) name value).outcome =
      match env.write name value with
      | .error d => (.error d, env)
      | .ok env => (.ok value, env) := by
  unfold Traced.outcome assignIn write assign?
  cases env.resolve name.lexeme <;> rfl

theorem follows_assignIn (env : Environment) (name : Token) (value : Value) :
    (env.assignIn (env.resolve name.lexeme) name value).Follows
      [⟨.assign, name, env.resolve name.lexeme⟩] := by
  apply Traced.follows_single rfl
  · intro hnone
    simp only at hnone
    simp [assignIn, hnone]
  · intro d hfailed
    cases hresolve : env.resolve name.lexeme with
    | none => rfl
    | some i => simp [assignIn, hresolve] at hfailed

/-! ## The names that are bound -/

theorem names_eq_of_frame {after : Environment} {assigned : List String}
    (h : env.Frame after [] assigned) : after.names = env.names := by
  have hdepth : after.scopes.size = env.scopes.size := h.depth_eq
  have hbound : ∀ i name, (after.valueIn i name).isSome = (env.valueIn i name).isSome := by
    intro i name
    cases hvalue : env.valueIn i name with
    | some value => exact h.keeps i name (by rw [hvalue]; rfl)
    | none =>
      rw [Option.isSome_none, Bool.eq_false_iff]
      intro hgained
      exact absurd (h.gains i name hvalue hgained).2 List.not_mem_nil
  rw [names, names, List.reverse_inj]
  apply List.ext_getElem?
  intro i
  simp only [bindings, List.getElem?_map, Array.getElem?_toList]
  by_cases hi : i < env.scopes.size
  · have hafter : i < after.scopes.size := by omega
    simp only [Array.getElem?_eq_getElem hi, Array.getElem?_eq_getElem hafter, Option.map_some]
    congr 1
    ext name
    have hname := hbound i name
    simp only [valueIn, Array.getElem?_eq_getElem hi, Array.getElem?_eq_getElem hafter,
      Option.bind_some] at hname
    simp only [List.mem_toFinset, Std.ExtTreeMap.mem_keys, Std.ExtTreeMap.mem_iff_isSome_getElem?,
      hname]
  · rw [Array.getElem?_eq_none (by omega), Array.getElem?_eq_none (by omega)]

theorem names_define (h : env.WellFormed) (name : String) (value : Value) :
    (env.define name value).names = env.names.declare name := by
  obtain ⟨s, hs⟩ := h.exists_represents
  have hkeys : (s.top.insert name value).keys.toFinset = insert name s.top.keys.toFinset := by
    ext other
    simp [Std.ExtTreeMap.mem_insert, eq_comm (a := name)]
  have hnames : ∀ {env : Environment} {s : ScopeStack}, env.Represents s →
      env.names = s.maps.map fun map => map.keys.toFinset := by
    intro env s hs
    rw [names, hs.bindings_eq, List.map_reverse, List.reverse_reverse]
  rw [hnames hs, hnames (hs.define name value), ScopeStack.maps, ScopeStack.maps, List.map_cons,
    List.map_cons, NameStack.declare, ← hkeys]
  rfl

theorem names_openScope (env : Environment) : env.openScope.2.names = ∅ :: env.names := by
  simp [names, bindings, openScope]

end Environment

/-! ## Runs -/

namespace Expr

/-- An operator never fails for a name. -/
theorem applyUnary_ne_undefined (op : Token) (operand : Value) (name : Token) :
    applyUnary op operand ≠ .error (.runtime name .undefinedVariable) := by
  intro h
  obtain ⟨fault, hd, hne, -⟩ := exists_runtime_of_applyUnary h
  cases hd
  exact hne rfl

theorem applyBinary_ne_undefined (op : Token) (left right : Value) (name : Token) :
    applyBinary op left right ≠ .error (.runtime name .undefinedVariable) := by
  intro h
  obtain ⟨fault, hd, hne, -⟩ := exists_runtime_of_applyBinary h
  cases hd
  exact hne rfl

/-- Evaluating an expression binds no further names. -/
theorem names_eval (env : Environment) (e : Expr) : (e.eval env).2.names = env.names :=
  Environment.names_eq_of_frame (e.frame_eval env)

/-- Evaluating is evaluating in the scopes that were resolved. -/
theorem outcome_evalIn {env : Environment} (h : env.WellFormed) (e : Expr) :
    (e.evalIn env.names env).outcome = e.eval env := by
  induction e generalizing env with
  | literal value => rfl
  | var name => rw [evalIn, ← h.resolve_eq_scopeOf?, Environment.outcome_readIn, eval]
  | grouping inner ih => exact ih h
  | unary op operand ih =>
    rw [evalIn, Traced.outcome_andThen, ih h, eval]
    rcases operand.eval env with ⟨_ | value, after⟩ <;> rfl
  | binary left op right ihl ihr =>
    have hmiddle := wellFormed_eval h left
    have hnames := names_eval env left
    rw [evalIn, Traced.outcome_andThen, ihl h, eval]
    generalize left.eval env = outcome at hmiddle hnames ⊢
    obtain ⟨result, middle⟩ := outcome
    cases result with
    | error d => rfl
    | ok l =>
      simp only
      rw [Traced.outcome_andThen, ← hnames, ihr hmiddle]
      rcases right.eval middle with ⟨_ | r, after⟩ <;> rfl
  | assign name value ih =>
    have hmiddle := wellFormed_eval h value
    have hnames := names_eval env value
    rw [evalIn, Traced.outcome_andThen, ih h, eval]
    generalize value.eval env = outcome at hmiddle hnames ⊢
    obtain ⟨result, middle⟩ := outcome
    cases result with
    | error d => rfl
    | ok v =>
      simp only
      rw [← hnames, ← hmiddle.resolve_eq_scopeOf?]
      refine (Environment.outcome_assignIn middle name v).trans ?_
      cases middle.write name v <;> rfl

theorem state_evalIn {env : Environment} (h : env.WellFormed) (e : Expr) :
    (e.evalIn env.names env).state = (e.eval env).2 :=
  congrArg Prod.snd (outcome_evalIn h e)

/-- Evaluating accesses the names as they were resolved. -/
theorem follows_evalIn {env : Environment} (h : env.WellFormed) (e : Expr) :
    (e.evalIn env.names env).Follows (e.occurrences env.names) := by
  induction e generalizing env with
  | literal value => exact Traced.follows_silent fun _ => nofun
  | var name =>
    rw [evalIn, occurrences, ← h.resolve_eq_scopeOf?]
    exact env.follows_readIn name
  | grouping inner ih => exact ih h
  | unary op operand ih =>
    exact (ih h).andThen_silent fun value _ => applyUnary_ne_undefined op value
  | binary left op right ihl ihr =>
    have hmiddle := wellFormed_eval h left
    rw [evalIn, occurrences]
    refine (ihl h).andThen fun l _ => ?_
    rw [state_evalIn h, ← names_eval env left]
    exact (ihr hmiddle).andThen_silent fun r _ => applyBinary_ne_undefined op l r
  | assign name value ih =>
    have hmiddle := wellFormed_eval h value
    rw [evalIn, occurrences]
    refine (ih h).andThen fun v _ => ?_
    rw [state_evalIn h, ← names_eval env value, ← hmiddle.resolve_eq_scopeOf?]
    exact Environment.follows_assignIn _ name v

end Expr

namespace Machine

theorem outcome_evalIn {m : Machine} (h : m.environment.WellFormed) (e : Expr) :
    (m.evalIn m.environment.names e).outcome = m.eval e := by
  have houtcome := Expr.outcome_evalIn h e
  rw [Traced.outcome] at houtcome
  rw [eval, ← houtcome]
  rfl

theorem follows_evalIn {m : Machine} (h : m.environment.WellFormed) (e : Expr) :
    (m.evalIn m.environment.names e).Follows (e.occurrences m.environment.names) :=
  (Expr.follows_evalIn h e).mapState _

end Machine

namespace Stmt

/-- After a statement the names are bound that it was resolved to bind. -/
theorem names_exec {m after : Machine} (h : m.environment.WellFormed) {s : Stmt}
    (hexec : s.exec m = (.ok (), after)) :
    after.environment.names = (s.resolve m.environment.names).2 := by
  have hframe := frame_exec m s
  rw [hexec] at hframe
  cases s with
  | block body =>
    rw [resolve_block]
    exact Environment.names_eq_of_frame hframe
  | expression e => exact Environment.names_eq_of_frame hframe
  | print e => exact Environment.names_eq_of_frame hframe
  | declare name initializer? =>
    cases initializer? with
    | none =>
      cases hexec
      exact Environment.names_define h name.lexeme .nil
    | some initializer =>
      have hmiddle := Machine.wellFormed_eval h initializer
      have hnames : (m.eval initializer).2.environment.names = m.environment.names :=
        Expr.names_eval m.environment initializer
      rw [exec] at hexec
      generalize m.eval initializer = outcome at hmiddle hnames hexec
      obtain ⟨result, middle⟩ := outcome
      cases result with
      | error d => cases hexec
      | ok value =>
        cases hexec
        rw [resolve, ← hnames]
        exact Environment.names_define hmiddle name.lexeme value

mutual

/-- Running is running in the scopes that were resolved. -/
theorem outcome_execIn {m : Machine} (h : m.environment.WellFormed) : (s : Stmt) →
    (s.execIn m.environment.names m).outcome = s.exec m
  | block body => by
    have hopen : m.openScope.environment.WellFormed := h.openScope
    have hbody := outcome_execAllIn hopen body
    have hnames : m.openScope.environment.names = ∅ :: m.environment.names :=
      Environment.names_openScope m.environment
    rw [hnames, Traced.outcome] at hbody
    rw [execIn, exec, ← hbody]
    rfl
  | declare name none => rfl
  | declare name (some initializer) => by
    rw [execIn, Traced.outcome_andThen, Machine.outcome_evalIn h, exec]
    rcases m.eval initializer with ⟨_ | value, middle⟩ <;> rfl
  | expression e => by
    rw [execIn, Traced.outcome_andThen, Machine.outcome_evalIn h, exec]
    rcases m.eval e with ⟨_ | value, middle⟩ <;> rfl
  | print e => by
    rw [execIn, Traced.outcome_andThen, Machine.outcome_evalIn h, exec]
    rcases m.eval e with ⟨_ | value, middle⟩ <;> rfl

theorem outcome_execAllIn {m : Machine} (h : m.environment.WellFormed) : (ss : List Stmt) →
    (execAllIn m.environment.names m ss).outcome = execAll m ss
  | [] => rfl
  | s :: rest => by
    have hmiddle := wellFormed_exec h s
    rw [execAllIn, Traced.outcome_andThen, outcome_execIn h s, execAll]
    cases hexec : s.exec m with
    | mk result middle =>
      cases result with
      | error d => rfl
      | ok _ =>
        rw [hexec] at hmiddle
        simp only
        rw [← names_exec h hexec, outcome_execAllIn hmiddle rest]

end

mutual

/-- Running accesses the names as they were resolved. -/
theorem follows_execIn {m : Machine} (h : m.environment.WellFormed) : (s : Stmt) →
    (s.execIn m.environment.names m).Follows (s.resolve m.environment.names).1
  | block body => by
    have hopen : m.openScope.environment.WellFormed := h.openScope
    have hbody := follows_execAllIn hopen body
    have hnames : m.openScope.environment.names = ∅ :: m.environment.names :=
      Environment.names_openScope m.environment
    rw [hnames] at hbody
    exact hbody.mapState _
  | declare name none => Traced.follows_silent fun _ => nofun
  | declare name (some initializer) => by
    rw [execIn]
    exact (Machine.follows_evalIn h initializer).andThen_silent fun _ _ _ => nofun
  | expression e => by
    rw [execIn]
    exact (Machine.follows_evalIn h e).andThen_silent fun _ _ _ => nofun
  | print e => by
    rw [execIn]
    refine (Machine.follows_evalIn h e).andThen_silent fun value m name => ?_
    unfold Machine.print
    split <;> exact nofun

theorem follows_execAllIn {m : Machine} (h : m.environment.WellFormed) : (ss : List Stmt) →
    (execAllIn m.environment.names m ss).Follows (resolveAll m.environment.names ss).1
  | [] => Traced.follows_silent fun _ => nofun
  | s :: rest => by
    have hmiddle := wellFormed_exec h s
    have houtcome := outcome_execIn h s
    refine (follows_execIn h s).andThen fun _ hok => ?_
    have hexec : s.exec m = (.ok (), (s.execIn m.environment.names m).state) := by
      rw [← houtcome, Traced.outcome, hok]
    rw [hexec] at hmiddle
    rw [← names_exec h hexec]
    exact follows_execAllIn hmiddle rest

end

/-- Running the statements does the same as running them with each name read and assigned in the
    scope that it was resolved to before anything ran, and a lookup finds each name in just that
    scope, one occurrence after the other. It fails at an occurrence for an undefined name if and
    only if it gets there and the occurrence is unbound. -/
structure LexicallyScoped (m : Machine) (ss : List Stmt) : Prop where
  outcome_eq : (execAllIn m.environment.names m ss).outcome = execAll m ss
  found : (execAllIn m.environment.names m ss).accesses <+: (resolveAll m.environment.names ss).1
  complete : (execAll m ss).1 = .ok () →
    (execAllIn m.environment.names m ss).accesses = (resolveAll m.environment.names ss).1
  undefined_iff : ∀ before occurrence after,
    (resolveAll m.environment.names ss).1 = before ++ occurrence :: after →
    (before ++ [occurrence] <+: (execAllIn m.environment.names m ss).accesses ∧
        occurrence.scope? = none ↔
      (execAllIn m.environment.names m ss).accesses = before ++ [occurrence] ∧
        (execAll m ss).1 = .error (.runtime occurrence.name .undefinedVariable))
  raised : ∀ name, (execAll m ss).1 = .error (.runtime name .undefinedVariable) →
    ∃ before occurrence, occurrence.name = name ∧
      (execAllIn m.environment.names m ss).accesses = before ++ [occurrence]

/-- Scoping is lexical: the scope in which a name is found depends on the text alone. -/
theorem scoping_is_lexical {m : Machine} (h : m.environment.WellFormed) (ss : List Stmt) :
    LexicallyScoped m ss := by
  have houtcome := outcome_execAllIn h ss
  have hfollows := follows_execAllIn h ss
  have hresult : (execAllIn m.environment.names m ss).result = (execAll m ss).1 :=
    congrArg Prod.fst houtcome
  refine ⟨houtcome, hfollows.in_order, fun hok => ?_, ?_, fun name hname => ?_⟩
  · exact hfollows.complete () (hresult.trans hok)
  · intro before occurrence after _
    constructor
    · rintro ⟨⟨rest, hreached⟩, hnone⟩
      rw [List.append_assoc, List.singleton_append] at hreached
      obtain ⟨rfl, hfailed⟩ := hfollows.stops before occurrence rest hreached.symm hnone
      exact ⟨hreached.symm, hresult ▸ hfailed⟩
    · rintro ⟨hreached, hfailed⟩
      obtain ⟨front, last, hlast, -, hnone⟩ := hfollows.raised _ (hresult.trans hfailed)
      obtain ⟨-, hsame⟩ := List.append_inj' (hreached.symm.trans hlast) rfl
      obtain rfl := List.singleton_inj.mp hsame
      exact ⟨by rw [hreached], hnone⟩
  · obtain ⟨before, occurrence, heq, hoccurrence, -⟩ := hfollows.raised name (hresult.trans hname)
    exact ⟨before, occurrence, hoccurrence, heq⟩

/-- In `var a; { var a = a; a = nil; } b;` the initialiser reads the outer `a`, the assignment
    changes the inner one, and the run fails at `b`. -/
theorem scoping_is_lexical_shadowed :
    (Machine.new none).environment.WellFormed ∧
    (resolveAll (Machine.new none).environment.names
      [.declare ⟨.identifier, "a", ⟨1, 5⟩⟩ none,
        .block [.declare ⟨.identifier, "a", ⟨1, 14⟩⟩ (some (.var ⟨.identifier, "a", ⟨1, 18⟩⟩)),
          .expression (.assign ⟨.identifier, "a", ⟨1, 21⟩⟩ (.literal .nil))],
        .expression (.var ⟨.identifier, "b", ⟨1, 32⟩⟩)]).1 =
      [⟨.read, ⟨.identifier, "a", ⟨1, 18⟩⟩, some 0⟩,
        ⟨.assign, ⟨.identifier, "a", ⟨1, 21⟩⟩, some 1⟩,
        ⟨.read, ⟨.identifier, "b", ⟨1, 32⟩⟩, none⟩] ∧
    (execAll (Machine.new none)
      [.declare ⟨.identifier, "a", ⟨1, 5⟩⟩ none,
        .block [.declare ⟨.identifier, "a", ⟨1, 14⟩⟩ (some (.var ⟨.identifier, "a", ⟨1, 18⟩⟩)),
          .expression (.assign ⟨.identifier, "a", ⟨1, 21⟩⟩ (.literal .nil))],
        .expression (.var ⟨.identifier, "b", ⟨1, 32⟩⟩)]).1 =
      .error (.runtime ⟨.identifier, "b", ⟨1, 32⟩⟩ .undefinedVariable) := by
  have hwellFormed : (Machine.new none).environment.WellFormed :=
    Environment.Represents.empty.wellFormed
  have hscoped := scoping_is_lexical hwellFormed
    [.declare ⟨.identifier, "a", ⟨1, 5⟩⟩ none,
      .block [.declare ⟨.identifier, "a", ⟨1, 14⟩⟩ (some (.var ⟨.identifier, "a", ⟨1, 18⟩⟩)),
        .expression (.assign ⟨.identifier, "a", ⟨1, 21⟩⟩ (.literal .nil))],
      .expression (.var ⟨.identifier, "b", ⟨1, 32⟩⟩)]
  have hresolved : (resolveAll (Machine.new none).environment.names
      [.declare ⟨.identifier, "a", ⟨1, 5⟩⟩ none,
        .block [.declare ⟨.identifier, "a", ⟨1, 14⟩⟩ (some (.var ⟨.identifier, "a", ⟨1, 18⟩⟩)),
          .expression (.assign ⟨.identifier, "a", ⟨1, 21⟩⟩ (.literal .nil))],
        .expression (.var ⟨.identifier, "b", ⟨1, 32⟩⟩)]).1 =
      [⟨.read, ⟨.identifier, "a", ⟨1, 18⟩⟩, some 0⟩,
        ⟨.assign, ⟨.identifier, "a", ⟨1, 21⟩⟩, some 1⟩] ++
        [⟨.read, ⟨.identifier, "b", ⟨1, 32⟩⟩, none⟩] := by
    decide +kernel
  refine ⟨hwellFormed, hresolved, ((hscoped.undefined_iff _ _ [] hresolved).mp ⟨?_, rfl⟩).2⟩
  decide +kernel

end Stmt

end BlockScript
