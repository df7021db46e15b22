import BlockScript.Proofs.Reachable
import BlockScript.Proofs.Simulation

/-!
# Blocks that declare nothing

While the body of a block runs, there is one more scope than without the block, and that scope is
empty as long as the body declares nothing directly. Blocks within the body open their scopes above
it. `ScopeStack.Buried` relates two stacks that differ by such an empty scope, which no operation
can tell from none. So the block does what its statements do by themselves, to the last detail of
the environment it leaves (`Stmt.block_transparent`).
-/

namespace BlockScript

namespace ScopeStack

/-- The second stack has the maps of the first and one more, which is empty and has `n` maps above
    it. -/
inductive Buried : Nat → ScopeStack → ScopeStack → Prop
  | top (s : ScopeStack) : Buried 0 s s.push
  | under {n : Nat} {s s' : ScopeStack} (map : Bindings) :
      Buried n s s' → Buried (n + 1) ⟨map, s.maps⟩ ⟨map, s'.maps⟩

theorem get?_under (s : ScopeStack) (map : Bindings) (name : String) :
    (ScopeStack.mk map s.maps).get? name = map[name]?.or (s.get? name) := by
  rw [get?, maps, List.findSome?_cons, get?]
  cases map[name]? <;> rfl

theorem assign?_under (s : ScopeStack) (map : Bindings) (name : String) (value : Value) :
    (ScopeStack.mk map s.maps).assign? name value =
      if name ∈ map then some ⟨map.insert name value, s.maps⟩
      else (s.assign? name value).map fun t => ⟨map, t.maps⟩ := by
  rw [assign?, overwrite?_maps, Option.map_map]
  rfl

namespace Buried

variable {n : Nat} {s s' : ScopeStack}

theorem get?_eq (h : Buried n s s') (name : String) : s.get? name = s'.get? name := by
  induction h with
  | top s => rw [push, get?_under, Std.ExtTreeMap.getElem?_empty, Option.none_or]
  | under map _ ih => rw [get?_under, get?_under, ih]

/-- The empty map is never the one in which a name is overwritten. -/
theorem assign? (h : Buried n s s') (name : String) (value : Value) :
    (s.assign? name value = none ∧ s'.assign? name value = none) ∨
      ∃ t t', s.assign? name value = some t ∧ s'.assign? name value = some t' ∧
        Buried n t t' := by
  induction h with
  | top s =>
    rw [push, assign?_under, if_neg Std.ExtTreeMap.not_mem_empty]
    cases s.assign? name value with
    | none => exact .inl ⟨rfl, rfl⟩
    | some t => exact .inr ⟨t, t.push, rfl, rfl, .top t⟩
  | under map hbelow ih =>
    rw [assign?_under, assign?_under]
    by_cases hmem : name ∈ map
    · rw [if_pos hmem, if_pos hmem]
      exact .inr ⟨_, _, rfl, rfl, .under _ hbelow⟩
    · rw [if_neg hmem, if_neg hmem]
      rcases ih with ⟨ht, ht'⟩ | ⟨t, t', ht, ht', hafter⟩
      · rw [ht, ht']
        exact .inl ⟨rfl, rfl⟩
      · rw [ht, ht']
        exact .inr ⟨_, _, rfl, rfl, .under map hafter⟩

theorem define (h : Buried n s s') (hn : n ≠ 0) (name : String) (value : Value) :
    Buried n (s.define name value) (s'.define name value) := by
  cases h with
  | top => exact absurd rfl hn
  | under map hbelow => exact .under (map.insert name value) hbelow

theorem push (h : Buried n s s') : Buried (n + 1) s.push s'.push := .under ∅ h

theorem pop (h : Buried (n + 1) s s') : Buried n s.pop s'.pop := by
  cases h with
  | under map hbelow => exact hbelow

end Buried

end ScopeStack

namespace Environment

/-- The second environment has the scopes of the first and one more, which is empty and has `n`
    scopes within it. -/
def Buried (n : Nat) (env env' : Environment) : Prop :=
  ∃ s s', env.Represents s ∧ env'.Represents s' ∧ ScopeStack.Buried n s s'

/-- There is one environment that represents a stack. -/
theorem Represents.unique {env env' : Environment} {s : ScopeStack} (h : env.Represents s)
    (h' : env'.Represents s) : env = env' := by
  have hbindings : env.bindings = env'.bindings := h.bindings_eq.trans h'.bindings_eq.symm
  have hscopes : env.scopes = env'.scopes := by
    apply Array.ext_getElem?
    intro i
    have hmaps : env.scopes[i]?.map Scope.bindings = env'.scopes[i]?.map Scope.bindings := by
      have hi := congrArg (fun maps => maps[i]?) hbindings
      simpa [bindings] using hi
    cases hscope : env.scopes[i]? with
    | none =>
      rw [hscope] at hmaps
      exact (Option.map_eq_none_iff.mp hmaps.symm).symm
    | some scope =>
      rw [hscope] at hmaps
      obtain ⟨scope', hscope', heq⟩ := Option.map_eq_some_iff.mp hmaps.symm
      -- the scope around one is determined by its index
      have hparent : scope'.parent? = scope.parent? := by
        cases i with
        | zero =>
          rw [h.wellFormed.parent?_zero scope hscope, h'.wellFormed.parent?_zero scope' hscope']
        | succ i =>
          rw [h.wellFormed.parent?_succ i scope hscope,
            h'.wellFormed.parent?_succ i scope' hscope']
      rw [hscope']
      obtain ⟨parent?, map⟩ := scope
      obtain ⟨parent?', map'⟩ := scope'
      obtain rfl : parent?' = parent? := hparent
      obtain rfl : map' = map := heq
      rfl
  obtain ⟨scopes, current⟩ := env
  obtain ⟨scopes', current'⟩ := env'
  obtain rfl : scopes = scopes' := hscopes
  obtain rfl : current = current' := h.current_eq.trans h'.current_eq.symm
  rfl

namespace Buried

variable {env env' : Environment}

/-- A scope that was just opened is empty. -/
theorem openScope (h : env.WellFormed) : Buried 0 env env.openScope.2 := by
  obtain ⟨s, hs⟩ := h.exists_represents
  exact ⟨s, s.push, hs, hs.openScope, .top s⟩

/-- What is left when the empty scope is closed is the environment without it. -/
theorem closeScope_eq (h : Buried 0 env env') : env'.closeScope = env := by
  obtain ⟨s, s', hs, hs', hburied⟩ := h
  cases hburied with
  | top s => exact hs'.closeScope.unique hs

/-- No operation tells the environments apart, as long as nothing is declared in the empty scope. -/
theorem simulation : Simulation Buried (fun _ => True) (fun _ => False) where
  get? := by
    rintro n env env' name ⟨s, s', hs, hs', h⟩ -
    rw [hs.get?_eq, hs'.get?_eq, h.get?_eq]
  assign? := by
    rintro n env env' name ⟨s, s', hs, hs', h⟩ - value
    rcases hs.assign? name value with ⟨henv, ht⟩ | ⟨after, t, henv, ht, hafter⟩ <;>
      rcases hs'.assign? name value with ⟨henv', ht'⟩ | ⟨after', t', henv', ht', hafter'⟩ <;>
      have hassign := h.assign? name value <;> rw [ht, ht'] at hassign
    · exact .inl ⟨henv, henv'⟩
    · simp at hassign
    · simp at hassign
    · obtain ⟨⟨⟩, -⟩ | ⟨_, _, ⟨⟩, ⟨⟩, hburied⟩ := hassign
      exact .inr ⟨after, after', henv, henv', t, t', hafter, hafter', hburied⟩
  define := by
    rintro n env env' name ⟨s, s', hs, hs', h⟩ - hzero value
    exact ⟨_, _, hs.define name value, hs'.define name value, h.define hzero name value⟩
  openScope := by
    rintro n env env' ⟨s, s', hs, hs', h⟩
    exact ⟨_, _, hs.openScope, hs'.openScope, h.push⟩
  closeScope := by
    rintro n env env' ⟨s, s', hs, hs', h⟩
    exact ⟨_, _, hs.closeScope, hs'.closeScope, h.pop⟩

end Buried

end Environment

namespace Stmt

variable {σ ε : Type}

/-- A block that declares nothing itself does with any writer what its statements do. -/
theorem execWith_block_eq (w : Writer σ ε) {env : Environment} (henv : env.WellFormed) (state : σ)
    {ss : List Stmt} (hss : ∀ s ∈ ss, s.declared = []) :
    (block ss).execWith w env state = execAllWith w env state ss := by
  obtain ⟨result, after, after', last, h, h', hafter⟩ :=
    Environment.Buried.simulation.execAllWith w (.openScope henv) state ss
      (fun _ _ => trivial) (fun _ s hs name hname => by simp [hss s hs] at hname)
  simp only [execWith, h, h', hafter.closeScope_eq]

/-- A block that declares nothing itself does what its statements do: the result is the same, and so
    are all that is printed and all scopes afterwards, whatever takes the values that are
    printed. -/
theorem block_transparent {m : Machine} (henv : m.environment.WellFormed) {ss : List Stmt}
    (hss : ∀ s ∈ ss, s.declared = []) :
    (block ss).exec m = execAll m ss ∧
    ∀ {σ ε : Type} (w : Writer σ ε) (state : σ),
      (block ss).execWith w m.environment state = execAllWith w m.environment state ss := by
  refine ⟨?_, fun w state => execWith_block_eq w henv state hss⟩
  rw [exec_eq, execAll_eq, execWith_block_eq Output.writer henv m.output hss]

/-- In `{ { var a = true; x = a; } print x; }` the outer braces make no difference, although `x` is
    assigned through the scope that they open and the output has no room for what is printed. -/
theorem block_transparent_assignment :
    (block [.block [.declare ⟨.identifier, "a", ⟨1, 9⟩⟩ (some (.literal (.boolean true))),
          .expression (.assign ⟨.identifier, "x", ⟨1, 19⟩⟩ (.var ⟨.identifier, "a", ⟨1, 23⟩⟩))],
        .print (.var ⟨.identifier, "x", ⟨1, 34⟩⟩)]).exec
      ((Machine.new (some 3)).define ⟨.identifier, "x", ⟨1, 1⟩⟩ .nil) =
    execAll ((Machine.new (some 3)).define ⟨.identifier, "x", ⟨1, 1⟩⟩ .nil)
      [.block [.declare ⟨.identifier, "a", ⟨1, 9⟩⟩ (some (.literal (.boolean true))),
          .expression (.assign ⟨.identifier, "x", ⟨1, 19⟩⟩ (.var ⟨.identifier, "a", ⟨1, 23⟩⟩))],
        .print (.var ⟨.identifier, "x", ⟨1, 34⟩⟩)] := by
  have hnew : (Machine.new (some 3)).environment.WellFormed := (Machine.Reachable.new _).wellFormed
  exact (block_transparent (hnew.bindIn 0 "x" .nil) (by simp [declared])).1

end Stmt

end BlockScript
