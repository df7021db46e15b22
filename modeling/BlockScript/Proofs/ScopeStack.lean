import BlockScript.Environment

/-!
# The open scopes are a stack of maps

`ScopeStack` is a stack of finite maps that is never empty. An environment represents one if it is
well formed and its scopes hold the maps from the bottom to the top. Every call of an environment
keeps that relation and gives the answer of the same call of the stack, and so does every sequence
of calls that begins with an empty environment (`Environment.answers_eq`).
-/

namespace BlockScript

/-- What one scope binds. -/
abbrev Bindings := Std.ExtTreeMap String Value

/-- A stack of maps with one on top of all others. -/
structure ScopeStack where
  top : Bindings
  below : List Bindings

/-- The calls that read or change the open scopes. -/
inductive Environment.Call where
  | openScope
  | closeScope
  | define (name : String) (value : Value)
  | write (name : Token) (value : Value)
  | read (name : Token)
  | getGlobal (name : String)

/-- What a call gives back. -/
inductive Environment.Reply where
  | opened (id : Nat)
  | done
  | written (result : Except Diagnostic Unit)
  | value (result : Except Diagnostic Value)
  | global (value? : Option Value)

/-- What can be seen of a call: its reply, and how many scopes are open and which one is current
    after it. -/
structure Environment.Answer where
  reply : Environment.Reply
  depth : Nat
  current : Nat

namespace ScopeStack

/-- One empty map. -/
def empty : ScopeStack := ⟨∅, []⟩

/-- The maps, the topmost first. -/
def maps (s : ScopeStack) : List Bindings := s.top :: s.below

/-- The map at the bottom. -/
def bottom (s : ScopeStack) : Bindings := s.below.getLastD s.top

def depth (s : ScopeStack) : Nat := s.maps.length

/-- The number of the topmost map, where the one at the bottom has the number 0. -/
def current (s : ScopeStack) : Nat := s.below.length

def push (s : ScopeStack) : ScopeStack := ⟨∅, s.maps⟩

/-- Drops the topmost map, unless it is the only one. -/
def pop (s : ScopeStack) : ScopeStack :=
  match s.below with
  | [] => s
  | map :: below => ⟨map, below⟩

def define (s : ScopeStack) (name : String) (value : Value) : ScopeStack :=
  { s with top := s.top.insert name value }

/-- The value of the name in the topmost map that contains it. -/
def get? (s : ScopeStack) (name : String) : Option Value := s.maps.findSome? fun map => map[name]?

/-- Overwrites the value of the name in the first map that contains it, if there is one. -/
def overwrite? (name : String) (value : Value) : List Bindings → Option (List Bindings)
  | [] => none
  | map :: rest =>
    if name ∈ map then some (map.insert name value :: rest)
    else (overwrite? name value rest).map (map :: ·)

/-- Overwrites the value of the name in the topmost map that contains it, if there is one. -/
def assign? (s : ScopeStack) (name : String) (value : Value) : Option ScopeStack :=
  if name ∈ s.top then some (s.define name value)
  else (overwrite? name value s.below).map fun below => { s with below }

/-- The reply to a call, and the stack after it. An assignment that fails changes nothing. -/
def call (s : ScopeStack) : Environment.Call → Environment.Reply × ScopeStack
  | .openScope => (.opened s.push.current, s.push)
  | .closeScope => (.done, s.pop)
  | .define name value => (.done, s.define name value)
  | .write name value =>
    match s.assign? name.lexeme value with
    | some s => (.written (.ok ()), s)
    | none => (.written (.error (.runtime name .undefinedVariable)), s)
  | .read name =>
    match s.get? name.lexeme with
    | some value => (.value (.ok value), s)
    | none => (.value (.error (.runtime name .undefinedVariable)), s)
  | .getGlobal name => (.global s.bottom[name]?, s)

/-- The answers to calls one after the other, and the stack after them. -/
def answers (s : ScopeStack) : List Environment.Call → List Environment.Answer × ScopeStack
  | [] => ([], s)
  | c :: rest =>
    let (reply, s) := s.call c
    let (answers, last) := s.answers rest
    (⟨reply, s.depth, s.current⟩ :: answers, last)

theorem overwrite?_maps (s : ScopeStack) (name : String) (value : Value) :
    overwrite? name value s.maps = (s.assign? name value).map maps := by
  rw [maps, overwrite?, assign?]
  split
  · rfl
  · simp [Function.comp_def, maps]

end ScopeStack

namespace Environment

/-- The reply to a call, and the environment after it. -/
def call (env : Environment) : Call → Reply × Environment
  | .openScope => (.opened env.openScope.1, env.openScope.2)
  | .closeScope => (.done, env.closeScope)
  | .define name value => (.done, env.define name value)
  | .write name value =>
    match env.write name value with
    | .ok env => (.written (.ok ()), env)
    | .error d => (.written (.error d), env)
  | .read name => (.value (env.read name), env)
  | .getGlobal name => (.global (env.getGlobal? name), env)

/-- The answers to calls one after the other, and the environment after them. -/
def answers (env : Environment) : List Call → List Answer × Environment
  | [] => ([], env)
  | c :: rest =>
    let (reply, env) := env.call c
    let (answers, last) := env.answers rest
    (⟨reply, env.depth, env.current⟩ :: answers, last)

/-- The maps of the scopes, the global one first. -/
def bindings (env : Environment) : List Bindings := env.scopes.toList.map Scope.bindings

/-- The maps of the first `n` scopes, the innermost first. -/
def mapsBelow (env : Environment) (n : Nat) : List Bindings := (env.bindings.take n).reverse

/-- The environment is well formed, and its scopes hold the maps of the stack. -/
structure Represents (env : Environment) (s : ScopeStack) : Prop where
  wellFormed : env.WellFormed
  bindings_eq : env.bindings = s.maps.reverse

/-- The walk outwards from the scope `i` meets the scopes `visited`, all of which there are, and
    ends. -/
inductive Walk (env : Environment) : Nat → List Nat → Prop
  | last {i : Nat} {scope : Scope} :
      env.scopes[i]? = some scope → scope.parent? = none → Walk env i [i]
  | outwards {i parent : Nat} {scope : Scope} {visited : List Nat} :
      env.scopes[i]? = some scope → scope.parent? = some parent → Walk env parent visited →
      Walk env i (i :: visited)

theorem WellFormed.walk {env : Environment} (h : env.WellFormed) {i : Nat}
    (hi : i < env.scopes.size) : Walk env i (List.range (i + 1)).reverse := by
  induction i with
  | zero =>
    have hscope := Array.getElem?_eq_getElem hi
    exact .last hscope (h.parent?_zero _ hscope)
  | succ i ih =>
    have hscope := Array.getElem?_eq_getElem hi
    rw [List.range_succ, List.reverse_append]
    exact .outwards hscope (h.parent?_succ i _ hscope) (ih (Nat.lt_of_succ_lt hi))

theorem WellFormed.current_lt {env : Environment} (h : env.WellFormed) :
    env.current < env.scopes.size := by
  have hcurrent := h.current_eq
  omega

theorem mapsBelow_succ {env : Environment} {i : Nat} {scope : Scope}
    (h : env.scopes[i]? = some scope) :
    env.mapsBelow (i + 1) = scope.bindings :: env.mapsBelow i := by
  have hbindings : env.bindings[i]? = some scope.bindings := by
    simp [bindings, h]
  rw [mapsBelow, List.take_add_one, hbindings, mapsBelow]
  simp

theorem getElem?_scopes_bindIn (env : Environment) (i j : Nat) (name : String) (value : Value) :
    (env.bindIn i name value).scopes[j]? =
      if i = j then
        env.scopes[j]?.map fun scope =>
          { scope with bindings := scope.bindings.insert name value }
      else env.scopes[j]? := by
  rw [bindIn, Array.getElem?_modify]

theorem bindings_bindIn (env : Environment) (i : Nat) (name : String) (value : Value) :
    (env.bindIn i name value).bindings =
      env.bindings.modify i fun map => map.insert name value := by
  apply List.ext_getElem?
  intro j
  rw [List.getElem?_modify, bindings, bindings, List.getElem?_map, List.getElem?_map,
    Array.getElem?_toList, Array.getElem?_toList, getElem?_scopes_bindIn]
  split <;> cases env.scopes[j]? <;> rfl

/-- A scope that is changed is not one of those before it. -/
theorem mapsBelow_bindIn {env : Environment} {i n : Nat} (name : String) (value : Value)
    (h : n ≤ i) : (env.bindIn i name value).mapsBelow n = env.mapsBelow n := by
  have hlength : (env.bindings.take n).length ≤ i := Nat.le_trans (List.length_take_le _ _) h
  rw [mapsBelow, bindings_bindIn, List.take_modify, List.modify_eq_self hlength, mapsBelow]

theorem WellFormed.bindIn {env : Environment} (h : env.WellFormed) (i : Nat) (name : String)
    (value : Value) : (env.bindIn i name value).WellFormed := by
  have hparent : ∀ (j : Nat) (scope : Scope), (env.bindIn i name value).scopes[j]? = some scope →
      ∃ old : Scope, env.scopes[j]? = some old ∧ old.parent? = scope.parent? := by
    intro j scope hscope
    rw [getElem?_scopes_bindIn] at hscope
    split at hscope
    case isTrue =>
      obtain ⟨old, hold, rfl⟩ := Option.map_eq_some_iff.mp hscope
      exact ⟨old, hold, rfl⟩
    case isFalse => exact ⟨scope, hscope, rfl⟩
  constructor
  · simpa [Environment.bindIn] using h.current_eq
  · intro scope hscope
    obtain ⟨old, hold, heq⟩ := hparent 0 scope hscope
    rw [← heq]
    exact h.parent?_zero old hold
  · intro j scope hscope
    obtain ⟨old, hold, heq⟩ := hparent (j + 1) scope hscope
    rw [← heq]
    exact h.parent?_succ j old hold

/-! ## Looking up a name -/

/-- In a well formed environment the scope around one is the one before it. -/
theorem WellFormed.resolveFrom_eq {env : Environment} (h : env.WellFormed) {i : Nat}
    {scope : Scope} (name : String) (hscope : env.scopes[i]? = some scope) :
    env.resolveFrom name i =
      if name ∈ scope.bindings then some i
      else
        match i with
        | 0 => none
        | j + 1 => env.resolveFrom name j := by
  rw [resolveFrom]
  cases i with
  | zero => simp [hscope, h.parent?_zero scope hscope]
  | succ j => simp [hscope, h.parent?_succ j scope hscope]

theorem WellFormed.le_of_resolveFrom {env : Environment} (h : env.WellFormed) {i k : Nat}
    {name : String} (hi : i < env.scopes.size) (hk : env.resolveFrom name i = some k) :
    k ≤ i := by
  induction i with
  | zero =>
    rw [h.resolveFrom_eq name (Array.getElem?_eq_getElem hi)] at hk
    split at hk <;> cases hk
    exact Nat.le_refl _
  | succ i ih =>
    rw [h.resolveFrom_eq name (Array.getElem?_eq_getElem hi)] at hk
    split at hk
    · cases hk
      exact Nat.le_refl _
    · exact Nat.le_succ_of_le (ih (Nat.lt_of_succ_lt hi) hk)

/-- The value that is found is the one in the first map that contains the name. -/
theorem WellFormed.valueIn_resolveFrom {env : Environment} (h : env.WellFormed) {i : Nat}
    (name : String) (hi : i < env.scopes.size) :
    ((env.resolveFrom name i).bind fun k => env.valueIn k name) =
      (env.mapsBelow (i + 1)).findSome? fun map => map[name]? := by
  have hscope := Array.getElem?_eq_getElem hi
  rw [mapsBelow_succ hscope, h.resolveFrom_eq name hscope, List.findSome?_cons]
  split
  case isTrue hmem =>
    have hvalue := Std.ExtTreeMap.getElem?_eq_some_getElem hmem
    simp [valueIn, hscope, hvalue]
  case isFalse hmem =>
    rw [Std.ExtTreeMap.getElem?_eq_none hmem]
    cases i with
    | zero => simp [mapsBelow]
    | succ j => exact h.valueIn_resolveFrom name (Nat.lt_of_succ_lt hi)

/-- The map that is changed is the first one that contains the name. -/
theorem WellFormed.bindIn_resolveFrom {env : Environment} (h : env.WellFormed) {i : Nat}
    (name : String) (value : Value) (hi : i < env.scopes.size) :
    ((env.resolveFrom name i).map fun k => (env.bindIn k name value).mapsBelow (i + 1)) =
      ScopeStack.overwrite? name value (env.mapsBelow (i + 1)) := by
  have hscope := Array.getElem?_eq_getElem hi
  rw [mapsBelow_succ hscope, ScopeStack.overwrite?, h.resolveFrom_eq name hscope]
  split
  case isTrue hmem =>
    have hchanged : (env.bindIn i name value).scopes[i]? =
        some { env.scopes[i] with bindings := env.scopes[i].bindings.insert name value } := by
      rw [getElem?_scopes_bindIn, if_pos rfl, hscope]
      rfl
    rw [Option.map_some, mapsBelow_succ hchanged, mapsBelow_bindIn name value (Nat.le_refl i)]
  case isFalse hmem =>
    cases i with
    | zero => simp [mapsBelow, ScopeStack.overwrite?]
    | succ j =>
      have hj := Nat.lt_of_succ_lt hi
      rw [← h.bindIn_resolveFrom name value hj, Option.map_map]
      apply Option.map_congr
      intro k hk
      have hle := h.le_of_resolveFrom hj hk
      have hsame : (env.bindIn k name value).scopes[j + 1]? = some env.scopes[j + 1] := by
        rw [getElem?_scopes_bindIn, if_neg (by omega), hscope]
      rw [mapsBelow_succ hsame]
      rfl

/-! ## Closing a scope -/

theorem WellFormed.closeScope_zero {env : Environment} (h : env.WellFormed)
    (hcurrent : env.current = 0) : env.closeScope = env := by
  rw [closeScope, hcurrent]
  split
  case h_1 parent map hscope => cases h.parent?_zero _ hscope
  case h_2 => rfl

theorem WellFormed.closeScope_succ {env : Environment} (h : env.WellFormed) {i : Nat}
    (hcurrent : env.current = i + 1) :
    env.closeScope = ⟨env.scopes.take (i + 1), i⟩ := by
  have hlt : i + 1 < env.scopes.size := hcurrent ▸ h.current_lt
  have hscope := Array.getElem?_eq_getElem hlt
  have hparent := h.parent?_succ i _ hscope
  rw [closeScope, hcurrent]
  split
  case h_1 parent map hsome =>
    rw [hscope] at hsome
    rw [Option.some.inj hsome] at hparent
    cases hparent
    rfl
  case h_2 hnone => exact absurd (hscope.trans (by rw [← hparent])) (hnone i _)

/-- The scopes around the current one are well formed by themselves. -/
theorem WellFormed.take {env : Environment} (h : env.WellFormed) {i : Nat}
    (hcurrent : env.current = i + 1) : WellFormed ⟨env.scopes.take (i + 1), i⟩ := by
  have hlt : i + 1 < env.scopes.size := hcurrent ▸ h.current_lt
  have hold : ∀ (j : Nat) (scope : Scope), (env.scopes.take (i + 1))[j]? = some scope →
      env.scopes[j]? = some scope := by
    intro j scope hscope
    rw [Array.getElem?_extract] at hscope
    split at hscope
    case isTrue => simpa using hscope
    case isFalse => cases hscope
  refine ⟨?_, fun scope hscope => h.parent?_zero scope (hold 0 scope hscope),
    fun j scope hscope => h.parent?_succ j scope (hold (j + 1) scope hscope)⟩
  simp only [Array.size_extract]
  omega

/-! ## Each call -/

theorem length_bindings (env : Environment) : env.bindings.length = env.scopes.size := by
  rw [bindings, List.length_map, Array.length_toList]

namespace Represents

variable {env : Environment} {s : ScopeStack}

theorem depth_eq (h : env.Represents s) : env.depth = s.depth := by
  rw [depth, ← length_bindings, h.bindings_eq, List.length_reverse]
  rfl

theorem current_eq (h : env.Represents s) : env.current = s.current := by
  have hsize : env.scopes.size = s.below.length + 1 := h.depth_eq
  have hcurrent := h.wellFormed.current_eq
  rw [ScopeStack.current]
  omega

theorem mapsBelow_current (h : env.Represents s) : env.mapsBelow (env.current + 1) = s.maps := by
  rw [mapsBelow, h.wellFormed.current_eq, ← length_bindings, List.take_length, h.bindings_eq,
    List.reverse_reverse]

/-- Changing a scope so that the maps are those of a stack represents that stack. -/
theorem bindIn (h : env.Represents s) {t : ScopeStack} {i : Nat} {name : String} {value : Value}
    (ht : (env.bindIn i name value).mapsBelow (env.current + 1) = t.maps) :
    (env.bindIn i name value).Represents t := by
  have hsize : env.current + 1 = (env.bindIn i name value).bindings.length := by
    rw [length_bindings]
    exact (h.wellFormed.bindIn i name value).current_eq
  refine ⟨h.wellFormed.bindIn i name value, ?_⟩
  rw [← ht, mapsBelow, hsize, List.take_length, List.reverse_reverse]

theorem empty : Environment.empty.Represents ScopeStack.empty := by
  refine ⟨⟨rfl, ?_, ?_⟩, rfl⟩
  · intro scope hscope
    cases hscope
    rfl
  · intro i scope hscope
    simp [Environment.empty] at hscope

theorem openScope (h : env.Represents s) : env.openScope.2.Represents s.push := by
  have hcurrent := h.wellFormed.current_eq
  refine ⟨⟨?_, ?_, ?_⟩, ?_⟩
  · simp [Environment.openScope]
  · intro scope hscope
    have hpos : 0 < env.scopes.size := by omega
    rw [Environment.openScope, Array.getElem?_push_lt hpos] at hscope
    exact h.wellFormed.parent?_zero scope (by rw [Array.getElem?_eq_getElem hpos, hscope])
  · intro i scope hscope
    rw [Environment.openScope, Array.getElem?_push] at hscope
    split at hscope
    case isTrue hi =>
      cases hscope
      exact congrArg some (by omega)
    case isFalse => exact h.wellFormed.parent?_succ i scope hscope
  · have hbindings := h.bindings_eq
    simp only [bindings] at hbindings
    simp [bindings, Environment.openScope, hbindings, ScopeStack.push, ScopeStack.maps]

theorem closeScope (h : env.Represents s) : env.closeScope.Represents s.pop := by
  have hcurrent : env.current = s.below.length := h.current_eq
  have hbindings := h.bindings_eq
  unfold ScopeStack.pop
  split
  case h_1 hbelow =>
    rw [hbelow] at hcurrent
    rw [h.wellFormed.closeScope_zero hcurrent]
    exact h
  case h_2 map rest hbelow =>
    rw [hbelow] at hcurrent
    rw [h.wellFormed.closeScope_succ hcurrent]
    refine ⟨h.wellFormed.take hcurrent, ?_⟩
    rw [ScopeStack.maps, hbelow, List.reverse_cons] at hbindings
    have htake : env.bindings.take (rest.length + 1) = (map :: rest).reverse := by
      rw [hbindings]
      exact List.take_left' (by simp)
    rw [ScopeStack.maps, ← htake]
    simp [bindings]

theorem define (h : env.Represents s) (name : String) (value : Value) :
    (env.define name value).Represents (s.define name value) := by
  obtain ⟨scope, hscope⟩ : ∃ scope, env.scopes[env.current]? = some scope :=
    ⟨_, Array.getElem?_eq_getElem h.wellFormed.current_lt⟩
  have hmaps := h.mapsBelow_current
  rw [mapsBelow_succ hscope] at hmaps
  obtain ⟨htop, hbelow⟩ := List.cons.inj hmaps
  have hchanged : (env.bindIn env.current name value).scopes[env.current]? =
      some { scope with bindings := s.top.insert name value } := by
    rw [getElem?_scopes_bindIn, if_pos rfl, hscope, Option.map_some, htop]
  apply h.bindIn
  rw [mapsBelow_succ hchanged, mapsBelow_bindIn name value (Nat.le_refl _), hbelow]
  rfl

theorem get?_eq (h : env.Represents s) (name : String) : env.get? name = s.get? name := by
  rw [get?, resolve, h.wellFormed.valueIn_resolveFrom name h.wellFormed.current_lt,
    h.mapsBelow_current]
  rfl

theorem getGlobal?_eq (h : env.Represents s) (name : String) :
    env.getGlobal? name = s.bottom[name]? := by
  have hfirst : env.scopes[0]?.map Scope.bindings = some s.bottom := by
    rw [← Array.getElem?_toList, ← List.getElem?_map]
    change env.bindings[0]? = _
    rw [h.bindings_eq, ← List.head?_eq_getElem?, List.head?_reverse, ScopeStack.maps,
      List.getLast?_cons, ScopeStack.bottom, List.getLastD_eq_getLast?]
  obtain ⟨scope, hscope, heq⟩ := Option.map_eq_some_iff.mp hfirst
  rw [getGlobal?, valueIn, hscope, Option.bind_some, heq]

/-- An assignment fails in both, or in neither. -/
theorem assign? (h : env.Represents s) (name : String) (value : Value) :
    (env.assign? name value = none ∧ s.assign? name value = none) ∨
      ∃ changed t, env.assign? name value = some changed ∧ s.assign? name value = some t ∧
        changed.Represents t := by
  have hmaps := h.wellFormed.bindIn_resolveFrom name value h.wellFormed.current_lt
  rw [h.mapsBelow_current, s.overwrite?_maps] at hmaps
  rw [Environment.assign?, resolve]
  cases hk : env.resolveFrom name env.current with
  | none =>
    rw [hk] at hmaps
    exact .inl ⟨rfl, Option.map_eq_none_iff.mp hmaps.symm⟩
  | some k =>
    rw [hk] at hmaps
    obtain ⟨t, ht, heq⟩ := Option.map_eq_some_iff.mp hmaps.symm
    exact .inr ⟨_, t, rfl, ht, h.bindIn heq.symm⟩

theorem read_eq (h : env.Represents s) (name : Token) :
    (env.call (.read name)).1 = (s.call (.read name)).1 := by
  simp only [call, ScopeStack.call, read, h.get?_eq]
  cases s.get? name.lexeme <;> rfl

theorem write (h : env.Represents s) (name : Token) (value : Value) :
    (env.call (.write name value)).1 = (s.call (.write name value)).1 ∧
      (env.call (.write name value)).2.Represents (s.call (.write name value)).2 := by
  simp only [call, ScopeStack.call, Environment.write]
  rcases h.assign? name.lexeme value with ⟨henv, hs⟩ | ⟨changed, t, henv, hs, ht⟩
  · rw [henv, hs]
    exact ⟨rfl, h⟩
  · rw [henv, hs]
    exact ⟨rfl, ht⟩

/-- A call has the same reply on a stack and on an environment that represents it, and leaves an
    environment that represents the stack it leaves. -/
theorem call (h : env.Represents s) (c : Call) :
    (env.call c).1 = (s.call c).1 ∧ (env.call c).2.Represents (s.call c).2 := by
  cases c with
  | openScope =>
    refine ⟨?_, h.openScope⟩
    exact congrArg Reply.opened (h.openScope.current_eq)
  | closeScope => exact ⟨rfl, h.closeScope⟩
  | define name value => exact ⟨rfl, h.define name value⟩
  | write name value => exact h.write name value
  | read name =>
    refine ⟨h.read_eq name, ?_⟩
    simp only [Environment.call, ScopeStack.call]
    cases s.get? name.lexeme <;> exact h
  | getGlobal name => exact ⟨congrArg Reply.global (h.getGlobal?_eq name), h⟩

/-- The answers to calls one after the other are those of the stack. -/
theorem answers (h : env.Represents s) (calls : List Call) :
    (env.answers calls).1 = (s.answers calls).1 ∧
      (env.answers calls).2.Represents (s.answers calls).2 := by
  induction calls generalizing env s with
  | nil => exact ⟨rfl, h⟩
  | cons c rest ih =>
    obtain ⟨hreply, hnext⟩ := h.call c
    obtain ⟨hanswers, hlast⟩ := ih hnext
    refine ⟨?_, hlast⟩
    simp only [Environment.answers, ScopeStack.answers]
    rw [hreply, hnext.depth_eq, hnext.current_eq, hanswers]

end Represents

/-- Whatever calls are made of a new environment, its answers are those of a stack of maps, and
    afterwards it is well formed and represents the stack. So there is a current scope, and the
    walk outwards from it meets each scope once, from the current to the global one, and ends. -/
theorem answers_eq (calls : List Call) :
    (empty.answers calls).1 = (ScopeStack.empty.answers calls).1 ∧
      (empty.answers calls).2.Represents (ScopeStack.empty.answers calls).2 ∧
      (empty.answers calls).2.current < (empty.answers calls).2.scopes.size ∧
      Walk (empty.answers calls).2 (empty.answers calls).2.current
        (List.range (empty.answers calls).2.depth).reverse := by
  obtain ⟨hanswers, hlast⟩ := Represents.empty.answers calls
  have hlt := hlast.wellFormed.current_lt
  have hwalk := hlast.wellFormed.walk hlt
  rw [hlast.wellFormed.current_eq] at hwalk
  exact ⟨hanswers, hlast, hlt, hwalk⟩

end Environment

end BlockScript
