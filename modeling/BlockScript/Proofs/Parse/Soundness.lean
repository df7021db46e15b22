import BlockScript.Proofs.Parse.Completeness

/-!
# Every statement that is read is one of the grammar

`Expr.Progress.Spells` and `Stmt.Progress.Spells` say which tokens the reading of an expression
and of a statement may have taken so far, given what is known after them: what waits for an
operand stands for tokens of the grammar, and so do the statements of each open block. Each token
that is read keeps these relations, and one that ends a statement makes them a derivation.
-/

namespace BlockScript

/-- The level at which an operator joins two phrases. -/
def BinaryOp.joins : BinaryOp → Expr.Level
  | equal | notEqual => .equality
  | greater | greaterEqual | less | lessEqual => .comparison
  | subtract | add => .term
  | multiply | divide => .factor

theorem BinaryOp.rank_joins (op : BinaryOp) : op.joins.rank = op.level := by
  cases op <;> rfl

theorem BinaryOp.mem_operators_joins {kind : Token.Kind} {op : BinaryOp}
    (h : ofKind? kind = some op) : kind ∈ op.joins.operators := by
  unfold ofKind? at h
  split at h <;> cases h <;> decide

namespace Expr

theorem denotes_of_constant? {kind : Token.Kind} {value : Value}
    (h : constant? kind = some value) : kind.Denotes value := by
  unfold constant? at h
  split at h
  case h_4 =>
    unfold Token.Kind.literal? at h
    split at h <;> cases h <;> constructor
  all_goals cases h; constructor

namespace Pending

/-- The level of the phrase that the operand completes. -/
def phraseLevel : Pending → Level
  | unary _ => .unary
  | binary _ op _ => op.joins
  | assign _ => .assignment

theorem rank_phraseLevel (p : Pending) : p.phraseLevel.rank = p.level := by
  cases p with
  | unary op => rfl
  | binary left op token => exact op.rank_joins
  | assign name => rfl

theorem operandRank_le (p : Pending) : p.operandRank ≤ p.level + 1 := by
  cases p with
  | unary op => exact Nat.le_succ _
  | binary left op token => exact Nat.le_refl _
  | assign name => exact Nat.zero_le _

theorem operandRank_le_unary (p : Pending) : p.operandRank ≤ Level.unary.rank := by
  cases p with
  | unary op => exact Nat.le_refl _
  | binary left op token => cases op <;> simp [operandRank, BinaryOp.level, Level.rank]
  | assign name => exact Nat.zero_le _

theorem admits_unary (pending : List Pending) : Admits .unary pending :=
  fun p _ => p.operandRank_le_unary

theorem admits_primary (pending : List Pending) : Admits .primary pending :=
  fun p _ => Nat.le_succ_of_le p.operandRank_le_unary

/-- What does not bind its operand as tightly as a level admits a phrase of it. -/
theorem admits_of_level_lt {level : Level} {pending : List Pending}
    (h : ∀ p ∈ pending.head?, p.level < level.rank) : Admits level pending :=
  fun p hp => Nat.le_trans p.operandRank_le (h p hp)

/-- The tokens that `p` was made of. -/
inductive Opens : Pending → List Token → Prop
  | unary {op : Token} : op.kind = .bang ∨ op.kind = .minus → Opens (.unary op) [op]
  | binary {left : Expr} {op : BinaryOp} {token : Token} {ts : List Token} :
      BinaryOp.ofKind? token.kind = some op → Derives op.joins ts left →
      Opens (.binary left op token) (ts ++ [token])
  | assign {name equals : Token} : name.kind = .identifier → equals.kind = .equal →
      Opens (.assign name) [name, equals]

theorem Opens.derives_complete {p : Pending} {level : Level} {ts us : List Token} {e : Expr}
    (h : p.Opens ts) (he : Derives level us e) (hle : p.operandRank ≤ level.rank) :
    Derives p.phraseLevel (ts ++ us) (p.complete e) := by
  cases h with
  | unary hop => exact .unary hop (he.of_rank_le hle)
  | @binary left op token ts hop hleft =>
    have hmem := BinaryOp.mem_operators_joins hop
    have hnext : op.joins.next.rank = op.level + 1 := by
      rw [Level.rank_next_of_mem_operators hmem, op.rank_joins]
    rw [List.append_assoc]
    exact .binary hmem hleft (he.of_rank_le (hnext ▸ hle))
  | assign hname hequals => exact .assign hname hequals (he.of_rank_le hle)

/-- The tokens that all that waits was made of, where each stands as an operand of the one
    outside. -/
inductive Spells : List Pending → List Token → Prop
  | nil : Spells [] []
  | cons {p : Pending} {rest : List Pending} {ts us : List Token} :
      Spells rest ts → p.Opens us → Admits p.phraseLevel rest → Spells (p :: rest) (ts ++ us)

/-- Closing at a level makes a phrase of the level, and what still waits is looser. -/
theorem Spells.close (level : Level) {inner : Level} {pending rest : List Pending}
    {ts us : List Token} {e whole : Expr} (h : Spells pending ts) (he : Derives inner us e)
    (hadmits : Admits inner pending) (hle : level.rank ≤ inner.rank)
    (hclose : Pending.close level.rank e pending = (whole, rest)) :
    ∃ vs ws, ts ++ us = vs ++ ws ∧ Spells rest vs ∧ Derives level ws whole ∧
      ∀ p ∈ rest.head?, p.level < level.rank := by
  -- Each step of closing moves the tokens of what waited last into the phrase `us`.
  induction h generalizing inner us e with
  | nil =>
    cases hclose
    exact ⟨[], us, rfl, .nil, he.of_rank_le hle, by simp⟩
  | @cons p outer ts vs hrest hopens houter ih =>
    by_cases hlevel : level.rank ≤ p.level
    · rw [close_cons_of_le e outer hlevel] at hclose
      rw [List.append_assoc]
      exact ih (hopens.derives_complete he (hadmits p rfl)) houter
        (by rw [p.rank_phraseLevel]; exact hlevel) hclose
    · rw [close_cons_of_lt e outer (Nat.lt_of_not_le hlevel)] at hclose
      cases hclose
      refine ⟨ts ++ vs, us, rfl, .cons hrest hopens houter, he.of_rank_le hle, ?_⟩
      intro q hq
      cases hq
      exact Nat.lt_of_not_le hlevel

theorem Spells.closeAll {pending : List Pending} {ts us : List Token} {e : Expr}
    (h : Spells pending ts) (he : Derives .primary us e) :
    Derives .assignment (ts ++ us) (closeAll e pending) := by
  obtain ⟨vs, ws, heq, hrest, hwhole, -⟩ :=
    h.close .assignment he (admits_primary pending) (Nat.zero_le _)
      (close_zero e pending)
  cases hrest
  rw [heq]
  exact hwhole

end Pending

/-- The tokens in front of the innermost open group, its parenthesis included. -/
inductive Context.Encloses : List (List Pending) → List Token → Prop
  | nil : Encloses [] []
  | cons {pending : List Pending} {outer : List (List Pending)} {opening : Token}
      {ts us : List Token} :
      Encloses outer ts → Pending.Spells pending us → opening.kind = .leftParen →
      Encloses (pending :: outer) (ts ++ us ++ [opening])

/-- The tokens in front of the operand. -/
def Context.Spells (c : Context) (ts : List Token) : Prop :=
  ∃ us vs, ts = us ++ vs ∧ Encloses c.outer us ∧ Pending.Spells c.pending vs

theorem Context.Spells.push {c : Context} {p : Pending} {ts us : List Token} (h : c.Spells ts)
    (hopens : p.Opens us) (hadmits : Pending.Admits p.phraseLevel c.pending) :
    (c.push p).Spells (ts ++ us) := by
  obtain ⟨vs, ws, rfl, houter, hpending⟩ := h
  exact ⟨vs, ws ++ us, by simp, houter, .cons hpending hopens hadmits⟩

namespace Progress

/-- The tokens that may have been read of the expression. -/
inductive Spells : Progress → List Token → Prop
  | operand {c : Context} {ts : List Token} : c.Spells ts → Spells (operand c) ts
  | operator {c : Context} {ts us : List Token} {e : Expr} :
      c.Spells ts → Derives .primary us e → Spells (operator c e) (ts ++ us)

theorem spells_start : start.Spells [] :=
  .operand ⟨[], [], rfl, .nil, .nil⟩

theorem spells_stepOperand {c : Context} {ts : List Token} {t : Token} {q : Progress}
    (h : c.Spells ts) (hstep : stepOperand c t = .more q) : q.Spells (ts ++ [t]) := by
  unfold stepOperand at hstep
  split at hstep
  case h_1 value hvalue =>
    cases hstep
    exact .operator h (.literal (denotes_of_constant? hvalue))
  case h_2 =>
    split at hstep
    case h_1 hkind =>
      cases hstep
      exact .operator h (.var hkind)
    case h_2 hkind =>
      cases hstep
      obtain ⟨us, vs, rfl, houter, hpending⟩ := h
      exact .operand ⟨us ++ vs ++ [t], [], by simp, .cons houter hpending hkind, .nil⟩
    case h_3 hkind =>
      cases hstep
      exact .operand (h.push (.unary (.inl hkind)) (Pending.admits_unary _))
    case h_4 hkind =>
      cases hstep
      exact .operand (h.push (.unary (.inr hkind)) (Pending.admits_unary _))
    case h_5 => cases hstep

theorem spells_stepAssign {c : Context} {ts us : List Token} {t : Token} {e : Expr} {q : Progress}
    (h : c.Spells ts) (he : Derives .primary us e) (ht : t.kind = .equal)
    (hstep : stepAssign c e = .more q) : q.Spells (ts ++ us ++ [t]) := by
  unfold stepAssign at hstep
  split at hstep
  case h_1 name rest hclose =>
    cases hstep
    obtain ⟨vs, ws, rfl, houter, hpending⟩ := h
    obtain ⟨xs, ys, heq, hrest, hname, hlevel⟩ := hpending.close .equality he
      (Pending.admits_primary _) (by decide) hclose
    obtain ⟨rfl, hkind⟩ := hname.of_var
    have hadmits : Pending.Admits .assignment rest := by
      intro p hp
      have hp := hlevel p hp
      cases p with
      | unary op => exact absurd hp (by simp [Pending.level, Level.rank])
      | binary left op token => cases op <;> simp [Pending.level, BinaryOp.level, Level.rank] at hp
      | assign name => exact Nat.zero_le _
    refine .operand ⟨vs, xs ++ [name, t], ?_, houter, .cons hrest (.assign hkind ht) hadmits⟩
    rw [List.append_assoc vs, heq]
    simp
  case h_2 => cases hstep

theorem spells_stepEnd {c : Context} {ts us : List Token} {t : Token} {e : Expr} {q : Progress}
    (h : c.Spells ts) (he : Derives .primary us e) (hstep : stepEnd c e t = .more q) :
    q.Spells (ts ++ us ++ [t]) := by
  obtain ⟨pending, outer⟩ := c
  obtain ⟨vs, ws, rfl, houter, hpending⟩ := h
  have hwhole := hpending.closeAll he
  cases houter with
  | nil => cases hstep
  | @cons around outer opening xs ys houter haround hopening =>
    unfold stepEnd at hstep
    simp only at hstep
    split at hstep
    case isTrue ht =>
      cases hstep
      have hgroup := Derives.grouping hopening ht hwhole
      have hspells := Spells.operator (c := ⟨around, outer⟩) ⟨xs, ys, rfl, houter, haround⟩ hgroup
      simpa using hspells
    case isFalse => cases hstep

theorem spells_stepOperator {c : Context} {ts us : List Token} {t : Token} {e : Expr}
    {q : Progress} (h : c.Spells ts) (he : Derives .primary us e)
    (hstep : stepOperator c e t = .more q) : q.Spells (ts ++ us ++ [t]) := by
  unfold stepOperator at hstep
  split at hstep
  case h_1 op hop =>
    obtain ⟨vs, ws, rfl, houter, hpending⟩ := h
    cases hstep
    have hclose : Pending.close op.joins.rank e c.pending =
        ((Pending.close op.level e c.pending).1, (Pending.close op.level e c.pending).2) := by
      rw [op.rank_joins]
    obtain ⟨xs, ys, heq, hrest, hleft, hlevel⟩ := hpending.close op.joins he
      (Pending.admits_primary _) (by cases op <;> decide) hclose
    refine .operand ⟨vs, xs ++ (ys ++ [t]), ?_, houter,
      .cons hrest (.binary hop hleft) (Pending.admits_of_level_lt hlevel)⟩
    rw [List.append_assoc vs, heq]
    simp
  case h_2 =>
    split at hstep
    case isTrue ht => exact spells_stepAssign h he ht hstep
    case isFalse => exact spells_stepEnd h he hstep

/-- A token that is read is one more token of the expression. -/
theorem Spells.step {p q : Progress} {ts : List Token} {t : Token} (h : p.Spells ts)
    (hstep : p.step t = .more q) : q.Spells (ts ++ [t]) := by
  cases h with
  | operand hc => exact spells_stepOperand hc hstep
  | operator hc he => exact spells_stepOperator hc he hstep

/-- An expression that ends is one of the grammar. -/
theorem Spells.derives {p : Progress} {ts : List Token} {t : Token} {e : Expr} (h : p.Spells ts)
    (hstep : p.step t = .done e) : Derives .assignment ts e := by
  cases h with
  | operand hc =>
    simp only [Progress.step, stepOperand] at hstep
    split at hstep
    · cases hstep
    · split at hstep <;> cases hstep
  | @operator c ts us operand hc he =>
    obtain ⟨pending, outer⟩ := c
    obtain ⟨vs, ws, rfl, houter, hpending⟩ := hc
    simp only [Progress.step, stepOperator] at hstep
    split at hstep
    · cases hstep
    · split at hstep
      · unfold stepAssign at hstep
        split at hstep <;> cases hstep
      · cases houter with
        | nil =>
          cases hstep
          exact hpending.closeAll he
        | cons =>
          simp only [stepEnd] at hstep
          split at hstep <;> cases hstep

end Progress

end Expr

namespace Stmt

/-- The tokens in front of the innermost statement, the braces of the open blocks included. -/
inductive Encloses : List (List Stmt) → List Token → Prop
  | nil : Encloses [] []
  | cons {body : List Stmt} {outer : List (List Stmt)} {opening : Token} {ts us : List Token} :
      Encloses outer ts → opening.kind = .leftBrace → DerivesAll us body.reverse →
      Encloses (body :: outer) (ts ++ opening :: us)

/-- The tokens in front of the expression of a statement. -/
inductive Goal.Opens : Goal → List Token → Prop
  | print {keyword : Token} : keyword.kind = .kwPrint → Opens .print [keyword]
  | initializer {keyword name equals : Token} :
      keyword.kind = .kwVar → name.kind = .identifier → equals.kind = .equal →
      Opens (.initializer name) [keyword, name, equals]
  | expression : Opens .expression []

theorem Goal.Opens.derives_complete {goal : Goal} {ts us : List Token} {e : Expr}
    {semicolon : Token} (h : goal.Opens ts) (he : Expr.Derives .assignment us e)
    (hsemicolon : semicolon.kind = .semicolon) :
    Derives (ts ++ (us ++ [semicolon])) (goal.complete e) := by
  cases h with
  | print hkeyword => exact .print hkeyword he hsemicolon
  | initializer hkeyword hname hequals =>
    exact .define hkeyword hname hequals he hsemicolon
  | expression => exact .expression he hsemicolon

/-- The tokens that may have been read of the innermost statement. -/
inductive Phase.Spells : Phase → List Token → Prop
  | start : Spells .start []
  | name {keyword : Token} : keyword.kind = .kwVar → Spells .name [keyword]
  | declared {keyword name : Token} : keyword.kind = .kwVar → name.kind = .identifier →
      Spells (.declared name) [keyword, name]
  | expr {goal : Goal} {p : Expr.Progress} {ts us : List Token} : goal.Opens ts → p.Spells us →
      Spells (.expr goal p) (ts ++ us)

namespace Progress

/-- The tokens that may have been read of the statement. -/
def Spells (p : Progress) (ts : List Token) : Prop :=
  ∃ us vs, ts = us ++ vs ∧ Encloses p.blocks us ∧ p.phase.Spells vs

theorem spells_start : start.Spells [] := ⟨[], [], rfl, .nil, .start⟩

/-- What the tokens are after the last of them was looked at. -/
def Outcome.Spells : Outcome → List Token → Prop
  | more q, ts => q.Spells ts
  | done s, ts => Derives ts s
  | fault _, _ => True

theorem spells_finish {blocks : List (List Stmt)} {ts us : List Token} {s : Stmt}
    (houter : Encloses blocks ts) (hs : Derives us s) : (finish s blocks).Spells (ts ++ us) := by
  cases houter with
  | nil => exact hs
  | @cons body outer opening ts vs houter hopening hbody =>
    have hall : DerivesAll (vs ++ us) (s :: body).reverse := by
      rw [List.reverse_cons, ← List.append_nil us]
      exact hbody.append (.cons hs .nil)
    exact ⟨ts ++ opening :: (vs ++ us), [], by simp, .cons houter hopening hall, .start⟩

theorem spells_stepExpr {blocks : List (List Stmt)} {goal : Goal} {p : Expr.Progress} {t : Token}
    {ts us vs : List Token} (houter : Encloses blocks ts) (hgoal : goal.Opens us)
    (hp : p.Spells vs) : (stepExpr blocks goal p t).Spells (ts ++ (us ++ (vs ++ [t]))) := by
  unfold stepExpr
  split
  case h_1 q hstep =>
    exact ⟨ts, us ++ (vs ++ [t]), rfl, houter, .expr hgoal (hp.step hstep)⟩
  case h_2 e hstep =>
    split
    case isTrue ht => exact spells_finish houter (hgoal.derives_complete (hp.derives hstep) ht)
    case isFalse => trivial
  case h_3 => trivial

theorem spells_stepStart {blocks : List (List Stmt)} {t : Token} {ts : List Token}
    (houter : Encloses blocks ts) : (stepStart blocks t).Spells (ts ++ [t]) := by
  unfold stepStart
  split
  case h_1 hkind => exact ⟨ts, [t], rfl, houter, .name hkind⟩
  case h_2 hkind => exact ⟨ts, [t], rfl, houter, .expr (.print hkind) Expr.Progress.spells_start⟩
  case h_3 hkind => exact ⟨ts ++ [t], [], by simp, .cons houter hkind .nil, .start⟩
  case h_4 hkind =>
    cases houter with
    | cons houter hopening hbody =>
      have hblock := spells_finish houter (.block hopening hkind hbody)
      simpa using hblock
  case h_5 => trivial
  case h_6 => trivial
  case h_7 => exact spells_stepExpr houter .expression Expr.Progress.spells_start

/-- A token that is read is one more token of the statement. -/
theorem Spells.step {p : Progress} {ts : List Token} (h : p.Spells ts) (t : Token) :
    (p.step t).Spells (ts ++ [t]) := by
  obtain ⟨blocks, phase⟩ := p
  obtain ⟨us, vs, rfl, houter, hphase⟩ := h
  rw [List.append_assoc]
  cases hphase with
  | start => exact spells_stepStart houter
  | @name keyword hkeyword =>
    unfold Progress.step
    simp only
    split
    case isTrue ht => exact ⟨us, [keyword, t], rfl, houter, .declared hkeyword ht⟩
    case isFalse => trivial
  | @declared keyword name hkeyword hname =>
    simp only [Progress.step, stepDeclared]
    split
    case h_1 ht =>
      have hgoal := Goal.Opens.initializer hkeyword hname ht
      exact ⟨us, [keyword, name, t], rfl, houter, .expr hgoal Expr.Progress.spells_start⟩
    case h_2 ht => exact spells_finish houter (.declare hkeyword hname ht)
    case h_3 => trivial
  | expr hgoal hp =>
    rw [List.append_assoc]
    exact spells_stepExpr houter hgoal hp

/-- What is read of a statement that ends makes it up, after what was read before. -/
theorem Spells.run {p : Progress} {ts us rest : List Token} {s : Stmt} (h : p.Spells ts)
    (hrun : p.run us = (.ok s, rest)) : ∃ vs, us = vs ++ rest ∧ Derives (ts ++ vs) s := by
  induction us generalizing p ts with
  | nil => cases hrun
  | cons t us ih =>
    have hstep := h.step t
    rw [Progress.run] at hrun
    split at hrun
    case h_1 q hq =>
      rw [hq] at hstep
      obtain ⟨vs, rfl, hs⟩ := ih hstep hrun
      exact ⟨t :: vs, rfl, by simpa using hs⟩
    case h_2 s' hs =>
      rw [hs] at hstep
      cases hrun
      exact ⟨[t], rfl, hstep⟩
    case h_3 => cases hrun

end Progress

/-- What is read of a statement that fits is a statement of the grammar. -/
theorem derives_of_parse {ts rest : List Token} {s : Stmt} (h : parse ts = (.ok s, rest)) :
    ∃ us, ts = us ++ rest ∧ Derives us s := by
  simpa using Progress.spells_start.run h

end Stmt

end BlockScript
