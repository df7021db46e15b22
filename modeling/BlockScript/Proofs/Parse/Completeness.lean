import BlockScript.Proofs.Grammar
import BlockScript.Stmt.Parse

/-!
# Every statement of the grammar is read

A phrase is read without a fault wherever the grammar allows it, and what is known afterwards
does not tell its last operands from the phrase as a whole: closing at its level or a looser one
gives the same result (`Expr.Progress.reads_of_derives`). Statements follow by induction on their
derivations, with any tokens behind them.
-/

namespace BlockScript

/-- The tokens lead from one state to another, with a step for each of them. -/
inductive Token.Leads {σ : Type} (step : σ → Token → σ → Prop) : σ → List Token → σ → Prop
  | nil {p : σ} : Leads step p [] p
  | cons {p q r : σ} {t : Token} {ts : List Token} :
      step p t q → Leads step q ts r → Leads step p (t :: ts) r

theorem Token.Leads.append {σ : Type} {step : σ → Token → σ → Prop} {p q r : σ}
    {ts us : List Token} (h : Leads step p ts q) (hus : Leads step q us r) :
    Leads step p (ts ++ us) r := by
  induction h with
  | nil => exact hus
  | cons hstep _ ih => exact .cons hstep (ih hus)

theorem Token.Leads.exists_of_append {σ : Type} {step : σ → Token → σ → Prop} {p r : σ}
    {ts us : List Token} (h : Leads step p (ts ++ us) r) :
    ∃ q, Leads step p ts q ∧ Leads step q us r := by
  induction ts generalizing p with
  | nil => exact ⟨p, .nil, h⟩
  | cons t ts ih =>
    cases h with
    | cons hstep h =>
      obtain ⟨q, hts, hus⟩ := ih h
      exact ⟨q, .cons hstep hts, hus⟩

theorem Token.Leads.forall_mem {σ : Type} {step : σ → Token → σ → Prop} {P : Token → Prop}
    (hstep : ∀ {p t q}, step p t q → P t) {p q : σ} {ts : List Token} (h : Leads step p ts q) :
    ∀ t ∈ ts, P t := by
  induction h with
  | nil => exact nofun
  | cons ht _ ih => exact List.forall_mem_cons.mpr ⟨hstep ht, ih⟩

namespace Expr

theorem constant?_eq_some {kind : Token.Kind} {value : Value} (h : kind.Denotes value) :
    constant? kind = some value := by
  cases h <;> rfl

theorem Level.exists_ofKind?_eq_some {level : Level} {kind : Token.Kind}
    (h : kind ∈ level.operators) :
    ∃ op, BinaryOp.ofKind? kind = some op ∧ op.level = level.rank := by
  cases level <;> simp only [operators, List.mem_cons, List.not_mem_nil, or_false] at h
  case equality => rcases h with rfl | rfl <;> exact ⟨_, rfl, rfl⟩
  case comparison => rcases h with rfl | rfl | rfl | rfl <;> exact ⟨_, rfl, rfl⟩
  case term => rcases h with rfl | rfl <;> exact ⟨_, rfl, rfl⟩
  case factor => rcases h with rfl | rfl <;> exact ⟨_, rfl, rfl⟩

namespace Pending

/-- The loosest level that an operand of `p` may have. -/
def operandRank : Pending → Nat
  | unary _ => Level.unary.rank
  | binary _ op _ => op.level + 1
  | assign _ => Level.assignment.rank

/-- Whether a phrase of the level may stand on the right of what waits. -/
def Admits (level : Level) (pending : List Pending) : Prop :=
  ∀ p ∈ pending.head?, p.operandRank ≤ level.rank

theorem close_cons_of_le {level : Nat} {p : Pending} (operand : Expr) (rest : List Pending)
    (h : level ≤ p.level) :
    close level operand (p :: rest) = close level (p.complete operand) rest := by
  rw [close, if_pos h]

theorem close_cons_of_lt {level : Nat} {p : Pending} (operand : Expr) (rest : List Pending)
    (h : p.level < level) : close level operand (p :: rest) = (operand, p :: rest) := by
  rw [close, if_neg (Nat.not_le_of_lt h)]

/-- Closing at the loosest level leaves nothing waiting. -/
theorem close_zero (operand : Expr) (pending : List Pending) :
    close 0 operand pending = (closeAll operand pending, []) := by
  induction pending generalizing operand with
  | nil => rfl
  | cons p rest ih =>
    rw [close_cons_of_le operand rest (Nat.zero_le _), ih]
    rfl

/-- What admits a phrase of a level of operators does not bind its operators as tightly. -/
theorem close_eq_self {level : Level} {pending : List Pending} (operand : Expr)
    (h : Admits level pending) (hpos : 0 < level.rank) (hlt : level.rank < Level.unary.rank) :
    close level.rank operand pending = (operand, pending) := by
  cases pending with
  | nil => rfl
  | cons p rest =>
    have hp := h p rfl
    apply close_cons_of_lt
    cases p with
    | unary op => exact absurd hp (Nat.not_le_of_lt hlt)
    | binary left op token => exact hp
    | assign name => exact hpos

end Pending

namespace Progress

/-- What is known is `q` after the tokens, each of which was read and none ended the expression. -/
abbrev After (p : Progress) (ts : List Token) (q : Progress) : Prop :=
  Token.Leads (fun p t q => p.step t = .more q) p ts q

/-- After a phrase of the level with the tree `e` was read in the context `c`, what is known is
    the same as if `e` were one operand, for all that closes at the level or a looser one. -/
def Reads (c : Context) (level : Level) (ts : List Token) (e : Expr) : Prop :=
  ∃ pending operand, (Progress.operand c).After ts (operator ⟨pending, c.outer⟩ operand) ∧
    ∀ n ≤ level.rank, Pending.close n operand pending = Pending.close n e c.pending

theorem reads_of_step {c : Context} {level : Level} {t : Token} {e : Expr}
    (h : stepOperand c t = .more (operator c e)) : Reads c level [t] e :=
  ⟨c.pending, e, .cons h .nil, fun _ _ => rfl⟩

/-- A phrase that begins with what `p` waits for is read once the operand of `p` is. -/
theorem Reads.of_push {c : Context} {p : Pending} {level operandLevel : Level}
    {ts us : List Token} {e : Expr} (hp : (Progress.operand c).After ts (operand (c.push p)))
    (h : Reads (c.push p) operandLevel us e) (hle : level.rank ≤ p.level)
    (hrank : level.rank ≤ operandLevel.rank) : Reads c level (ts ++ us) (p.complete e) := by
  obtain ⟨pending, operand, hafter, hclose⟩ := h
  refine ⟨pending, operand, hp.append hafter, fun n hn => ?_⟩
  rw [hclose n (by omega)]
  exact Pending.close_cons_of_le e c.pending (by omega)

/-- An operator that closes a phrase of its level waits for the operand on its right. -/
theorem after_operator {c : Context} {level : Level} {op : Token} {ts : List Token} {left : Expr}
    (hop : op.kind ∈ level.operators) (hadmits : Pending.Admits level c.pending)
    (h : Reads c level ts left) :
    ∃ o, o.level = level.rank ∧
      (Progress.operand c).After (ts ++ [op]) (operand (c.push (.binary left o op))) := by
  obtain ⟨o, ho, hlevel⟩ := Level.exists_ofKind?_eq_some hop
  obtain ⟨pending, e, hafter, hclose⟩ := h
  have hrank := Level.rank_mem_operators hop
  have hself : Pending.close o.level e pending = (left, c.pending) := by
    rw [hlevel, hclose _ (Nat.le_refl _)]
    exact Pending.close_eq_self left hadmits hrank.1 hrank.2
  have hstep : (operator ⟨pending, c.outer⟩ e).step op =
      .more (operand (c.push (.binary left o op))) := by
    simp only [step, stepOperator, ho, hself]
    rfl
  exact ⟨o, hlevel, hafter.append (.cons hstep .nil)⟩

/-- A name and an equals sign wait for the value that is assigned. -/
theorem after_assign {c : Context} {name equals : Token} (hname : name.kind = .identifier)
    (hequals : equals.kind = .equal) (hadmits : Pending.Admits .assignment c.pending) :
    (Progress.operand c).After [name, equals] (operand (c.push (.assign name))) := by
  have hself : Pending.close 1 (.var name) c.pending = (.var name, c.pending) := by
    cases hpending : c.pending with
    | nil => rfl
    | cons p rest =>
      have hp := hadmits p (by rw [hpending]; rfl)
      apply Pending.close_cons_of_lt
      cases p with
      | unary op => exact absurd hp (Nat.not_succ_le_zero _)
      | binary left op token => exact absurd hp (Nat.not_succ_le_zero _)
      | assign name => exact Nat.one_pos
  have hread : (operand c).step name = .more (operator c (.var name)) := by
    simp only [step, stepOperand, constant?, Token.Kind.literal?, hname]
  have hassign : (operator c (.var name)).step equals =
      .more (operand (c.push (.assign name))) := by
    simp only [step, stepOperator, BinaryOp.ofKind?, hequals, if_true, stepAssign, hself]
    rfl
  exact .cons hread (.cons hassign .nil)

/-- Closing at the loosest level closes all that waits. -/
theorem closeAll_eq {pending : List Pending} {operand e : Expr}
    (h : Pending.close 0 operand pending = Pending.close 0 e []) :
    Pending.closeAll operand pending = e := by
  rw [Pending.close_zero, Pending.close_zero] at h
  exact (Prod.mk.inj h).1

/-- A phrase of the grammar is read where its level is admitted. -/
theorem reads_of_derives {level : Level} {ts : List Token} {e : Expr} (h : Derives level ts e)
    {c : Context} (hadmits : Pending.Admits level c.pending) : Reads c level ts e := by
  -- The context is general, because an operand on the right is read with its operator waiting.
  induction h generalizing c with
  | @next level _ _ _ ih =>
    have hle := level.rank_le_rank_next
    obtain ⟨pending, operand, hafter, hclose⟩ :=
      ih fun p hp => Nat.le_trans (hadmits p hp) hle
    exact ⟨pending, operand, hafter, fun n hn => hclose n (Nat.le_trans hn hle)⟩
  | @assign name equals _ value hname hequals _ ih =>
    have hpush := after_assign hname hequals hadmits
    exact Reads.of_push hpush (ih (by simp [Pending.Admits, Context.push, Pending.operandRank]))
      (Nat.le_refl _) (Nat.le_refl _)
  | @binary level op _ _ left _ hop _ _ ihl ihr =>
    obtain ⟨o, hlevel, hpush⟩ := after_operator hop hadmits (ihl hadmits)
    have hnext := Level.rank_next_of_mem_operators hop
    have hright := ihr (c := c.push (.binary left o op))
      (by simp [Pending.Admits, Context.push, Pending.operandRank]; omega)
    rw [List.append_cons]
    exact Reads.of_push hpush hright (Nat.le_of_eq hlevel.symm) (Level.rank_le_rank_next level)
  | @unary op _ _ hop _ ih =>
    have hpush : (operand c).step op = .more (operand (c.push (.unary op))) := by
      rcases hop with hop | hop <;>
        simp only [step, stepOperand, constant?, Token.Kind.literal?, hop]
    exact Reads.of_push (.cons hpush .nil)
      (ih (by simp [Pending.Admits, Context.push, Pending.operandRank]))
      (Nat.le_refl _) (Nat.le_refl _)
  | literal hvalue =>
    apply reads_of_step
    rw [stepOperand, constant?_eq_some hvalue]
  | var hname =>
    apply reads_of_step
    simp only [stepOperand, constant?, Token.Kind.literal?, hname]
  | @grouping opening closing ts inner hopening hclosing _ ih =>
    obtain ⟨pending, operand, hafter, hclose⟩ :=
      ih (c := c.openGroup) (by simp [Pending.Admits, Context.openGroup])
    have hwhole : Pending.closeAll operand pending = inner := closeAll_eq (hclose 0 (Nat.le_refl _))
    have hopen : (Progress.operand c).step opening = .more (.operand c.openGroup) := by
      simp only [step, stepOperand, constant?, Token.Kind.literal?, hopening]
    have hclosed : (operator ⟨pending, c.openGroup.outer⟩ operand).step closing =
        .more (operator c (.grouping inner)) := by
      simp only [step, stepOperator, BinaryOp.ofKind?, hclosing, stepEnd, hwhole,
        Context.openGroup, if_true]
      rfl
    have hall := Token.Leads.cons hopen (hafter.append (.cons hclosed .nil))
    exact ⟨c.pending, .grouping inner, hall, fun _ _ => rfl⟩

/-- An expression is read up to the semicolon that follows it. -/
theorem exists_after_start {ts : List Token} {e : Expr} (h : Derives .assignment ts e) :
    ∃ q, start.After ts q ∧ ∀ t, t.kind = .semicolon → q.step t = .done e := by
  obtain ⟨pending, operand, hafter, hclose⟩ :=
    reads_of_derives h (c := .empty) (by simp [Pending.Admits, Context.empty])
  have hwhole : Pending.closeAll operand pending = e := closeAll_eq (hclose 0 (Nat.le_refl _))
  refine ⟨_, hafter, fun t ht => ?_⟩
  simp only [step, stepOperator, BinaryOp.ofKind?, ht, stepEnd, hwhole, Context.empty]
  rfl

end Progress

end Expr

namespace Stmt

namespace Progress

/-- What is known is `q` after the tokens, each of which was read and none ended the statement. -/
abbrev After (p : Progress) (ts : List Token) (q : Progress) : Prop :=
  Token.Leads (fun p t q => p.step t = .more q) p ts q

theorem After.run_append {p q : Progress} {ts : List Token} (h : p.After ts q) (us : List Token) :
    p.run (ts ++ us) = q.run us := by
  induction h with
  | nil => rfl
  | cons hstep _ ih =>
    rw [List.cons_append, run, hstep]
    exact ih

/-- The tokens of an expression are read wherever it is a part of the statement. -/
theorem after_expr (blocks : List (List Stmt)) (goal : Goal) {p q : Expr.Progress}
    {ts : List Token} (h : p.After ts q) :
    After ⟨blocks, .expr goal p⟩ ts ⟨blocks, .expr goal q⟩ := by
  induction h with
  | nil => exact .nil
  | @cons p r _ t _ hstep _ ih =>
    have hexpr : step ⟨blocks, .expr goal p⟩ t = .more ⟨blocks, .expr goal r⟩ := by
      simp only [step, stepExpr, hstep]
    exact .cons hexpr ih

theorem stepStart_var {blocks : List (List Stmt)} {keyword : Token}
    (h : keyword.kind = .kwVar) : step ⟨blocks, .start⟩ keyword = .more ⟨blocks, .name⟩ := by
  simp [step, stepStart, h]

theorem step_name {blocks : List (List Stmt)} {name : Token} (h : name.kind = .identifier) :
    step ⟨blocks, .name⟩ name = .more ⟨blocks, .declared name⟩ := by
  simp [step, h]

/-- A token with which an expression may begin begins one where a statement may begin. -/
theorem stepStart_of_step {blocks : List (List Stmt)} {t : Token} {p : Expr.Progress}
    (h : Expr.Progress.start.step t = .more p) :
    stepStart blocks t = .more ⟨blocks, .expr .expression p⟩ := by
  have hexpr : stepExpr blocks .expression .start t = .more ⟨blocks, .expr .expression p⟩ := by
    rw [stepExpr, h]
  unfold stepStart
  split
  case h_7 => exact hexpr
  all_goals
    rename_i hkind
    simp [Expr.Progress.start, Expr.Progress.step, Expr.Progress.stepOperand, Expr.constant?,
      Token.Kind.literal?, hkind] at h

/-- The tokens of an expression are read where a statement may begin. -/
theorem after_expression {blocks : List (List Stmt)} {q : Expr.Progress} {ts : List Token}
    (hts : ts ≠ []) (h : Expr.Progress.start.After ts q) :
    After ⟨blocks, .start⟩ ts ⟨blocks, .expr .expression q⟩ := by
  cases h with
  | nil => exact absurd rfl hts
  | cons hstep h => exact .cons (stepStart_of_step hstep) (after_expr blocks .expression h)

/-- The last of the tokens ends the statement `s`, which stands in the open `blocks`. -/
def Completes (blocks : List (List Stmt)) (ts : List Token) (s : Stmt) : Prop :=
  ∃ init last q, ts = init ++ [last] ∧ After ⟨blocks, .start⟩ init q ∧
    q.step last = finish s blocks

theorem Completes.after {body : List Stmt} {outer : List (List Stmt)} {ts : List Token}
    {s : Stmt} (h : Completes (body :: outer) ts s) :
    After ⟨body :: outer, .start⟩ ts ⟨(s :: body) :: outer, .start⟩ := by
  obtain ⟨init, last, q, rfl, hafter, hlast⟩ := h
  exact hafter.append (.cons hlast .nil)

theorem Completes.run {ts : List Token} {s : Stmt} (h : Completes [] ts s) (rest : List Token) :
    start.run (ts ++ rest) = (.ok s, rest) := by
  obtain ⟨init, last, q, rfl, hafter, hlast⟩ := h
  rw [List.append_assoc, start, hafter.run_append, List.singleton_append, Progress.run, hlast]
  rfl

/-- A statement ends with the semicolon after its expression. -/
theorem completes_expr {blocks : List (List Stmt)} {goal : Goal} {q : Expr.Progress}
    {init : List Token} {semicolon : Token} {e : Expr}
    (hafter : After ⟨blocks, .start⟩ init ⟨blocks, .expr goal q⟩)
    (hdone : q.step semicolon = .done e) (hsemicolon : semicolon.kind = .semicolon) :
    Completes blocks (init ++ [semicolon]) (goal.complete e) := by
  refine ⟨init, semicolon, _, rfl, hafter, ?_⟩
  simp only [step, stepExpr, hdone, hsemicolon, if_true]

mutual

/-- A statement of the grammar is read, in whatever blocks it stands. -/
theorem completes_of_derives {ts : List Token} {s : Stmt} (blocks : List (List Stmt)) :
    Derives ts s → Completes blocks ts s
  | @Derives.declare keyword name semicolon hkeyword hname hsemicolon => by
    refine ⟨[keyword, name], semicolon, ⟨blocks, .declared name⟩, rfl, ?_, ?_⟩
    · exact .cons (stepStart_var hkeyword) (.cons (step_name hname) .nil)
    · simp [step, stepDeclared, hsemicolon]
  | @Derives.define keyword name equals _ _ _ hkeyword hname hequals he hsemicolon => by
    obtain ⟨q, hafter, hdone⟩ := Expr.Progress.exists_after_start he
    have hinit : step ⟨blocks, .declared name⟩ equals =
        .more ⟨blocks, .expr (.initializer name) .start⟩ := by
      simp [step, stepDeclared, hequals]
    have hexpr := Token.Leads.cons hinit (after_expr blocks (.initializer name) hafter)
    exact completes_expr (.cons (stepStart_var hkeyword) (.cons (step_name hname) hexpr))
      (hdone _ hsemicolon) hsemicolon
  | @Derives.print keyword _ _ _ hkeyword he hsemicolon => by
    obtain ⟨q, hafter, hdone⟩ := Expr.Progress.exists_after_start he
    have hhead : step ⟨blocks, .start⟩ keyword = .more ⟨blocks, .expr .print .start⟩ := by
      simp [step, stepStart, hkeyword]
    exact completes_expr (.cons hhead (after_expr blocks .print hafter)) (hdone _ hsemicolon)
      hsemicolon
  | @Derives.block opening closing ts body hopening hclosing hbody => by
    have hhead : step ⟨blocks, .start⟩ opening = .more ⟨[] :: blocks, .start⟩ := by
      simp [step, stepStart, hopening]
    have hall := after_of_derivesAll [] blocks hbody
    rw [List.append_nil] at hall
    refine ⟨opening :: ts, closing, _, rfl, .cons hhead hall, ?_⟩
    simp [step, stepStart, hclosing]
  | .expression he hsemicolon => by
    obtain ⟨q, hafter, hdone⟩ := Expr.Progress.exists_after_start he
    exact completes_expr (after_expression he.ne_nil hafter) (hdone _ hsemicolon) hsemicolon

theorem after_of_derivesAll {ts : List Token} {ss : List Stmt} (body : List Stmt)
    (outer : List (List Stmt)) : DerivesAll ts ss →
    After ⟨body :: outer, .start⟩ ts ⟨(ss.reverse ++ body) :: outer, .start⟩
  | .nil => .nil
  | @DerivesAll.cons _ us s _ hs hrest => by
    have hone := (completes_of_derives (body :: outer) hs).after
    have hall := after_of_derivesAll (s :: body) outer hrest
    rw [List.reverse_cons, List.append_assoc]
    exact hone.append hall

end

end Progress

/-- A statement of the grammar is read with any tokens behind it, which stay unread. -/
theorem parse_append {ts : List Token} {s : Stmt} (h : Derives ts s) (rest : List Token) :
    parse (ts ++ rest) = (.ok s, rest) :=
  (Progress.completes_of_derives [] h).run rest

end Stmt

end BlockScript
