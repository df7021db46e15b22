import BlockScript.Proofs.Parse.FirstFault

/-!
# What stays unread

Whatever was read before and whatever the outcome, reading takes tokens from the front of the list
and never takes one that marks the end (`Expr.Progress.leaves_run`, `Stmt.Progress.leaves_run`,
`Stmt.leaves_parseAll`). So tokens that are followed by such a mark never run out
(`Stmt.exists_syntactic_of_parse`). Each fault that is found while all statements are read lies
beyond the one before it (`Stmt.sublist_of_parseAll`).
-/

namespace BlockScript

/-- `rest` is left of the tokens after some of them, none of which marks the end. -/
def Token.Leaves (ts rest : List Token) : Prop :=
  ∃ read, ts = read ++ rest ∧ ∀ t ∈ read, t.isEnd = false

namespace Token.Leaves

variable {ts us rest : List Token}

theorem refl (ts : List Token) : Leaves ts ts := ⟨[], rfl, nofun⟩

theorem cons {t : Token} (ht : t.isEnd = false) (h : Leaves ts rest) : Leaves (t :: ts) rest := by
  obtain ⟨read, rfl, hread⟩ := h
  refine ⟨t :: read, rfl, fun u hu => ?_⟩
  rcases List.mem_cons.mp hu with rfl | hu
  · exact ht
  · exact hread u hu

theorem trans (h : Leaves ts us) (hus : Leaves us rest) : Leaves ts rest := by
  obtain ⟨read, rfl, hread⟩ := h
  obtain ⟨more, rfl, hmore⟩ := hus
  refine ⟨read ++ more, (List.append_assoc ..).symm, fun t ht => ?_⟩
  rcases List.mem_append.mp ht with ht | ht
  · exact hread t ht
  · exact hmore t ht

theorem suffix (h : Leaves ts rest) : rest <:+ ts := by
  obtain ⟨read, rfl, -⟩ := h
  exact List.suffix_append read rest

/-- A token that marks the end is left. -/
theorem mem_of_isEnd (h : Leaves ts rest) {t : Token} (ht : t ∈ ts) (hend : t.isEnd = true) :
    t ∈ rest := by
  obtain ⟨read, rfl, hread⟩ := h
  rcases List.mem_append.mp ht with ht | ht
  · rw [hread t ht] at hend
    cases hend
  · exact ht

/-- A token at which a fault is found is left, unless it was read before the fault is found. -/
theorem of_fault {t : Token} {f : SyntaxFault} (hf : f.isAfterToken = true → t.isEnd = false) :
    Leaves (t :: ts) (if f.isAfterToken then ts else t :: ts) := by
  split
  case isTrue hafter => exact .cons (hf hafter) (.refl ts)
  case isFalse => exact .refl _

end Token.Leaves

/-- The token at which a diagnostic of the later stages points. -/
def Diagnostic.token? : Diagnostic → Option Token
  | syntactic t _ | runtime t _ => some t
  | lexical .. | unexpectedEnd | outputClosed => none

/-! ## Marks of the end -/

/-- The kinds of the tokens at which skipping stops: a semicolon, the tokens that begin a
    declaration, a print or a block, and the mark of the end. None of them is part of an
    expression. -/
def Token.Kind.delimiters : List Token.Kind :=
  [.semicolon, .leftBrace, .kwVar, .kwPrint, .endOfFile]

theorem Token.kind_mem_delimiters_of_isEnd {t : Token} (h : t.isEnd = true) :
    t.kind ∈ Kind.delimiters := by
  have hkind : t.kind = .endOfFile := of_decide_eq_true h
  simp [Kind.delimiters, hkind]

/-! ## Expressions -/

namespace Expr

namespace Progress

theorem Spells.after {p q : Progress} {ts us : List Token} (h : p.Spells ts)
    (hafter : p.After us q) : q.Spells (ts ++ us) := by
  induction hafter generalizing ts with
  | nil => simpa using h
  | cons hstep _ ih => simpa using ih (h.step hstep)

/-- Whatever was read of an expression, a delimiter does not go on with it. -/
theorem step_ne_more {t : Token} (h : t.kind ∈ Token.Kind.delimiters) (p q : Progress) :
    p.step t ≠ .more q := by
  have hdelimiter : constant? t.kind = none ∧ BinaryOp.ofKind? t.kind = none ∧
      t.kind ∉ [.equal, .rightParen, .identifier, .leftParen, .bang, .minus] := by
    simp only [Token.Kind.delimiters, List.mem_cons, List.not_mem_nil, or_false] at h
    rcases h with hkind | hkind | hkind | hkind | hkind <;> rw [hkind] <;> decide
  obtain ⟨hconstant, hop, hother⟩ := hdelimiter
  simp only [List.mem_cons, List.not_mem_nil, or_false, not_or] at hother
  intro hstep
  cases p with
  | operand c => simp [step, stepOperand, hconstant, hother] at hstep
  | operator c e =>
    obtain ⟨pending, outer⟩ := c
    cases outer <;> simp [step, stepOperator, hop, hother, stepEnd] at hstep

theorem isEnd_eq_false_of_step {p q : Progress} {t : Token} (h : p.step t = .more q) :
    t.isEnd = false :=
  Bool.eq_false_iff.mpr fun hend =>
    step_ne_more (Token.kind_mem_delimiters_of_isEnd hend) p q h

/-- None of the tokens that are read of an expression marks the end. -/
theorem After.isEnd_eq_false {p q : Progress} {ts : List Token} (h : p.After ts q) :
    ∀ t ∈ ts, t.isEnd = false :=
  h.forall_mem (P := fun t => t.isEnd = false) isEnd_eq_false_of_step

/-- The fault that is found once the token was read is found behind an operand. -/
theorem exists_operator_of_fault {p : Progress} {t : Token} {f : SyntaxFault}
    (h : p.step t = .fault f) (hf : f.isAfterToken = true) : ∃ c e, p = operator c e := by
  cases p with
  | operand c =>
    simp only [step, stepOperand] at h
    split at h
    · cases h
    · split at h <;> cases h
      cases hf
  | operator c e => exact ⟨c, e, rfl⟩

/-- It is found at an equals sign. -/
theorem kind_eq_equal {p : Progress} {t : Token} {f : SyntaxFault} (h : p.step t = .fault f)
    (hf : f.isAfterToken = true) : t.kind = .equal := by
  obtain ⟨c, e, rfl⟩ := exists_operator_of_fault h hf
  simp only [step, stepOperator] at h
  split at h
  · cases h
  · split at h
    case isTrue heq => exact heq
    case isFalse =>
      unfold stepEnd at h
      simp only at h
      split at h
      · cases h
      · split at h <;> cases h
        cases hf

/-- What is complete where no token is left is complete in front of any token that does not go on
    with it, such as a semicolon. -/
theorem step_semicolon {p : Progress} {e : Expr} (h : p.finish = .ok e) :
    p.step ⟨.semicolon, ";", .start⟩ = .done e := by
  cases p with
  | operand c => cases h
  | operator c operand =>
    obtain ⟨pending, outer⟩ := c
    cases outer with
    | nil => exact congrArg Outcome.done (Except.ok.inj h)
    | cons => cases h

theorem unexpectedEnd_of_finish {p : Progress} {d : Diagnostic} (h : p.finish = .error d) :
    d = .unexpectedEnd := by
  unfold finish at h
  split at h <;> cases h <;> rfl

/-- A run reads some tokens, and then the expression ends or a token does not fit, or there are no
    more. -/
theorem exists_after_of_run {p : Progress} (ts : List Token) :
    ∃ read q, p.After read q ∧
      ((∃ t after e, ts = read ++ t :: after ∧ q.step t = .done e ∧
        p.run ts = (.ok e, t :: after)) ∨
      (∃ t after f, ts = read ++ t :: after ∧ q.step t = .fault f ∧
        p.run ts = (.error (.syntactic t f), if f.isAfterToken then after else t :: after)) ∨
      ts = read ∧ p.run ts = (q.finish, [])) := by
  induction ts generalizing p with
  | nil => exact ⟨[], p, .nil, .inr (.inr ⟨rfl, rfl⟩)⟩
  | cons t ts ih =>
    rw [run]
    cases hstep : p.step t with
    | done e => exact ⟨[], p, .nil, .inl ⟨t, ts, e, rfl, hstep, rfl⟩⟩
    | fault f => exact ⟨[], p, .nil, .inr (.inl ⟨t, ts, f, rfl, hstep, rfl⟩)⟩
    | more next =>
      obtain ⟨read, q, hafter, hrun⟩ := @ih next
      refine ⟨t :: read, q, .cons hstep hafter, ?_⟩
      rcases hrun with ⟨u, after, e, rfl, hend⟩ | ⟨u, after, f, rfl, hend⟩ | ⟨rfl, hend⟩
      · exact .inl ⟨u, after, e, rfl, hend⟩
      · exact .inr (.inl ⟨u, after, f, rfl, hend⟩)
      · exact .inr (.inr ⟨rfl, hend⟩)

/-- Whatever was read of an expression before, no mark of the end is read. -/
theorem leaves_run (p : Progress) (ts : List Token) : Token.Leaves ts (p.run ts).2 := by
  induction ts generalizing p with
  | nil => exact .refl []
  | cons t ts ih =>
    rw [run]
    cases hstep : p.step t with
    | more q => exact .cons (isEnd_eq_false_of_step hstep) (ih q)
    | done e => exact .refl _
    | fault f =>
      refine .of_fault fun hf => ?_
      rw [Token.isEnd, kind_eq_equal hstep hf]
      rfl

end Progress

theorem leaves_parse (ts : List Token) : Token.Leaves ts (parse ts).2 :=
  Progress.start.leaves_run ts

/-- What is read of an expression that fits is an expression of the grammar. -/
theorem derives_of_parse {ts rest : List Token} {e : Expr} (h : parse ts = (.ok e, rest)) :
    ∃ us, ts = us ++ rest ∧ Derives .assignment us e := by
  obtain ⟨read, q, hafter, hrun⟩ := @Progress.exists_after_of_run .start ts
  have hspells : q.Spells read := Progress.spells_start.after hafter
  rw [parse] at h
  rcases hrun with ⟨t, after, e', rfl, hstep, hrun⟩ | ⟨t, after, f, rfl, hstep, hrun⟩ | ⟨rfl, hrun⟩
  · rw [hrun] at h
    cases h
    exact ⟨read, rfl, hspells.derives hstep⟩
  · rw [hrun] at h
    cases h
  · rw [hrun] at h
    obtain ⟨hfinish, rfl⟩ := Prod.mk.inj h
    exact ⟨ts, (List.append_nil ts).symm, hspells.derives (Progress.step_semicolon hfinish)⟩

/-- Reading fails at one of the tokens, unless they run out. -/
theorem exists_syntactic_of_parse {ts : List Token} {d : Diagnostic}
    (h : (parse ts).1 = .error d) :
    (∃ t ∈ ts, ∃ f, d = .syntactic t f) ∨ d = .unexpectedEnd ∧ ∀ t ∈ ts, t.isEnd = false := by
  obtain ⟨read, q, hafter, hrun⟩ := @Progress.exists_after_of_run .start ts
  rw [parse] at h
  rcases hrun with ⟨t, after, e, rfl, -, hrun⟩ | ⟨t, after, f, rfl, -, hrun⟩ | ⟨rfl, hrun⟩
  · rw [hrun] at h
    cases h
  · rw [hrun] at h
    exact .inl ⟨t, by simp, f, (Except.error.inj h).symm⟩
  · rw [hrun] at h
    exact .inr ⟨Progress.unexpectedEnd_of_finish h, hafter.isEnd_eq_false⟩

end Expr

/-! ## Statements -/

namespace Stmt

namespace Progress

/-- The fault that is found once the token was read is found in an expression. -/
theorem exists_expr_of_fault {q : Progress} {t : Token} {f : SyntaxFault} (h : q.step t = .fault f)
    (hf : f.isAfterToken = true) : ∃ goal p, q.phase = .expr goal p ∧ p.step t = .fault f := by
  have hexpr : ∀ {blocks goal} {p : Expr.Progress}, stepExpr blocks goal p t = .fault f →
      p.step t = .fault f := by
    intro blocks goal p hstep
    unfold stepExpr at hstep
    split at hstep
    case h_1 => cases hstep
    case h_2 =>
      split at hstep
      · cases blocks <;> cases hstep
      · cases hstep
        cases goal <;> cases hf
    case h_3 hfault =>
      cases hstep
      exact hfault
  obtain ⟨blocks, phase⟩ := q
  cases phase with
  | start =>
    simp only [step, stepStart] at h
    split at h
    case h_7 =>
      obtain ⟨c, e, hstart⟩ := Expr.Progress.exists_operator_of_fault (hexpr h) hf
      cases hstart
    case h_4 body outer _ => cases outer <;> cases h
    all_goals
      cases h
      try cases hf
  | name =>
    simp only [step] at h
    split at h <;> cases h
    cases hf
  | declared name =>
    simp only [step, stepDeclared] at h
    split at h
    · cases h
    · cases blocks <;> cases h
    · cases h
      cases hf
  | expr goal p => exact ⟨goal, p, rfl, hexpr h⟩

theorem kind_eq_equal {q : Progress} {t : Token} {f : SyntaxFault} (h : q.step t = .fault f)
    (hf : f.isAfterToken = true) : t.kind = .equal := by
  obtain ⟨goal, p, -, hfault⟩ := exists_expr_of_fault h hf
  exact Expr.Progress.kind_eq_equal hfault hf

/-- Whatever was read of a statement, a token that marks the end does not fit. -/
theorem exists_fault_of_isEnd {t : Token} (h : t.isEnd = true) (p : Progress) :
    ∃ f, p.step t = .fault f := by
  have hkind : t.kind = .endOfFile := of_decide_eq_true h
  obtain ⟨blocks, phase⟩ := p
  cases phase with
  | start => cases blocks <;> simp [step, stepStart, hkind]
  | name => simp [step, hkind]
  | declared name => simp [step, stepDeclared, hkind]
  | expr goal q =>
    simp only [step, stepExpr]
    cases hstep : q.step t with
    | more r =>
      exact absurd hstep (Expr.Progress.step_ne_more (Token.kind_mem_delimiters_of_isEnd h) q r)
    | done e => simp [hkind]
    | fault f => exact ⟨f, rfl⟩

/-- A token that fits does not mark the end. -/
theorem isEnd_eq_false_of_fits (p : Progress) {t : Token} (h : ∀ f, p.step t ≠ .fault f) :
    t.isEnd = false := by
  refine Bool.eq_false_iff.mpr fun hend => ?_
  obtain ⟨f, hf⟩ := p.exists_fault_of_isEnd hend
  exact h f hf

/-- None of the tokens that are read of a statement marks the end. -/
theorem After.isEnd_eq_false {p q : Progress} {ts : List Token} (h : p.After ts q) :
    ∀ t ∈ ts, t.isEnd = false :=
  h.forall_mem (P := fun t => t.isEnd = false) fun {p _ _} hstep =>
    p.isEnd_eq_false_of_fits (by simp [hstep])

/-- Whatever was read of a statement before, no mark of the end is read. -/
theorem leaves_run (p : Progress) (ts : List Token) : Token.Leaves ts (p.run ts).2 := by
  induction ts generalizing p with
  | nil => exact .refl []
  | cons t ts ih =>
    rw [run]
    cases hstep : p.step t with
    | more q => exact .cons (p.isEnd_eq_false_of_fits (by simp [hstep])) (ih q)
    | done s => exact .cons (p.isEnd_eq_false_of_fits (by simp [hstep])) (.refl ts)
    | fault f =>
      refine .of_fault fun hf => ?_
      rw [Token.isEnd, kind_eq_equal hstep hf]
      rfl

end Progress

theorem parse_of_after {ts : List Token} {q : Progress} (h : Progress.start.After ts q) :
    parse ts = (.error .unexpectedEnd, []) := by
  have hrun := h.run_append []
  rwa [List.append_nil] at hrun

theorem leaves_parse (ts : List Token) : Token.Leaves ts (parse ts).2 :=
  Progress.start.leaves_run ts

/-- The mark of the end is not skipped. -/
theorem isEnd_eq_false_of_not_isBoundary {t : Token} (h : ¬ isBoundary t = true) :
    t.isEnd = false := by
  cases hend : t.isEnd with
  | false => rfl
  | true =>
    have hkind : t.kind = .endOfFile := of_decide_eq_true hend
    exact absurd (by rw [isBoundary, hkind]) h

theorem leaves_skip (ts : List Token) : Token.Leaves ts (skip ts) := by
  induction ts with
  | nil => exact .refl []
  | cons t ts ih =>
    rw [skip]
    split
    case isTrue => exact .refl _
    case isFalse hboundary =>
      have ht : t.isEnd = false := isEnd_eq_false_of_not_isBoundary hboundary
      split
      · exact .cons ht (.refl ts)
      · exact .cons ht ih

theorem leaves_parseOrSkip (ts : List Token) : Token.Leaves ts (parseOrSkip ts).2 := by
  have hparse := leaves_parse ts
  rw [parseOrSkip]
  generalize parse ts = outcome at hparse
  obtain ⟨_ | s, rest⟩ := outcome
  · exact hparse.trans (leaves_skip rest)
  · exact hparse

theorem leaves_parseAll (ts : List Token) : Token.Leaves ts (parseAll ts).2 := by
  fun_induction parseAll ts with
  | case1 ts hend => exact .refl ts
  | case2 ts hend round results unread hrest ih =>
    rw [hrest] at ih
    exact (leaves_parseOrSkip ts).trans ih

/-- Reading fails at one of the tokens, unless they run out. -/
theorem exists_syntactic_of_parse {ts : List Token} {d : Diagnostic}
    (h : (parse ts).1 = .error d) :
    (∃ t ∈ ts, ∃ f, d = .syntactic t f) ∨ d = .unexpectedEnd ∧ ∀ t ∈ ts, t.isEnd = false := by
  cases hparse : parse ts with
  | mk result rest =>
    obtain rfl : result = .error d := by rw [hparse] at h; exact h
    rcases Progress.exists_after_of_run_eq_error hparse with
      ⟨before, t, after, f, q, rfl, -, -, hd, -⟩ | ⟨q, hafter, hd⟩
    · exact .inl ⟨t, by simp, f, hd⟩
    · exact .inr ⟨hd, Progress.After.isEnd_eq_false hafter⟩

theorem exists_syntactic_of_mem {ts : List Token} {last : Token} (hlast : last ∈ ts)
    (hend : last.isEnd = true) {d : Diagnostic} (h : (parse ts).1 = .error d) :
    ∃ t ∈ ts, ∃ f, d = .syntactic t f := by
  rcases exists_syntactic_of_parse h with hsyntactic | ⟨-, hnone⟩
  · exact hsyntactic
  · rw [hnone last hlast] at hend
    cases hend

theorem fst_parseOrSkip (ts : List Token) : (parseOrSkip ts).1 = (parse ts).1 := by
  rw [parseOrSkip]
  rcases parse ts with ⟨_ | _, _⟩ <;> rfl

/-- Each result of reading all statements is that of reading one where others left off. -/
theorem exists_parse_of_mem_parseAll {ts : List Token} {result : Except Diagnostic Stmt}
    (h : result ∈ (parseAll ts).1) : ∃ us, Token.Leaves ts us ∧ (parse us).1 = result := by
  fun_induction parseAll ts with
  | case1 => cases h
  | case2 ts hend round results unread hrest ih =>
    rw [hrest] at ih
    rcases List.mem_cons.mp h with rfl | h
    · exact ⟨ts, .refl ts, (fst_parseOrSkip ts).symm⟩
    · obtain ⟨us, hus, hparse⟩ := ih h
      exact ⟨us, (leaves_parseOrSkip ts).trans hus, hparse⟩

/-- The tokens at which faults were found. -/
def faulty (results : List (Except Diagnostic Stmt)) : List Token :=
  (Diagnostic.ofResults results).filterMap Diagnostic.token?

theorem skip_of_isBoundary {t : Token} (ts : List Token) (h : isBoundary t = true) :
    skip (t :: ts) = t :: ts := by
  rw [skip, if_pos h]

theorem suffix_skip_cons {t : Token} (ts : List Token) (h : isBoundary t = false) :
    skip (t :: ts) <:+ ts := by
  rw [skip, if_neg (by simp [h])]
  split
  · exact List.suffix_refl ts
  · exact (leaves_skip ts).suffix

/-- The faults that are found while all statements are read are at different tokens, in the order
    in which those stand. One that stands in front and ends what is skipped is none of them. -/
theorem sublist_of_parseAll (ts : List Token) :
    (faulty (parseAll ts).1).Sublist ts ∧
      ∀ t us, ts = t :: us → isBoundary t = true → (faulty (parseAll ts).1).Sublist us := by
  fun_induction parseAll ts with
  | case1 => exact ⟨List.nil_sublist _, fun _ _ _ _ => List.nil_sublist _⟩
  | case2 ts hend round results unread hrest ih =>
    rw [hrest] at ih
    have hnotEnd : atEnd ts = false := by simpa using hend
    cases hparse : parse ts with
    | mk result rest =>
      cases result with
      | ok s =>
        have hround : round = (.ok s, rest) := parseOrSkip_of_ok hparse
        rw [hround] at ih ⊢
        obtain ⟨us, rfl, hs⟩ := derives_of_parse hparse
        obtain ⟨first, more, rfl⟩ := List.exists_cons_of_ne_nil hs.ne_nil
        have hsublist : (faulty results).Sublist (more ++ rest) :=
          ih.1.trans (List.sublist_append_right more rest)
        refine ⟨hsublist.cons first, fun t vs heq _ => ?_⟩
        obtain ⟨-, rfl⟩ := List.cons.inj heq
        exact hsublist
      | error d =>
        have hround : round = (.error d, skip rest) := parseOrSkip_of_error hparse
        rw [hround] at ih ⊢
        rcases Progress.exists_after_of_run_eq_error hparse with
          ⟨before, t, after, f, q, rfl, hafter, hstep, rfl, rfl⟩ | ⟨q, hafter, rfl⟩
        · -- Whether `t` stays unread or not, the faults that follow lie beyond it.
          have hbeyond : (faulty results).Sublist after := by
            split at ih
            · exact ih.1.trans (leaves_skip after).suffix.sublist
            · cases hboundary : isBoundary t with
              | true =>
                rw [skip_of_isBoundary after hboundary] at ih
                exact ih.2 t after rfl hboundary
              | false => exact ih.1.trans (suffix_skip_cons after hboundary).sublist
          refine ⟨(hbeyond.cons_cons t).trans (List.sublist_append_right before _), ?_⟩
          intro first us heq hboundary
          cases before with
          | nil =>
            obtain ⟨rfl, rfl⟩ := List.cons.inj heq
            cases hafter
            rw [isBoundary_eq_false_of_fault hstep hnotEnd] at hboundary
            cases hboundary
          | cons b before =>
            obtain ⟨-, rfl⟩ := List.cons.inj heq
            exact (hbeyond.cons_cons t).trans (List.sublist_append_right before _)
        · rw [parse_of_after hafter] at hparse
          cases hparse
          have hnone : ∀ us, (faulty results).Sublist us := by
            intro us
            rw [List.sublist_nil.mp ih.1]
            exact List.nil_sublist us
          exact ⟨hnone ts, fun _ us _ _ => hnone us⟩

end Stmt

end BlockScript
