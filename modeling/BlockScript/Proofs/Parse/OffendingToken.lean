import BlockScript.Proofs.Parse.Unread
import BlockScript.Token.Scan

/-!
# The offending token and what is left

A token at which a fault is found stays unread, and all in front of it was read. The exception is
an equals sign behind an operand: it is read before the operand is judged. So where the target is
no name, the sign is the offending token and does not stay (`Stmt.parse_offending`).
-/

namespace BlockScript

/-- Whether an operand may end with a token of the kind. -/
def Token.Kind.endsOperand : Kind → Bool
  | identifier | string _ | number _ | kwTrue | kwFalse | kwNil | rightParen => true
  | _ => false

theorem Token.Kind.endsOperand_of_denotes {kind : Kind} {value : Value} (h : kind.Denotes value) :
    kind.endsOperand = true := by
  cases h <;> rfl

namespace Expr

theorem Derives.endsOperand {level : Level} {ts : List Token} {e : Expr} (h : Derives level ts e) :
    ∃ init last, ts = init ++ [last] ∧ last.kind.endsOperand = true := by
  induction h with
  | next _ ih => exact ih
  | @assign name equals _ _ _ _ _ ih =>
    obtain ⟨init, last, rfl, hlast⟩ := ih
    exact ⟨name :: equals :: init, last, rfl, hlast⟩
  | @binary _ op ts _ _ _ _ _ _ _ ih =>
    obtain ⟨init, last, rfl, hlast⟩ := ih
    exact ⟨ts ++ op :: init, last, by simp, hlast⟩
  | @unary op _ _ _ _ ih =>
    obtain ⟨init, last, rfl, hlast⟩ := ih
    exact ⟨op :: init, last, rfl, hlast⟩
  | @literal t _ hvalue => exact ⟨[], t, rfl, Token.Kind.endsOperand_of_denotes hvalue⟩
  | @var name hname => exact ⟨[], name, rfl, by rw [hname]; rfl⟩
  | @grouping opening closing ts _ _ hclosing _ =>
    exact ⟨opening :: ts, closing, rfl, by rw [hclosing]; rfl⟩

/-- The tokens end in a phrase that is no name, where the target of an assignment would stand. -/
def EndsInInvalidTarget (ts : List Token) : Prop :=
  ∃ us target e, ts = us ++ target ∧ Derives .equality target e ∧ ∀ name, e ≠ .var name

theorem EndsInInvalidTarget.append_left {ts : List Token} (h : EndsInInvalidTarget ts)
    (us : List Token) : EndsInInvalidTarget (us ++ ts) := by
  obtain ⟨vs, target, e, rfl, htarget, hother⟩ := h
  exact ⟨us ++ vs, target, e, by simp, htarget, hother⟩

namespace Progress

/-- After a token that ends an operand, an operator may come. -/
theorem exists_operator_of_step {p q : Progress} {t : Token} (h : p.step t = .more q)
    (ht : t.kind.endsOperand = true) : ∃ c e, q = operator c e := by
  cases p with
  | operand c =>
    simp only [step, stepOperand] at h
    split at h
    · cases h
      exact ⟨_, _, rfl⟩
    · split at h
      case h_1 =>
        cases h
        exact ⟨_, _, rfl⟩
      case h_5 => cases h
      all_goals
        rename_i hkind
        simp [hkind, Token.Kind.endsOperand] at ht
  | operator c e =>
    simp only [step, stepOperator] at h
    split at h
    case h_1 hop =>
      unfold BinaryOp.ofKind? at hop
      split at hop
      case h_11 => cases hop
      all_goals
        rename_i hkind
        simp [hkind, Token.Kind.endsOperand] at ht
    case h_2 =>
      split at h
      case isTrue hkind => simp [hkind, Token.Kind.endsOperand] at ht
      case isFalse =>
        unfold stepEnd at h
        simp only at h
        split at h
        · cases h
        · split at h <;> cases h
          exact ⟨_, _, rfl⟩

theorem stepAssign_cases (c : Context) (e : Expr) :
    (∃ q, stepAssign c e = .more q) ∨ stepAssign c e = .fault .invalidAssignmentTarget := by
  unfold stepAssign
  split
  · exact .inl ⟨_, rfl⟩
  · exact .inr rfl

theorem step_operator_equal (c : Context) (e : Expr) {t : Token} (ht : t.kind = .equal) :
    (operator c e).step t = stepAssign c e := by
  simp [step, stepOperator, BinaryOp.ofKind?, ht]

/-- What was closed in front of the equals sign is a phrase, which is no name. -/
theorem Spells.endsInInvalidTarget {p : Progress} {ts : List Token} {t : Token} (h : p.Spells ts)
    (hstep : p.step t = .fault .invalidAssignmentTarget) : EndsInInvalidTarget ts := by
  obtain ⟨c, operand, rfl⟩ := exists_operator_of_fault hstep rfl
  rw [step_operator_equal c operand (kind_eq_equal hstep rfl), stepAssign] at hstep
  cases h with
  | operator hc he =>
    obtain ⟨vs, ws, rfl, -, hpending⟩ := hc
    split at hstep
    case h_1 => cases hstep
    case h_2 hother =>
      obtain ⟨xs, target, heq, -, htarget, -⟩ := hpending.close .equality he
        (Pending.admits_primary _) (by decide) rfl
      refine ⟨vs ++ xs, target, _, ?_, htarget, fun name hname => ?_⟩
      · rw [List.append_assoc, heq, List.append_assoc]
      · exact hother name _ (Prod.ext hname rfl)

end Progress

end Expr

namespace Stmt

namespace Progress

theorem Spells.after {p q : Progress} {ts us : List Token} (h : p.Spells ts)
    (hafter : p.After us q) : q.Spells (ts ++ us) := by
  induction hafter generalizing ts with
  | nil => simpa using h
  | @cons p r q t us hstep _ ih =>
    have hnext := h.step t
    rw [hstep] at hnext
    simpa using ih hnext

theorem After.endsInInvalidTarget {ts : List Token} {q : Progress} {t : Token}
    (h : start.After ts q) (hstep : q.step t = .fault .invalidAssignmentTarget) :
    Expr.EndsInInvalidTarget ts := by
  obtain ⟨goal, p, hphase, hfault⟩ := exists_expr_of_fault hstep rfl
  obtain ⟨us, vs, heq, -, hspells⟩ := spells_start.after h
  rw [hphase] at hspells
  obtain rfl : ts = us ++ vs := heq
  cases hspells with
  | @expr _ _ front _ _ hp =>
    exact ((hp.endsInInvalidTarget hfault).append_left front).append_left us

/-- After a token that ends an operand, an operator may come, unless the token was declared. -/
theorem phase_of_step {p q : Progress} {t : Token} (h : p.step t = .more q)
    (ht : t.kind.endsOperand = true) :
    (∃ goal c e, q.phase = .expr goal (.operator c e)) ∨ ∃ name, q.phase = .declared name := by
  have hexpr : ∀ {blocks goal} {r : Expr.Progress}, stepExpr blocks goal r t = .more q →
      ∃ goal c e, q.phase = .expr goal (.operator c e) := by
    intro blocks goal r hstep
    unfold stepExpr at hstep
    split at hstep
    case h_1 hmore =>
      cases hstep
      obtain ⟨c, e, rfl⟩ := Expr.Progress.exists_operator_of_step hmore ht
      exact ⟨goal, c, e, rfl⟩
    case h_2 =>
      split at hstep
      case isTrue hkind => simp [hkind, Token.Kind.endsOperand] at ht
      case isFalse => cases hstep
    case h_3 => cases hstep
  obtain ⟨blocks, phase⟩ := p
  cases phase with
  | start =>
    simp only [step, stepStart] at h
    split at h
    case h_7 => exact .inl (hexpr h)
    all_goals
      rename_i hkind
      simp [hkind, Token.Kind.endsOperand] at ht
  | name =>
    simp only [step] at h
    split at h <;> cases h
    exact .inr ⟨t, rfl⟩
  | declared name =>
    simp only [step, stepDeclared] at h
    split at h
    case h_3 => cases h
    all_goals
      rename_i hkind
      simp [hkind, Token.Kind.endsOperand] at ht
  | expr goal r => exact .inl (hexpr h)

theorem After.fault_eq {ts : List Token} {q : Progress} {t : Token} {f : SyntaxFault}
    (h : start.After ts q) (hstep : q.step t = .fault f) (ht : t.kind = .equal)
    (hts : Expr.EndsInInvalidTarget ts) : f = .invalidAssignmentTarget := by
  obtain ⟨us, target, e, rfl, htarget, -⟩ := hts
  obtain ⟨init, last, rfl, hlast⟩ := htarget.endsOperand
  rw [← List.append_assoc] at h
  obtain ⟨p, -, hlead⟩ := Token.Leads.exists_of_append h
  cases hlead with
  | cons hmore hnil =>
    cases hnil
    obtain ⟨blocks, phase⟩ := q
    rcases phase_of_step hmore hlast with ⟨goal, c, operand, rfl⟩ | ⟨name, rfl⟩
    · have hassign := Expr.Progress.step_operator_equal c operand ht
      rcases Expr.Progress.stepAssign_cases c operand with ⟨r, hcase⟩ | hcase
      · rw [hcase] at hassign
        simp [step, stepExpr, hassign] at hstep
      · rw [hcase] at hassign
        simp only [step, stepExpr, hassign, Outcome.fault.injEq] at hstep
        exact hstep.symm
    · simp [step, stepDeclared, ht] at hstep

end Progress

/-- The offending token stays unread, and all tokens in front of it were read, unless it is an
    equals sign behind a target that is no name: that one was read as well. -/
theorem parse_offending {ts rest : List Token} {t : Token} {fault : SyntaxFault}
    (h : parse ts = (.error (.syntactic t fault), rest)) :
    ∃ before after, ts = before ++ t :: after ∧
      (t.kind = .equal ∧ Expr.EndsInInvalidTarget before →
        rest = after ∧ fault = .invalidAssignmentTarget) ∧
      (¬ (t.kind = .equal ∧ Expr.EndsInInvalidTarget before) →
        rest = t :: after ∧ fault ≠ .invalidAssignmentTarget) := by
  rcases Progress.exists_after_of_run_eq_error h with
    ⟨before, u, after, f, q, rfl, hafter, hstep, hd, rfl⟩ | ⟨q, -, hd⟩
  · cases hd
    refine ⟨before, after, rfl, ?_, ?_⟩
    · rintro ⟨hequal, hother⟩
      obtain rfl := hafter.fault_eq hstep hequal hother
      exact ⟨rfl, rfl⟩
    · intro hnot
      have hfault : fault ≠ .invalidAssignmentTarget := by
        rintro rfl
        exact hnot ⟨Progress.kind_eq_equal hstep rfl, hafter.endsInInvalidTarget hstep⟩
      refine ⟨if_neg ?_, hfault⟩
      cases fault <;> first | exact absurd rfl hfault | exact Bool.false_ne_true
  · cases hd

/-- In `nil=a;` the equals sign is behind the phrase `nil`, and was read. -/
theorem parse_offending_equals :
    parse [⟨.kwNil, "nil", ⟨1, 1⟩⟩, ⟨.equal, "=", ⟨1, 4⟩⟩, ⟨.identifier, "a", ⟨1, 5⟩⟩,
        ⟨.semicolon, ";", ⟨1, 6⟩⟩] =
      (.error (.syntactic ⟨.equal, "=", ⟨1, 4⟩⟩ .invalidAssignmentTarget),
        [⟨.identifier, "a", ⟨1, 5⟩⟩, ⟨.semicolon, ";", ⟨1, 6⟩⟩]) ∧
    Expr.EndsInInvalidTarget [⟨.kwNil, "nil", ⟨1, 1⟩⟩] := by
  have hparse : parse [⟨.kwNil, "nil", ⟨1, 1⟩⟩, ⟨.equal, "=", ⟨1, 4⟩⟩,
      ⟨.identifier, "a", ⟨1, 5⟩⟩, ⟨.semicolon, ";", ⟨1, 6⟩⟩] =
    (.error (.syntactic ⟨.equal, "=", ⟨1, 4⟩⟩ .invalidAssignmentTarget),
      [⟨.identifier, "a", ⟨1, 5⟩⟩, ⟨.semicolon, ";", ⟨1, 6⟩⟩]) := rfl
  obtain ⟨before, after, hts, htaken, hunread⟩ := parse_offending hparse
  by_cases hother : Expr.EndsInInvalidTarget before
  · obtain ⟨rfl, -⟩ := htaken ⟨rfl, hother⟩
    obtain rfl : [⟨.kwNil, "nil", ⟨1, 1⟩⟩] = before := List.append_cancel_right hts
    exact ⟨hparse, hother⟩
  · obtain ⟨hrest, -⟩ := hunread fun h => hother h.2
    cases hrest

/-- Not every offending token stays unread. -/
theorem parse_offending_not_unread :
    ¬ ∀ (ts rest : List Token) (t : Token) (fault : SyntaxFault),
      parse ts = (.error (.syntactic t fault), rest) →
      ∃ before after, ts = before ++ t :: after ∧ rest = t :: after := by
  intro hunread
  have htokens : (Scan.ofSource "nil=a;").tokens =
      [⟨.kwNil, "nil", ⟨1, 1⟩⟩, ⟨.equal, "=", ⟨1, 4⟩⟩, ⟨.identifier, "a", ⟨1, 5⟩⟩,
        ⟨.semicolon, ";", ⟨1, 6⟩⟩, ⟨.endOfFile, "", ⟨1, 7⟩⟩] := by decide +kernel
  have hparse : parse (Scan.ofSource "nil=a;").tokens =
      (.error (.syntactic ⟨.equal, "=", ⟨1, 4⟩⟩ .invalidAssignmentTarget),
        [⟨.identifier, "a", ⟨1, 5⟩⟩, ⟨.semicolon, ";", ⟨1, 6⟩⟩, ⟨.endOfFile, "", ⟨1, 7⟩⟩]) := by
    rw [htokens]
    rfl
  obtain ⟨before, after, -, hrest⟩ := hunread _ _ _ _ hparse
  cases hrest

end Stmt

end BlockScript
