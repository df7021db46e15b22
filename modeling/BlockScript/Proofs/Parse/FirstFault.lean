import BlockScript.Proofs.Parse.Soundness

/-!
# Faults are found at the first token that cannot stand where it stands

Whatever has been read of a statement without a fault, some tokens complete it
(`Stmt.Progress.exists_run_eq_ok`), and a token at which a fault is found could not have been read
as a part of any statement, since all of those are read. So the tokens in front of the fault begin
a statement, and with the offending token they begin none (`Stmt.parse_fault_first`).
-/

namespace BlockScript

/-- Closing the open groups one after the other leaves an operand outside of all groups. -/
theorem Expr.Progress.exists_after_operator (outer : List (List Pending)) (pending : List Pending)
    (e : Expr) :
    ∃ ts rest whole, (operator ⟨pending, outer⟩ e).After ts (operator ⟨rest, []⟩ whole) := by
  induction outer generalizing pending e with
  | nil => exact ⟨[], pending, e, .nil⟩
  | cons around outer ih =>
    obtain ⟨ts, rest, whole, hafter⟩ := ih around (.grouping (Pending.closeAll e pending))
    exact ⟨⟨.rightParen, ")", .start⟩ :: ts, rest, whole, .cons rfl hafter⟩

/-- An expression of which some tokens were read can be completed. -/
theorem Expr.Progress.exists_after_done (p : Progress) :
    ∃ ts q, p.After ts q ∧ ∀ t, t.kind = .semicolon → ∃ e, q.step t = .done e := by
  have hdone : ∀ (pending : List Pending) (e : Expr) (t : Token), t.kind = .semicolon →
      ∃ whole, (operator ⟨pending, []⟩ e).step t = .done whole := by
    intro pending e t ht
    refine ⟨Pending.closeAll e pending, ?_⟩
    simp [step, stepOperator, BinaryOp.ofKind?, ht, stepEnd]
  cases p with
  | operator c e =>
    obtain ⟨ts, rest, whole, hafter⟩ := exists_after_operator c.outer c.pending e
    exact ⟨ts, _, hafter, hdone rest whole⟩
  | operand c =>
    obtain ⟨ts, rest, whole, hafter⟩ := exists_after_operator c.outer c.pending (.literal .nil)
    exact ⟨⟨.kwNil, "nil", .start⟩ :: ts, _, .cons rfl hafter, hdone rest whole⟩

namespace Stmt

namespace Progress

/-- Open blocks can be closed one after the other. -/
theorem exists_run_blocks (body : List Stmt) (outer : List (List Stmt)) :
    ∃ ts s, run ⟨body :: outer, .start⟩ ts = (.ok s, []) := by
  induction outer generalizing body with
  | nil => exact ⟨[⟨.rightBrace, "\x7d", .start⟩], _, rfl⟩
  | cons around outer ih =>
    obtain ⟨ts, s, hrun⟩ := ih (.block body.reverse :: around)
    exact ⟨⟨.rightBrace, "\x7d", .start⟩ :: ts, s, hrun⟩

/-- Where a token ends the innermost statement, the rest of the whole one can follow. -/
theorem exists_run_finish {p : Progress} {last : Token} {s : Stmt} {blocks : List (List Stmt)}
    (h : p.step last = finish s blocks) : ∃ ts whole, p.run (last :: ts) = (.ok whole, []) := by
  cases blocks with
  | nil =>
    refine ⟨[], s, ?_⟩
    rw [run, h]
    rfl
  | cons body outer =>
    obtain ⟨ts, whole, hrun⟩ := exists_run_blocks (s :: body) outer
    refine ⟨ts, whole, ?_⟩
    rw [run, h]
    exact hrun

/-- The innermost statement can be completed. -/
theorem exists_after_finish (p : Progress) :
    ∃ ts q last s, p.After ts q ∧ q.step last = finish s p.blocks := by
  let semicolon : Token := ⟨.semicolon, ";", .start⟩
  have hexpr : ∀ (goal : Goal) (progress : Expr.Progress), ∃ ts q s,
      After ⟨p.blocks, .expr goal progress⟩ ts q ∧ q.step semicolon = finish s p.blocks := by
    intro goal progress
    obtain ⟨ts, q, hafter, hdone⟩ := progress.exists_after_done
    obtain ⟨e, he⟩ := hdone semicolon rfl
    refine ⟨ts, _, goal.complete e, after_expr p.blocks goal hafter, ?_⟩
    simp only [step, stepExpr, he]
    rfl
  obtain ⟨blocks, phase⟩ := p
  cases phase with
  | start =>
    -- Whatever blocks are open, a print statement can come.
    obtain ⟨ts, q, s, hafter, hlast⟩ := hexpr .print .start
    exact ⟨⟨.kwPrint, "print", .start⟩ :: ts, q, semicolon, s, .cons rfl hafter, hlast⟩
  | name =>
    let name : Token := ⟨.identifier, "a", .start⟩
    exact ⟨[name], ⟨blocks, .declared name⟩, semicolon, _, .cons rfl .nil, rfl⟩
  | declared name => exact ⟨[], _, semicolon, .declare name none, .nil, rfl⟩
  | expr goal progress =>
    obtain ⟨ts, q, s, hafter, hlast⟩ := hexpr goal progress
    exact ⟨ts, q, semicolon, s, hafter, hlast⟩

/-- Whatever has been read of a statement can be completed. -/
theorem exists_run_eq_ok (p : Progress) : ∃ ts s, p.run ts = (.ok s, []) := by
  obtain ⟨init, q, last, s, hafter, hlast⟩ := p.exists_after_finish
  obtain ⟨ts, whole, hrun⟩ := exists_run_finish hlast
  exact ⟨init ++ last :: ts, whole, by rw [hafter.run_append, hrun]⟩

/-- A run that fails reads some tokens, and then finds one that does not fit, or no more. -/
theorem exists_after_of_run_eq_error {p : Progress} {ts rest : List Token} {d : Diagnostic}
    (h : p.run ts = (.error d, rest)) :
    (∃ before t after fault q, ts = before ++ t :: after ∧ p.After before q ∧
      q.step t = .fault fault ∧ d = .syntactic t fault ∧
      rest = if fault.isAfterToken then after else t :: after) ∨
    ∃ q, p.After ts q ∧ d = .unexpectedEnd := by
  induction ts generalizing p with
  | nil =>
    cases h
    exact .inr ⟨p, .nil, rfl⟩
  | cons t ts ih =>
    rw [run] at h
    split at h
    case h_1 q hstep =>
      rcases ih h with ⟨before, u, after, fault, r, rfl, hafter, hfault⟩ | ⟨r, hafter, hd⟩
      · exact .inl ⟨t :: before, u, after, fault, r, rfl, .cons hstep hafter, hfault⟩
      · exact .inr ⟨r, .cons hstep hafter, hd⟩
    case h_2 => cases h
    case h_3 fault hstep =>
      cases h
      exact .inl ⟨[], t, ts, fault, p, rfl, .nil, hstep, rfl, rfl⟩

end Progress

/-- Some statement of the grammar begins with the tokens. -/
def Begins (ts : List Token) : Prop := ∃ more s, Derives (ts ++ more) s

theorem Progress.After.begins {ts : List Token} {q : Progress} (h : Progress.start.After ts q) :
    Begins ts := by
  obtain ⟨more, s, hrun⟩ := q.exists_run_eq_ok
  have hparse : parse (ts ++ more) = (.ok s, []) := by
    rw [parse, h.run_append, hrun]
  obtain ⟨us, heq, hs⟩ := derives_of_parse hparse
  rw [List.append_nil] at heq
  exact ⟨more, s, heq ▸ hs⟩

/-- All statements are read, so that none goes on with a token at which a fault is found. -/
theorem Progress.After.not_begins {ts : List Token} {q : Progress} {t : Token}
    {fault : SyntaxFault} (h : Progress.start.After ts q) (hfault : q.step t = .fault fault) :
    ¬ Begins (ts ++ [t]) := by
  rintro ⟨more, s, hs⟩
  have hparse := parse_append hs []
  rw [List.append_nil, List.append_assoc, parse, h.run_append, List.singleton_append,
    Progress.run, hfault] at hparse
  cases hparse

/-- Reading fails at the first token with which no statement goes on: what is in front of it begins
    a statement, and with the token it begins none. What stays unread tells which token it is.
    Where the tokens run out instead, none of them marks the end and they begin a longer
    statement. -/
theorem parse_fault_first {ts rest : List Token} {d : Diagnostic}
    (h : parse ts = (.error d, rest)) :
    (∃ before t after fault, d = .syntactic t fault ∧ ts = before ++ t :: after ∧
      rest = (if fault.isAfterToken then after else t :: after) ∧
      Begins before ∧ ¬ Begins (before ++ [t])) ∨
    (d = .unexpectedEnd ∧ (∀ t ∈ ts, t.isEnd = false) ∧
      ∃ more s, more ≠ [] ∧ Derives (ts ++ more) s) := by
  rcases Progress.exists_after_of_run_eq_error h with
    ⟨before, t, after, fault, q, hts, hafter, hfault, hd, hrest⟩ | ⟨q, hafter, hd⟩
  · exact .inl ⟨before, t, after, fault, hd, hts, hrest, hafter.begins, hafter.not_begins hfault⟩
  · obtain ⟨more, s, hs⟩ := hafter.begins
    refine .inr ⟨hd, fun t ht => hs.isEnd_eq_false t (List.mem_append_left _ ht), more, s, ?_, hs⟩
    rintro rfl
    have hread := parse_append hs []
    rw [List.append_nil, List.append_nil, h] at hread
    cases hread

/-- In `nil = a;` it is the equals sign with which no statement goes on. -/
theorem parse_fault_first_equals :
    parse [⟨.kwNil, "nil", ⟨1, 1⟩⟩, ⟨.equal, "=", ⟨1, 5⟩⟩, ⟨.identifier, "a", ⟨1, 7⟩⟩,
        ⟨.semicolon, ";", ⟨1, 8⟩⟩] =
      (.error (.syntactic ⟨.equal, "=", ⟨1, 5⟩⟩ .invalidAssignmentTarget),
        [⟨.identifier, "a", ⟨1, 7⟩⟩, ⟨.semicolon, ";", ⟨1, 8⟩⟩]) ∧
    Begins [⟨.kwNil, "nil", ⟨1, 1⟩⟩] ∧
    ¬ Begins [⟨.kwNil, "nil", ⟨1, 1⟩⟩, ⟨.equal, "=", ⟨1, 5⟩⟩] := by
  have hparse : parse [⟨.kwNil, "nil", ⟨1, 1⟩⟩, ⟨.equal, "=", ⟨1, 5⟩⟩,
      ⟨.identifier, "a", ⟨1, 7⟩⟩, ⟨.semicolon, ";", ⟨1, 8⟩⟩] =
    (.error (.syntactic ⟨.equal, "=", ⟨1, 5⟩⟩ .invalidAssignmentTarget),
      [⟨.identifier, "a", ⟨1, 7⟩⟩, ⟨.semicolon, ";", ⟨1, 8⟩⟩]) := rfl
  refine ⟨hparse, ?_⟩
  rcases parse_fault_first hparse with
    ⟨before, t, after, fault, hd, hts, hrest, hbegins⟩ | ⟨hd, -⟩
  · cases hd
    cases hrest
    obtain rfl : [⟨.kwNil, "nil", ⟨1, 1⟩⟩] = before := List.append_cancel_right hts
    exact hbegins
  · cases hd

end Stmt

end BlockScript
