import BlockScript.Proofs.Parse.Exactness
import BlockScript.Proofs.Parse.Unread
import Mathlib.Data.List.TakeWhile

/-!
# Reading comes to an end

All statements of a source are read in rounds, and so are the statements of a block.
`Stmt.ProgramLoop` and `Stmt.BlockLoop` are these two loops, with one constructor for a round and
one for each way in which a loop ends; they say nothing of why it does. Each round reads a token
and none reads one that marks the end, so that both loops end for all lists of tokens, the first
one at the first mark of the end (`Stmt.reading_ends`).
-/

namespace BlockScript

namespace Stmt

namespace Progress

/-! ## Statements within a block -/

/-- The statement is read within further open blocks. -/
def within (outer : List (List Stmt)) (p : Progress) : Progress := ⟨p.blocks ++ outer, p.phase⟩

/-- Tokens were read of the statement. -/
def IsBegun (p : Progress) : Prop := p.blocks ≠ [] ∨ p.phase ≠ .start

/-- What a token does within further open blocks. -/
def Outcome.within (outer : List (List Stmt)) : Outcome → Outcome
  | more q => .more (q.within outer)
  | done s => finish s outer
  | fault f => .fault f

theorem finish_append (s : Stmt) (blocks outer : List (List Stmt)) :
    finish s (blocks ++ outer) = (finish s blocks).within outer := by
  cases blocks <;> rfl

theorem stepExpr_append (blocks outer : List (List Stmt)) (goal : Goal) (p : Expr.Progress)
    (t : Token) :
    stepExpr (blocks ++ outer) goal p t = (stepExpr blocks goal p t).within outer := by
  unfold stepExpr
  cases p.step t with
  | more q => rfl
  | done e =>
    simp only
    split
    · exact finish_append _ _ _
    · rfl
  | fault f => rfl

theorem isBegun_of_finish {s : Stmt} {blocks : List (List Stmt)} {q : Progress}
    (h : finish s blocks = .more q) : q.IsBegun := by
  cases blocks with
  | nil => cases h
  | cons body outer =>
    cases h
    exact .inl (List.cons_ne_nil _ _)

theorem isBegun_of_stepExpr {blocks : List (List Stmt)} {goal : Goal} {p : Expr.Progress}
    {t : Token} {q : Progress} (h : stepExpr blocks goal p t = .more q) : q.IsBegun := by
  unfold stepExpr at h
  split at h
  · cases h
    exact .inr (by simp)
  · split at h
    · exact isBegun_of_finish h
    · cases h
  · cases h

/-- A statement of which a token was read is begun. -/
theorem isBegun_of_step {p q : Progress} {t : Token} (h : p.step t = .more q) : q.IsBegun := by
  obtain ⟨blocks, phase⟩ := p
  cases phase with
  | start =>
    simp only [step, stepStart] at h
    split at h
    case h_1 | h_2 =>
      cases h
      exact .inr (by simp)
    case h_3 =>
      cases h
      exact .inl (List.cons_ne_nil _ _)
    case h_4 => exact isBegun_of_finish h
    case h_5 | h_6 => cases h
    case h_7 => exact isBegun_of_stepExpr h
  | name =>
    simp only [step] at h
    split at h <;> cases h
    exact .inr (by simp)
  | declared name =>
    simp only [step, stepDeclared] at h
    split at h
    · cases h
      exact .inr (by simp)
    · exact isBegun_of_finish h
    · cases h
  | expr goal p => exact isBegun_of_stepExpr h

/-- Within further blocks a token does the same, but where a statement has to come and none does:
    there a closing brace ends the innermost of the further blocks. -/
theorem step_within {p : Progress} {t : Token} (outer : List (List Stmt))
    (h : p.IsBegun ∨ t.kind ≠ .rightBrace ∧ t.isEnd = false) :
    (p.within outer).step t = (p.step t).within outer := by
  obtain ⟨blocks, phase⟩ := p
  cases phase with
  | start =>
    cases blocks with
    | nil =>
      obtain ⟨hbrace, hend⟩ : t.kind ≠ .rightBrace ∧ t.isEnd = false :=
        h.resolve_left fun hbegun => hbegun.elim (· rfl) (· rfl)
      have hkind : t.kind ≠ .endOfFile := of_decide_eq_false hend
      simp only [within, step, List.nil_append]
      unfold stepStart
      cases ht : t.kind <;>
        first | rfl | exact absurd ht hbrace | exact absurd ht hkind |
          exact stepExpr_append [] outer .expression .start t
    | cons body rest =>
      simp only [within, step, List.cons_append]
      unfold stepStart
      cases t.kind <;>
        first | rfl | exact finish_append _ rest outer |
          exact stepExpr_append (body :: rest) outer .expression .start t
  | name =>
    simp only [within, step]
    split <;> rfl
  | declared name =>
    simp only [within, step, stepDeclared]
    split
    · rfl
    · exact finish_append _ _ _
    · rfl
  | expr goal p => exact stepExpr_append blocks outer goal p t

/-- Within a block a statement is read as it is by itself, and then the next one of the block. -/
theorem run_within {p : Progress} (body : List Stmt) (outer : List (List Stmt)) (ts : List Token)
    (h : p.IsBegun ∨ ∀ t ∈ ts.head?, t.kind ≠ .rightBrace ∧ t.isEnd = false) :
    (p.within (body :: outer)).run ts =
      match p.run ts with
      | (.ok s, rest) => run ⟨(s :: body) :: outer, .start⟩ rest
      | (.error d, rest) => (.error d, rest) := by
  induction ts generalizing p with
  | nil => rfl
  | cons t ts ih =>
    have hstep := step_within (body :: outer) (h.imp_right fun hhead => hhead t rfl)
    rw [run, run, hstep]
    cases hp : p.step t with
    | more q => exact ih (.inl (isBegun_of_step hp))
    | done s => rfl
    | fault f => rfl

end Progress

/-! ## The two loops -/

/-- Whether no further statement of a block can come: the next token closes it, or no token is left
    but the mark of the end. -/
def atBlockEnd : List Token → Bool
  | [] => true
  | t :: _ => t.kind = .rightBrace || t.isEnd

/-- The loop over all statements: while tokens are left in front of the mark of the end, a statement
    is read, and the rest of one that does not fit is skipped. It gives the results and what is
    left unread. -/
inductive ProgramLoop : List Token → List (Except Diagnostic Stmt) → List Token → Prop
  | done {ts : List Token} : atEnd ts = true → ProgramLoop ts [] ts
  | read {ts us rest : List Token} {s : Stmt} {results : List (Except Diagnostic Stmt)} :
      atEnd ts = false → parse ts = (.ok s, us) → ProgramLoop us results rest →
      ProgramLoop ts (.ok s :: results) rest
  | skip {ts us rest : List Token} {d : Diagnostic} {results : List (Except Diagnostic Stmt)} :
      atEnd ts = false → parse ts = (.error d, us) → ProgramLoop (skip us) results rest →
      ProgramLoop ts (.error d :: results) rest

/-- The loop over the statements of a block, of which the first ones are `body`: while the block
    does not end, a statement is read. A statement that does not fit ends the loop, and in the end
    the closing brace has to come. -/
inductive BlockLoop : List Stmt → List Token → Except Diagnostic Stmt × List Token → Prop
  | closed {body : List Stmt} {t : Token} {rest : List Token} :
      t.kind = .rightBrace → BlockLoop body (t :: rest) (.ok (.block body), rest)
  | unclosed {body : List Stmt} {t : Token} {rest : List Token} : t.isEnd = true →
      BlockLoop body (t :: rest) (.error (.syntactic t .expectedBraceAfterBlock), t :: rest)
  | empty {body : List Stmt} : BlockLoop body [] (.error .unexpectedEnd, [])
  | fault {body : List Stmt} {ts rest : List Token} {d : Diagnostic} :
      atBlockEnd ts = false → parse ts = (.error d, rest) → BlockLoop body ts (.error d, rest)
  | read {body : List Stmt} {ts us : List Token} {s : Stmt}
      {outcome : Except Diagnostic Stmt × List Token} :
      atBlockEnd ts = false → parse ts = (.ok s, us) → BlockLoop (body ++ [s]) us outcome →
      BlockLoop body ts outcome

theorem atEnd_of_atBlockEnd {ts : List Token} (h : atBlockEnd ts = false) : atEnd ts = false := by
  cases ts with
  | nil => cases h
  | cons t ts => exact (Bool.or_eq_false_iff.mp h).2

/-- A statement of a block is read as it is by itself. -/
theorem run_of_atBlockEnd {ts : List Token} (h : atBlockEnd ts = false) (body : List Stmt) :
    Progress.run ⟨[body.reverse], .start⟩ ts =
      match parse ts with
      | (.ok s, rest) => Progress.run ⟨[(body ++ [s]).reverse], .start⟩ rest
      | (.error d, rest) => (.error d, rest) := by
  have hhead : ∀ t ∈ ts.head?, t.kind ≠ .rightBrace ∧ t.isEnd = false := by
    cases ts with
    | nil => exact nofun
    | cons u ts =>
      obtain ⟨hbrace, hend⟩ := Bool.or_eq_false_iff.mp h
      rintro t ⟨⟩
      exact ⟨of_decide_eq_false hbrace, hend⟩
  have hwithin := Progress.run_within (p := .start) body.reverse [] ts (.inr hhead)
  simp only [List.reverse_append, List.reverse_singleton, List.singleton_append]
  exact hwithin

theorem run_of_rightBrace {t : Token} (h : t.kind = .rightBrace) (body : List Stmt)
    (ts : List Token) :
    Progress.run ⟨[body.reverse], .start⟩ (t :: ts) = (.ok (.block body), ts) := by
  simp [Progress.run, Progress.step, Progress.stepStart, h, Progress.finish]

theorem run_of_isEnd {t : Token} (h : t.isEnd = true) (body : List Stmt) (ts : List Token) :
    Progress.run ⟨[body.reverse], .start⟩ (t :: ts) =
      (.error (.syntactic t .expectedBraceAfterBlock), t :: ts) := by
  have hkind : t.kind = .endOfFile := of_decide_eq_true h
  simp [Progress.run, Progress.step, Progress.stepStart, hkind, SyntaxFault.isAfterToken]

theorem blockLoop_run (body : List Stmt) (ts : List Token) :
    BlockLoop body ts (Progress.run ⟨[body.reverse], .start⟩ ts) := by
  -- Each statement leaves fewer tokens for the rest of the block.
  generalize hn : ts.length = n
  induction n using Nat.strongRecOn generalizing body ts with
  | ind n ih =>
    cases hend : atBlockEnd ts with
    | false =>
      rw [run_of_atBlockEnd hend]
      cases hparse : parse ts with
      | mk result rest =>
        cases result with
        | error d => exact .fault hend hparse
        | ok s =>
          have hlt := length_lt_of_parse_eq_ok (atEnd_of_atBlockEnd hend) hparse
          exact .read hend hparse (ih rest.length (hn ▸ hlt) (body ++ [s]) rest rfl)
    | true =>
      cases ts with
      | nil => exact .empty
      | cons t ts =>
        rcases Bool.or_eq_true_iff.mp hend with hbrace | hmark
        · have hkind : t.kind = .rightBrace := of_decide_eq_true hbrace
          rw [run_of_rightBrace hkind]
          exact .closed hkind
        · rw [run_of_isEnd hmark]
          exact .unclosed hmark

theorem BlockLoop.eq_run {body : List Stmt} {ts : List Token}
    {outcome : Except Diagnostic Stmt × List Token} (h : BlockLoop body ts outcome) :
    Progress.run ⟨[body.reverse], .start⟩ ts = outcome := by
  induction h with
  | closed hbrace => exact run_of_rightBrace hbrace _ _
  | unclosed hmark => exact run_of_isEnd hmark _ _
  | empty => rfl
  | fault hend hparse => rw [run_of_atBlockEnd hend, hparse]
  | read hend hparse _ ih =>
    rw [run_of_atBlockEnd hend, hparse]
    exact ih

/-- After its opening brace a block is read by the loop over its statements. -/
theorem blockLoop_iff {opening : Token} (h : opening.kind = .leftBrace) {ts : List Token}
    {outcome : Except Diagnostic Stmt × List Token} :
    BlockLoop [] ts outcome ↔ parse (opening :: ts) = outcome := by
  have hopen : parse (opening :: ts) = Progress.run ⟨[[]], .start⟩ ts := by
    rw [parse, Progress.run]
    simp [Progress.step, Progress.stepStart, Progress.start, h]
  rw [hopen]
  constructor
  · exact BlockLoop.eq_run
  · rintro rfl
    exact blockLoop_run [] ts

theorem programLoop_parseAll (ts : List Token) :
    ProgramLoop ts (parseAll ts).1 (parseAll ts).2 := by
  fun_induction parseAll ts with
  | case1 ts hend => exact .done hend
  | case2 ts hend round results unread hrest ih =>
    have hend : atEnd ts = false := by simpa using hend
    rw [hrest] at ih
    cases hparse : parse ts with
    | mk result us =>
      cases result with
      | ok s =>
        have hround : round = (.ok s, us) := parseOrSkip_of_ok hparse
        rw [hround] at ih ⊢
        exact .read hend hparse ih
      | error d =>
        have hround : round = (.error d, skip us) := parseOrSkip_of_error hparse
        rw [hround] at ih ⊢
        exact .skip hend hparse ih

theorem parseAll_of_atEnd_eq_false {ts : List Token} (h : atEnd ts = false) :
    parseAll ts = ((parseOrSkip ts).1 :: (parseAll (parseOrSkip ts).2).1,
      (parseAll (parseOrSkip ts).2).2) := by
  rw [parseAll, dif_neg (by simp [h])]

theorem ProgramLoop.eq_parseAll {ts rest : List Token} {results : List (Except Diagnostic Stmt)}
    (h : ProgramLoop ts results rest) : parseAll ts = (results, rest) := by
  induction h with
  | done hend => rw [parseAll, dif_pos hend]
  | read hend hparse _ ih => rw [parseAll_of_parse hend hparse, ih]
  | skip hend hparse _ ih =>
    rw [parseAll_of_atEnd_eq_false hend, parseOrSkip_of_error hparse, ih]

/-- All statements are read by the loop over them. -/
theorem programLoop_iff {ts rest : List Token} {results : List (Except Diagnostic Stmt)} :
    ProgramLoop ts results rest ↔ parseAll ts = (results, rest) := by
  constructor
  · exact ProgramLoop.eq_parseAll
  · intro h
    have hloop := programLoop_parseAll ts
    rwa [h] at hloop

/-- A round reads a token for each result at least. -/
theorem ProgramLoop.length_le {ts rest : List Token} {results : List (Except Diagnostic Stmt)}
    (h : ProgramLoop ts results rest) : results.length + rest.length ≤ ts.length := by
  induction h with
  | done => simp
  | read hend hparse _ ih =>
    have hlt := length_parseOrSkip_lt hend
    rw [parseOrSkip_of_ok hparse] at hlt
    simp only [List.length_cons] at hlt ⊢
    omega
  | skip hend hparse _ ih =>
    have hlt := length_parseOrSkip_lt hend
    rw [parseOrSkip_of_error hparse] at hlt
    simp only [List.length_cons] at hlt ⊢
    omega

theorem ProgramLoop.atEnd_of_nil {ts rest : List Token} (h : ProgramLoop ts [] rest) :
    atEnd ts = true := by
  cases h with
  | done hend => exact hend

theorem ProgramLoop.atEnd_rest {ts rest : List Token} {results : List (Except Diagnostic Stmt)}
    (h : ProgramLoop ts results rest) : atEnd rest = true := by
  induction h with
  | done hend => exact hend
  | read _ _ _ ih => exact ih
  | skip _ _ _ ih => exact ih

/-! ## The end -/

/-- What reads no mark of the end and stops at one, or where there are no more tokens, stops at the
    first one. -/
theorem beforeEnd_of_leaves {ts rest : List Token} (h : Token.Leaves ts rest)
    (hend : atEnd rest = true) :
    ts = beforeEnd ts ++ rest ∧ rest = ts.dropWhile fun t => !t.isEnd := by
  obtain ⟨read, rfl, hread⟩ := h
  have hdrop : (rest.dropWhile fun t => !t.isEnd) = rest := by
    cases rest with
    | nil => rfl
    | cons t rest =>
      have ht : t.isEnd = true := hend
      exact List.dropWhile_cons_of_neg (by simp [ht])
  constructor
  · rw [beforeEnd_append rest hread, beforeEnd_eq_nil hend, List.append_nil]
  · rw [List.dropWhile_append_of_pos fun t ht => by simp [hread t ht], hdrop]

/-- How the tokens are read, whatever they are. -/
structure ReadsToEnd (ts : List Token) : Prop where
  /-- The loop over all statements ends, with the results of reading them all. -/
  loop_iff : ∀ results rest, ProgramLoop ts results rest ↔ parseAll ts = (results, rest)
  /-- Behind an opening brace the loop over the statements of the block ends, with the result of
      reading the block. -/
  blockLoop_iff : ∀ opening : Token, opening.kind = .leftBrace → ∀ outcome,
    BlockLoop [] ts outcome ↔ parse (opening :: ts) = outcome
  /-- A round of the one loop reads a token at least. -/
  round_lt : atEnd ts = false → (parseOrSkip ts).2.length < ts.length
  /-- So does a round of the other one. -/
  blockRound_lt : ∀ s rest, atBlockEnd ts = false → parse ts = (.ok s, rest) →
    rest.length < ts.length
  /-- Whatever was read of an expression or a statement before, no mark of the end is read. -/
  leaves_run : (∀ p : Expr.Progress, Token.Leaves ts (p.run ts).2) ∧
    ∀ p : Progress, Token.Leaves ts (p.run ts).2
  /-- Nor is one read or skipped between statements. -/
  leaves_all : Token.Leaves ts (skip ts) ∧ Token.Leaves ts (parseOrSkip ts).2 ∧
    Token.Leaves ts (parseAll ts).2
  /-- What is left in the end begins with the first mark of the end, and is nothing if there is
      none. -/
  rest_eq : atEnd (parseAll ts).2 = true ∧ ts = beforeEnd ts ++ (parseAll ts).2 ∧
    ((∀ t ∈ ts, t.isEnd = false) → (parseAll ts).2 = []) ∧
    (parseAll ts).2 = ts.dropWhile fun t => !t.isEnd
  /-- There are at most as many results as tokens in front of it, and none only if there is no such
      token. -/
  length_le : (parseAll ts).1.length ≤ (beforeEnd ts).length ∧
    ((parseAll ts).1 = [] ↔ beforeEnd ts = [])

/-- Reading ends for every list of tokens, at the first mark of the end, although a statement that
    does not fit may read no token, and skipping may skip none. -/
theorem reading_ends :
    (∃ ts d, atEnd ts = false ∧ parse ts = (.error d, ts)) ∧
    (∃ ts, atEnd ts = false ∧ skip ts = ts) ∧
    ∀ ts, ReadsToEnd ts := by
  refine ⟨⟨[⟨.rightParen, ")", .start⟩], _, rfl, rfl⟩, ⟨[⟨.kwVar, "var", .start⟩], rfl, rfl⟩, ?_⟩
  intro ts
  have hloop := programLoop_parseAll ts
  obtain ⟨hts, hrest⟩ := beforeEnd_of_leaves (leaves_parseAll ts) hloop.atEnd_rest
  have hlength : (parseAll ts).1.length ≤ (beforeEnd ts).length := by
    have htotal := congrArg List.length hts
    have hle := hloop.length_le
    rw [List.length_append] at htotal
    omega
  refine ⟨fun _ _ => programLoop_iff, fun _ hopening _ => Stmt.blockLoop_iff hopening,
    length_parseOrSkip_lt, fun _ _ hend => length_lt_of_parse_eq_ok (atEnd_of_atBlockEnd hend),
    ⟨fun p => p.leaves_run ts, fun p => p.leaves_run ts⟩,
    ⟨leaves_skip ts, leaves_parseOrSkip ts, leaves_parseAll ts⟩,
    ⟨hloop.atEnd_rest, hts, fun hnone => ?_, hrest⟩, hlength, fun hnil => ?_, fun hnil => ?_⟩
  · rw [hrest, List.dropWhile_eq_nil_iff]
    exact fun t ht => by simp [hnone t ht]
  · rw [hnil] at hloop
    exact beforeEnd_eq_nil hloop.atEnd_of_nil
  · rw [hnil] at hlength
    exact List.eq_nil_of_length_eq_zero (Nat.le_zero.mp hlength)

end Stmt

end BlockScript
