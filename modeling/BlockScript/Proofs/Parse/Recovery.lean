import BlockScript.Proofs.Parse.Rounds

/-!
# A statement that does not fit hides no other

A source that is cut into `Stmt.Chunk`s gives one result for each of them, and then those of the
rest (`Stmt.faults_isolated`). A chunk is a statement, or it ends with the first semicolon, or in
front of the next token that begins a declaration, a print or a block. Whatever is wrong within
it, skipping goes on exactly where the next one begins.
-/

namespace BlockScript

/-- The token is none of those at which skipping stops. -/
def Token.IsInner (t : Token) : Prop := t.kind ∉ Kind.delimiters

/-- The token begins a declaration, a print or a block. -/
def Token.IsOpener (t : Token) : Prop := t.kind ∈ [.kwVar, .kwPrint, .leftBrace]

theorem Token.IsInner.kind_ne {t : Token} (h : t.IsInner) :
    t.kind ≠ .semicolon ∧ t.kind ≠ .leftBrace := by
  constructor <;> exact fun hkind => h (by simp [Kind.delimiters, hkind])

theorem Token.IsInner.isBoundary_eq_false {t : Token} (h : t.IsInner) :
    Stmt.isBoundary t = false := by
  unfold Stmt.isBoundary
  split
  case h_5 => rfl
  all_goals
    rename_i hkind
    exact absurd (by simp [Kind.delimiters, hkind]) h

theorem Token.IsOpener.isBoundary_eq_true {t : Token} (h : t.IsOpener) :
    Stmt.isBoundary t = true := by
  simp only [IsOpener, List.mem_cons, List.not_mem_nil, or_false] at h
  unfold Stmt.isBoundary
  rcases h with hkind | hkind | hkind <;> rw [hkind]

theorem Token.IsOpener.kind_ne {t : Token} (h : t.IsOpener) :
    t.kind ≠ .semicolon ∧ t.kind ≠ .equal := by
  constructor <;> exact fun hkind => by simp [IsOpener, hkind] at h

theorem Token.IsOpener.kind_mem_delimiters {t : Token} (h : t.IsOpener) :
    t.kind ∈ Kind.delimiters := by
  simp only [IsOpener, List.mem_cons, List.not_mem_nil, or_false] at h
  rcases h with hkind | hkind | hkind <;> simp [Kind.delimiters, hkind]

namespace Stmt

namespace Progress

/-! ## Reading outside of blocks -/

/-- What a token other than an opening brace does to a statement outside of blocks: the statement
    goes on there, and it does not with a semicolon, or it ends, with a semicolon. -/
def Outcome.Outside (t : Token) : Outcome → Prop
  | more q => q.blocks = [] ∧ t.kind ≠ .semicolon
  | done _ => t.kind = .semicolon
  | fault f => f.isAfterToken = true → t.kind = .equal

theorem outside_stepExpr (goal : Goal) (p : Expr.Progress) (t : Token) :
    (stepExpr [] goal p t).Outside t := by
  unfold stepExpr
  cases hstep : p.step t with
  | more q =>
    refine ⟨rfl, fun hkind => ?_⟩
    exact Expr.Progress.step_ne_more (by simp [Token.Kind.delimiters, hkind]) p q hstep
  | done e =>
    simp only
    split
    case isTrue hkind => exact hkind
    case isFalse =>
      intro hf
      cases goal <;> cases hf
  | fault f => exact Expr.Progress.kind_eq_equal hstep

theorem outside_step {p : Progress} {t : Token} (h : p.blocks = []) (ht : t.kind ≠ .leftBrace) :
    (p.step t).Outside t := by
  obtain ⟨blocks, phase⟩ := p
  obtain rfl : blocks = [] := h
  cases phase with
  | start =>
    simp only [step]
    unfold stepStart
    split
    case h_1 hkind | h_2 hkind => exact ⟨rfl, by simp [hkind]⟩
    case h_3 hkind => exact absurd hkind ht
    case h_4 _ heq => cases heq
    case h_5 =>
      intro hf
      cases hf
    case h_6 _ heq => cases heq
    case h_7 => exact outside_stepExpr .expression .start t
  | name =>
    simp only [step]
    split
    case isTrue hkind => exact ⟨rfl, by simp [hkind]⟩
    case isFalse =>
      intro hf
      cases hf
  | declared name =>
    simp only [step, stepDeclared]
    split
    case h_1 hkind => exact ⟨rfl, by simp [hkind]⟩
    case h_2 hkind => exact hkind
    case h_3 =>
      intro hf
      cases hf
  | expr goal q => exact outside_stepExpr goal q t

/-- An inner token goes on with a statement outside of blocks, or it does not fit. -/
theorem step_inner {p : Progress} {t : Token} (h : p.blocks = []) (ht : t.IsInner) :
    (∃ q, p.step t = .more q ∧ q.blocks = []) ∨ ∃ f, p.step t = .fault f := by
  have hout := outside_step h ht.kind_ne.2
  cases hstep : p.step t with
  | more q =>
    rw [hstep] at hout
    exact .inl ⟨q, rfl, hout.1⟩
  | done s =>
    rw [hstep] at hout
    exact absurd hout ht.kind_ne.1
  | fault f => exact .inr ⟨f, rfl⟩

/-- Where a statement is begun outside of blocks, no other one can begin. -/
theorem exists_fault_of_isOpener {p : Progress} {t : Token} (h : p.IsBegun)
    (hblocks : p.blocks = []) (ht : t.IsOpener) : ∃ f, p.step t = .fault f := by
  have hkind : t.kind = .kwVar ∨ t.kind = .kwPrint ∨ t.kind = .leftBrace := by
    simpa [Token.IsOpener] using ht
  obtain ⟨blocks, phase⟩ := p
  obtain rfl : blocks = [] := hblocks
  cases phase with
  | start => exact absurd rfl (h.resolve_left (· rfl))
  | name => rcases hkind with hkind | hkind | hkind <;> simp [step, hkind]
  | declared name => rcases hkind with hkind | hkind | hkind <;> simp [step, stepDeclared, hkind]
  | expr goal q =>
    simp only [step]
    unfold stepExpr
    cases hstep : q.step t with
    | more r => exact absurd hstep (Expr.Progress.step_ne_more ht.kind_mem_delimiters q r)
    | done e => exact ⟨_, if_neg ht.kind_ne.1⟩
    | fault f => exact ⟨f, rfl⟩

end Progress

/-! ## Skipping -/

theorem skip_append {ts : List Token} (h : ∀ t ∈ ts, t.IsInner) (rest : List Token) :
    skip (ts ++ rest) = skip rest := by
  induction ts with
  | nil => rfl
  | cons t ts ih =>
    have ht := h t List.mem_cons_self
    rw [List.cons_append, skip, if_neg (by simp [ht.isBoundary_eq_false]), if_neg ht.kind_ne.1]
    exact ih fun u hu => h u (List.mem_cons_of_mem t hu)

theorem skip_semicolon {semicolon : Token} (h : semicolon.kind = .semicolon) (rest : List Token) :
    skip (semicolon :: rest) = rest := by
  rw [skip, if_neg (by simp [isBoundary, h]), if_pos h]

/-- A fault among inner tokens makes no difference to where skipping stops. -/
theorem skip_fault {t : Token} {ts : List Token} {f : SyntaxFault} (ht : t.IsInner)
    (h : ∀ u ∈ ts, u.IsInner) (rest : List Token) :
    skip (if f.isAfterToken then ts ++ rest else t :: (ts ++ rest)) = skip rest := by
  have hall : ∀ u ∈ t :: ts, u.IsInner := by
    intro u hu
    rcases List.mem_cons.mp hu with rfl | hu
    · exact ht
    · exact h u hu
  split
  · exact skip_append h rest
  · exact skip_append hall rest

namespace Progress

/-- A statement outside of blocks that is read up to a semicolon gives the same result whatever
    follows, and leaves just that. -/
theorem recovered_run_ended {p : Progress} {ts : List Token} {semicolon : Token}
    (hp : p.blocks = []) (hts : ∀ t ∈ ts, t.IsInner) (h : semicolon.kind = .semicolon)
    (rest : List Token) :
    recovered (p.run (ts ++ semicolon :: rest)) = ((p.run (ts ++ [semicolon])).1, rest) := by
  induction ts generalizing p with
  | nil =>
    have hout := outside_step (t := semicolon) hp (by simp [h])
    simp only [List.nil_append, run]
    cases hstep : p.step semicolon with
    | more q =>
      rw [hstep] at hout
      exact absurd h hout.2
    | done s => rfl
    | fault f =>
      rw [hstep] at hout
      have hf : f.isAfterToken = false := by
        refine Bool.eq_false_iff.mpr fun hf => ?_
        simp [hout hf] at h
      simp only [hf, recovered]
      exact congrArg (Prod.mk _) (skip_semicolon h rest)
  | cons t ts ih =>
    have ht := hts t List.mem_cons_self
    have hinner : ∀ u ∈ ts, u.IsInner := fun u hu => hts u (List.mem_cons_of_mem t hu)
    simp only [List.cons_append, run]
    rcases step_inner hp ht with ⟨q, hstep, hq⟩ | ⟨f, hstep⟩
    · rw [hstep]
      exact ih hq hinner
    · simp only [hstep, recovered]
      rw [skip_fault ht hinner, skip_semicolon h]

/-- A statement outside of blocks that is cut short where another one begins is a fault of one of
    its tokens or of the one that follows, and leaves the other one. -/
theorem recovered_run_cut {p : Progress} {ts : List Token} {opener : Token} (hp : p.blocks = [])
    (hts : ∀ t ∈ ts, t.IsInner) (h : opener.IsOpener) (hbegun : p.IsBegun ∨ ts ≠ [])
    (rest : List Token) : ∃ t ∈ ts ++ [opener], ∃ f,
      recovered (p.run (ts ++ opener :: rest)) = (.error (.syntactic t f), opener :: rest) ∧
      (p.run (ts ++ [opener])).1 = .error (.syntactic t f) := by
  have hskip : skip (opener :: rest) = opener :: rest :=
    skip_of_isBoundary rest h.isBoundary_eq_true
  induction ts generalizing p with
  | nil =>
    obtain ⟨f, hstep⟩ := exists_fault_of_isOpener (hbegun.resolve_right (· rfl)) hp h
    have hf : f.isAfterToken = false :=
      Bool.eq_false_iff.mpr fun hf => h.kind_ne.2 (kind_eq_equal hstep hf)
    refine ⟨opener, List.mem_singleton_self _, f, ?_, ?_⟩
    · simp only [List.nil_append, run, hstep, hf, recovered]
      exact congrArg (Prod.mk _) hskip
    · simp only [List.nil_append, run, hstep]
  | cons t ts ih =>
    have ht := hts t List.mem_cons_self
    have hinner : ∀ u ∈ ts, u.IsInner := fun u hu => hts u (List.mem_cons_of_mem t hu)
    simp only [List.cons_append, run]
    rcases step_inner hp ht with ⟨q, hstep, hq⟩ | ⟨f, hstep⟩
    · obtain ⟨u, hu, f, hfault⟩ := ih hq hinner (.inl (isBegun_of_step hstep))
      rw [hstep]
      exact ⟨u, List.mem_cons_of_mem t hu, f, hfault⟩
    · simp only [hstep, recovered]
      refine ⟨t, List.mem_cons_self, f, ?_, rfl⟩
      rw [skip_fault ht hinner, hskip]

end Progress

/-! ## Chunks -/

/-- Any tokens but those at which skipping stops, with the keyword of a declaration or a print in
    front of them or not. -/
structure Fragment where
  keyword? : Option Token
  inner : List Token
  keyword_kind : ∀ t ∈ keyword?, t.kind = .kwVar ∨ t.kind = .kwPrint
  isInner : ∀ t ∈ inner, t.IsInner

def Fragment.tokens (front : Fragment) : List Token := front.keyword?.toList ++ front.inner

/-- A part of a source that is read in one round. -/
inductive Chunk where
  /-- A statement. -/
  | statement (ts : List Token) (s : Stmt) (derives : Derives ts s)
  /-- Anything up to a semicolon. -/
  | ended (front : Fragment) (semicolon : Token) (kind_eq : semicolon.kind = .semicolon)
  /-- Anything up to where another statement begins. -/
  | cut (front : Fragment) (ne_nil : front.tokens ≠ [])

namespace Chunk

def tokens : Chunk → List Token
  | statement ts _ _ => ts
  | ended front semicolon _ => front.tokens ++ [semicolon]
  | cut front _ => front.tokens

/-- Whether the chunk may stand in front of the tokens `after`. -/
def Fits (after : List Token) : Chunk → Prop
  | statement .. | ended .. => True
  | cut .. => ∃ t ∈ after.head?, t.IsOpener

/-- What the result of the chunk in front of the tokens `after` is: that of reading it by itself, or
    a fault at one of its tokens or at the one that cuts it short. -/
def Gives (after : List Token) (result : Except Diagnostic Stmt) : Chunk → Prop
  | statement ts s _ => result = .ok s ∧ result = (parse ts).1
  | ended front semicolon _ => result = (parse (front.tokens ++ [semicolon])).1
  | cut front _ => result = (parse (front.tokens ++ after.head?.toList)).1 ∧
      ∃ t f, result = .error (.syntactic t f) ∧ (t ∈ front.tokens ∨ t ∈ after.head?)

/-- Each of the chunks may stand where it stands, in front of the tokens `rest`. -/
def AllFit (rest : List Token) : List Chunk → Prop
  | [] => True
  | c :: cs => c.Fits (cs.flatMap tokens ++ rest) ∧ AllFit rest cs

/-- There is one result for each chunk, in order. -/
inductive AllGive (rest : List Token) : List Chunk → List (Except Diagnostic Stmt) → Prop
  | nil : AllGive rest [] []
  | cons {c : Chunk} {cs : List Chunk} {result : Except Diagnostic Stmt}
      {results : List (Except Diagnostic Stmt)} :
      c.Gives (cs.flatMap tokens ++ rest) result → AllGive rest cs results →
      AllGive rest (c :: cs) (result :: results)

end Chunk

/-! ## One round for each chunk -/

namespace Fragment

variable (front : Fragment)

theorem isEnd_eq_false : ∀ t ∈ front.tokens, t.isEnd = false := by
  intro t ht
  rcases List.mem_append.mp ht with ht | ht
  · rcases front.keyword_kind t (by simpa using ht) with hkind | hkind <;>
      simp [Token.isEnd, hkind]
  · exact isEnd_eq_false_of_not_isBoundary (by simp [(front.isInner t ht).isBoundary_eq_false])

/-- The keyword, if there is one, only tells which statement is read. -/
theorem exists_run : ∃ p : Progress, p.blocks = [] ∧
    (front.tokens ≠ [] → p.IsBegun ∨ front.inner ≠ []) ∧
    ∀ us, parse (front.tokens ++ us) = p.run (front.inner ++ us) := by
  obtain ⟨keyword?, inner, hkeyword, -⟩ := front
  cases keyword? with
  | none => exact ⟨.start, rfl, .inr, fun us => rfl⟩
  | some keyword =>
    have hrun : ∀ {q us}, Progress.start.step keyword = .more q →
        parse (keyword :: (inner ++ us)) = q.run (inner ++ us) := by
      intro q us hstep
      rw [parse, Progress.run, hstep]
    rcases hkeyword keyword rfl with hkind | hkind
    · have hstep : Progress.start.step keyword = .more ⟨[], .name⟩ := Progress.stepStart_var hkind
      exact ⟨⟨[], .name⟩, rfl, fun _ => .inl (.inr (by simp)), fun us => hrun hstep⟩
    · have hstep : Progress.start.step keyword = .more ⟨[], .expr .print .start⟩ := by
        simp [Progress.start, Progress.step, Progress.stepStart, hkind]
      exact ⟨⟨[], .expr .print .start⟩, rfl, fun _ => .inl (.inr (by simp)), fun us => hrun hstep⟩

end Fragment

namespace Chunk

theorem ne_nil (c : Chunk) : c.tokens ≠ [] := by
  cases c with
  | statement ts s hs => exact hs.ne_nil
  | ended front semicolon h => exact List.append_ne_nil_of_right_ne_nil _ (List.cons_ne_nil _ _)
  | cut front hne => exact hne

theorem isEnd_eq_false (c : Chunk) : ∀ t ∈ c.tokens, t.isEnd = false := by
  cases c with
  | statement ts s hs => exact hs.isEnd_eq_false
  | ended front semicolon h =>
    intro t ht
    rcases List.mem_append.mp ht with ht | ht
    · exact front.isEnd_eq_false t ht
    · rw [List.mem_singleton.mp ht, Token.isEnd, h]
      rfl
  | cut front _ => exact front.isEnd_eq_false

theorem atEnd_append (c : Chunk) (after : List Token) : atEnd (c.tokens ++ after) = false := by
  have hends := c.isEnd_eq_false
  obtain ⟨t, ts, hts⟩ := List.exists_cons_of_ne_nil c.ne_nil
  rw [hts] at hends ⊢
  exact hends t List.mem_cons_self

/-- One round reads the chunk, and leaves what comes after it. -/
theorem exists_gives {c : Chunk} {after : List Token} (h : c.Fits after) :
    ∃ result, c.Gives after result ∧ parseOrSkip (c.tokens ++ after) = (result, after) := by
  rw [parseOrSkip]
  cases c with
  | statement ts s hs =>
    have halone := parse_append hs []
    rw [List.append_nil] at halone
    refine ⟨.ok s, ⟨rfl, by rw [halone]⟩, ?_⟩
    simp only [tokens, parse_append hs after, recovered]
  | ended front semicolon hsemicolon =>
    obtain ⟨p, hp, -, hrun⟩ := front.exists_run
    refine ⟨_, rfl, ?_⟩
    rw [hrun [semicolon], tokens, List.append_assoc, hrun]
    exact Progress.recovered_run_ended hp front.isInner hsemicolon after
  | cut front hne =>
    obtain ⟨opener, hopener, hkind⟩ := h
    obtain ⟨rest, rfl⟩ := List.head?_eq_some_iff.mp hopener
    obtain ⟨p, hp, hbegun, hrun⟩ := front.exists_run
    obtain ⟨t, ht, f, hround, hfault⟩ :=
      Progress.recovered_run_cut hp front.isInner hkind (hbegun hne) rest
    refine ⟨.error (.syntactic t f), ⟨?_, t, f, rfl, ?_⟩, ?_⟩
    · rw [List.head?_cons, Option.toList_some, hrun [opener], hfault]
    · rcases List.mem_append.mp ht with ht | ht
      · exact .inl (List.mem_append_right _ ht)
      · exact .inr (List.mem_singleton.mp ht ▸ rfl)
    · rw [tokens, hrun, hround]

end Chunk

/-- Chunks one after the other give one result each, in order, and what follows them gives the
    results that it gives by itself. -/
theorem faults_isolated {chunks : List Chunk} {rest : List Token} (h : Chunk.AllFit rest chunks) :
    ∃ results, Chunk.AllGive rest chunks results ∧ results.length = chunks.length ∧
      parseAll (chunks.flatMap Chunk.tokens ++ rest) =
        (results ++ (parseAll rest).1, (parseAll rest).2) := by
  induction chunks with
  | nil => exact ⟨[], .nil, rfl, rfl⟩
  | cons c cs ih =>
    obtain ⟨hc, hcs⟩ := h
    obtain ⟨result, hresult, hround⟩ := Chunk.exists_gives hc
    obtain ⟨results, hresults, hlength, hrest⟩ := ih hcs
    refine ⟨result :: results, .cons hresult hresults, congrArg (· + 1) hlength, ?_⟩
    rw [List.flatMap_cons, List.append_assoc, parseAll_of_atEnd_eq_false (c.atEnd_append _), hround,
      hrest]
    rfl

/-- In `print nil { } ) ;` the brace cuts the print short and is read as a block all the same. -/
theorem faults_isolated_brace :
    (∃ chunks, Chunk.AllFit [⟨.endOfFile, "", ⟨1, 18⟩⟩] chunks ∧ chunks.length = 3 ∧
      chunks.flatMap Chunk.tokens = [⟨.kwPrint, "print", ⟨1, 1⟩⟩, ⟨.kwNil, "nil", ⟨1, 7⟩⟩,
        ⟨.leftBrace, "\x7b", ⟨1, 11⟩⟩, ⟨.rightBrace, "\x7d", ⟨1, 13⟩⟩,
        ⟨.rightParen, ")", ⟨1, 15⟩⟩, ⟨.semicolon, ";", ⟨1, 17⟩⟩]) ∧
    parseAll [⟨.kwPrint, "print", ⟨1, 1⟩⟩, ⟨.kwNil, "nil", ⟨1, 7⟩⟩,
        ⟨.leftBrace, "\x7b", ⟨1, 11⟩⟩, ⟨.rightBrace, "\x7d", ⟨1, 13⟩⟩,
        ⟨.rightParen, ")", ⟨1, 15⟩⟩, ⟨.semicolon, ";", ⟨1, 17⟩⟩, ⟨.endOfFile, "", ⟨1, 18⟩⟩] =
      ([.error (.syntactic ⟨.leftBrace, "\x7b", ⟨1, 11⟩⟩ .expectedSemicolonAfterValue),
        .ok (.block []), .error (.syntactic ⟨.rightParen, ")", ⟨1, 15⟩⟩ .expectedExpression)],
        [⟨.endOfFile, "", ⟨1, 18⟩⟩]) := by
  let chunks : List Chunk := [
    .cut ⟨some ⟨.kwPrint, "print", ⟨1, 1⟩⟩, [⟨.kwNil, "nil", ⟨1, 7⟩⟩],
      by simp, by simp [Token.IsInner, Token.Kind.delimiters]⟩ (List.cons_ne_nil _ _),
    .statement [⟨.leftBrace, "\x7b", ⟨1, 11⟩⟩, ⟨.rightBrace, "\x7d", ⟨1, 13⟩⟩] (.block [])
      (.block rfl rfl .nil),
    .ended ⟨none, [⟨.rightParen, ")", ⟨1, 15⟩⟩],
      by simp, by simp [Token.IsInner, Token.Kind.delimiters]⟩
      ⟨.semicolon, ";", ⟨1, 17⟩⟩ rfl]
  have hfit : Chunk.AllFit [⟨.endOfFile, "", ⟨1, 18⟩⟩] chunks :=
    ⟨⟨⟨.leftBrace, "\x7b", ⟨1, 11⟩⟩, rfl, by simp [Token.IsOpener]⟩, trivial, trivial, trivial⟩
  refine ⟨⟨chunks, hfit, rfl, rfl⟩, ?_⟩
  obtain ⟨results, hresults, -, hparse⟩ := faults_isolated hfit
  unfold chunks at hresults
  obtain ⟨⟩ | ⟨hprint, ⟨⟩ | ⟨hblock, ⟨⟩ | ⟨hparen, ⟨⟩⟩⟩⟩ := hresults
  obtain rfl := hprint.1
  obtain rfl := hblock.1
  obtain rfl := hparen
  have hend : parseAll [⟨.endOfFile, "", ⟨1, 18⟩⟩] = ([], [⟨.endOfFile, "", ⟨1, 18⟩⟩]) :=
    (ProgramLoop.done rfl).eq_parseAll
  rw [hend] at hparse
  exact hparse

end Stmt

end BlockScript
