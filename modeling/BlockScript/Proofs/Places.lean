import BlockScript.Proofs.InternalFailure
import BlockScript.Proofs.ProgramLines
import BlockScript.Proofs.Scan.Spans
import BlockScript.Proofs.Transcript

/-!
# Diagnostics point at the source

A token is carried unchanged from the scanner through the parser into the tree and from there into
the fault of an operation, so that the place in a diagnostic is always one of the source, with the
text that the diagnostic shows (`Diagnostic.PointsInto`). The items of a source lie one after the
other, and so do the faults that a stage reports (`Session.diagnostics_point`).
-/

namespace BlockScript

/-! ## Places in order -/

namespace Position

/-- `p` lies on an earlier line than `q`, or further to the left on the same one. -/
def Before (p q : Position) : Prop := p.line < q.line ∨ p.line = q.line ∧ p.column < q.column

theorem Before.trans {p q r : Position} (h : p.Before q) (hr : q.Before r) : p.Before r := by
  unfold Before at *
  omega

theorem Before.irrefl (p : Position) : ¬ p.Before p := by
  unfold Before
  omega

theorem before_advance (p : Position) (c : Char) : p.Before (p.advance c) := by
  unfold Before advance
  split
  · exact .inl (Nat.lt_succ_self _)
  · exact .inr ⟨rfl, Nat.lt_succ_self _⟩

/-- The place moves on with every text that is not empty. -/
theorem before_after (p : Position) {cs : List Char} (h : cs ≠ []) : p.Before (p.after cs) := by
  induction cs generalizing p with
  | nil => exact absurd rfl h
  | cons c cs ih =>
    rw [after_cons]
    by_cases hcs : cs = []
    · rw [hcs]
      exact p.before_advance c
    · exact (p.before_advance c).trans (ih _ hcs)

theorem not_after_before (p : Position) (cs : List Char) : ¬ (p.after cs).Before p := by
  intro hbefore
  by_cases hcs : cs = []
  · subst hcs
    exact Before.irrefl p hbefore
  · exact Before.irrefl p ((p.before_after hcs).trans hbefore)

end Position

/-! ## What a diagnostic shows -/

namespace Diagnostic

/-- The place that a diagnostic reports. -/
def place? : Diagnostic → Option Position
  | lexical p _ => some p
  | syntactic t _ | runtime t _ => some t.position
  | unexpectedEnd | outputClosed => none

/-- Both diagnostics report a place, and that of `d` comes first. -/
def Precedes (d other : Diagnostic) : Prop :=
  ∃ p q, d.place? = some p ∧ other.place? = some q ∧ p.Before q

/-- The diagnostic reports a place of the source, and what it shows is there: the character that
    begins no token, a quote that is not closed, a lexeme, or the end. -/
inductive PointsInto (source : String) : Diagnostic → Prop
  | character {n : Nat} {c : Char} : source.toList[n]? = some c → PointsInto source
      (.lexical (.ofOffset source.toList n) (.unexpectedCharacter c))
  | quote {n : Nat} : source.toList[n]? = some '"' → '"' ∉ source.toList.drop (n + 1) →
      PointsInto source (.lexical (.ofOffset source.toList n) .unterminatedString)
  | lexeme {d : Diagnostic} {t : Token} {n : Nat} :
      d.token? = some t → t.position = .ofOffset source.toList n →
      d.header = placeText t.position ++ "Error" ++ s!" at '{t.lexeme}'" →
      t.lexeme ≠ "" → t.lexeme.toList <+: source.toList.drop n → PointsInto source d
  | atEnd {d : Diagnostic} {t : Token} :
      d.token? = some t → t.position = .ofOffset source.toList source.toList.length →
      d.header = placeText t.position ++ "Error" ++ " at end" → PointsInto source d

theorem header_of_token? {d : Diagnostic} {t : Token} (h : d.token? = some t) :
    d.header = placeText t.position ++ "Error" ++ tokenText t := by
  cases d with
  | syntactic u fault | runtime u fault =>
    obtain rfl := Option.some.inj h
    rfl
  | lexical p fault => cases h
  | unexpectedEnd | outputClosed => cases h

end Diagnostic

/-! ## Items -/

namespace Scan

open Piece (First)

/-- Each item is made of a piece of the text, at the place that follows what is in front of it. -/
theorem Lexes.exists_first_of_mem {p : Position} {cs : List Char}
    {items : List (Except Diagnostic Token)} (h : Lexes p cs items)
    {item : Except Diagnostic Token} (hitem : item ∈ items) :
    ∃ before text rest content, cs = before ++ (text ++ rest) ∧ First text rest content ∧
      Piece.item? (p.after before) ⟨content, text⟩ = some item := by
  -- What was taken off the front is added to `before` on the way back.
  have hback : ∀ {p : Position} {text rest : List Char}, (∃ before piece others content,
      rest = before ++ (piece ++ others) ∧ First piece others content ∧
        Piece.item? ((p.after text).after before) ⟨content, piece⟩ = some item) →
      ∃ before piece others content, text ++ rest = before ++ (piece ++ others) ∧
        First piece others content ∧
        Piece.item? (p.after before) ⟨content, piece⟩ = some item := by
    rintro p text rest ⟨before, piece, others, content, rfl, hfirst, hmade⟩
    refine ⟨text ++ before, piece, others, content, by rw [List.append_assoc], hfirst, ?_⟩
    rwa [Position.after_append]
  induction h with
  | done => cases hitem
  | skip _ _ ih => exact hback (ih hitem)
  | @token p text rest items kind hfirst _ ih =>
    rcases List.mem_cons.mp hitem with rfl | hitem
    · exact ⟨[], text, rest, .token kind, rfl, hfirst, rfl⟩
    · exact hback (ih hitem)
  | @fault p text rest items fault hfirst _ ih =>
    rcases List.mem_cons.mp hitem with rfl | hitem
    · exact ⟨[], text, rest, .fault fault, rfl, hfirst, rfl⟩
    · exact hback (ih hitem)

/-- The place of an item. -/
def place? : Except Diagnostic Token → Option Position
  | .ok t => some t.position
  | .error d => d.place?

/-- The item `a` lies before the item `b`. -/
def Precedes (a b : Except Diagnostic Token) : Prop :=
  ∃ p q, place? a = some p ∧ place? b = some q ∧ p.Before q

theorem place?_eq_of_item? {p : Position} {piece : Piece} {item : Except Diagnostic Token}
    (h : piece.item? p = some item) : place? item = some p := by
  unfold Piece.item? at h
  split at h <;> cases h <;> rfl

/-- An item lies at some place of the text, before the end. -/
theorem Lexes.exists_place_of_mem {p : Position} {cs : List Char}
    {items : List (Except Diagnostic Token)} (h : Lexes p cs items)
    {item : Except Diagnostic Token} (hitem : item ∈ items) :
    ∃ before rest, cs = before ++ rest ∧ rest ≠ [] ∧ place? item = some (p.after before) := by
  obtain ⟨before, text, rest, content, rfl, hfirst, hmade⟩ := h.exists_first_of_mem hitem
  obtain ⟨c, tail, rfl⟩ := hfirst.exists_cons
  exact ⟨before, _, rfl, List.cons_ne_nil c (tail ++ rest), place?_eq_of_item? hmade⟩

/-- The items lie one after the other. -/
theorem Lexes.pairwise {p : Position} {cs : List Char} {items : List (Except Diagnostic Token)}
    (h : Lexes p cs items) : items.Pairwise Precedes := by
  have hfront : ∀ {p : Position} {text rest : List Char} {content : Piece.Content}
      {items : List (Except Diagnostic Token)} {item : Except Diagnostic Token},
      First text rest content → Lexes (p.after text) rest items → place? item = some p →
      items.Pairwise Precedes → (item :: items).Pairwise Precedes := by
    intro p text rest content items item hfirst hrest hplace hpairwise
    refine List.pairwise_cons.mpr ⟨fun other hother => ?_, hpairwise⟩
    obtain ⟨before, more, -, -, hother⟩ := hrest.exists_place_of_mem hother
    obtain ⟨c, tail, rfl⟩ := hfirst.exists_cons
    refine ⟨p, _, hplace, hother, ?_⟩
    rw [← Position.after_append]
    exact p.before_after (List.cons_ne_nil c (tail ++ before))
  induction h with
  | done => exact .nil
  | skip _ _ ih => exact ih
  | token hfirst hrest ih => exact hfront hfirst hrest rfl ih
  | fault hfirst hrest ih => exact hfront hfirst hrest rfl ih

theorem pairwise_diagnostics (source : String) :
    (ofSource source).diagnostics.Pairwise Diagnostic.Precedes := by
  have hitems := (lexes_itemsAt .start source.toList).pairwise
  refine List.pairwise_filterMap.mpr (hitems.imp ?_)
  intro a b hab d hd other hother
  cases a with
  | ok t => cases hd
  | error =>
    cases b with
    | ok t => cases hother
    | error =>
      obtain rfl := Option.some.inj hd
      obtain rfl := Option.some.inj hother
      exact hab

/-- The tokens lie one after the other, and the mark of the end after all others. -/
theorem pairwise_tokens (source : String) :
    (ofSource source).tokens.Pairwise fun t u => t.position.Before u.position := by
  have hlexes := lexes_itemsAt .start source.toList
  refine List.pairwise_append.mpr ⟨?_, List.pairwise_singleton _ _, ?_⟩
  · refine List.pairwise_filterMap.mpr (hlexes.pairwise.imp ?_)
    intro a b hab t ht u hu
    cases a with
    | error d => cases ht
    | ok =>
      cases b with
      | error d => cases hu
      | ok =>
        obtain rfl := Option.some.inj ht
        obtain rfl := Option.some.inj hu
        obtain ⟨p, q, hp, hq, hbefore⟩ := hab
        rwa [Option.some.inj hp, Option.some.inj hq]
  · intro t ht u hu
    obtain ⟨item, hitem, ht⟩ := List.mem_filterMap.mp ht
    obtain ⟨before, rest, heq, hrest, hplace⟩ := hlexes.exists_place_of_mem hitem
    cases item with
    | error d => cases ht
    | ok =>
      obtain rfl := Option.some.inj ht
      rw [List.mem_singleton.mp hu, Option.some.inj hplace, endToken, heq, Position.after_append]
      exact Position.before_after _ hrest

/-- The text that is reported is where the diagnostic says it is. -/
theorem pointsInto_of_mem_diagnostics {source : String} {d : Diagnostic}
    (h : d ∈ (ofSource source).diagnostics) : d.PointsInto source := by
  obtain ⟨before, text, rest, content, heq, hfirst, hmade⟩ :=
    (lexes_itemsAt .start source.toList).exists_first_of_mem (mem_diagnostics.mp h)
  rw [Position.start_after before (text ++ rest), ← heq] at hmade
  cases hfirst with
  | blank | comment => cases hmade
  | token => cases hmade
  | unexpected =>
    cases hmade
    apply Diagnostic.PointsInto.character
    rw [heq]
    simp
  | unterminated hcs =>
    cases hmade
    apply Diagnostic.PointsInto.quote
    · rw [heq]
      simp
    · rw [heq]
      simpa using hcs

/-- The lexeme of a token is where the token says it is. -/
theorem exists_lexeme_of_mem_items {source : String} {t : Token} (h : .ok t ∈ items source) :
    ∃ n, t.position = .ofOffset source.toList n ∧ t.isEnd = false ∧ t.lexeme ≠ "" ∧
      t.lexeme.toList <+: source.toList.drop n := by
  obtain ⟨before, text, rest, content, heq, hfirst, hmade⟩ :=
    (lexes_itemsAt .start source.toList).exists_first_of_mem h
  rw [Position.start_after before (text ++ rest), ← heq] at hmade
  cases content with
  | blank | fault => cases hmade
  | token kind =>
    cases hmade
    refine ⟨before.length, rfl, decide_eq_false hfirst.kind_ne_endOfFile, ?_, ?_⟩
    · obtain ⟨c, tail, rfl⟩ := hfirst.exists_cons
      intro hempty
      cases String.ofList_eq_empty_iff.mp hempty
    · rw [heq, List.drop_left, String.toList_ofList]
      exact List.prefix_append text rest

/-- A diagnostic at a token of a source points at it. -/
theorem pointsInto_of_token? {source : String} {d : Diagnostic} {t : Token}
    (hd : d.token? = some t) (ht : t ∈ (ofSource source).tokens) : d.PointsInto source := by
  have hheader := Diagnostic.header_of_token? hd
  rcases mem_tokens.mp ht with ht | rfl
  · obtain ⟨n, hposition, hend, hne, hprefix⟩ := exists_lexeme_of_mem_items ht
    rw [Diagnostic.tokenText, hend] at hheader
    exact .lexeme hd hposition hheader hne hprefix
  · have hposition := Position.start_after source.toList []
    rw [List.append_nil] at hposition
    exact .atEnd hd hposition hheader

end Scan

/-! ## Trees -/

/-- The token stands for an operation or is a name. -/
def Token.IsOperatorOrName (t : Token) : Prop :=
  (UnaryOp.ofKind? t.kind).isSome ∨ (BinaryOp.ofKind? t.kind).isSome ∨ t.kind = .identifier

/-- The operators and the names of a tree are among the tokens that it was read from. -/
theorem Expr.Derives.mem_of_mem_tokens {level : Level} {ts : List Token} {e : Expr}
    (h : Derives level ts e) : ∀ t ∈ e.tokens, t ∈ ts ∧ t.IsOperatorOrName := by
  induction h with
  | next _ ih => exact ih
  | @assign name equals ts value hname _ _ ih =>
    intro t ht
    rcases List.mem_cons.mp ht with rfl | ht
    · exact ⟨List.mem_cons_self, .inr (.inr hname)⟩
    · obtain ⟨hmem, hkind⟩ := ih t ht
      exact ⟨by simp [hmem], hkind⟩
  | @binary level op ts us left right hop _ _ ihl ihr =>
    intro t ht
    rcases List.mem_append.mp ht with ht | ht
    · obtain ⟨hmem, hkind⟩ := ihl t ht
      exact ⟨List.mem_append_left _ hmem, hkind⟩
    · rcases List.mem_cons.mp ht with rfl | ht
      · obtain ⟨o, ho, -⟩ := Level.exists_ofKind?_eq_some hop
        exact ⟨by simp, .inr (.inl (Option.isSome_iff_exists.mpr ⟨o, ho⟩))⟩
      · obtain ⟨hmem, hkind⟩ := ihr t ht
        exact ⟨by simp [hmem], hkind⟩
  | @unary op ts operand hop _ ih =>
    intro t ht
    rcases List.mem_cons.mp ht with rfl | ht
    · refine ⟨List.mem_cons_self, .inl ?_⟩
      rcases hop with hop | hop <;> rw [hop] <;> rfl
    · obtain ⟨hmem, hkind⟩ := ih t ht
      exact ⟨List.mem_cons_of_mem op hmem, hkind⟩
  | literal => nofun
  | var hname =>
    intro t ht
    obtain rfl := List.mem_singleton.mp ht
    exact ⟨List.mem_singleton_self t, .inr (.inr hname)⟩
  | grouping _ _ _ ih =>
    intro t ht
    obtain ⟨hmem, hkind⟩ := ih t ht
    exact ⟨by simp [hmem], hkind⟩

namespace Stmt

mutual

theorem Derives.mem_of_mem_tokens {ts : List Token} {s : Stmt} :
    Derives ts s → ∀ t ∈ s.tokens, t ∈ ts ∧ t.IsOperatorOrName
  | .declare _ hname _, t, ht => by
    obtain rfl := List.mem_singleton.mp ht
    exact ⟨by simp, .inr (.inr hname)⟩
  | .define _ hname _ he _, t, ht => by
    rcases List.mem_cons.mp ht with rfl | ht
    · exact ⟨by simp, .inr (.inr hname)⟩
    · obtain ⟨hmem, hkind⟩ := he.mem_of_mem_tokens t ht
      exact ⟨by simp [hmem], hkind⟩
  | .print _ he _, t, ht => by
    obtain ⟨hmem, hkind⟩ := he.mem_of_mem_tokens t ht
    exact ⟨by simp [hmem], hkind⟩
  | .block _ _ hbody, t, ht => by
    obtain ⟨hmem, hkind⟩ := hbody.mem_of_mem_tokens t ht
    exact ⟨by simp [hmem], hkind⟩
  | .expression he _, t, ht => by
    obtain ⟨hmem, hkind⟩ := he.mem_of_mem_tokens t ht
    exact ⟨by simp [hmem], hkind⟩

theorem DerivesAll.mem_of_mem_tokens {ts : List Token} {ss : List Stmt} :
    DerivesAll ts ss → ∀ t ∈ allTokens ss, t ∈ ts ∧ t.IsOperatorOrName
  | .nil, t, ht => nomatch ht
  | .cons hs hss, t, ht => by
    rcases List.mem_append.mp ht with ht | ht
    · obtain ⟨hmem, hkind⟩ := hs.mem_of_mem_tokens t ht
      exact ⟨List.mem_append_left _ hmem, hkind⟩
    · obtain ⟨hmem, hkind⟩ := hss.mem_of_mem_tokens t ht
      exact ⟨List.mem_append_right _ hmem, hkind⟩

end

theorem mem_allTokens {ss : List Stmt} {t : Token} :
    t ∈ allTokens ss ↔ ∃ s ∈ ss, t ∈ s.tokens := by
  induction ss with
  | nil => simp [allTokens]
  | cons s ss ih => simp [allTokens, ih]

/-- The statement was read from the tokens of the source, by itself or with all that were left. -/
def IsReadFrom (source : String) (s : Stmt) : Prop :=
  ∃ ts, Program.Unread source ts ∧ ((parse ts).1 = .ok s ∨ .ok s ∈ (parseAll ts).1)

/-- The operators and the names of a statement are tokens of the source. -/
theorem IsReadFrom.mem_of_mem_tokens {source : String} {s : Stmt} (h : s.IsReadFrom source)
    {t : Token} (ht : t ∈ s.tokens) :
    t ∈ (Scan.ofSource source).tokens ∧ t.IsOperatorOrName := by
  obtain ⟨ts, hts, hread⟩ := h
  obtain ⟨us, hus, hparse⟩ : ∃ us, Token.Leaves ts us ∧ (parse us).1 = .ok s := by
    rcases hread with hread | hread
    · exact ⟨ts, .refl ts, hread⟩
    · exact exists_parse_of_mem_parseAll hread
  obtain ⟨vs, heq, hs⟩ := derives_of_parse (Prod.ext hparse rfl : parse us = (.ok s, (parse us).2))
  obtain ⟨hmem, hkind⟩ := hs.mem_of_mem_tokens t ht
  refine ⟨(hts.leaves.trans hus).suffix.subset ?_, hkind⟩
  rw [heq]
  exact List.mem_append_left _ hmem

end Stmt

/-! ## What a session reports -/

namespace Program

variable {source : String}

/-- The faults of the syntax lie one after the other, each at another token. -/
theorem Unread.pairwise {ts : List Token} (h : Unread source ts) :
    (Diagnostic.ofResults (Stmt.parseAll ts).1).Pairwise Diagnostic.Precedes ∧
      (Stmt.faulty (Stmt.parseAll ts).1).Nodup := by
  have hsublist := (Stmt.sublist_of_parseAll ts).1.trans h.leaves.suffix.sublist
  have hfaulty := (Scan.pairwise_tokens source).sublist hsublist
  constructor
  · refine (List.pairwise_filterMap.mp hfaulty).imp_of_mem ?_
    intro d other hd hother hbefore
    have hsyntactic : ∀ {d}, d ∈ Diagnostic.ofResults (Stmt.parseAll ts).1 →
        ∃ t ∈ ts, ∃ fault, d = .syntactic t fault := by
      intro d hd
      exact h.exists_syntactic (.inr (.inr (Diagnostic.mem_ofResults.mp hd)))
    obtain ⟨t, -, fault, rfl⟩ := hsyntactic hd
    obtain ⟨u, -, other, rfl⟩ := hsyntactic hother
    exact ⟨t.position, u.position, rfl, rfl, hbefore t rfl u rfl⟩
  · refine hfaulty.imp ?_
    rintro t u hbefore rfl
    exact Position.Before.irrefl _ hbefore

/-- A fault that is found when tokens of the source are read points at one of them. -/
theorem Unread.pointsInto {ts : List Token} (h : Unread source ts) {d : Diagnostic}
    (hd : (Expr.parse ts).1 = .error d ∨ (Stmt.parse ts).1 = .error d ∨
      .error d ∈ (Stmt.parseAll ts).1) : d.PointsInto source := by
  obtain ⟨t, ht, fault, rfl⟩ := h.exists_syntactic hd
  exact Scan.pointsInto_of_token? rfl (h.leaves.suffix.subset ht)

theorem eq_of_tokens {ts : List Token} (h : tokens source = .ok ts) :
    ts = (Scan.ofSource source).tokens := by
  simp only [tokens] at h
  split at h <;> cases h
  rfl

/-- A program is read from the tokens of its source. -/
theorem isReadFrom_of_ofSource {program : List Stmt} (h : ofSource source = .ok program) :
    ∀ s ∈ program, s.IsReadFrom source := by
  intro s hs
  unfold ofSource at h
  split at h
  case h_1 => cases h
  case h_2 ts hts =>
    obtain rfl := eq_of_tokens hts
    refine ⟨_, .start, .inr ?_⟩
    simp only [ofTokens] at h
    split at h <;> cases h
    obtain ⟨result, hresult, hs⟩ := List.mem_filterMap.mp hs
    cases result with
    | error d => cases hs
    | ok =>
      obtain rfl := Option.some.inj hs
      exact hresult

/-- What is wrong with a source is what is wrong with its lexemes, or else with its syntax. -/
theorem ofSource_eq_error {ds : List Diagnostic} (h : ofSource source = .error ds) :
    ds = (Scan.ofSource source).diagnostics ∨
      ds = Diagnostic.ofResults (Stmt.parseAll (Scan.ofSource source).tokens).1 := by
  unfold ofSource at h
  split at h
  case h_1 hscan =>
    simp only [tokens] at hscan
    split at hscan <;> cases hscan
    cases h
    exact .inl rfl
  case h_2 ts hts =>
    obtain rfl := eq_of_tokens hts
    simp only [ofTokens] at h
    split at h <;> cases h
    exact .inr rfl

end Program

/-- Each diagnostic that is reported while a source is scanned, its tokens are read, and what is
    read is evaluated and run by the machine points at the source, and those that one stage lists
    do so in order. -/
structure Session.Points (source : String) (m : Machine) : Prop where
  scanning : ∀ d ∈ (Scan.ofSource source).diagnostics, d.PointsInto source
  scanning_in_order : (Scan.ofSource source).diagnostics.Pairwise Diagnostic.Precedes
  reading : ∀ ts, Program.Unread source ts → ∀ d, (Expr.parse ts).1 = .error d ∨
    (Stmt.parse ts).1 = .error d ∨ .error d ∈ (Stmt.parseAll ts).1 → d.PointsInto source
  /-- No two faults of the syntax are at one token. -/
  reading_in_order : ∀ ts, Program.Unread source ts →
    (Diagnostic.ofResults (Stmt.parseAll ts).1).Pairwise Diagnostic.Precedes ∧
      (Stmt.faulty (Stmt.parseAll ts).1).Nodup
  /-- An expression fails at one of its operators or names. -/
  evaluating : ∀ ts, Program.Unread source ts → ∀ e, (Expr.parse ts).1 = .ok e →
    ∀ d, (m.eval e).1 = .error d →
      d.PointsInto source ∧ ∃ t ∈ e.tokens, d.token? = some t ∧ t.IsOperatorOrName
  /-- Unless not all of a print was taken, statements fail at an operator or a name of the one that
      failed. -/
  running : ∀ ss, (∀ s ∈ ss, s.IsReadFrom source) →
    ∀ d, (Stmt.execAll m ss).1 = .error d → d ≠ .outputClosed →
      d.PointsInto source ∧ ∃ address s, Stmt.FailsAt m ss address s d ∧
        ∃ t ∈ s.tokens, d.token? = some t ∧ t.IsOperatorOrName
  /-- All that is wrong after the run of the whole source. -/
  reported : (∀ d ∈ (Session.run m source).1.diagnostics, d ≠ .outputClosed →
    d.PointsInto source) ∧ (Session.run m source).1.diagnostics.Pairwise Diagnostic.Precedes

namespace Session

variable {source : String} {m : Machine}

theorem pointsInto_of_eval {ts : List Token} (hts : Program.Unread source ts) {e : Expr}
    (he : (Expr.parse ts).1 = .ok e) {d : Diagnostic} (hd : (m.eval e).1 = .error d) :
    d.PointsInto source ∧ ∃ t ∈ e.tokens, d.token? = some t ∧ t.IsOperatorOrName := by
  obtain ⟨t, ht, fault, rfl, -⟩ := Expr.exists_runtime_of_eval hd
  obtain ⟨us, heq, hderives⟩ :=
    Expr.derives_of_parse (Prod.ext he rfl : Expr.parse ts = (.ok e, (Expr.parse ts).2))
  obtain ⟨hmem, hkind⟩ := hderives.mem_of_mem_tokens t ht
  refine ⟨Scan.pointsInto_of_token? rfl ?_, t, ht, rfl, hkind⟩
  apply hts.leaves.suffix.subset
  rw [heq]
  exact List.mem_append_left _ hmem

theorem pointsInto_of_execAll {ss : List Stmt} (hss : ∀ s ∈ ss, s.IsReadFrom source)
    {d : Diagnostic} (hd : (Stmt.execAll m ss).1 = .error d) (hopen : d ≠ .outputClosed) :
    d.PointsInto source ∧ ∃ address s, Stmt.FailsAt m ss address s d ∧
      ∃ t ∈ s.tokens, d.token? = some t ∧ t.IsOperatorOrName := by
  obtain ⟨address, s, hfails⟩ := Stmt.execAll_eq_error_iff.mp hd
  rcases hfails.exists_runtime with ⟨t, ht, fault, rfl, -⟩ | ⟨hclosed, -⟩
  · obtain ⟨whole, hwhole, hmem⟩ := Stmt.mem_allTokens.mp (hfails.tokens_subset ht)
    obtain ⟨htoken, hkind⟩ := (hss whole hwhole).mem_of_mem_tokens hmem
    exact ⟨Scan.pointsInto_of_token? rfl htoken, address, s, hfails, t, ht, rfl, hkind⟩
  · exact absurd hclosed hopen

/-- What is wrong after a run was found by one stage, and each stage finds its faults in order. -/
theorem pointsInto_of_run : (∀ d ∈ (run m source).1.diagnostics, d ≠ .outputClosed →
    d.PointsInto source) ∧ (run m source).1.diagnostics.Pairwise Diagnostic.Precedes := by
  rw [run_eq_execute]
  cases hprogram : Program.ofSource source with
  | error ds =>
    rcases Program.ofSource_eq_error hprogram with rfl | rfl
    · exact ⟨fun d hd _ => Scan.pointsInto_of_mem_diagnostics hd, Scan.pairwise_diagnostics source⟩
    · refine ⟨fun d hd _ => ?_, Program.Unread.start.pairwise.1⟩
      exact Program.Unread.start.pointsInto (.inr (.inr (Diagnostic.mem_ofResults.mp hd)))
  | ok program =>
    have hread := Program.isReadFrom_of_ofSource hprogram
    have hfailed := @pointsInto_of_execAll source m program hread
    rw [execute]
    generalize Stmt.execAll m program = outcome at hfailed
    obtain ⟨result, after⟩ := outcome
    cases result with
    | ok _ => exact ⟨fun d hd => absurd hd List.not_mem_nil, .nil⟩
    | error d =>
      refine ⟨fun other hother hopen => ?_, List.pairwise_singleton _ d⟩
      obtain rfl := List.mem_singleton.mp hother
      exact (hfailed rfl hopen).1

theorem diagnostics_point (source : String) (m : Machine) : Points source m where
  scanning _ := Scan.pointsInto_of_mem_diagnostics
  scanning_in_order := Scan.pairwise_diagnostics source
  reading _ hts _ := hts.pointsInto
  reading_in_order _ hts := hts.pairwise
  evaluating _ hts _ he _ := pointsInto_of_eval hts he
  running _ hss _ := pointsInto_of_execAll hss
  reported := pointsInto_of_run

end Session

end BlockScript
