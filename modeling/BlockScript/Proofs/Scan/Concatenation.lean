import BlockScript.Proofs.Relocation
import BlockScript.Proofs.Scan.LongestMatch

/-!
# Scanning a text part by part

No lexeme but a string has a blank in it, or more than a semicolon where it has one. So a token that
stands in front of a text stands there as well when a blank or a semicolon follows, and then
anything else (`Piece.First.append`), and a line feed ends all but a string that is not closed: what
is in front of it and what is after it are scanned apart (`Scan.ofSource_append_newline`). Where the
text begins changes nothing but the places of the items (`Scan.itemsAt_move`).
-/

namespace BlockScript

namespace Position

/-- The same column, `n` lines further down. -/
def down (n : Nat) (p : Position) : Position := ⟨p.line + n, p.column⟩

theorem down_advance (n : Nat) (p : Position) (c : Char) :
    (p.advance c).down n = (p.down n).advance c := by
  unfold advance
  split
  · rw [down, down, Nat.add_right_comm]
  · rfl

/-- A line feed leads to the first column of the next line. -/
theorem after_newline (p : Position) (cs : List Char) :
    p.after (cs ++ ['\n']) = ⟨p.line + (cs.count '\n' + 1), 1⟩ := by
  induction cs generalizing p with
  | nil => rfl
  | cons c cs ih =>
    rw [List.cons_append, after_cons, ih, advance, List.count_cons]
    by_cases hc : c = '\n'
    · simp [hc]
      omega
    · simp [hc]

theorem start_after_newline (cs : List Char) :
    start.after (cs ++ ['\n']) = start.down (cs.count '\n' + 1) :=
  start.after_newline cs

end Position

namespace Diagnostic

variable {α : Type}

theorem ofResults_map_ok (as : List α) : ofResults (as.map .ok) = [] := by
  induction as with
  | nil => rfl
  | cons a as ih => exact ih

theorem filterMap_toOption_map_ok (as : List α) :
    (as.map .ok : List (Except Diagnostic α)).filterMap Except.toOption = as := by
  induction as with
  | nil => rfl
  | cons a as ih => exact congrArg (a :: ·) ih

theorem exists_map_ok_of_ofResults {results : List (Except Diagnostic α)}
    (h : ofResults results = []) : ∃ as : List α, results = as.map .ok := by
  induction results with
  | nil => exact ⟨[], rfl⟩
  | cons result rest ih =>
    cases result with
    | error d => cases h
    | ok a =>
      obtain ⟨as, rfl⟩ := ih h
      exact ⟨a :: as, rfl⟩

end Diagnostic

namespace Piece

theorem prefix_of_not_mem {α : Type} {text cs more : List α} {c : α} (hc : c ∉ text)
    (h : text <+: cs ++ c :: more) : text <+: cs := by
  rcases List.prefix_or_prefix_of_prefix h (List.prefix_append cs (c :: more)) with hle | hle
  · exact hle
  · obtain ⟨tail, rfl⟩ := hle
    cases tail with
    | nil => simp
    | cons d tail =>
      have htail := (List.prefix_append_right_inj cs).mp h
      obtain ⟨rfl, -⟩ := List.cons_prefix_cons.mp htail
      simp at hc

/-! ## Which characters are in lexemes -/

theorem IsNumeral.isDigit_or_eq {text : List Char} (h : IsNumeral text) {c : Char}
    (hc : c ∈ text) : c.isDigit = true ∨ c = '.' := by
  cases h with
  | whole hdigits => exact .inl (hdigits.2 c hc)
  | fraction hdigits hplaces =>
    rcases List.mem_append.mp hc with hc | hc
    · exact .inl (hdigits.2 c hc)
    · rcases List.mem_cons.mp hc with rfl | hc
      · exact .inr rfl
      · exact .inl (hplaces.2 c hc)

/-- Of the lexemes that are no strings only operators have a character in them that is neither a
    letter nor a digit nor the point. -/
theorem IsLexeme.eq_operator_of_mem {text : List Char} {cls : LexemeClass} {c : Char}
    (h : IsLexeme text cls) (hcls : cls ≠ .string) (hmem : c ∈ text)
    (hc : ¬ IsLetter c ∧ c.isDigit = false ∧ c ≠ '.') : cls = .operator := by
  obtain ⟨hletter, hdigit, hpoint⟩ := hc
  rw [← Bool.not_eq_true] at hdigit
  cases h with
  | operator => rfl
  | numeral hnumeral =>
    rcases hnumeral.isDigit_or_eq hmem with hd | hd
    · exact absurd hd hdigit
    · exact absurd hd hpoint
  | word hfirst hparts =>
    rcases List.mem_cons.mp hmem with rfl | hmem
    · exact absurd hfirst hletter
    · rcases hparts c hmem with hd | hd
      · exact absurd hd hletter
      · exact absurd hd hdigit
  | string => exact absurd rfl hcls

theorem IsLexeme.not_mem_blanks_of_mem {text : List Char} {cls : LexemeClass}
    (h : IsLexeme text cls) (hcls : cls ≠ .string) : ∀ c ∈ text, c ∉ blanks := by
  intro c hmem hc
  have hall : blanks.all (fun c => (¬ IsLetter c ∧ c.isDigit = false ∧ c ≠ '.') ∧
      ∀ entry ∈ operators, c ∉ entry.1) = true := by decide
  obtain ⟨hsign, hoperators⟩ := of_decide_eq_true (List.all_eq_true.mp hall c hc)
  obtain rfl := h.eq_operator_of_mem hcls hmem hsign
  obtain ⟨kind, hoperator⟩ := h.mem_operators
  exact hoperators _ hoperator hmem

/-- A lexeme that is no string does not reach over a blank. -/
theorem IsLexeme.prefix_of_blank {text cs more : List Char} {c : Char} {cls : LexemeClass}
    (h : IsLexeme text cls) (hcls : cls ≠ .string) (hc : c ∈ blanks)
    (hfront : text <+: cs ++ c :: more) : text <+: cs :=
  prefix_of_not_mem (fun hmem => h.not_mem_blanks_of_mem hcls c hmem hc) hfront

theorem IsLexeme.eq_quote {c : Char} {cs : List Char} (h : IsLexeme (c :: cs) .string) :
    c = '"' := by
  cases h
  rfl

/-! ## What may follow -/

/-- The character stands by itself: it is in no lexeme but strings and, maybe, the one that is made
    of it alone. It does not begin a comment either. -/
structure IsSeparate (c : Char) : Prop where
  ne_slash : c ≠ '/'
  eq_of_mem : ∀ {text cls}, IsLexeme text cls → cls ≠ .string → c ∈ text → text = [c]

theorem isSeparate_of_blank {c : Char} (hc : c ∈ blanks) : IsSeparate c := by
  refine ⟨?_, fun h hcls hmem => absurd hc (h.not_mem_blanks_of_mem hcls c hmem)⟩
  rintro rfl
  exact absurd hc (by decide)

theorem isSeparate_semicolon : IsSeparate ';' := by
  refine ⟨by decide, ?_⟩
  intro text cls h hcls hmem
  have hall : ∀ entry ∈ operators, ';' ∈ entry.1 → entry.1 = [';'] := by decide
  obtain rfl := h.eq_operator_of_mem hcls hmem (by decide)
  obtain ⟨kind, hoperator⟩ := h.mem_operators
  exact hall _ hoperator hmem

/-- What follows the longest lexeme may be changed if no other lexeme than a string gets longer by
    that: a string ends where it ends, whatever follows. -/
theorem IsLongest.of_length_le {text rest more : List Char} {cls : LexemeClass}
    (h : IsLongest text rest cls)
    (hmore : ∀ other found, found ≠ .string → IsLexeme other found → other <+: text ++ more →
      other.length ≤ text.length) : IsLongest text more cls := by
  refine ⟨h.isLexeme, fun other found hfront hother => ?_⟩
  by_cases hfound : found = .string
  · subst hfound
    obtain ⟨d, tail, rfl, -⟩ := hother.exists_cons
    obtain rfl := hother.eq_quote
    obtain ⟨e, text, rfl, hcls⟩ := h.isLexeme.exists_cons
    simp only [List.cons_append] at hfront
    obtain ⟨rfl, -⟩ := List.cons_prefix_cons.mp hfront
    have htext := h.isLexeme
    rw [hcls, classAt_quote] at htext
    generalize hwhole : '"' :: text = whole at htext
    cases htext with
    | string hcontents =>
      obtain rfl := (List.cons.inj hwhole).2
      simp only [List.append_assoc, List.cons_append] at hfront
      exact Nat.le_of_eq (congrArg List.length (hother.eq_string hfront hcontents))
  · exact hmore other found hfound hother hfront

theorem IsLongest.append {text rest more : List Char} {c : Char} {cls : LexemeClass}
    (h : IsLongest text rest cls) (hc : IsSeparate c) : IsLongest text (rest ++ c :: more) cls := by
  refine h.of_length_le fun other found hfound hother hfront => ?_
  rw [← List.append_assoc] at hfront
  by_cases hmem : c ∈ other
  · obtain ⟨e, tail, rfl, -⟩ := h.isLexeme.exists_cons
    rw [hc.eq_of_mem hother hfound hmem]
    exact Nat.succ_le_succ (Nat.zero_le _)
  · exact h.length_le other found (prefix_of_not_mem hmem hfront) hother

/-- A token stays what it is when a character that stands by itself follows. -/
theorem First.append {text rest : List Char} {c : Char} {kind : Token.Kind}
    (h : First text rest (.token kind)) (hc : IsSeparate c) (more : List Char) :
    First text (rest ++ c :: more) (.token kind) := by
  cases h with
  | token hslash hlongest hmakes =>
    refine .token ?_ (hlongest.append hc) hmakes
    intro hfront
    rw [← List.append_assoc] at hfront
    refine hslash (prefix_of_not_mem ?_ hfront)
    intro hmem
    exact hc.ne_slash (by simpa using hmem)

theorem First.append_blank {text rest : List Char} {c : Char} {kind : Token.Kind}
    (h : First text rest (.token kind)) (hc : c ∈ blanks) (more : List Char) :
    First text (rest ++ c :: more) (.token kind) :=
  h.append (isSeparate_of_blank hc) more

/-- What follows a token may as well be missing. -/
theorem First.token_alone {text rest : List Char} {kind : Token.Kind}
    (h : First text rest (.token kind)) : First text [] (.token kind) := by
  cases h with
  | token hslash hlongest hmakes =>
    have hshorter : text ++ [] <+: text ++ rest := by simp
    refine .token (fun hfront => hslash (hfront.trans hshorter)) ⟨hlongest.isLexeme, ?_⟩ hmakes
    intro other cls hfront
    exact hlongest.length_le other cls (hfront.trans hshorter)

/-- A line feed ends whatever stands in front of a text, but a string that is not closed. -/
theorem First.append_newline {text rest : List Char} {content : Content}
    (h : First text rest content) (hclosed : content ≠ .fault .unterminatedString)
    (more : List Char) :
    First text (rest ++ '\n' :: more) content := by
  have hblank : '\n' ∈ blanks := by decide
  cases h with
  | blank hc => exact .blank hc
  | comment hbody hrest =>
    refine .comment hbody fun c hc => ?_
    cases rest with
    | nil => simpa using hc.symm
    | cons d rest => exact hrest c hc
  | token hslash hlongest hmakes =>
    exact (First.token hslash hlongest hmakes).append_blank hblank more
  | @unexpected c _ hc hquote hnone =>
    refine .unexpected hc hquote fun other cls hfront hother => ?_
    by_cases hcls : cls = .string
    · subst hcls
      obtain ⟨tail, rfl, -, -⟩ := hother.of_prefix hfront
      exact hquote hother.eq_quote
    · rw [← List.cons_append] at hfront
      exact hnone other cls (hother.prefix_of_blank hcls hblank hfront) hother
  | unterminated => exact absurd rfl hclosed

end Piece

namespace Scan

open Piece (First blanks)

theorem Lexes.itemsAt_append_newline {p : Position} {cs more : List Char}
    {items : List (Except Diagnostic Token)} (h : Lexes p cs items)
    (hclosed : ∀ q, .error (.lexical q .unterminatedString) ∉ items) :
    itemsAt p (cs ++ '\n' :: more) = items ++ itemsAt (p.after (cs ++ ['\n'])) more := by
  induction h with
  | done => exact itemsAt_append (First.blank (by decide : '\n' ∈ blanks))
  | @skip p text rest items hfirst _ ih =>
    have hfirst := hfirst.append_newline (by simp) more
    rw [List.append_assoc, itemsAt_append hfirst, ih hclosed, List.append_assoc,
      Position.after_append p text]
    rfl
  | @token p text rest items kind hfirst _ ih =>
    have hfirst := hfirst.append_newline (by simp) more
    have hrest := ih fun q hq => hclosed q (List.mem_cons_of_mem _ hq)
    rw [List.append_assoc, itemsAt_append hfirst, hrest, List.append_assoc,
      Position.after_append p text]
    rfl
  | @fault p text rest items fault hfirst _ ih =>
    have hfault : Piece.Content.fault fault ≠ .fault .unterminatedString := by
      intro heq
      cases heq
      exact hclosed p List.mem_cons_self
    have hfirst := hfirst.append_newline hfault more
    have hrest := ih fun q hq => hclosed q (List.mem_cons_of_mem _ hq)
    rw [List.append_assoc, itemsAt_append hfirst, hrest, List.append_assoc,
      Position.after_append p text]
    rfl

/-- What is in front of a line feed and what is after it are scanned apart, unless a string is not
    closed in front of it. -/
theorem itemsAt_append_newline {p : Position} {cs : List Char} (more : List Char)
    (hclosed : ∀ q, .error (.lexical q .unterminatedString) ∉ itemsAt p cs) :
    itemsAt p (cs ++ '\n' :: more) = itemsAt p cs ++ itemsAt (p.after (cs ++ ['\n'])) more :=
  (lexes_itemsAt p cs).itemsAt_append_newline hclosed

/-- A line feed closes no string. -/
theorem Lexes.exists_unterminated_newline {p : Position} {cs : List Char}
    {items : List (Except Diagnostic Token)} (h : Lexes p cs items)
    (hopen : ∃ q, .error (.lexical q .unterminatedString) ∈ items) :
    ∃ q, .error (.lexical q .unterminatedString) ∈ itemsAt p (cs ++ ['\n']) := by
  induction h with
  | done => simp at hopen
  | skip hfirst _ ih =>
    have hfirst := hfirst.append_newline (by simp) []
    rw [List.append_assoc, itemsAt_append hfirst]
    exact ih hopen
  | token hfirst _ ih =>
    have hfirst := hfirst.append_newline (by simp) []
    rw [List.append_assoc, itemsAt_append hfirst]
    obtain ⟨q, hq⟩ := ih (by simpa using hopen)
    exact ⟨q, List.mem_append_right _ hq⟩
  | @fault p text rest items fault hfirst _ ih =>
    by_cases hfault : fault = .unterminatedString
    · subst hfault
      cases hfirst with
      | @unterminated body hbody =>
        -- The string takes the line feed as well, and is still not closed.
        have hlonger : First ('"' :: (body ++ ['\n'])) [] (.fault .unterminatedString) :=
          .unterminated (by simpa using hbody)
        have hitems := itemsAt_append (p := p) hlonger
        rw [List.append_nil, ← List.cons_append] at hitems
        rw [List.append_nil, hitems]
        exact ⟨p, List.mem_append_left _ List.mem_cons_self⟩
    · have hfirst := hfirst.append_newline (by simpa using hfault) []
      rw [List.append_assoc, itemsAt_append hfirst]
      obtain ⟨q, hq⟩ := hopen
      rcases List.mem_cons.mp hq with heq | hq
      · cases heq
        exact absurd rfl hfault
      · obtain ⟨r, hr⟩ := ih ⟨q, hq⟩
        exact ⟨r, List.mem_append_right _ hr⟩

/-- What follows a line is scanned apart from it, unless the line has a string that is not
    closed. -/
theorem itemsAt_append_line {p : Position} {cs : List Char} (more : List Char)
    (hclosed : ∀ q, .error (.lexical q .unterminatedString) ∉ itemsAt p (cs ++ ['\n'])) :
    itemsAt p (cs ++ ['\n']) = itemsAt p cs ∧
    itemsAt p (cs ++ '\n' :: more) =
      itemsAt p (cs ++ ['\n']) ++ itemsAt (p.after (cs ++ ['\n'])) more := by
  have hinner : ∀ q, .error (.lexical q .unterminatedString) ∉ itemsAt p cs := by
    intro q hq
    obtain ⟨r, hr⟩ := (lexes_itemsAt p cs).exists_unterminated_newline ⟨q, hq⟩
    exact hclosed r hr
  have hline : itemsAt p (cs ++ ['\n']) = itemsAt p cs := by
    rw [itemsAt_append_newline [] hinner, itemsAt_nil, List.append_nil]
  rw [hline]
  exact ⟨rfl, itemsAt_append_newline more hinner⟩

/-- The token or the diagnostic at the place that `g` gives for its own. -/
def moveItem (g : Position → Position) : Except Diagnostic Token → Except Diagnostic Token
  | .ok t => .ok (t.move g)
  | .error d => .error (d.move g)

theorem after_move {g : Position → Position} {p : Position} {cs : List Char}
    (hg : ∀ c ∈ cs, ∀ q : Position, g (q.advance c) = (g q).advance c) :
    g (p.after cs) = (g p).after cs := by
  induction cs generalizing p with
  | nil => rfl
  | cons c cs ih =>
    rw [Position.after_cons, ih fun d hd => hg d (List.mem_cons_of_mem _ hd),
      hg c List.mem_cons_self, Position.after_cons]

/-- A text has the same items wherever it begins, if places are moved along with the text. -/
theorem itemsAt_move {g : Position → Position} {p : Position} {cs : List Char}
    (hg : ∀ c ∈ cs, ∀ q : Position, g (q.advance c) = (g q).advance c) :
    itemsAt (g p) cs = (itemsAt p cs).map (moveItem g) := by
  have hlexes := lexes_itemsAt p cs
  generalize itemsAt p cs = items at hlexes
  induction hlexes with
  | done => rw [itemsAt_nil, List.map_nil]
  | skip hfirst _ ih | token hfirst _ ih | fault hfirst _ ih =>
    rw [itemsAt_append hfirst, ← after_move fun c hc => hg c (List.mem_append_left _ hc),
      ih fun c hc => hg c (List.mem_append_right _ hc)]
    rfl

theorem map_moveItem (g : Position → Position) (items : List (Except Diagnostic Token)) :
    Diagnostic.ofResults (items.map (moveItem g)) =
      (Diagnostic.ofResults items).map (Diagnostic.move g) ∧
    (items.map (moveItem g)).filterMap Except.toOption =
      (items.filterMap Except.toOption).map (Token.move g) :=
  Diagnostic.map_results (fun _ => rfl) (fun _ => rfl) items

/-! ## Sources that are joined by a line feed -/

theorem items_append_newline {a b : String}
    (h : ∀ p, .lexical p .unterminatedString ∉ (ofSource a).diagnostics) :
    items (a ++ "\n" ++ b) =
      items a ++ (items b).map (moveItem (Position.down (a.toList.count '\n' + 1))) := by
  have hclosed : ∀ p, .error (.lexical p .unterminatedString) ∉ itemsAt .start a.toList :=
    fun p hp => h p (List.mem_filterMap.mpr ⟨_, hp, rfl⟩)
  have htext : (a ++ "\n" ++ b).toList = a.toList ++ '\n' :: b.toList := by simp
  show itemsAt .start _ = _
  rw [htext, itemsAt_append_newline _ hclosed, Position.start_after_newline,
    itemsAt_move fun c _ p => p.down_advance _ c]
  rfl

theorem endToken_append_newline (a b : String) :
    endToken (a ++ "\n" ++ b) =
      (endToken b).move (Position.down (a.toList.count '\n' + 1)) := by
  have htext : (a ++ "\n" ++ b).toList = (a.toList ++ ['\n']) ++ b.toList := by simp
  rw [endToken, htext, Position.after_append, Position.start_after_newline,
    ← after_move fun c _ p => p.down_advance _ c]
  rfl

/-- What is in front of a line feed and what is after it are scanned apart, unless a string is not
    closed in front of it. The tokens are those of the first source without the mark of its end, and
    those of the second as many lines further down; and so are the diagnostics. -/
theorem ofSource_append_newline {a b : String}
    (h : ∀ p, .lexical p .unterminatedString ∉ (ofSource a).diagnostics) :
    (ofSource (a ++ "\n" ++ b)).tokens = (ofSource a).tokens.dropLast ++
      (ofSource b).tokens.map (Token.move (Position.down (a.toList.count '\n' + 1))) ∧
    (ofSource (a ++ "\n" ++ b)).diagnostics = (ofSource a).diagnostics ++
      (ofSource b).diagnostics.map (Diagnostic.move (Position.down (a.toList.count '\n' + 1))) := by
  have hitems := items_append_newline (b := b) h
  have hmoved := map_moveItem (Position.down (a.toList.count '\n' + 1)) (items b)
  have hend := endToken_append_newline a b
  constructor
  · simp only [ofSource, hitems, List.filterMap_append, hmoved.2, hend, List.dropLast_concat,
      List.map_append, List.map_cons, List.map_nil, List.append_assoc]
  · simp only [ofSource, hitems, Diagnostic.ofResults, List.filterMap_append]
    exact congrArg _ hmoved.1

/-- The operator at the end is not joined to the equals sign, the quote in the comment opens no
    string, and the line feed within the string counts as well. -/
theorem ofSource_append_newline_operator :
    (ofSource "\"p\nq\" // \"\n@ !").diagnostics =
      [.lexical ⟨3, 1⟩ (.unexpectedCharacter '@')] ∧
    (ofSource ("\"p\nq\" // \"\n@ !" ++ "\n" ++ "= \"")).tokens =
      (ofSource "\"p\nq\" // \"\n@ !").tokens.dropLast ++
        (ofSource "= \"").tokens.map (Token.move (Position.down 3)) ∧
    (ofSource ("\"p\nq\" // \"\n@ !" ++ "\n" ++ "= \"")).diagnostics =
      (ofSource "\"p\nq\" // \"\n@ !").diagnostics ++
        (ofSource "= \"").diagnostics.map (Diagnostic.move (Position.down 3)) := by
  have hdiagnostics : (ofSource "\"p\nq\" // \"\n@ !").diagnostics =
      [.lexical ⟨3, 1⟩ (.unexpectedCharacter '@')] := by decide +kernel
  exact ⟨hdiagnostics, ofSource_append_newline (by simp [hdiagnostics])⟩

/-! ## Sources without a lexical fault -/

theorem Lexes.exists_first {p : Position} {cs : List Char} {items : List (Except Diagnostic Token)}
    {t : Token} (h : Lexes p cs items) (ht : .ok t ∈ items) :
    ∃ rest, First t.lexeme.toList rest (.token t.kind) := by
  induction h with
  | done => cases ht
  | skip _ _ ih => exact ih ht
  | @token p text rest items kind hfirst _ ih =>
    rcases List.mem_cons.mp ht with heq | ht
    · obtain rfl := Except.ok.inj heq
      refine ⟨rest, ?_⟩
      rw [String.toList_ofList]
      exact hfirst
    · exact ih ht
  | fault _ _ ih =>
    rcases List.mem_cons.mp ht with heq | ht
    · cases heq
    · exact ih ht

/-- Every token stood in front of some text. -/
theorem exists_first_of_items {source : String} {ts : List Token} {t : Token}
    (h : items source = ts.map .ok) (ht : t ∈ ts) :
    ∃ rest, First t.lexeme.toList rest (.token t.kind) := by
  refine (lexes_itemsAt .start source.toList).exists_first ?_
  show .ok t ∈ items source
  rw [h]
  exact List.mem_map_of_mem ht

theorem exists_tokens_of_moveItem {g : Position → Position} {ts : List Token}
    {items : List (Except Diagnostic Token)} (h : items.map (moveItem g) = ts.map .ok) :
    ∃ us : List Token, items = us.map .ok ∧ us.map (Token.move g) = ts := by
  induction items generalizing ts with
  | nil => exact ⟨[], rfl, (List.map_eq_nil_iff.mp h.symm).symm⟩
  | cons item items ih =>
    obtain ⟨t, rest, rfl, hitem, hrest⟩ := List.map_eq_cons_iff.mp h.symm
    obtain ⟨us, rfl, rfl⟩ := ih hrest.symm
    cases item with
    | error d => cases hitem
    | ok u =>
      obtain rfl := Except.ok.inj hitem
      exact ⟨u :: us, rfl, rfl⟩

theorem exists_tokens_of_diagnostics {source : String} (h : (ofSource source).diagnostics = []) :
    ∃ ts : List Token, items source = ts.map .ok :=
  Diagnostic.exists_map_ok_of_ofResults h

theorem ofSource_of_items {source : String} {ts : List Token} (h : items source = ts.map .ok) :
    ofSource source = ⟨ts ++ [endToken source], []⟩ := by
  rw [ofSource, h, Diagnostic.filterMap_toOption_map_ok, Diagnostic.ofResults_map_ok]

end Scan

theorem Program.ofSource_of_items {source : String} {ts : List Token}
    (h : Scan.items source = ts.map .ok) :
    ofSource source = ofTokens (ts ++ [Scan.endToken source]) := by
  simp only [ofSource, tokens, Scan.ofSource_of_items h]
  rfl

end BlockScript
