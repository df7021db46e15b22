import BlockScript.Proofs.Scan.LexicalGrammar

/-!
# Scanning takes the longest lexeme

`Piece.lead` looks at most two characters ahead, and yet what it finds is what the lexical grammar
has in front of the text (`Piece.firstAt_lead`). So the items of a source are those of the lexer
that skips blanks and comments and then takes the longest lexeme, and no other list of items is
(`Scan.items_longest_match`).
-/

namespace BlockScript.Piece

/-- The outcome for the text `c :: cs` is what stands in front of it. -/
def FirstAt (c : Char) (cs : List Char) (outcome : Content × Nat) : Prop :=
  First (c :: cs.take outcome.2) (cs.drop outcome.2) outcome.1

theorem length_le_of_prefix {p : Char → Bool} {text cs : List Char} (h : text <+: cs)
    (hp : ∀ c ∈ text, p c = true) : text.length ≤ (cs.takeWhile p).length := by
  obtain ⟨rest, rfl⟩ := h
  rw [List.takeWhile_append_of_pos hp, List.length_append]
  exact Nat.le_add_right _ _

theorem take_length_takeWhile (p : Char → Bool) (cs : List Char) :
    cs.take (cs.takeWhile p).length = cs.takeWhile p :=
  (List.prefix_iff_eq_take.mp (List.takeWhile_prefix p)).symm

theorem drop_length_takeWhile (p : Char → Bool) (cs : List Char) :
    cs.drop (cs.takeWhile p).length = cs.dropWhile p := by
  have happend := List.take_append_drop (cs.takeWhile p).length cs
  rw [take_length_takeWhile] at happend
  exact List.append_cancel_left (happend.trans List.takeWhile_append_dropWhile.symm)

/-- What follows a run of characters is none of them. -/
theorem head?_dropWhile_eq_false {p : Char → Bool} {cs : List Char} :
    ∀ c ∈ (cs.dropWhile p).head?, p c = false := by
  intro c hc
  have hhead := List.head?_dropWhile_not p cs
  rw [hc] at hhead
  simpa using hhead

theorem not_mem_takeWhile_ne (d : Char) (cs : List Char) : d ∉ cs.takeWhile (· ≠ d) := by
  intro hmem
  simpa using List.all_eq_true.mp List.all_takeWhile _ hmem

/-- A lexeme in front of `c :: cs` begins with `c`, which tells its class. -/
theorem IsLexeme.of_prefix {text cs : List Char} {c : Char} {cls : LexemeClass}
    (h : IsLexeme text cls) (hfront : text <+: c :: cs) :
    ∃ tail, text = c :: tail ∧ tail <+: cs ∧ cls = classAt c := by
  obtain ⟨d, tail, rfl, rfl⟩ := h.exists_cons
  obtain ⟨rfl, htail⟩ := List.cons_prefix_cons.mp hfront
  exact ⟨tail, rfl, htail, rfl⟩

/-! ## Operators -/

theorem IsLexeme.mem_operators {text : List Char} (h : IsLexeme text .operator) :
    ∃ kind, (text, kind) ∈ operators := by
  cases h with
  | operator hmem => exact ⟨_, hmem⟩

/-- An operator is one character, or one and an equals sign. -/
theorem tail_of_mem_operators {c : Char} {tail : List Char} {kind : Token.Kind}
    (h : (c :: tail, kind) ∈ operators) : tail = [] ∨ tail = ['='] := by
  have hall : ∀ entry ∈ operators, entry.1.tail = [] ∨ entry.1.tail = ['='] := by decide
  exact hall _ h

theorem firstAt_short {c : Char} {cs : List Char} {kind : Token.Kind}
    (hmem : ([c], kind) ∈ operators) (hslash : ¬ ['/', '/'] <+: c :: cs)
    (hlong : ∀ other, ([c, '='], other) ∈ operators → cs.head? ≠ some '=') :
    FirstAt c cs (.token kind, 0) := by
  refine .token hslash ⟨.operator hmem, ?_⟩ (.operator hmem)
  intro other cls hfront hother
  obtain ⟨tail, rfl, htail, rfl⟩ := hother.of_prefix hfront
  rw [classAt_of_mem_operators hmem] at hother
  obtain ⟨kind, hkind⟩ := hother.mem_operators
  rcases tail_of_mem_operators hkind with rfl | rfl
  · exact Nat.le_refl _
  · obtain ⟨rest, rfl⟩ := htail
    exact absurd rfl (hlong kind hkind)

theorem firstAt_long {c : Char} {cs : List Char} {kind : Token.Kind}
    (hmem : ([c, '='], kind) ∈ operators) (hcs : cs.head? = some '=') :
    FirstAt c cs (.token kind, 1) := by
  obtain ⟨rest, rfl⟩ := List.head?_eq_some_iff.mp hcs
  refine .token (by simp) ⟨.operator hmem, ?_⟩ (.operator hmem)
  intro other cls hfront hother
  obtain ⟨tail, rfl, -, rfl⟩ := hother.of_prefix hfront
  rw [classAt_of_mem_operators hmem] at hother
  obtain ⟨kind, hkind⟩ := hother.mem_operators
  rcases tail_of_mem_operators hkind with rfl | rfl <;> simp

theorem firstAt_leadOperator {c : Char} {cs : List Char} {short long : Token.Kind}
    (hshort : ([c], short) ∈ operators) (hlong : ([c, '='], long) ∈ operators) (hc : c ≠ '/') :
    FirstAt c cs (leadOperator short long cs) := by
  unfold leadOperator
  split
  case isTrue hcs => exact firstAt_long hlong hcs
  case isFalse hcs => exact firstAt_short hshort (by simp [hc.symm]) fun _ _ => hcs

theorem firstAt_leadSlash (cs : List Char) : FirstAt '/' cs (leadSlash cs) := by
  unfold leadSlash
  split
  case isTrue hcs =>
    obtain ⟨rest, rfl⟩ := List.head?_eq_some_iff.mp hcs
    rw [FirstAt, take_length_takeWhile, drop_length_takeWhile,
      List.takeWhile_cons_of_pos (by decide), List.dropWhile_cons_of_pos (by decide)]
    refine .comment (not_mem_takeWhile_ne _ _) fun c hc => ?_
    simpa using head?_dropWhile_eq_false c hc
  case isFalse hcs =>
    refine firstAt_short (by decide) ?_ ?_
    · rintro ⟨rest, hrest⟩
      cases hrest
      exact hcs rfl
    · intro other hother
      simp [operators] at hother

/-! ## Strings -/

theorem classAt_quote : classAt '"' = .string := by decide

/-- A lexeme that begins with a quote ends with the next one. -/
theorem IsLexeme.eq_string {other contents rest : List Char} {cls : LexemeClass}
    (h : IsLexeme other cls) (hfront : other <+: '"' :: (contents ++ '"' :: rest))
    (hcontents : '"' ∉ contents) : other = '"' :: (contents ++ ['"']) := by
  obtain ⟨tail, rfl, -, rfl⟩ := h.of_prefix hfront
  rw [classAt_quote] at h
  generalize htext : '"' :: tail = text at h hfront
  cases h with
  | @string inner hinner =>
    obtain ⟨others, heq⟩ := hfront
    simp only [List.cons_append, List.append_assoc, List.cons.injEq, true_and,
      List.nil_append] at heq
    have hclosed : ∀ rest : List Char, ∀ c ∈ ('"' :: rest).head?, c = '"' := by simp
    rw [← takeWhile_ne_append_eq hinner (hclosed others), heq,
      takeWhile_ne_append_eq hcontents (hclosed rest)]

theorem firstAt_leadString (cs : List Char) : FirstAt '"' cs (leadString cs) := by
  have hcontents := not_mem_takeWhile_ne '"' cs
  have happend := List.takeWhile_append_dropWhile (p := (· ≠ '"')) (l := cs)
  unfold leadString
  simp only [drop_length_takeWhile]
  split
  case h_1 hrest =>
    rw [hrest, List.append_nil] at happend
    rw [FirstAt, take_length_takeWhile, drop_length_takeWhile, hrest, happend]
    exact .unterminated (happend ▸ hcontents)
  case h_2 c rest hrest =>
    have hc := head?_dropWhile_eq_false c (by rw [hrest]; rfl)
    obtain rfl : c = '"' := by simpa using hc
    rw [hrest] at happend
    generalize cs.takeWhile (· ≠ '"') = contents at hcontents happend ⊢
    subst happend
    have htake : (contents ++ '"' :: rest).take (contents.length + 1) = contents ++ ['"'] :=
      List.take_length_add_append _
    have hdrop : (contents ++ '"' :: rest).drop (contents.length + 1) = rest :=
      List.drop_length_add_append _
    rw [FirstAt, htake, hdrop]
    refine .token (by simp) ⟨.string hcontents, ?_⟩ .string
    intro other cls hfront hother
    have hfront : other <+: '"' :: (contents ++ '"' :: rest) := by simpa using hfront
    exact Nat.le_of_eq (congrArg List.length (hother.eq_string hfront hcontents))

/-! ## Words -/

theorem isWordStart_iff {c : Char} : isWordStart c = true ↔ IsLetter c := by
  simp [isWordStart, IsLetter]

theorem isWordPart_iff {c : Char} : isWordPart c = true ↔ IsLetter c ∨ c.isDigit = true := by
  simp [isWordPart, isWordStart_iff]

theorem makes_ofWord (text : List Char) :
    Makes .word text (.ofWord (String.ofList text)) := by
  rw [Token.Kind.ofWord]
  cases hlookup : Token.Kind.keywords.lookup (String.ofList text) with
  | none =>
    refine .name fun kind hkind => ?_
    rw [lookup_of_mem_keywords hkind] at hlookup
    cases hlookup
  | some kind =>
    obtain ⟨before, after, heq, -⟩ := List.lookup_eq_some_iff.mp hlookup
    exact .keyword (by rw [heq]; simp)

theorem firstAt_leadWord {c : Char} (cs : List Char) (hc : IsLetter c) :
    FirstAt c cs (leadWord c cs) := by
  have hslash : c ≠ '/' := by
    rintro rfl
    exact absurd hc (by decide)
  rw [leadWord, FirstAt, take_length_takeWhile, drop_length_takeWhile]
  refine .token (by simp [hslash.symm]) ⟨.word hc fun d hd => ?_, ?_⟩ (makes_ofWord _)
  · exact isWordPart_iff.mp (List.all_eq_true.mp List.all_takeWhile d hd)
  · intro other cls hfront hother
    rw [List.cons_append, List.takeWhile_append_dropWhile] at hfront
    obtain ⟨tail, rfl, htail, rfl⟩ := hother.of_prefix hfront
    rw [classAt_of_isLetter hc] at hother
    cases hother with
    | word _ hparts =>
      have hle := length_le_of_prefix htail fun d hd => isWordPart_iff.mpr (hparts d hd)
      simpa using hle

/-! ## Numbers -/

/-- Every numeral is read. -/
theorem IsNumeral.exists_read? {text : List Char} (h : IsNumeral text) :
    ∃ value, Number.read? text = some value := by
  rw [Number.read?]
  cases h with
  | whole hdigits => exact ⟨_, by rw [read?_digits hdigits, Option.map_some]⟩
  | fraction hdigits hplaces => exact ⟨_, by rw [read?_point hdigits hplaces, Option.map_some]⟩

theorem numberLength_append {digits rest : List Char} {d : Char}
    (hdigits : ∀ c ∈ digits, c.isDigit = true) (hd : d.isDigit = true) :
    numberLength (digits ++ '.' :: d :: rest) =
      digits.length + 2 + (rest.takeWhile Char.isDigit).length := by
  have hpoint : ∀ c ∈ ('.' :: d :: rest).head?, c.isDigit = false := by simp
  unfold numberLength
  simp only [takeWhile_append_eq hdigits hpoint, List.drop_left, if_pos hd]

theorem le_numberLength (cs : List Char) :
    (cs.takeWhile Char.isDigit).length ≤ numberLength cs := by
  unfold numberLength
  simp only
  split
  · split
    · omega
    · exact Nat.le_refl _
  · exact Nat.le_refl _

/-- A numeral that begins with `c` goes on for at most `numberLength` characters. -/
theorem IsNumeral.length_le {c : Char} {tail cs : List Char} (h : IsNumeral (c :: tail))
    (htail : tail <+: cs) : tail.length ≤ numberLength cs := by
  generalize htext : c :: tail = text at h
  cases h with
  | whole hdigits =>
    subst htext
    have hrun := length_le_of_prefix htail fun d hd => hdigits.2 d (List.mem_cons_of_mem _ hd)
    exact Nat.le_trans hrun (le_numberLength cs)
  | @fraction digits places hdigits hplaces =>
    obtain ⟨_, digits, rfl⟩ := List.exists_cons_of_ne_nil hdigits.1
    obtain ⟨d, places, rfl⟩ := List.exists_cons_of_ne_nil hplaces.1
    simp only [List.cons_append, List.cons.injEq] at htext
    obtain ⟨rfl, rfl⟩ := htext
    obtain ⟨rest, rfl⟩ := htail
    have hrun : places.length ≤ ((places ++ rest).takeWhile Char.isDigit).length :=
      length_le_of_prefix ⟨rest, rfl⟩ fun e he => hplaces.2 e (List.mem_cons_of_mem _ he)
    rw [List.append_assoc, List.cons_append, List.cons_append,
      numberLength_append (fun e he => hdigits.2 e (List.mem_cons_of_mem _ he))
        (hplaces.2 d List.mem_cons_self), List.length_append, List.length_cons, List.length_cons]
    omega

theorem isNumeral_take {c : Char} (hc : c.isDigit = true) (cs : List Char) :
    IsNumeral (c :: cs.take (numberLength cs)) := by
  have hdigits : ∀ (d : Char) (ds : List Char), d.isDigit = true →
      IsDigits (d :: ds.takeWhile Char.isDigit) := by
    intro d ds hd
    refine ⟨List.cons_ne_nil _ _, fun e he => ?_⟩
    rcases List.mem_cons.mp he with rfl | he
    · exact hd
    · exact List.all_eq_true.mp List.all_takeWhile e he
  have happend := List.takeWhile_append_dropWhile (p := Char.isDigit) (l := cs)
  unfold numberLength
  simp only [drop_length_takeWhile]
  split
  case h_1 d rest hrest =>
    split
    case isTrue hd =>
      have htake : cs.take ((cs.takeWhile Char.isDigit).length + 2 +
          (rest.takeWhile Char.isDigit).length) =
          cs.takeWhile Char.isDigit ++ '.' :: d :: rest.takeWhile Char.isDigit := by
        conv => lhs; arg 2; rw [← happend, hrest]
        rw [Nat.add_assoc, List.take_length_add_append, Nat.add_comm 2, List.take_succ_cons,
          List.take_succ_cons, take_length_takeWhile]
      rw [htake]
      exact .fraction (hdigits c cs hc) (hdigits d rest hd)
    case isFalse =>
      rw [take_length_takeWhile]
      exact .whole (hdigits c cs hc)
  case h_2 =>
    rw [take_length_takeWhile]
    exact .whole (hdigits c cs hc)

theorem firstAt_leadNumber {c : Char} (cs : List Char) (hc : c.isDigit = true) :
    FirstAt c cs (leadNumber c cs) := by
  have hslash : c ≠ '/' := by
    rintro rfl
    exact absurd hc (by decide)
  obtain ⟨value, hvalue⟩ := (isNumeral_take hc cs).exists_read?
  simp only [leadNumber, hvalue, FirstAt]
  refine .token (by simp [hslash.symm]) ⟨.numeral (isNumeral_take hc cs), ?_⟩ (.numeral hvalue)
  intro other cls hfront hother
  rw [List.cons_append, List.take_append_drop] at hfront
  obtain ⟨tail, rfl, htail, rfl⟩ := hother.of_prefix hfront
  rw [classAt_of_isDigit hc] at hother
  cases hother with
  | numeral hnumeral =>
    simp only [List.length_cons, List.length_take]
    exact Nat.succ_le_succ (Nat.le_min.mpr ⟨hnumeral.length_le htail, htail.length_le⟩)

/-! ## Every piece -/

theorem firstAt_unexpected {c : Char} {cs : List Char} (hdigit : c.isDigit = false)
    (hletter : ¬ IsLetter c) (hquote : c ≠ '"') (hblank : c ∉ blanks)
    (hoperator : ∀ tail kind, (c :: tail, kind) ∉ operators) :
    FirstAt c cs (.fault (.unexpectedCharacter c), 0) := by
  refine .unexpected hblank hquote fun other cls hfront hother => ?_
  obtain ⟨tail, rfl, -, rfl⟩ := hother.of_prefix hfront
  have hclass : classAt c = .operator := by
    rw [classAt, if_neg (by simp [hdigit]), if_neg hletter, if_neg hquote]
  rw [hclass] at hother
  obtain ⟨kind, hkind⟩ := hother.mem_operators
  exact hoperator tail kind hkind

/-- The first piece is what stands in front of the text. -/
theorem firstAt_lead (c : Char) (cs : List Char) : FirstAt c cs (lead c cs) := by
  unfold lead
  split
  case h_11 | h_12 | h_13 | h_14 =>
    exact firstAt_leadOperator (by decide) (by decide) (by decide)
  case h_15 => exact firstAt_leadSlash cs
  case h_16 => exact firstAt_leadString cs
  case h_17 | h_18 | h_19 | h_20 => exact .blank (by decide)
  case h_21 =>
    split
    case isTrue hc => exact firstAt_leadNumber cs hc
    case isFalse hdigit =>
      split
      case isTrue hc => exact firstAt_leadWord cs (isWordStart_iff.mp hc)
      case isFalse hletter =>
        rw [isWordStart_iff] at hletter
        refine firstAt_unexpected (by simpa using hdigit) hletter ‹_› ?_ ?_
        · simp_all [blanks]
        · intro tail kind hmem
          simp_all [operators]
  -- The marks of one character, which no other operator begins with, are left.
  all_goals
    refine firstAt_short (by decide) (by simp) fun other hother => ?_
    simp [operators] at hother

theorem First.exists_cons {text rest : List Char} {content : Content}
    (h : First text rest content) : ∃ c cs, text = c :: cs := by
  cases h with
  | token _ hlongest =>
    obtain ⟨c, cs, rfl, -⟩ := hlongest.isLexeme.exists_cons
    exact ⟨c, cs, rfl⟩
  | blank | comment | unexpected | unterminated => exact ⟨_, _, rfl⟩

/-- Splitting a text takes off what stands in front of it. -/
theorem split_append {text rest : List Char} {content : Content} (h : First text rest content) :
    split (text ++ rest) = ⟨content, text⟩ :: split rest := by
  obtain ⟨c, cs, rfl⟩ := h.exists_cons
  have hlead := firstAt_lead c (cs ++ rest)
  obtain ⟨htext, hcontent⟩ := h.unique hlead (by simp)
  have hrest : (cs ++ rest).drop (lead c (cs ++ rest)).2 = rest := by
    obtain ⟨-, htake⟩ := List.cons.inj htext
    have happend := List.take_append_drop (lead c (cs ++ rest)).2 (cs ++ rest)
    rw [htake] at happend
    exact List.append_cancel_left happend
  rw [List.cons_append, split]
  simp only [htext, hcontent, hrest]

end BlockScript.Piece

namespace BlockScript.Scan

open Piece (First)

/-- The items of the text that begins at `p`, when what stands in front is taken off again and
    again: blanks and comments make none, and everything else makes one. -/
inductive Lexes : Position → List Char → List (Except Diagnostic Token) → Prop
  | done {p : Position} : Lexes p [] []
  | skip {p : Position} {text rest : List Char} {items : List (Except Diagnostic Token)} :
      First text rest .blank → Lexes (p.after text) rest items → Lexes p (text ++ rest) items
  | token {p : Position} {text rest : List Char} {items : List (Except Diagnostic Token)}
      {kind : Token.Kind} :
      First text rest (.token kind) → Lexes (p.after text) rest items →
      Lexes p (text ++ rest) (.ok ⟨kind, String.ofList text, p⟩ :: items)
  | fault {p : Position} {text rest : List Char} {items : List (Except Diagnostic Token)}
      {fault : LexicalFault} :
      First text rest (.fault fault) → Lexes (p.after text) rest items →
      Lexes p (text ++ rest) (.error (.lexical p fault) :: items)

/-- The tokens and the diagnostics of the text that begins at `p`. -/
def itemsAt (p : Position) (cs : List Char) : List (Except Diagnostic Token) :=
  (Piece.placed p (Piece.split cs)).filterMap fun (p, piece) => piece.item? p

@[simp] theorem itemsAt_nil (p : Position) : itemsAt p [] = [] := by
  simp [itemsAt, Piece.split, Piece.placed]

theorem itemsAt_append {p : Position} {text rest : List Char} {content : Piece.Content}
    (h : First text rest content) : itemsAt p (text ++ rest) =
      (Piece.item? p ⟨content, text⟩).toList ++ itemsAt (p.after text) rest := by
  unfold itemsAt
  rw [Piece.split_append h, Piece.placed, List.filterMap_cons]
  cases content <;> rfl

theorem Lexes.eq_itemsAt {p : Position} {cs : List Char} {items : List (Except Diagnostic Token)}
    (h : Lexes p cs items) : items = itemsAt p cs := by
  induction h with
  | done => exact (itemsAt_nil _).symm
  | skip hfirst _ ih | token hfirst _ ih | fault hfirst _ ih =>
    rw [itemsAt_append hfirst, ih]
    rfl

theorem lexes_itemsAt (p : Position) (cs : List Char) : Lexes p cs (itemsAt p cs) := by
  fun_induction Piece.split cs generalizing p with
  | case1 =>
    rw [itemsAt_nil]
    exact .done
  | case2 c cs content more hlead ih =>
    have hfirst := Piece.firstAt_lead c cs
    rw [hlead] at hfirst
    have happend : c :: cs = c :: cs.take more ++ cs.drop more := by
      rw [List.cons_append, List.take_append_drop]
    rw [happend, itemsAt_append hfirst]
    cases content with
    | blank => exact .skip hfirst (ih _)
    | token kind => exact .token hfirst (ih _)
    | fault fault => exact .fault hfirst (ih _)

/-- A string that is not closed takes the rest, so that nothing comes after it. -/
theorem Lexes.eq_nil_of_unterminated {p q : Position} {cs : List Char}
    {items before after : List (Except Diagnostic Token)} (h : Lexes p cs items)
    (heq : items = before ++ .error (.lexical q .unterminatedString) :: after) : after = [] := by
  induction h generalizing before with
  | done => simp at heq
  | skip _ _ ih => exact ih heq
  | token _ _ ih =>
    rcases List.cons_eq_append_iff.mp heq with ⟨-, hhead⟩ | ⟨others, -, htail⟩
    · cases hhead
    · exact ih htail
  | fault hfirst hrest ih =>
    rcases List.cons_eq_append_iff.mp heq with ⟨-, hhead⟩ | ⟨others, -, htail⟩
    · cases hhead
      cases hfirst
      rw [hrest.eq_itemsAt, itemsAt_nil]
    · exact ih htail

/-- The items of a source are those of the lexer that skips blanks and comments and then takes the
    longest lexeme, and of no other kind. A string that is not closed is reported at most once,
    after everything else. -/
theorem items_longest_match (source : String) :
    (∀ items, Lexes .start source.toList items ↔ items = Scan.items source) ∧
    ∀ before after p,
      Scan.items source = before ++ .error (.lexical p .unterminatedString) :: after →
      after = [] := by
  refine ⟨fun items => ⟨Lexes.eq_itemsAt, ?_⟩, fun before after p => ?_⟩
  · rintro rfl
    exact lexes_itemsAt .start source.toList
  · exact (lexes_itemsAt .start source.toList).eq_nil_of_unterminated

end BlockScript.Scan
