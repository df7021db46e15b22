import BlockScript.Token.Scan

/-!
# The lexical grammar

Which texts are lexemes, and of which tokens, with no regard to how they are found: operators,
numerals `[0-9]+(\.[0-9]+)?`, words `[A-Za-z_][A-Za-z0-9_]*`, and quoted strings. `Piece.First`
says what stands in front of a text: a blank or a comment, or else the longest lexeme, or else
text that begins none. No two of these stand in front of the same text (`Piece.First.unique`).
-/

namespace BlockScript.Piece

/-- The operators and punctuation marks. -/
def operators : List (List Char × Token.Kind) := [
  (['('], .leftParen), ([')'], .rightParen), (['\x7b'], .leftBrace), (['\x7d'], .rightBrace),
  ([','], .comma), (['.'], .dot), (['-'], .minus), (['+'], .plus), ([';'], .semicolon),
  (['/'], .slash), (['*'], .star), (['!'], .bang), (['!', '='], .bangEqual), (['='], .equal),
  (['=', '='], .equalEqual), (['>'], .greater), (['>', '='], .greaterEqual), (['<'], .less),
  (['<', '='], .lessEqual)]

/-- The blank characters. -/
def blanks : List Char := [' ', '\t', '\r', '\n']

/-- A letter or the underscore. -/
def IsLetter (c : Char) : Prop := c.isAlpha = true ∨ c = '_'

/-- One digit or more. -/
def IsDigits (text : List Char) : Prop := text ≠ [] ∧ ∀ c ∈ text, c.isDigit = true

/-- Digits, and possibly a point and more digits. -/
inductive IsNumeral : List Char → Prop
  | whole {digits : List Char} : IsDigits digits → IsNumeral digits
  | fraction {digits places : List Char} :
      IsDigits digits → IsDigits places → IsNumeral (digits ++ '.' :: places)

/-- The classes of lexemes. -/
inductive LexemeClass where
  | operator | numeral | word | string
deriving DecidableEq, Repr

/-- The text is a lexeme of the class. -/
inductive IsLexeme : List Char → LexemeClass → Prop
  | operator {text : List Char} {kind : Token.Kind} :
      (text, kind) ∈ operators → IsLexeme text .operator
  | numeral {text : List Char} : IsNumeral text → IsLexeme text .numeral
  | word {c : Char} {cs : List Char} :
      IsLetter c → (∀ d ∈ cs, IsLetter d ∨ d.isDigit = true) → IsLexeme (c :: cs) .word
  | string {contents : List Char} : '"' ∉ contents → IsLexeme ('"' :: (contents ++ ['"'])) .string

/-- The kind of the token with the lexeme `text` of a class. A word that is a keyword as a whole is
    that keyword, and every other word is a name. -/
inductive Makes : LexemeClass → List Char → Token.Kind → Prop
  | operator {text : List Char} {kind : Token.Kind} :
      (text, kind) ∈ operators → Makes .operator text kind
  | numeral {text : List Char} {value : Float} :
      Number.read? text = some value → Makes .numeral text (.number value)
  | keyword {text : List Char} {kind : Token.Kind} :
      (String.ofList text, kind) ∈ Token.Kind.keywords → Makes .word text kind
  | name {text : List Char} : (∀ kind, (String.ofList text, kind) ∉ Token.Kind.keywords) →
      Makes .word text .identifier
  | string {contents : List Char} :
      Makes .string ('"' :: (contents ++ ['"'])) (.string (String.ofList contents))

/-- The text is the longest lexeme in front of `text ++ rest`, and of the class. -/
structure IsLongest (text rest : List Char) (cls : LexemeClass) : Prop where
  isLexeme : IsLexeme text cls
  length_le : ∀ other cls, other <+: text ++ rest → IsLexeme other cls → other.length ≤ text.length

/-- What stands in front of `text ++ rest` is `text`, with the content that is given. Blanks and
    comments go before lexemes, and a comment lasts to the end of its line. -/
inductive First : List Char → List Char → Content → Prop
  | blank {c : Char} {rest : List Char} : c ∈ blanks → First [c] rest .blank
  | comment {body rest : List Char} : '\n' ∉ body → (∀ c ∈ rest.head?, c = '\n') →
      First ('/' :: '/' :: body) rest .blank
  | token {text rest : List Char} {cls : LexemeClass} {kind : Token.Kind} :
      ¬ ['/', '/'] <+: text ++ rest → IsLongest text rest cls → Makes cls text kind →
      First text rest (.token kind)
  | unexpected {c : Char} {rest : List Char} : c ∉ blanks → c ≠ '"' →
      (∀ other cls, other <+: c :: rest → ¬ IsLexeme other cls) →
      First [c] rest (.fault (.unexpectedCharacter c))
  | unterminated {cs : List Char} : '"' ∉ cs → First ('"' :: cs) [] (.fault .unterminatedString)

/-! ## Lexemes are told apart by how they begin -/

instance (c : Char) : Decidable (IsLetter c) := inferInstanceAs (Decidable (_ ∨ _))

/-- The only class that a lexeme which begins with `c` may have. -/
def classAt (c : Char) : LexemeClass :=
  if c.isDigit then .numeral
  else if IsLetter c then .word
  else if c = '"' then .string
  else .operator

theorem isDigit_eq_false_of_isLetter {c : Char} (h : IsLetter c) : c.isDigit = false := by
  rcases h with h | rfl
  · have hletter : 'A'.toNat ≤ c.toNat := by
      rcases Bool.or_eq_true_iff.mp h with hupper | hlower
      · exact UInt32.le_iff_toNat_le.mp (of_decide_eq_true hupper).1
      · rcases Bool.and_eq_true_iff.mp hlower with ⟨hstart, -⟩
        have ha := UInt32.le_iff_toNat_le.mp (of_decide_eq_true hstart)
        exact Nat.le_trans (by decide) ha
    have hlast : '9'.toNat < 'A'.toNat := by decide
    rw [Bool.eq_false_iff]
    intro hdigit
    obtain ⟨-, hle⟩ := Char.isDigit_iff_toNat.mp hdigit
    omega
  · rfl

theorem classAt_of_mem_operators {c : Char} {cs : List Char} {kind : Token.Kind}
    (h : (c :: cs, kind) ∈ operators) : classAt c = .operator := by
  have hall : ∀ entry ∈ operators, entry.1.head?.map classAt = some .operator := by decide
  exact Option.some.inj (hall _ h)

theorem classAt_of_isDigit {c : Char} (h : c.isDigit = true) : classAt c = .numeral := by
  rw [classAt, if_pos h]

theorem classAt_of_isLetter {c : Char} (h : IsLetter c) : classAt c = .word := by
  rw [classAt, if_neg (by simp [isDigit_eq_false_of_isLetter h]), if_pos h]

theorem IsNumeral.exists_cons {text : List Char} (h : IsNumeral text) :
    ∃ c cs, text = c :: cs ∧ c.isDigit = true := by
  cases h with
  | whole hdigits =>
    obtain ⟨c, cs, rfl⟩ := List.exists_cons_of_ne_nil hdigits.1
    exact ⟨c, cs, rfl, hdigits.2 c List.mem_cons_self⟩
  | fraction hdigits =>
    obtain ⟨c, cs, rfl⟩ := List.exists_cons_of_ne_nil hdigits.1
    exact ⟨c, _, rfl, hdigits.2 c List.mem_cons_self⟩

theorem IsLexeme.exists_cons {text : List Char} {cls : LexemeClass} (h : IsLexeme text cls) :
    ∃ c cs, text = c :: cs ∧ cls = classAt c := by
  cases h with
  | @operator text kind hmem =>
    cases text with
    | nil => simp [operators] at hmem
    | cons c cs => exact ⟨c, cs, rfl, (classAt_of_mem_operators hmem).symm⟩
  | numeral hnumeral =>
    obtain ⟨c, cs, rfl, hc⟩ := hnumeral.exists_cons
    exact ⟨c, cs, rfl, (classAt_of_isDigit hc).symm⟩
  | @word c cs hc => exact ⟨c, cs, rfl, (classAt_of_isLetter hc).symm⟩
  | string => exact ⟨'"', _, rfl, rfl⟩

theorem IsLexeme.class_eq {c : Char} {cs : List Char} {cls : LexemeClass}
    (h : IsLexeme (c :: cs) cls) : cls = classAt c := by
  obtain ⟨d, ds, heq, hcls⟩ := h.exists_cons
  cases heq
  exact hcls

theorem lookup_of_mem_operators {text : List Char} {kind : Token.Kind}
    (h : (text, kind) ∈ operators) : operators.lookup text = some kind := by
  have hall : ∀ entry ∈ operators, operators.lookup entry.1 = some entry.2 := by decide
  exact hall _ h

theorem lookup_of_mem_keywords {word : String} {kind : Token.Kind}
    (h : (word, kind) ∈ Token.Kind.keywords) : Token.Kind.keywords.lookup word = some kind := by
  have hall : ∀ entry ∈ Token.Kind.keywords,
      Token.Kind.keywords.lookup entry.1 = some entry.2 := by decide
  exact hall _ h

theorem Makes.unique {cls : LexemeClass} {text : List Char} {kind other : Token.Kind}
    (h : Makes cls text kind) (hother : Makes cls text other) : kind = other := by
  cases h with
  | operator h =>
    cases hother with
    | operator hother =>
      have hlookup := lookup_of_mem_operators hother
      exact Option.some.inj ((lookup_of_mem_operators h).symm.trans hlookup)
  | numeral h =>
    cases hother with
    | numeral hother => rw [Option.some.inj (h.symm.trans hother)]
  | keyword h =>
    cases hother with
    | keyword hother =>
      exact Option.some.inj ((lookup_of_mem_keywords h).symm.trans (lookup_of_mem_keywords hother))
    | name hother => exact absurd h (hother _)
  | name h =>
    cases hother with
    | keyword hother => exact absurd hother (h _)
    | name => rfl
  | @string contents =>
    generalize htext : '"' :: (contents ++ ['"']) = text at hother
    cases hother
    simp at htext
    rw [htext]

/-! ## What stands in front is determined -/

theorem takeWhile_append_eq {p : Char → Bool} {text rest : List Char} (h : ∀ c ∈ text, p c = true)
    (hrest : ∀ c ∈ rest.head?, p c = false) : (text ++ rest).takeWhile p = text := by
  rw [List.takeWhile_append_of_pos h]
  cases rest with
  | nil => simp
  | cons c rest => simp [hrest c rfl]

theorem dropWhile_append_eq {p : Char → Bool} {text rest : List Char} (h : ∀ c ∈ text, p c = true)
    (hrest : ∀ c ∈ rest.head?, p c = false) : (text ++ rest).dropWhile p = rest := by
  rw [List.dropWhile_append_of_pos h]
  cases rest with
  | nil => rfl
  | cons c rest => simp [hrest c rfl]

theorem read?_digits {digits : List Char} (h : IsDigits digits) :
    Decimal.read? digits = some ⟨Nat.ofDigitChars 10 digits 0, 0⟩ := by
  have htake : (digits ++ []).takeWhile Char.isDigit = digits := takeWhile_append_eq h.2 (by simp)
  have hdrop : (digits ++ []).dropWhile Char.isDigit = [] := dropWhile_append_eq h.2 (by simp)
  rw [List.append_nil] at htake hdrop
  simp [Decimal.read?, htake, hdrop, h.1]

theorem read?_point {digits places : List Char} (h : IsDigits digits) (hplaces : IsDigits places) :
    Decimal.read? (digits ++ '.' :: places) =
      some ⟨Nat.ofDigitChars 10 (digits ++ places) 0, places.length⟩ := by
  have hpoint : ∀ c ∈ ('.' :: places).head?, c.isDigit = false := by simp
  have hall : places.all Char.isDigit = true := List.all_eq_true.mpr hplaces.2
  rw [Decimal.read?, takeWhile_append_eq h.2 hpoint, dropWhile_append_eq h.2 hpoint]
  simp [h.1, hplaces.1, hall]

/-- A run of characters other than `d` stops in front of `d`. -/
theorem takeWhile_ne_append_eq {d : Char} {text rest : List Char} (h : d ∉ text)
    (hrest : ∀ c ∈ rest.head?, c = d) : (text ++ rest).takeWhile (· ≠ d) = text := by
  refine takeWhile_append_eq (fun c hc => ?_) (fun c hc => by simp [hrest c hc])
  have hne : c ≠ d := fun heq => h (heq ▸ hc)
  simpa using hne

theorem IsLexeme.not_mem_blanks {c : Char} {cs : List Char} {cls : LexemeClass}
    (h : IsLexeme (c :: cs) cls) : c ∉ blanks := by
  intro hc
  have hclass := h.class_eq
  have hall : blanks.all (classAt · = .operator) = true := by decide
  have hoperator : classAt c = .operator := by simpa using List.all_eq_true.mp hall c hc
  rw [hoperator] at hclass
  subst hclass
  cases h with
  | operator hmem =>
    have hheads : ∀ entry ∈ operators, entry.1.head?.all (· ∉ blanks) = true := by decide
    have hnot : c ∉ blanks := by simpa using hheads _ hmem
    exact hnot hc

/-- No lexeme stands in front of a quote that is not closed. -/
theorem IsLexeme.not_prefix_quote {other cs : List Char} {cls : LexemeClass}
    (h : IsLexeme other cls) (hcs : '"' ∉ cs) : ¬ other <+: '"' :: cs := by
  rintro ⟨rest, hrest⟩
  obtain ⟨c, tail, rfl, rfl⟩ := h.exists_cons
  obtain ⟨rfl, rfl⟩ := List.cons.inj hrest
  generalize hcls : classAt '"' = cls at h
  cases hcls
  generalize htext : '"' :: tail = text at h
  cases h
  cases htext
  simp at hcs

theorem isLexeme_slash : IsLexeme ['/'] .operator := .operator (by decide : (_, .slash) ∈ operators)

theorem First.of_blank {c : Char} {cs text rest : List Char} {content : Content}
    (hc : c ∈ blanks) (h : First text rest content) (heq : text ++ rest = c :: cs) :
    text = [c] ∧ content = .blank := by
  cases h with
  | blank =>
    cases heq
    exact ⟨rfl, rfl⟩
  | comment =>
    cases heq
    exact absurd hc (by decide)
  | token _ hlongest =>
    obtain ⟨d, tail, rfl, -⟩ := hlongest.isLexeme.exists_cons
    cases heq
    exact absurd hc hlongest.isLexeme.not_mem_blanks
  | unexpected hblank =>
    cases heq
    exact absurd hc hblank
  | unterminated =>
    cases heq
    exact absurd hc (by decide)

theorem First.of_comment {body rest text others : List Char} {content : Content}
    (hbody : '\n' ∉ body) (hrest : ∀ c ∈ rest.head?, c = '\n') (h : First text others content)
    (heq : text ++ others = '/' :: '/' :: body ++ rest) :
    text = '/' :: '/' :: body ∧ content = .blank := by
  cases h with
  | blank hblank =>
    cases heq
    exact absurd hblank (by decide)
  | @comment other _ hother hothers =>
    simp only [List.cons_append, List.cons.injEq, true_and] at heq
    rw [← takeWhile_ne_append_eq hother hothers, heq, takeWhile_ne_append_eq hbody hrest]
    exact ⟨rfl, rfl⟩
  | token hslash => exact absurd ⟨body ++ rest, by simp [heq]⟩ hslash
  | unexpected _ _ hnone =>
    cases heq
    exact absurd isLexeme_slash (hnone _ _ ⟨_, rfl⟩)
  | unterminated => cases heq

theorem First.of_token {text rest other others : List Char} {cls : LexemeClass} {kind : Token.Kind}
    {content : Content} (hslash : ¬ ['/', '/'] <+: text ++ rest)
    (hlongest : IsLongest text rest cls) (hmakes : Makes cls text kind)
    (h : First other others content) (heq : other ++ others = text ++ rest) :
    other = text ∧ content = .token kind := by
  obtain ⟨c, tail, htext, hcls⟩ := hlongest.isLexeme.exists_cons
  cases h with
  | blank hblank =>
    subst htext
    cases heq
    exact absurd hblank hlongest.isLexeme.not_mem_blanks
  | comment => exact absurd ⟨_, heq⟩ hslash
  | token _ hother hkind =>
    have hle := hlongest.length_le _ _ ⟨others, heq⟩ hother.isLexeme
    have hge := hother.length_le _ _ ⟨rest, heq.symm⟩ hlongest.isLexeme
    obtain rfl := List.append_inj_left heq (Nat.le_antisymm hle hge)
    subst htext
    rw [hother.isLexeme.class_eq, ← hcls] at hkind
    exact ⟨rfl, congrArg Content.token (hkind.unique hmakes)⟩
  | unexpected _ _ hnone => exact absurd hlongest.isLexeme (hnone _ _ ⟨rest, heq.symm⟩)
  | unterminated hquote =>
    rw [List.append_nil] at heq
    exact absurd ⟨rest, heq.symm⟩ (hlongest.isLexeme.not_prefix_quote hquote)

theorem First.of_unexpected {c : Char} {rest text others : List Char} {content : Content}
    (hblank : c ∉ blanks) (hquote : c ≠ '"')
    (hnone : ∀ other cls, other <+: c :: rest → ¬ IsLexeme other cls)
    (h : First text others content) (heq : text ++ others = c :: rest) :
    text = [c] ∧ content = .fault (.unexpectedCharacter c) := by
  cases h with
  | blank hc =>
    cases heq
    exact absurd hc hblank
  | comment =>
    cases heq
    exact absurd isLexeme_slash (hnone _ _ ⟨_, rfl⟩)
  | token _ hlongest => exact absurd hlongest.isLexeme (hnone _ _ ⟨_, heq⟩)
  | unexpected =>
    cases heq
    exact ⟨rfl, rfl⟩
  | unterminated =>
    cases heq
    exact absurd rfl hquote

theorem First.of_unterminated {cs text others : List Char} {content : Content} (hcs : '"' ∉ cs)
    (h : First text others content) (heq : text ++ others = '"' :: cs) :
    text = '"' :: cs ∧ content = .fault .unterminatedString := by
  cases h with
  | blank hc =>
    cases heq
    exact absurd hc (by decide)
  | comment => cases heq
  | token _ hlongest => exact absurd ⟨_, heq⟩ (hlongest.isLexeme.not_prefix_quote hcs)
  | unexpected _ hquote =>
    cases heq
    exact absurd rfl hquote
  | unterminated =>
    cases heq
    simp

/-- At most one thing stands in front of a text. -/
theorem First.unique {text rest other others : List Char} {content found : Content}
    (h : First text rest content) (hother : First other others found)
    (heq : other ++ others = text ++ rest) : other = text ∧ found = content := by
  cases h with
  | blank hc => exact hother.of_blank hc heq
  | comment hbody hrest => exact hother.of_comment hbody hrest heq
  | token hslash hlongest hmakes => exact hother.of_token hslash hlongest hmakes heq
  | unexpected hblank hquote hnone => exact hother.of_unexpected hblank hquote hnone heq
  | unterminated hcs => exact hother.of_unterminated hcs (by simpa using heq)

end BlockScript.Piece
