import BlockScript.Proofs.Scan.LexicalGrammar
import BlockScript.Text.Quoted

/-!
# Phrases

A phrase is a tree of words that is written on one line: a word, a text in double quotes, or in
parentheses a word and phrases after it, with a space in front of each. Where a phrase ends in a
text, and which phrase it is, can be told from the text (`Phrase.chars_append_inj`).
-/

namespace BlockScript

open Piece (takeWhile_append_eq takeWhile_ne_append_eq)

/-! ## Code points -/

namespace Text

theorem digitChar_inj {d e : Nat} (hd : d < 16) (he : e < 16)
    (h : Nat.digitChar d = Nat.digitChar e) : d = e := by
  have hall : ∀ d < 16, ∀ e < 16, Nat.digitChar d = Nat.digitChar e → d = e := by decide
  exact hall d hd e he h

theorem exists_digitChar_of_mem {n : Nat} {c : Char} (h : c ∈ Nat.toDigits 16 n) :
    ∃ d < 16, c = Nat.digitChar d := by
  induction n using Nat.strongRecOn with
  | ind n ih =>
    by_cases hn : n < 16
    · rw [Nat.toDigits_of_lt_base hn] at h
      exact ⟨n, hn, List.mem_singleton.mp h⟩
    · rw [Nat.toDigits_of_base_le (by decide) (Nat.le_of_not_lt hn)] at h
      rcases List.mem_append.mp h with h | h
      · exact ih (n / 16) (by omega) h
      · exact ⟨n % 16, Nat.mod_lt n (by decide), List.mem_singleton.mp h⟩

theorem not_mem_toDigits {c : Char} (hc : ∀ d < 16, c ≠ Nat.digitChar d) (n : Nat) :
    c ∉ Nat.toDigits 16 n := by
  intro hmem
  obtain ⟨d, hd, heq⟩ := exists_digitChar_of_mem hmem
  exact hc d hd heq

/-- A number can be told from its hexadecimal digits. -/
theorem toDigits_inj {m n : Nat} (h : Nat.toDigits 16 m = Nat.toDigits 16 n) : m = n := by
  have hshort : ∀ {m n}, m < 16 → ¬ n < 16 → Nat.toDigits 16 m ≠ Nat.toDigits 16 n := by
    intro m n hm hn heq
    have hlength := congrArg List.length heq
    have hpos := Nat.length_toDigits_pos (b := 16) (n := n / 16)
    rw [Nat.toDigits_of_lt_base hm, Nat.toDigits_of_base_le (by decide) (Nat.le_of_not_lt hn),
      List.length_append] at hlength
    simp only [List.length_singleton] at hlength
    omega
  induction m using Nat.strongRecOn generalizing n with
  | ind m ih =>
    by_cases hm : m < 16
    · by_cases hn : n < 16
      · rw [Nat.toDigits_of_lt_base hm, Nat.toDigits_of_lt_base hn] at h
        exact digitChar_inj hm hn (List.cons.inj h).1
      · exact absurd h (hshort hm hn)
    · by_cases hn : n < 16
      · exact absurd h.symm (hshort hn hm)
      · rw [Nat.toDigits_of_base_le (by decide) (Nat.le_of_not_lt hm),
          Nat.toDigits_of_base_le (by decide) (Nat.le_of_not_lt hn)] at h
        obtain ⟨hfront, hlast⟩ := List.append_inj' h rfl
        have hdiv : m / 16 = n / 16 := ih (m / 16) (by omega) hfront
        have hmod : m % 16 = n % 16 :=
          digitChar_inj (Nat.mod_lt m (by decide)) (Nat.mod_lt n (by decide))
            (List.cons.inj hlast).1
        omega

/-! ## Text in double quotes -/

/-- The characters that are written with a mark of their own, and the marks. -/
def marks : List (Char × Char) := [
  ('\x00', '0'), ('\t', 't'), ('\n', 'n'), ('\r', 'r'), ('"', '"'), ('\\', '\\')]

/-- How a character is written between double quotes. -/
inductive IsEscape (c : Char) : List Char → Prop
  | mark {mark : Char} : (c, mark) ∈ marks → IsEscape c ['\\', mark]
  | codePoint : IsEscape c ('\\' :: 'u' :: '\x7b' :: (Nat.toDigits 16 c.toNat ++ ['\x7d']))
  | plain : c ∉ ['\\', '"', '\n'] → IsEscape c [c]

theorem isEscape_escape (c : Char) : IsEscape c (escape c) := by
  unfold escape
  split
  case h_7 hnul htab hfeed hreturn hquote hbackslash =>
    split
    · exact .codePoint
    · exact .plain (by simpa using ⟨hbackslash, hquote, hfeed⟩)
  all_goals exact .mark (by decide)

theorem IsEscape.not_mem_newline {c : Char} {text : List Char} (h : IsEscape c text) :
    '\n' ∉ text := by
  cases h with
  | @mark mark hmark =>
    have hall : ∀ entry ∈ marks, '\n' ∉ ['\\', entry.2] := by decide
    exact hall _ hmark
  | codePoint =>
    have hdigits : '\n' ∉ Nat.toDigits 16 c.toNat := not_mem_toDigits (by decide) _
    simp [hdigits]
  | plain hc =>
    simp only [List.mem_cons, List.not_mem_nil, or_false, not_or] at hc
    simpa using Ne.symm hc.2.2

theorem IsEscape.append_ne_quote {c : Char} {text : List Char} (h : IsEscape c text)
    (more rest : List Char) : text ++ more ≠ '"' :: rest := by
  intro heq
  cases h with
  | mark | codePoint => exact absurd (List.cons.inj heq).1 (by decide)
  | plain hc => exact hc (by simp [(List.cons.inj heq).1])

/-- No character is written as a beginning of what is written for another. -/
theorem IsEscape.append_inj {c d : Char} {text other rest more : List Char} (h : IsEscape c text)
    (hother : IsEscape d other) (heq : text ++ rest = other ++ more) : c = d ∧ rest = more := by
  have hmarks : ∀ entry ∈ marks, entry.2 ≠ 'u' ∧
      ∀ other ∈ marks, entry.2 = other.2 → entry.1 = other.1 := by decide
  cases h with
  | @mark mark hmark =>
    obtain ⟨hu, hinj⟩ := hmarks _ hmark
    cases hother with
    | @mark sign hsign =>
      obtain ⟨-, heq⟩ := List.cons.inj heq
      obtain ⟨heq, hrest⟩ := List.cons.inj heq
      exact ⟨hinj _ hsign heq, hrest⟩
    | codePoint =>
      obtain ⟨-, heq⟩ := List.cons.inj heq
      exact absurd (List.cons.inj heq).1 hu
    | plain hd => exact absurd (List.cons.inj heq).1 fun hc => hd (by simp [← hc])
  | codePoint =>
    cases hother with
    | @mark sign hsign =>
      obtain ⟨hu, -⟩ := hmarks _ hsign
      obtain ⟨-, heq⟩ := List.cons.inj heq
      exact absurd (List.cons.inj heq).1.symm hu
    | codePoint =>
      -- No digit is the brace that ends the code point.
      have hbrace : ∀ n, '\x7d' ∉ Nat.toDigits 16 n := not_mem_toDigits (by decide)
      have hfirst : ∀ more : List Char, ∀ e ∈ ('\x7d' :: more).head?, e = '\x7d' := by simp
      simp only [List.cons_append, List.append_assoc, List.nil_append, List.cons.injEq,
        true_and] at heq
      have hdigits := takeWhile_ne_append_eq (hbrace c.toNat) (hfirst rest)
      rw [heq, takeWhile_ne_append_eq (hbrace d.toNat) (hfirst more)] at hdigits
      rw [hdigits] at heq
      have hrest := List.append_cancel_left heq
      exact ⟨Char.toNat_inj.mp (toDigits_inj hdigits).symm, (List.cons.inj hrest).2⟩
    | plain hd => exact absurd (List.cons.inj heq).1 fun hc => hd (by simp [← hc])
  | plain hc =>
    cases hother with
    | mark | codePoint => exact absurd (List.cons.inj heq).1 fun hd => hc (by simp [hd])
    | plain => exact List.cons.inj heq

/-- The contents can be told from a text in double quotes, and so can its end. -/
theorem flatMap_escape_inj {s t rest more : List Char}
    (h : s.flatMap escape ++ '"' :: rest = t.flatMap escape ++ '"' :: more) :
    s = t ∧ rest = more := by
  induction s generalizing t with
  | nil =>
    cases t with
    | nil => exact ⟨rfl, (List.cons.inj h).2⟩
    | cons d t =>
      rw [List.flatMap_cons, List.append_assoc] at h
      exact absurd h.symm ((isEscape_escape d).append_ne_quote _ _)
  | cons c s ih =>
    rw [List.flatMap_cons, List.append_assoc] at h
    cases t with
    | nil => exact absurd h ((isEscape_escape c).append_ne_quote _ _)
    | cons d t =>
      rw [List.flatMap_cons, List.append_assoc] at h
      obtain ⟨rfl, htail⟩ := (isEscape_escape c).append_inj (isEscape_escape d) h
      obtain ⟨rfl, hrest⟩ := ih htail
      exact ⟨rfl, hrest⟩

end Text

/-! ## Phrases -/

/-- A word, a text in double quotes, or a word and phrases after it in parentheses. -/
inductive Phrase where
  | word (text : List Char)
  | quoted (contents : List Char)
  | list (head : List Char) (items : List Phrase)

namespace Phrase

mutual

/-- How a phrase is written. -/
def chars : Phrase → List Char
  | word text => text
  | quoted contents => '"' :: (contents.flatMap Text.escape ++ ['"'])
  | list head items => '(' :: (head ++ (itemChars items ++ [')']))

/-- How phrases are written after a word. -/
def itemChars : List Phrase → List Char
  | [] => []
  | p :: rest => ' ' :: (p.chars ++ itemChars rest)

end

/-- Whether a character is no part of a word. -/
def isDelimiter (c : Char) : Bool := c ∈ [' ', '(', ')', '"', '\n']

/-- A text of one character or more, none of which is a delimiter. -/
structure IsWord (text : List Char) : Prop where
  ne_nil : text ≠ []
  isDelimiter_eq_false : ∀ c ∈ text, isDelimiter c = false

mutual

/-- All words of the phrase are words. -/
def WellFormed : Phrase → Prop
  | word text => IsWord text
  | quoted _ => True
  | list head items => IsWord head ∧ AllWellFormed items

/-- All words of the phrases are words. -/
def AllWellFormed : List Phrase → Prop
  | [] => True
  | p :: rest => p.WellFormed ∧ AllWellFormed rest

end

/-- The text is empty or begins with a delimiter. -/
def Ends (text : List Char) : Prop := ∀ c ∈ text.head?, isDelimiter c = true

theorem IsWord.not_mem {text : List Char} (h : IsWord text) {c : Char}
    (hc : isDelimiter c = true) : c ∉ text := by
  intro hmem
  rw [h.isDelimiter_eq_false c hmem] at hc
  cases hc

theorem IsWord.append_ne_cons {text : List Char} (h : IsWord text) {c : Char}
    (hc : isDelimiter c = true) (rest more : List Char) : text ++ rest ≠ c :: more := by
  obtain ⟨d, tail, rfl⟩ := List.exists_cons_of_ne_nil h.ne_nil
  intro heq
  obtain ⟨rfl, -⟩ := List.cons.inj heq
  exact h.not_mem hc List.mem_cons_self

theorem IsWord.append_inj {text other rest more : List Char} (h : IsWord text)
    (hother : IsWord other) (hrest : Ends rest) (hmore : Ends more)
    (heq : text ++ rest = other ++ more) : text = other ∧ rest = more := by
  have htake : ∀ {text rest}, IsWord text → Ends rest →
      (text ++ rest).takeWhile (fun c => !isDelimiter c) = text := by
    intro text rest htext hends
    refine takeWhile_append_eq (fun c hc => ?_) (fun c hc => ?_)
    · rw [htext.isDelimiter_eq_false c hc, Bool.not_false]
    · rw [hends c hc, Bool.not_true]
  have htext := htake h hrest
  rw [heq, htake hother hmore] at htext
  subst htext
  exact ⟨rfl, List.append_cancel_left heq⟩

theorem ends_itemChars (items : List Phrase) (rest : List Char) :
    Ends (itemChars items ++ ')' :: rest) := by
  intro c hc
  cases items with
  | nil =>
    obtain rfl := Option.some.inj hc
    decide
  | cons p items =>
    obtain rfl := Option.some.inj hc
    decide

mutual

/-- A phrase is written on one line. -/
theorem not_mem_newline_chars : (p : Phrase) → p.WellFormed → '\n' ∉ p.chars
  | word _, h => h.not_mem (by decide)
  | quoted contents, _ => by
    have hcontents : '\n' ∉ contents.flatMap Text.escape := by
      intro hmem
      obtain ⟨c, -, hc⟩ := List.mem_flatMap.mp hmem
      exact (Text.isEscape_escape c).not_mem_newline hc
    simp [chars, hcontents]
  | list head items, ⟨hhead, hitems⟩ => by
    have hword : '\n' ∉ head := hhead.not_mem (by decide)
    have hrest := not_mem_newline_itemChars items hitems
    simp [chars, hword, hrest]

theorem not_mem_newline_itemChars :
    (items : List Phrase) → AllWellFormed items → '\n' ∉ itemChars items
  | [], _ => List.not_mem_nil
  | p :: rest, ⟨hp, hrest⟩ => by
    have hchars := not_mem_newline_chars p hp
    have hitems := not_mem_newline_itemChars rest hrest
    simp [itemChars, hchars, hitems]

end

mutual

/-- A phrase in front of a text that is empty or begins with a delimiter can be told from the
    whole. -/
theorem chars_append_inj {rest more : List Char} (hrest : Ends rest) (hmore : Ends more) :
    (p q : Phrase) → p.WellFormed → q.WellFormed → p.chars ++ rest = q.chars ++ more →
    p = q ∧ rest = more
  | word _, word _, hp, hq, h => by
    obtain ⟨rfl, heq⟩ := IsWord.append_inj hp hq hrest hmore h
    exact ⟨rfl, heq⟩
  | word _, quoted _, hp, _, h => absurd h (IsWord.append_ne_cons hp (by decide) _ _)
  | word _, list _ _, hp, _, h => absurd h (IsWord.append_ne_cons hp (by decide) _ _)
  | quoted _, word _, _, hq, h => absurd h.symm (IsWord.append_ne_cons hq (by decide) _ _)
  | list _ _, word _, _, hq, h => absurd h.symm (IsWord.append_ne_cons hq (by decide) _ _)
  | quoted _, list _ _, _, _, h => absurd (List.cons.inj h).1 (by decide)
  | list _ _, quoted _, _, _, h => absurd (List.cons.inj h).1 (by decide)
  | quoted contents, quoted other, _, _, h => by
    simp only [chars, List.cons_append, List.append_assoc, List.nil_append, List.cons.injEq,
      true_and] at h
    obtain ⟨rfl, heq⟩ := Text.flatMap_escape_inj h
    exact ⟨rfl, heq⟩
  | list head items, list other others, ⟨hhead, hitems⟩, ⟨hother, hothers⟩, h => by
    simp only [chars, List.cons_append, List.append_assoc, List.nil_append, List.cons.injEq,
      true_and] at h
    obtain ⟨rfl, htail⟩ :=
      hhead.append_inj hother (ends_itemChars items rest) (ends_itemChars others more) h
    obtain ⟨rfl, heq⟩ := itemChars_append_inj items others hitems hothers htail
    exact ⟨rfl, heq⟩

theorem itemChars_append_inj {rest more : List Char} :
    (ps qs : List Phrase) → AllWellFormed ps → AllWellFormed qs →
    itemChars ps ++ ')' :: rest = itemChars qs ++ ')' :: more → ps = qs ∧ rest = more
  | [], [], _, _, h => ⟨rfl, (List.cons.inj h).2⟩
  | [], _ :: _, _, _, h => absurd (List.cons.inj h).1 (by decide)
  | _ :: _, [], _, _, h => absurd (List.cons.inj h).1 (by decide)
  | p :: ps, q :: qs, ⟨hp, hps⟩, ⟨hq, hqs⟩, h => by
    simp only [itemChars, List.cons_append, List.append_assoc, List.cons.injEq, true_and] at h
    obtain ⟨rfl, htail⟩ :=
      chars_append_inj (ends_itemChars ps rest) (ends_itemChars qs more) p q hp hq h
    obtain ⟨rfl, heq⟩ := itemChars_append_inj ps qs hps hqs htail
    exact ⟨rfl, heq⟩

end

/-- No two phrases are written alike. -/
theorem chars_inj {p q : Phrase} (hp : p.WellFormed) (hq : q.WellFormed)
    (h : p.chars = q.chars) : p = q := by
  have hends : Ends [] := nofun
  have happend : p.chars ++ [] = q.chars ++ [] := by rw [h]
  exact (chars_append_inj hends hends p q hp hq happend).1

end Phrase

end BlockScript
