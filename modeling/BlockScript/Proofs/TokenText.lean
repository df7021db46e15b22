import BlockScript.Proofs.Layout
import BlockScript.Proofs.Modes
import BlockScript.Proofs.Number.Numeral

/-!
# The tokens can be read from a token dump

A lexeme may contain blanks, line feeds and whatever else a dump has, so that neither tells where
the dump of a token ends. But the lexeme is what stands in front of the dump as it stood in front
of the source, and it tells the kind; the place ends where its digits do. So the dump of a token is
no beginning of another one (`Token.dump_append_inj`), and two sources have the same token dump if
and only if they have the same tokens (`Console.script_tokens_stdout_eq_iff`).
-/

namespace BlockScript

open Piece (First)

theorem Decimal.toDigits_append_inj {m n : Nat} {rest more : List Char}
    (hrest : ∀ c ∈ rest.head?, c.isDigit = false) (hmore : ∀ c ∈ more.head?, c.isDigit = false)
    (h : Nat.toDigits 10 m ++ rest = Nat.toDigits 10 n ++ more) : m = n ∧ rest = more := by
  have hdigits : Nat.toDigits 10 m = Nat.toDigits 10 n := by
    rw [← Piece.takeWhile_append_eq (isDigits_toDigits m).2 hrest, h,
      Piece.takeWhile_append_eq (isDigits_toDigits n).2 hmore]
  rw [hdigits] at h
  refine ⟨?_, List.append_cancel_left h⟩
  rw [← Nat.ofDigitChars_ten_toDigits (n := m), hdigits, Nat.ofDigitChars_ten_toDigits]

namespace Token

/-- The token is what its lexeme makes by itself, or marks the end of a source. -/
def IsScanned (t : Token) : Prop := Scan.Alone t ∨ t.kind = .endOfFile ∧ t.lexeme = ""

theorem toList_dump (t : Token) :
    t.dump.toList = t.lexeme.toList ++ ' ' :: (t.kind.name.toList ++ (" line:".toList ++
      (Nat.toDigits 10 t.position.line ++ (" column:".toList ++
        Nat.toDigits 10 t.position.column)))) := by
  simp only [dump, String.toList_append, Nat.toString_eq_ofList_toDigits, String.toList_ofList,
    List.append_assoc]
  rfl

/-- What stands in front of a dump is the lexeme, or else the blank that follows an empty one. -/
theorem IsScanned.eq_of_append {t u : Token} {rest more : List Char} (ht : t.IsScanned)
    (hu : u.IsScanned) (h : t.lexeme.toList ++ ' ' :: rest = u.lexeme.toList ++ ' ' :: more) :
    t.lexeme = u.lexeme ∧ t.kind = u.kind := by
  have hblank : ' ' ∈ Piece.blanks := by decide
  rcases ht with ht | ⟨htkind, htlexeme⟩
  · have hfirst := ht.append_blank hblank rest
    rcases hu with hu | ⟨-, hulexeme⟩
    · obtain ⟨hlexeme, hkind⟩ := (hu.append_blank hblank more).unique hfirst h
      exact ⟨String.toList_injective hlexeme, Piece.Content.token.inj hkind⟩
    · rw [hulexeme] at h
      obtain ⟨-, hkind⟩ := (First.blank hblank).unique hfirst h
      cases hkind
  · rcases hu with hu | ⟨hukind, hulexeme⟩
    · rw [htlexeme] at h
      obtain ⟨-, hkind⟩ := (First.blank hblank).unique (hu.append_blank hblank more) h.symm
      cases hkind
    · exact ⟨htlexeme.trans hulexeme.symm, htkind.trans hukind.symm⟩

/-- No line of a dump is the beginning of another one. -/
theorem dump_append_inj {t u : Token} {rest more : List Char} (ht : t.IsScanned)
    (hu : u.IsScanned) (h : t.dump.toList ++ '\n' :: rest = u.dump.toList ++ '\n' :: more) :
    t = u ∧ rest = more := by
  obtain ⟨kind, lexeme, line, column⟩ := t
  obtain ⟨kind', lexeme', line', column'⟩ := u
  simp only [toList_dump, List.append_assoc, List.cons_append] at h
  -- From the left: the lexeme, with it the name of the kind, and then the digits of the place.
  obtain ⟨rfl, rfl⟩ := ht.eq_of_append hu h
  have hplace := List.append_cancel_left (List.cons.inj (List.append_cancel_left h)).2
  obtain ⟨rfl, hcolumn⟩ := Decimal.toDigits_append_inj (by simp) (by simp)
    (List.append_cancel_left hplace)
  obtain ⟨rfl, hline⟩ := Decimal.toDigits_append_inj (by simp) (by simp)
    (List.append_cancel_left hcolumn)
  exact ⟨rfl, (List.cons.inj hline).2⟩

/-- The lines of a dump tell the tokens. -/
theorem eq_of_dumps {ts us : List Token} (hts : ∀ t ∈ ts, t.IsScanned)
    (hus : ∀ u ∈ us, u.IsScanned)
    (h : (ts.flatMap fun t => t.dump.toList ++ ['\n']) =
      us.flatMap fun u => u.dump.toList ++ ['\n']) :
    ts = us := by
  induction ts generalizing us with
  | nil =>
    cases us with
    | nil => rfl
    | cons u us => simp at h
  | cons t ts ih =>
    cases us with
    | nil => simp at h
    | cons u us =>
      simp only [List.flatMap_cons, List.append_assoc, List.cons_append, List.nil_append] at h
      obtain ⟨rfl, hrest⟩ := dump_append_inj (hts t List.mem_cons_self)
        (hus u List.mem_cons_self) h
      rw [ih (fun v hv => hts v (List.mem_cons_of_mem _ hv))
        (fun v hv => hus v (List.mem_cons_of_mem _ hv)) hrest]

end Token

theorem Scan.isScanned_of_mem_tokens {source : String} {t : Token}
    (ht : t ∈ (ofSource source).tokens) : t.IsScanned := by
  rcases mem_tokens.mp ht with hitem | rfl
  · obtain ⟨rest, hfirst⟩ := (lexes_itemsAt .start source.toList).exists_first hitem
    exact .inl hfirst.token_alone
  · exact .inr ⟨rfl, rfl⟩

/-- The token dumps of two sources are the same text if and only if the sources have the same
    tokens, whatever the lexemes contain. -/
theorem Console.script_tokens_stdout_eq_iff (source other : String) :
    (script .tokens source).stdout = (script .tokens other).stdout ↔
      (Scan.ofSource source).tokens = (Scan.ofSource other).tokens := by
  rw [script_tokens, script_tokens]
  constructor
  · intro h
    have hlines := congrArg String.toList h
    simp only [String.toList_join, List.flatMap_map, String.toList_append] at hlines
    exact Token.eq_of_dumps (fun t ht => Scan.isScanned_of_mem_tokens ht)
      (fun u hu => Scan.isScanned_of_mem_tokens hu) hlines
  · intro h
    rw [h]

end BlockScript
