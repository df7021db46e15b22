import BlockScript.Proofs.Places

/-!
# Unexpected characters are as good as blanks

A character that begins no token is in no lexeme but strings, so that it ends a lexeme in front of
it as a space does, and it takes one column. So a source in which each character that is reported as
unexpected makes way for a space (`Scan.cleaned`) has the same tokens at the same places, and of its
diagnostics only that of a string that is not closed is left
(`Scan.unexpected_characters_are_blanks`).
-/

namespace BlockScript

/-- Whether the diagnostic reports a character that begins no token. -/
def Diagnostic.isUnexpectedCharacter : Diagnostic → Bool
  | lexical _ (.unexpectedCharacter _) => true
  | _ => false

/-- The texts differ in that the second one has spaces for some characters of the first one, none
    of which is a line feed. -/
def Text.Blanked (cs ds : List Char) : Prop :=
  List.Forall₂ (fun c d => d = c ∨ d = ' ' ∧ c ≠ '\n') cs ds

namespace Text.Blanked

theorem append (text : List Char) {rest others : List Char} (h : Blanked rest others) :
    Blanked (text ++ rest) (text ++ others) := by
  induction text with
  | nil => exact h
  | cons c text ih => exact .cons (.inl rfl) ih

/-- What has no space in it was there before. -/
theorem prefix_of_not_mem {cs ds text : List Char} (h : Blanked cs ds) (hspace : ' ' ∉ text)
    (hfront : text <+: ds) : text <+: cs := by
  induction h generalizing text with
  | nil => exact hfront
  | @cons c d cs ds hcd _ ih =>
    cases text with
    | nil => exact List.nil_prefix
    | cons e text =>
      obtain ⟨rfl, htail⟩ := List.cons_prefix_cons.mp hfront
      rcases hcd with rfl | ⟨rfl, -⟩
      · exact List.cons_prefix_cons.mpr ⟨rfl, ih (fun hmem => hspace (by simp [hmem])) htail⟩
      · simp at hspace

theorem head?_eq_newline {cs ds : List Char} (h : Blanked cs ds)
    (hcs : ∀ c ∈ cs.head?, c = '\n') : ∀ d ∈ ds.head?, d = '\n' := by
  cases h with
  | nil => exact hcs
  | @cons c d cs ds hcd _ =>
    have hc := hcs c rfl
    rcases hcd with rfl | ⟨-, hne⟩
    · exact hcs
    · exact absurd hc hne

theorem after_eq {cs ds : List Char} (h : Blanked cs ds) (p : Position) :
    p.after ds = p.after cs := by
  induction h generalizing p with
  | nil => rfl
  | @cons c d cs ds hcd _ ih =>
    have hadvance : p.advance d = p.advance c := by
      rcases hcd with rfl | ⟨rfl, hc⟩
      · rfl
      · rw [Position.advance, Position.advance, if_neg hc, if_neg (by decide)]
    rw [Position.after_cons, Position.after_cons, hadvance, ih]

end Text.Blanked

namespace Piece

theorem First.of_unexpectedCharacter {text rest : List Char} {c : Char}
    (h : First text rest (.fault (.unexpectedCharacter c))) : text = [c] ∧ c ∉ blanks := by
  cases h with
  | unexpected hblank => exact ⟨rfl, hblank⟩

/-- Spaces in what follows do not change what stands in front. -/
theorem First.blanked {text rest others : List Char} {content : Content}
    (h : First text rest content) (hcontent : ∀ c, content ≠ .fault (.unexpectedCharacter c))
    (hrest : Text.Blanked rest others) : First text others content := by
  cases h with
  | blank hc => exact .blank hc
  | comment hbody hhead => exact .comment hbody (hrest.head?_eq_newline hhead)
  | token hslash hlongest hmakes =>
    have hwhole := hrest.append text
    have hcomment : ¬ ['/', '/'] <+: text ++ others := fun hfront =>
      hslash (hwhole.prefix_of_not_mem (by decide) hfront)
    refine .token hcomment (hlongest.of_length_le fun other found hfound hother hfront => ?_) hmakes
    have hspace : ' ' ∉ other := fun hmem =>
      hother.not_mem_blanks_of_mem hfound ' ' hmem (by decide)
    exact hlongest.length_le other found (hwhole.prefix_of_not_mem hspace hfront) hother
  | @unexpected c => exact absurd rfl (hcontent c)
  | unterminated hcs =>
    cases hrest
    exact .unterminated hcs

end Piece

namespace Scan

open Piece (First)

/-- Whether an unexpected character is reported at the place. -/
def isUnexpectedAt (source : String) (p : Position) : Bool :=
  (ofSource source).diagnostics.any fun d => d.isUnexpectedCharacter && d.place? = some p

/-- The text that begins at the place, with a space for each character where `bad` holds. -/
def blankOut (bad : Position → Bool) : Position → List Char → List Char
  | _, [] => []
  | p, c :: cs => (if bad p then ' ' else c) :: blankOut bad (p.advance c) cs

/-- The source with a space for each character that is reported as unexpected. -/
def cleaned (source : String) : String :=
  String.ofList (blankOut (isUnexpectedAt source) .start source.toList)

/-- Whether the item is a diagnostic of a character that begins no token. -/
def isUnexpected : Except Diagnostic Token → Bool
  | .ok _ => false
  | .error d => d.isUnexpectedCharacter

/-- From the place on, `bad` holds where an unexpected character is among the items, and nowhere
    else. -/
def Marks (bad : Position → Bool) (p : Position) (items : List (Except Diagnostic Token)) : Prop :=
  ∀ q, ¬ q.Before p → (bad q = true ↔ ∃ item ∈ items, isUnexpected item ∧ place? item = some q)

section

variable {bad : Position → Bool} {p : Position} {text rest : List Char}
  {items made : List (Except Diagnostic Token)}

theorem blankOut_append (bad : Position → Bool) (p : Position) (text rest : List Char) :
    blankOut bad p (text ++ rest) = blankOut bad p text ++ blankOut bad (p.after text) rest := by
  induction text generalizing p with
  | nil => rfl
  | cons c text ih =>
    rw [List.cons_append, blankOut, ih, blankOut, List.cons_append, Position.after_cons]

theorem blankOut_eq_self
    (h : ∀ before more, text = before ++ more → more ≠ [] → bad (p.after before) = false) :
    blankOut bad p text = text := by
  induction text generalizing p with
  | nil => rfl
  | cons c text ih =>
    have hc : bad p = false := h [] (c :: text) rfl (List.cons_ne_nil c text)
    have htail : blankOut bad (p.advance c) text = text :=
      ih fun before more htext => h (c :: before) more (by rw [htext]; rfl)
    rw [blankOut, hc, htail]
    rfl

/-- No item lies in front of the text. -/
theorem Lexes.not_before {cs : List Char} (h : Lexes p cs items) {item : Except Diagnostic Token}
    (hitem : item ∈ items) {q : Position} (hq : place? item = some q) : ¬ q.Before p := by
  obtain ⟨before, more, -, -, hplace⟩ := h.exists_place_of_mem hitem
  obtain rfl := Option.some.inj (hq.symm.trans hplace)
  exact p.not_after_before before

/-- Beyond the first piece `bad` depends on the items of the rest alone. -/
theorem Marks.tail (h : Marks bad p (made ++ items)) (htext : text ≠ [])
    (hmade : ∀ item ∈ made, place? item = some p) : Marks bad (p.after text) items := by
  intro q hq
  have hp := p.before_after htext
  rw [h q fun hbefore => hq (hbefore.trans hp)]
  constructor
  · rintro ⟨item, hitem, hunexpected, hplace⟩
    rcases List.mem_append.mp hitem with hitem | hitem
    · obtain rfl := Option.some.inj ((hmade item hitem).symm.trans hplace)
      exact absurd hp hq
    · exact ⟨item, hitem, hunexpected, hplace⟩
  · rintro ⟨item, hitem, hunexpected⟩
    exact ⟨item, List.mem_append_right made hitem, hunexpected⟩

/-- A piece that is no unexpected character stays as it is. -/
theorem Marks.blankOut_eq (h : Marks bad p (made ++ items))
    (hrest : Lexes (p.after text) rest items) (hmade : ∀ item ∈ made, isUnexpected item = false) :
    blankOut bad p (text ++ rest) = text ++ blankOut bad (p.after text) rest := by
  rw [blankOut_append]
  refine congrArg (· ++ _) (blankOut_eq_self fun before more htext hmore => ?_)
  rw [← Bool.not_eq_true, h _ (p.not_after_before before)]
  rintro ⟨item, hitem, hunexpected, hitemPlace⟩
  rcases List.mem_append.mp hitem with hitem | hitem
  · rw [hmade item hitem] at hunexpected
    cases hunexpected
  · refine hrest.not_before hitem hitemPlace ?_
    rw [htext, Position.after_append]
    exact Position.before_after _ hmore

theorem Lexes.piece {content : Piece.Content} (hfirst : First text rest content)
    (hrest : Lexes (p.after text) rest items) :
    Lexes p (text ++ rest) ((Piece.item? p ⟨content, text⟩).toList ++ items) := by
  cases content with
  | blank => exact .skip hfirst hrest
  | token kind => exact .token hfirst hrest
  | fault fault => exact .fault hfirst hrest

/-- Where spaces stand for the unexpected characters, the text has the other items. -/
structure Cleans (bad : Position → Bool) (p : Position) (cs : List Char)
    (items : List (Except Diagnostic Token)) : Prop where
  blanked : Text.Blanked cs (blankOut bad p cs)
  lexes : Lexes p (blankOut bad p cs) (items.filter (!isUnexpected ·))

theorem Cleans.unexpected {c : Char} (hc : c ∉ Piece.blanks)
    (hmarks : Marks bad p (.error (.lexical p (.unexpectedCharacter c)) :: items))
    (h : Cleans bad (p.advance c) rest items) :
    Cleans bad p (c :: rest) (.error (.lexical p (.unexpectedCharacter c)) :: items) := by
  have hbad : bad p = true :=
    (hmarks p (Position.Before.irrefl p)).mpr ⟨_, List.mem_cons_self, rfl, rfl⟩
  have hnewline : c ≠ '\n' := fun hc' => hc (hc' ▸ by decide)
  have hblankOut : blankOut bad p (c :: rest) = [' '] ++ blankOut bad (p.advance c) rest := by
    rw [blankOut, hbad]
    rfl
  have hadvance : p.after [' '] = p.advance c := by
    rw [Position.advance, if_neg hnewline]
    rfl
  have hspace : First [' '] (blankOut bad (p.advance c) rest) .blank := .blank (by decide)
  constructor
  · rw [hblankOut]
    exact .cons (.inr ⟨rfl, hnewline⟩) h.blanked
  · rw [hblankOut]
    exact .skip hspace (hadvance ▸ h.lexes)

theorem Cleans.kept {content : Piece.Content} (hfirst : First text rest content)
    (hcontent : ∀ c, content ≠ .fault (.unexpectedCharacter c))
    (hrest : Lexes (p.after text) rest items)
    (hmarks : Marks bad p ((Piece.item? p ⟨content, text⟩).toList ++ items))
    (h : Cleans bad (p.after text) rest items) :
    Cleans bad p (text ++ rest) ((Piece.item? p ⟨content, text⟩).toList ++ items) := by
  have hmade : ∀ item ∈ (Piece.item? p ⟨content, text⟩).toList, isUnexpected item = false := by
    intro item hitem
    have hitem := Option.mem_toList.mp hitem
    cases content with
    | blank => cases hitem
    | token kind =>
      cases hitem
      rfl
    | fault fault =>
      cases hitem
      cases fault with
      | unexpectedCharacter c => exact absurd rfl (hcontent c)
      | unterminatedString | unreadableNumber => rfl
  have hfilter : (Piece.item? p ⟨content, text⟩).toList.filter (!isUnexpected ·) =
      (Piece.item? p ⟨content, text⟩).toList :=
    List.filter_eq_self.mpr fun item hitem => by rw [hmade item hitem, Bool.not_false]
  have hblankOut := hmarks.blankOut_eq hrest hmade
  constructor
  · rw [hblankOut]
    exact h.blanked.append text
  · rw [hblankOut, List.filter_append, hfilter]
    exact .piece (hfirst.blanked hcontent h.blanked) h.lexes

theorem Cleans.piece {content : Piece.Content} (hfirst : First text rest content)
    (hrest : Lexes (p.after text) rest items)
    (ih : Marks bad (p.after text) items → Cleans bad (p.after text) rest items)
    (hmarks : Marks bad p ((Piece.item? p ⟨content, text⟩).toList ++ items)) :
    Cleans bad p (text ++ rest) ((Piece.item? p ⟨content, text⟩).toList ++ items) := by
  obtain ⟨d, tail, htext⟩ := hfirst.exists_cons
  have hplace : ∀ item ∈ (Piece.item? p ⟨content, text⟩).toList, place? item = some p :=
    fun item hitem => place?_eq_of_item? (Option.mem_toList.mp hitem)
  have hclean := ih (hmarks.tail (by simp [htext]) hplace)
  by_cases hcontent : ∃ c, content = .fault (.unexpectedCharacter c)
  · obtain ⟨c, rfl⟩ := hcontent
    obtain ⟨rfl, hc⟩ := hfirst.of_unexpectedCharacter
    exact hclean.unexpected hc hmarks
  · exact hclean.kept hfirst (fun c hc => hcontent ⟨c, hc⟩) hrest hmarks

theorem Lexes.cleans {cs : List Char} (h : Lexes p cs items) (hmarks : Marks bad p items) :
    Cleans bad p cs items := by
  induction h with
  | done => exact ⟨.nil, .done⟩
  | skip hfirst hrest ih | token hfirst hrest ih | fault hfirst hrest ih =>
    exact .piece hfirst hrest ih hmarks

end

/-! ## The source without unexpected characters -/

theorem marks_isUnexpectedAt (source : String) :
    Marks (isUnexpectedAt source) .start (items source) := by
  intro q _
  rw [isUnexpectedAt, List.any_eq_true]
  constructor
  · rintro ⟨d, hd, hreported⟩
    obtain ⟨hunexpected, hplace⟩ := Bool.and_eq_true_iff.mp hreported
    exact ⟨.error d, mem_diagnostics.mp hd, hunexpected, of_decide_eq_true hplace⟩
  · rintro ⟨item, hitem, hunexpected, hplace⟩
    cases item with
    | ok t => cases hunexpected
    | error d =>
      exact ⟨d, mem_diagnostics.mpr hitem,
        Bool.and_eq_true_iff.mpr ⟨hunexpected, decide_eq_true hplace⟩⟩

theorem items_cleaned (source : String) :
    items (cleaned source) = (items source).filter (!isUnexpected ·) := by
  have hclean := (lexes_itemsAt .start source.toList).cleans (marks_isUnexpectedAt source)
  have hitems := hclean.lexes.eq_itemsAt.symm
  rw [items, cleaned, String.toList_ofList]
  exact hitems

theorem endToken_cleaned (source : String) : endToken (cleaned source) = endToken source := by
  have hclean := (lexes_itemsAt .start source.toList).cleans (marks_isUnexpectedAt source)
  rw [endToken, cleaned, String.toList_ofList, hclean.blanked.after_eq]
  rfl

theorem filter_isUnexpected (items : List (Except Diagnostic Token)) :
    (items.filter (!isUnexpected ·)).filterMap Except.toOption =
      items.filterMap Except.toOption ∧
    Diagnostic.ofResults (items.filter (!isUnexpected ·)) =
      (Diagnostic.ofResults items).filter (!·.isUnexpectedCharacter) := by
  induction items with
  | nil => exact ⟨rfl, rfl⟩
  | cons item items ih =>
    obtain ⟨htokens, hdiagnostics⟩ := ih
    cases item with
    | ok t => exact ⟨congrArg (t :: ·) htokens, hdiagnostics⟩
    | error d =>
      have hofResults : Diagnostic.ofResults (.error d :: items) =
          d :: Diagnostic.ofResults items := rfl
      rw [hofResults, List.filter_cons, List.filter_cons, isUnexpected]
      cases d.isUnexpectedCharacter with
      | true => exact ⟨htokens, hdiagnostics⟩
      | false => exact ⟨htokens, congrArg (d :: ·) hdiagnostics⟩

theorem exists_unterminated_of_filter {source : String} {d : Diagnostic}
    (h : d ∈ (ofSource source).diagnostics.filter (!·.isUnexpectedCharacter)) :
    ∃ p, d = .lexical p .unterminatedString := by
  obtain ⟨hd, hother⟩ := List.mem_filter.mp h
  obtain ⟨p, fault, rfl, hreadable⟩ :=
    (lexes_itemsAt .start source.toList).lexical (mem_diagnostics.mp hd)
  cases fault with
  | unexpectedCharacter c => cases hother
  | unterminatedString => exact ⟨p, rfl⟩
  | unreadableNumber lexeme => exact absurd rfl (hreadable lexeme)

/-- A string that is not closed is the only fault, or the last one. -/
theorem length_diagnostics_le {source : String}
    (h : ∀ d ∈ (ofSource source).diagnostics, ∃ p, d = .lexical p .unterminatedString) :
    (ofSource source).diagnostics.length ≤ 1 := by
  cases hdiagnostics : (ofSource source).diagnostics with
  | nil => exact Nat.zero_le _
  | cons d ds =>
    obtain ⟨p, rfl⟩ := h d (by rw [hdiagnostics]; exact List.mem_cons_self)
    obtain ⟨before, item, after, hitems, -, hitem, hafter⟩ :=
      List.filterMap_eq_cons_iff.mp hdiagnostics
    cases item with
    | ok t => cases hitem
    | error d =>
      obtain rfl := Option.some.inj hitem
      obtain rfl := (lexes_itemsAt .start source.toList).eq_nil_of_unterminated hitems
      rw [← hafter]
      exact Nat.le_refl 1

/-- Unexpected characters are as good as blanks: with spaces for them the source has the same
    tokens, the mark of the end included, and of the diagnostics those of other faults, which is at
    most that of a string that is not closed. -/
theorem unexpected_characters_are_blanks (source : String) :
    (ofSource (cleaned source)).tokens = (ofSource source).tokens ∧
    (ofSource (cleaned source)).diagnostics =
      (ofSource source).diagnostics.filter (!·.isUnexpectedCharacter) ∧
    (∀ d ∈ (ofSource (cleaned source)).diagnostics, ∃ p, d = .lexical p .unterminatedString) ∧
    (ofSource (cleaned source)).diagnostics.length ≤ 1 := by
  obtain ⟨htokens, hofResults⟩ := filter_isUnexpected (items source)
  have hdiagnostics : (ofSource (cleaned source)).diagnostics =
      (ofSource source).diagnostics.filter (!·.isUnexpectedCharacter) := by
    rw [ofSource, items_cleaned]
    exact hofResults
  have hunterminated : ∀ d ∈ (ofSource (cleaned source)).diagnostics,
      ∃ p, d = .lexical p .unterminatedString := by
    rw [hdiagnostics]
    exact fun d => exists_unterminated_of_filter
  refine ⟨?_, hdiagnostics, hunterminated, length_diagnostics_le hunterminated⟩
  rw [ofSource, items_cleaned, endToken_cleaned, htokens]
  rfl

/-- A character that is unexpected elsewhere may stand in strings and in comments. -/
example : cleaned "a@b!#= \"@\" // @\n\"#" = "a b! = \"@\" // @\n\"#" := by decide +kernel

end Scan

end BlockScript
