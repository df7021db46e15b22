import BlockScript.Proofs.Scan.LongestMatch
import Mathlib.Data.List.Forall2

/-!
# Scanning loses nothing

Every item of a source occupies a span of it. The spans follow one another, nothing but blanks and
comments is around them, and the position of an item is that of the first character of its span,
counted in the whole text in front of it (`Scan.items_occupy_spans`).
-/

namespace BlockScript

/-- The place of the character number `n` of a source, where the text in front of it has all the
    earlier lines and the earlier columns of its line. -/
def Position.ofOffset (source : List Char) (n : Nat) : Position where
  line := 1 + (source.take n).count '\n'
  column := 1 + ((source.take n).reverse.takeWhile (· ≠ '\n')).length

theorem Position.start_after (before rest : List Char) :
    start.after before = ofOffset (before ++ rest) before.length := by
  have hreverse : ∀ cs : List Char, start.after cs.reverse =
      ⟨1 + cs.count '\n', 1 + (cs.takeWhile (· ≠ '\n')).length⟩ := by
    intro cs
    induction cs with
    | nil => rfl
    | cons c cs ih =>
      rw [List.reverse_cons, after_append, ih, after_cons, after_nil, advance]
      by_cases hc : c = '\n'
      · subst hc
        simp [Nat.add_assoc]
      · simp [hc, Nat.add_assoc]
  have hcount := hreverse before.reverse
  rw [List.reverse_reverse, List.count_reverse] at hcount
  rw [hcount, ofOffset, List.take_left]

namespace Scan

open Piece (First)

/-- The characters of a source from the number `start` to before the number `stop`. -/
structure Span where
  start : Nat
  stop : Nat

/-- The text of a span. -/
def Span.text (span : Span) (source : List Char) : List Char :=
  (source.drop span.start).take (span.stop - span.start)

/-- The text is made of blanks and of comments, each of which goes on to the next line feed or to
    the end, when `rest` follows the text. -/
inductive Gap : List Char → List Char → Prop
  | nil {rest : List Char} : Gap [] rest
  | blank {c : Char} {text rest : List Char} :
      c ∈ [' ', '\t', '\r', '\n'] → Gap text rest → Gap (c :: text) rest
  | comment {body text rest : List Char} : '\n' ∉ body → (∀ c ∈ (text ++ rest).head?, c = '\n') →
      Gap text rest → Gap ('/' :: '/' :: body ++ text) rest

/-- The item has the text of the span and the place where it begins. Text that begins no token is
    one character, or the rest of the source after a quote that is not closed. -/
inductive Occupies (source : List Char) (span : Span) : Except Diagnostic Token → Prop
  | token {kind : Token.Kind} : Occupies source span
      (.ok ⟨kind, String.ofList (span.text source), .ofOffset source span.start⟩)
  | character {c : Char} : span.text source = [c] → Occupies source span
      (.error (.lexical (.ofOffset source span.start) (.unexpectedCharacter c)))
  | quote {cs : List Char} : span.text source = '"' :: cs → '"' ∉ cs →
      span.stop = source.length → Occupies source span
      (.error (.lexical (.ofOffset source span.start) .unterminatedString))

/-- The spans are not empty and follow one another from `n` on, with a gap in front of each and
    one after the last. -/
def Separated (source : List Char) : Nat → List Span → Prop
  | n, [] => n ≤ source.length ∧ Gap (Span.text ⟨n, source.length⟩ source) []
  | n, span :: spans =>
    n ≤ span.start ∧ Gap (Span.text ⟨n, span.start⟩ source) (source.drop span.start) ∧
      span.start < span.stop ∧ span.stop ≤ source.length ∧ Separated source span.stop spans

/-! ## Gaps -/

theorem Gap.of_first {text gap rest : List Char} (h : First text (gap ++ rest) .blank)
    (hgap : Gap gap rest) : Gap (text ++ gap) rest := by
  generalize hfollowing : gap ++ rest = following at h
  cases h with
  | blank hc => exact .blank hc hgap
  | comment hbody hhead => exact .comment hbody (hfollowing ▸ hhead) hgap

theorem Span.text_append_drop {start stop : Nat} (h : start ≤ stop) (source : List Char) :
    Span.text ⟨start, stop⟩ source ++ source.drop stop = source.drop start := by
  have hdrop : source.drop stop = (source.drop start).drop (stop - start) := by
    rw [List.drop_drop, Nat.add_sub_cancel' h]
  rw [hdrop]
  exact List.take_append_drop _ _

theorem Span.text_append_text {a b c : Nat} (hab : a ≤ b) (hbc : b ≤ c) (source : List Char) :
    Span.text ⟨a, b⟩ source ++ Span.text ⟨b, c⟩ source = Span.text ⟨a, c⟩ source := by
  have hwhole := Span.text_append_drop (Nat.le_trans hab hbc) source
  rw [← Span.text_append_drop hab source, ← Span.text_append_drop hbc source,
    ← List.append_assoc] at hwhole
  exact (List.append_cancel_right hwhole).symm

/-- A blank or a comment in front of a gap is a part of the gap. -/
theorem Separated.skip {source : List Char} {n m : Nat} {spans : List Span} (hnm : n ≤ m)
    (hfirst : First (Span.text ⟨n, m⟩ source) (source.drop m) .blank)
    (h : Separated source m spans) : Separated source n spans := by
  have hgap : ∀ stop, m ≤ stop → Gap (Span.text ⟨m, stop⟩ source) (source.drop stop) →
      Gap (Span.text ⟨n, stop⟩ source) (source.drop stop) := by
    intro stop hstop hgap
    rw [← Span.text_append_drop hstop] at hfirst
    rw [← Span.text_append_text hnm hstop]
    exact .of_first hfirst hgap
  cases spans with
  | nil =>
    obtain ⟨hle, hlast⟩ := h
    have hend := hgap source.length hle
    rw [List.drop_length] at hend
    exact ⟨Nat.le_trans hnm hle, hend hlast⟩
  | cons span spans =>
    obtain ⟨hle, hfront, hspan⟩ := h
    exact ⟨Nat.le_trans hnm hle, hgap span.start hle hfront, hspan⟩

theorem Separated.pairwise {source : List Char} {n : Nat} {spans : List Span}
    (h : Separated source n spans) :
    (∀ span ∈ spans, n ≤ span.start) ∧ spans.Pairwise fun a b => a.stop ≤ b.start := by
  induction spans generalizing n with
  | nil => simp
  | cons span spans ih =>
    obtain ⟨hle, -, hne, -, hrest⟩ := h
    obtain ⟨hlater, hpairwise⟩ := ih hrest
    refine ⟨?_, List.pairwise_cons.mpr ⟨hlater, hpairwise⟩⟩
    intro other hother
    rcases List.mem_cons.mp hother with rfl | hother
    · exact hle
    · have hstop := hlater other hother
      omega

/-! ## The spans of the items -/

/-- A span in the middle of a source, and the text in front of it and after it. -/
theorem Span.text_middle (before text rest : List Char) :
    Span.text ⟨before.length, (before ++ text).length⟩ (before ++ text ++ rest) = text := by
  simp [Span.text, List.append_assoc]

theorem Separated.cons {before text rest : List Char} {spans : List Span} (htext : text ≠ [])
    (h : Separated (before ++ text ++ rest) (before ++ text).length spans) :
    Separated (before ++ text ++ rest) before.length
      (⟨before.length, (before ++ text).length⟩ :: spans) := by
  have hlength := List.length_pos_of_ne_nil htext
  refine ⟨Nat.le_refl _, ?_, ?_, ?_, h⟩
  · rw [Span.text, Nat.sub_self]
    exact .nil
  · rw [List.length_append]
    exact Nat.lt_add_of_pos_right hlength
  · exact (List.prefix_append (before ++ text) rest).length_le

theorem Occupies.of_fault {before text rest : List Char} {fault : LexicalFault}
    (h : First text rest (.fault fault)) :
    Occupies (before ++ text ++ rest) ⟨before.length, (before ++ text).length⟩
      (.error (.lexical (Position.start.after before) fault)) := by
  have htext := Span.text_middle before text rest
  rw [List.append_assoc, Position.start_after before (text ++ rest), ← List.append_assoc]
  cases h with
  | unexpected => exact .character htext
  | unterminated hcs => exact .quote htext hcs (by simp)

theorem Occupies.of_token {before text rest : List Char} {kind : Token.Kind} :
    Occupies (before ++ text ++ rest) ⟨before.length, (before ++ text).length⟩
      (.ok ⟨kind, String.ofList text, Position.start.after before⟩) := by
  have htoken : Occupies (before ++ text ++ rest) ⟨before.length, (before ++ text).length⟩
      (.ok ⟨kind, _, _⟩) := .token
  rw [Span.text_middle] at htoken
  rw [Position.start_after before (text ++ rest), ← List.append_assoc]
  exact htoken

/-- The items of the text `cs` occupy spans of it, whatever text `before` is in front of it. -/
theorem Lexes.exists_spans {p : Position} {cs : List Char} {items : List (Except Diagnostic Token)}
    (h : Lexes p cs items) (before : List Char) (hp : p = Position.start.after before) :
    ∃ spans, List.Forall₂ (Occupies (before ++ cs)) spans items ∧
      Separated (before ++ cs) before.length spans := by
  -- What is taken off the front is added to `before`, so that the whole source stays the same.
  induction h generalizing before with
  | done =>
    refine ⟨[], .nil, by simp, ?_⟩
    simpa [Span.text] using Gap.nil
  | @skip p text rest items hfirst _ ih =>
    subst hp
    obtain ⟨spans, hitems, hspans⟩ := ih (before ++ text) (by simp)
    rw [← List.append_assoc]
    refine ⟨spans, hitems, hspans.skip (by simp) ?_⟩
    rw [Span.text_middle, List.drop_left]
    exact hfirst
  | @token p text rest items kind hfirst _ ih =>
    subst hp
    obtain ⟨spans, hitems, hspans⟩ := ih (before ++ text) (by simp)
    obtain ⟨c, tail, htext⟩ := hfirst.exists_cons
    rw [← List.append_assoc]
    exact ⟨_, .cons .of_token hitems, hspans.cons (by simp [htext])⟩
  | @fault p text rest items fault hfirst _ ih =>
    subst hp
    obtain ⟨spans, hitems, hspans⟩ := ih (before ++ text) (by simp)
    obtain ⟨c, tail, htext⟩ := hfirst.exists_cons
    rw [← List.append_assoc]
    exact ⟨_, .cons (.of_fault hfirst) hitems, hspans.cons (by simp [htext])⟩

/-! ## The result of scanning -/

theorem map_ok_filterMap (items : List (Except Diagnostic Token)) :
    (items.filterMap Except.toOption).map Except.ok = items.filter (·.isOk) := by
  induction items with
  | nil => rfl
  | cons item items ih =>
    cases item with
    | ok token => exact congrArg (Except.ok token :: ·) ih
    | error => exact ih

theorem map_error_ofResults (items : List (Except Diagnostic Token)) :
    (Diagnostic.ofResults items).map Except.error = items.filter (!·.isOk) := by
  induction items with
  | nil => rfl
  | cons item items ih =>
    cases item with
    | ok => exact ih
    | error d => exact congrArg (Except.error d :: ·) ih

/-- Every item occupies a span of the source, in order and apart, with nothing but blanks and
    comments around. The result of scanning is the tokens among the items and a token at the end of
    the source, and the diagnostics among them. -/
theorem items_occupy_spans (source : String) :
    (∃ spans, List.Forall₂ (Occupies source.toList) spans (items source) ∧
      Separated source.toList 0 spans ∧ spans.Pairwise fun a b => a.stop ≤ b.start) ∧
    (ofSource source).tokens.map Except.ok = (items source).filter (·.isOk) ++
      [.ok ⟨.endOfFile, "", .ofOffset source.toList source.toList.length⟩] ∧
    (ofSource source).diagnostics.map Except.error = (items source).filter (!·.isOk) := by
  refine ⟨?_, ?_, map_error_ofResults (items source)⟩
  · obtain ⟨spans, hitems, hspans⟩ := (lexes_itemsAt .start source.toList).exists_spans [] rfl
    exact ⟨spans, hitems, hspans, hspans.pairwise.2⟩
  · have hend := Position.start_after source.toList []
    rw [List.append_nil] at hend
    rw [ofSource, endToken, hend, List.map_append, map_ok_filterMap]
    rfl

end Scan

end BlockScript
