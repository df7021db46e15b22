import BlockScript.Proofs.Number.Rounding
import BlockScript.Proofs.Scan.LexicalGrammar

/-!
# Numbers are read back from their text

The text of a decimal is a numeral and is read as the same decimal (`Decimal.read?_text`). So the
text of a finite number without its minus sign is read as the absolute value of the number
(`Number.read?_magnitudeText`).
-/

namespace BlockScript

open Piece (IsDigits IsNumeral)

namespace Decimal

theorem isDigits_toDigits (n : Nat) : IsDigits (Nat.toDigits 10 n) :=
  ⟨Nat.toDigits_ne_nil, fun _ hc => Nat.isDigit_of_mem_toDigits (by decide) (by decide) hc⟩

theorem isDigits_padded (width n : Nat) : IsDigits (padded width n) := by
  refine ⟨by simp [padded, Nat.toDigits_ne_nil], ?_⟩
  intro c hc
  rcases List.mem_append.mp hc with hc | hc
  · obtain rfl := List.eq_of_mem_replicate hc
    decide
  · exact (isDigits_toDigits n).2 c hc

theorem length_padded {width n : Nat} (hwidth : 0 < width) (hn : n < 10 ^ width) :
    (padded width n).length = width := by
  have hle := (Nat.length_toDigits_le_iff (by decide) hwidth).mpr hn
  rw [padded, List.length_append, List.length_replicate, Nat.sub_add_cancel hle]

/-- Zeros in front of digits make no difference. -/
theorem ofDigitChars_padded (width n : Nat) : Nat.ofDigitChars 10 (padded width n) 0 = n := by
  rw [padded, Nat.ofDigitChars_append, Nat.ofDigitChars_replicate_zero, Nat.mul_zero,
    Nat.ofDigitChars_ten_toDigits]

/-- The text of a decimal is a numeral. -/
theorem isNumeral_text (d : Decimal) : IsNumeral d.text := by
  unfold text
  split
  · exact .whole (isDigits_toDigits _)
  · exact .fraction (isDigits_toDigits _) (isDigits_padded _ _)

/-- A decimal is read from its text. -/
theorem read?_text (d : Decimal) : read? d.text = some d := by
  obtain ⟨coefficient, places⟩ := d
  unfold text
  split
  case isTrue hplaces =>
    obtain rfl : places = 0 := hplaces
    rw [Piece.read?_digits (isDigits_toDigits coefficient), Nat.ofDigitChars_ten_toDigits]
  case isFalse hplaces =>
    have hpos : 0 < places := Nat.pos_of_ne_zero hplaces
    have hlt : coefficient % 10 ^ places < 10 ^ places := Nat.mod_lt _ (Nat.pow_pos (by decide))
    have hsum : 10 ^ places * (coefficient / 10 ^ places) + coefficient % 10 ^ places =
        coefficient := Nat.div_add_mod _ _
    simp only [Nat.pow_eq]
    rw [Piece.read?_point (isDigits_toDigits _) (isDigits_padded _ _), Nat.ofDigitChars_append,
      Nat.ofDigitChars_ten_toDigits, Nat.ofDigitChars_eq_ofDigitChars_zero, length_padded hpos hlt,
      ofDigitChars_padded, hsum]

end Decimal

namespace Number

theorem isNaN_of_isFinite {x : Float} (h : x.isFinite = true) : x.isNaN = false := by
  have hunpack : x.toModel.unpack.isFinite = true := h
  show x.toModel.unpack.isNaN = false
  generalize x.toModel.unpack = u at hunpack
  cases u with
  | notANumber => cases hunpack
  | infinity | zero | finite => rfl

theorem isInf_of_isFinite {x : Float} (h : x.isFinite = true) : x.isInf = false := by
  have hunpack : x.toModel.unpack.isFinite = true := h
  show x.toModel.unpack.isInf = false
  generalize x.toModel.unpack = u at hunpack
  cases u with
  | infinity => cases hunpack
  | notANumber | zero | finite => rfl

theorem text_of_isNegative_eq_false {x : Float} (hnan : x.isNaN = false)
    (hsign : isNegative x = false) : text x = magnitudeText x := by
  rw [text, hnan, hsign, if_neg Bool.false_ne_true, if_neg Bool.false_ne_true]

theorem text_of_isNegative {x : Float} (hnan : x.isNaN = false) (hsign : isNegative x = true) :
    text x = "-" ++ magnitudeText x := by
  rw [text, hnan, hsign, if_neg Bool.false_ne_true, if_pos rfl]

/-- The text of a finite number without its sign is a numeral. -/
theorem isNumeral_magnitudeText {x : Float} (hinf : x.isInf = false) :
    IsNumeral (magnitudeText x).toList := by
  rw [magnitudeText, hinf, if_neg Bool.false_ne_true, String.toList_ofList]
  exact (Decimal.shortest x).isNumeral_text

/-- The text of a finite number without its sign is read as the absolute value. -/
theorem read?_magnitudeText {x : Float} (hnan : x.isNaN = false) (hinf : x.isInf = false) :
    read? (magnitudeText x).toList = some x.abs := by
  rw [magnitudeText, hinf, if_neg Bool.false_ne_true, String.toList_ofList, read?,
    Decimal.read?_text, Option.map_some, Decimal.toFloat_shortest hnan hinf]

/-- A number that is read is not NaN and has no minus sign. -/
theorem unsigned_of_read? {cs : List Char} {x : Float} (h : read? cs = some x) :
    x.isNaN = false ∧ isNegative x = false := by
  obtain ⟨d, -, rfl⟩ := Option.map_eq_some_iff.mp h
  obtain ⟨e, m, hd⟩ := d.exists_hasParts_toFloat
  exact ⟨hd.isUnsigned.isNaN_eq_false, hd.isNegative_eq_false⟩

end Number

end BlockScript
