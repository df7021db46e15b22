import BlockScript.Number
import Mathlib

/-!
# The parts of a double

A double that is not NaN is determined by its sign, the bits of its exponent and the bits of its
fraction (`Number.HasParts`), and taking the absolute value or negating it changes the sign alone.
Each word stands for a double, and all those that are beyond infinity stand for the one NaN
(`Number.ofBits_eq_iff`).
-/

open Float.Model (Format UnpackedFloat)
open Float.Model.UnpackedFloat

namespace BlockScript.Number

/-! ## Packing -/

theorem toNat_packComponents (s : Sign) (e : BitVec 11) (m : BitVec 52) :
    (packComponents .binary64 s e m).toNat =
      s.toBitVec.toNat * 2 ^ 63 + e.toNat * 2 ^ 52 + m.toNat := by
  have he := e.isLt
  have hm := m.isLt
  rw [packComponents, BitVec.toNat_append, ← Nat.shiftLeft_add_eq_or_of_lt hm,
    BitVec.toNat_append, ← Nat.shiftLeft_add_eq_or_of_lt he, Nat.shiftLeft_eq, Nat.shiftLeft_eq]
  omega

theorem toNat_append_one (m : BitVec 52) : (1#1 ++ m).toNat = 2 ^ 52 + m.toNat := by
  rw [BitVec.toNat_append, ← Nat.shiftLeft_add_eq_or_of_lt m.isLt]
  rfl

/-- A double is infinite, zero, subnormal or normal, as its exponent says, or it is NaN. -/
theorem unpack_packComponents (s : Sign) (e : BitVec 11) (m : BitVec 52) :
    unpack .binary64 (packComponents .binary64 s e m) =
      if e = -1#11 then if m = 0#52 then .infinity s else .notANumber
      else if e = 0#11 then
        if h : m = 0#52 then .zero s
        else .finite s m.toNat (-1074) (by simpa [BitVec.toNat_pos, BitVec.pos_iff_ne_zero])
      else .finite s (2 ^ 52 + m.toNat) (e.toNat - 1075) (by omega) := by
  have hbias : ((Format.binary64.exponentBias : Nat) : Int) = 1023 := rfl
  simp only [unpack, unpackMantissa_packComponents, unpackExponent_packComponents,
    unpackSign_packComponents, Sign.ofBitVec_toBitVec, toNat_append_one, hbias]
  split
  case isTrue => rfl
  case isFalse =>
    split
    case isTrue he =>
      split
      · rfl
      · simp [he]
    case isFalse =>
      congr 1

theorem valid_packComponents (s : Sign) {e : BitVec 11} {m : BitVec 52}
    (h : e = -1#11 → m = 0#52) : Format.binary64.Valid (packComponents .binary64 s e m) := by
  refine ⟨fun he hm => ?_⟩
  rw [unpackExponent_packComponents] at he
  rw [unpackMantissa_packComponents] at hm
  exact absurd (h he) hm

/-- A word is made up of a sign, an exponent and a fraction. -/
theorem exists_packComponents (bits : UInt64) : ∃ (s : Sign) (e : BitVec 11) (m : BitVec 52),
    bits.toBitVec = packComponents .binary64 s e m ∧
      bits.toNat % 2 ^ 63 = e.toNat * 2 ^ 52 + m.toNat := by
  have hsplit := @packComponents_unpackSign_unpackExponent_unpackMantissa .binary64 bits.toBitVec
  obtain ⟨s, e, m, hparts⟩ : ∃ (s : Sign) (e : BitVec 11) (m : BitVec 52),
      bits.toBitVec = packComponents .binary64 s e m := ⟨_, _, _, hsplit.symm⟩
  have hbits : bits.toNat = s.toBitVec.toNat * 2 ^ 63 + e.toNat * 2 ^ 52 + m.toNat := by
    rw [← toNat_packComponents, ← hparts]
    rfl
  have he := e.isLt
  have hm := m.isLt
  exact ⟨s, e, m, hparts, by omega⟩

/-! ## Doubles -/

/-- The number is not NaN, and its sign, exponent and fraction are as given. -/
structure HasParts (x : Float) (s : Sign) (e : BitVec 11) (m : BitVec 52) : Prop where
  bits_eq : x.toBits.toBitVec = packComponents .binary64 s e m
  fraction_eq : e = -1#11 → m = 0#52

theorem exists_hasParts {x : Float} (h : x.isNaN = false) : ∃ s e m, HasParts x s e m := by
  obtain ⟨s, e, m, hparts, -⟩ := exists_packComponents x.toBits
  refine ⟨s, e, m, hparts, fun he => ?_⟩
  have hunpack : UnpackedFloat.isNaN (unpack .binary64 x.toBits.toBitVec) = false := h
  rw [hparts, unpack_packComponents, if_pos he] at hunpack
  split at hunpack
  case isTrue hm => exact hm
  case isFalse => cases hunpack

namespace HasParts

variable {x y : Float} {s : Sign} {e : BitVec 11} {m : BitVec 52}

/-- There is one number with given parts. -/
theorem unique (hx : HasParts x s e m) (hy : HasParts y s e m) : x = y :=
  Float.toBits_inj.mp (UInt64.eq_of_toBitVec_eq (hx.bits_eq.trans hy.bits_eq.symm))

theorem unpack_eq (h : HasParts x s e m) :
    x.toModel.unpack = unpack .binary64 (packComponents .binary64 s e m) := by
  rw [← h.bits_eq]
  rfl

/-- A number that is packed has the parts it was packed from. -/
theorem ofUnpacked (h : HasParts x s e m) (s' : Sign) :
    HasParts (.ofModel (.pack (unpack .binary64 (packComponents .binary64 s' e m)))) s' e m :=
  ⟨pack_unpack_of_valid (valid_packComponents s' h.fraction_eq), h.fraction_eq⟩

theorem abs (h : HasParts x s e m) : HasParts x.abs .positive e m := by
  have hunpack : x.toModel.unpack.abs =
      unpack .binary64 (packComponents .binary64 .positive e m) := by
    rw [h.unpack_eq, unpack_packComponents, unpack_packComponents]
    split
    · split <;> rfl
    · split
      · split <;> rfl
      · rfl
  have hparts := h.ofUnpacked .positive
  rw [← hunpack] at hparts
  exact hparts

theorem neg (h : HasParts x s e m) : HasParts (-x) (-s) e m := by
  have hunpack : x.toModel.unpack.neg = unpack .binary64 (packComponents .binary64 (-s) e m) := by
    rw [h.unpack_eq, unpack_packComponents, unpack_packComponents]
    split
    · split <;> rfl
    · split
      · split <;> rfl
      · rfl
  have hparts := h.ofUnpacked (-s)
  rw [← hunpack] at hparts
  exact hparts

theorem toNat_bits (h : HasParts x s e m) :
    x.toBits.toNat = s.toBitVec.toNat * 2 ^ 63 + e.toNat * 2 ^ 52 + m.toNat := by
  rw [← toNat_packComponents, ← h.bits_eq]
  rfl

theorem isNegative_eq_false (h : HasParts x .positive e m) : isNegative x = false := by
  have he := e.isLt
  have hm := m.isLt
  have hbits : x.toBits.toNat = 0 * 2 ^ 63 + e.toNat * 2 ^ 52 + m.toNat := h.toNat_bits
  rw [isNegative, decide_eq_false_iff_not]
  show ¬ 2 ^ 63 ≤ x.toBits.toNat
  omega

theorem isNegative_eq_true (h : HasParts x .negative e m) : isNegative x = true := by
  have hbits : x.toBits.toNat = 1 * 2 ^ 63 + e.toNat * 2 ^ 52 + m.toNat := h.toNat_bits
  rw [isNegative, decide_eq_true_iff]
  show 2 ^ 63 ≤ x.toBits.toNat
  omega

end HasParts

/-- A number without a minus sign is its own absolute value. -/
theorem abs_eq_self {x : Float} (hnan : x.isNaN = false) (h : isNegative x = false) :
    x.abs = x := by
  obtain ⟨s, e, m, hx⟩ := exists_hasParts hnan
  cases s with
  | negative => simp [hx.isNegative_eq_true] at h
  | positive => exact hx.abs.unique hx

/-- A number with a minus sign is its absolute value, negated. -/
theorem neg_abs_eq_self {x : Float} (hnan : x.isNaN = false) (h : isNegative x = true) :
    -x.abs = x := by
  obtain ⟨s, e, m, hx⟩ := exists_hasParts hnan
  cases s with
  | negative => exact hx.abs.neg.unique hx
  | positive => simp [hx.isNegative_eq_false] at h

/-! ## Words -/

/-- Doubles that are unpacked to the same float are the same. -/
theorem unpack_inj {x y : Float} (h : x.toModel.unpack = y.toModel.unpack) : x = y := by
  have hpack := congrArg (pack .binary64) h
  rw [Float.Model.unpack, Float.Model.unpack, pack_unpack_of_valid x.toModel.valid,
    pack_unpack_of_valid y.toModel.valid] at hpack
  exact Float.toBits_inj.mp (UInt64.eq_of_toBitVec_eq hpack)

theorem isNaN_iff {x : Float} : x.isNaN = true ↔ x.toModel.unpack = .notANumber := by
  change x.toModel.unpack.isNaN = true ↔ _
  cases x.toModel.unpack <;> simp [UnpackedFloat.isNaN]

/-- There is one NaN among the doubles, whatever word it is read from. -/
theorem eq_of_isNaN {x y : Float} (hx : x.isNaN = true) (hy : y.isNaN = true) : x = y :=
  unpack_inj ((isNaN_iff.mp hx).trans (isNaN_iff.mp hy).symm)

/-- The number is one of the two zeros. -/
def IsZero (x : Float) : Prop := ∃ s, x.toModel.unpack = .zero s

/-- The word is one of those that stand for NaN. They are beyond infinity, the sign aside. -/
def IsNaNWord (bits : UInt64) : Prop := 0x7FF * 2 ^ 52 < bits.toNat % 2 ^ 63

/-- The word is one of the two that stand for zero. -/
def IsZeroWord (bits : UInt64) : Prop := bits.toNat % 2 ^ 63 = 0

theorem pack_unpack_of_ne {b : BitVec 64} (h : unpack .binary64 b ≠ .notANumber) :
    pack .binary64 (unpack .binary64 b) = b := by
  refine pack_unpack_of_valid ⟨fun he hm => absurd ?_ h⟩
  simp [unpack, he, hm]

theorem unpack_ofBits (bits : UInt64) :
    (Float.ofBits bits).toModel.unpack = unpack .binary64 bits.toBitVec := by
  change unpack .binary64 (pack .binary64 (unpack .binary64 bits.toBitVec)) = _
  by_cases h : unpack .binary64 bits.toBitVec = .notANumber
  · rw [h]
    rfl
  · rw [pack_unpack_of_ne h]

theorem isNaN_ofBits {bits : UInt64} : (Float.ofBits bits).isNaN = true ↔ IsNaNWord bits := by
  obtain ⟨s, e, m, hparts, hbits⟩ := exists_packComponents bits
  have he := e.isLt
  have hm := m.isLt
  have hones : e = -1#11 ↔ e.toNat = 0x7FF := BitVec.toNat_inj.symm
  have hzero : m = 0#52 ↔ m.toNat = 0 := BitVec.toNat_inj.symm
  have hunpack : (Float.ofBits bits).toModel.unpack = .notANumber ↔ e = -1#11 ∧ m ≠ 0#52 := by
    rw [unpack_ofBits, hparts, unpack_packComponents]
    by_cases hexponent : e = -1#11
    · by_cases hfraction : m = 0#52 <;> simp [hexponent, hfraction]
    · rw [if_neg hexponent]
      refine iff_of_false ?_ fun h => hexponent h.1
      split
      · split <;> nofun
      · nofun
  rw [isNaN_iff, hunpack, IsNaNWord, hbits, hones, ne_eq, hzero]
  omega

theorem isZero_ofBits {bits : UInt64} : IsZero (Float.ofBits bits) ↔ IsZeroWord bits := by
  obtain ⟨s, e, m, hparts, hbits⟩ := exists_packComponents bits
  have hexponent : e = 0#11 ↔ e.toNat = 0 := BitVec.toNat_inj.symm
  have hfraction : m = 0#52 ↔ m.toNat = 0 := BitVec.toNat_inj.symm
  have hunpack : IsZero (Float.ofBits bits) ↔ e = 0#11 ∧ m = 0#52 := by
    rw [IsZero, unpack_ofBits, hparts, unpack_packComponents]
    by_cases hones : e = -1#11
    · rw [if_pos hones]
      refine iff_of_false ?_ fun h => absurd (hones.symm.trans h.1) (by decide)
      split <;> nofun
    · rw [if_neg hones]
      by_cases he : e = 0#11
      · by_cases hm : m = 0#52 <;> simp [he, hm]
      · simp [he]
  rw [hunpack, IsZeroWord, hbits, hexponent, hfraction]
  omega

/-- A word is the word of the double that it stands for, unless that is NaN. -/
theorem toBits_ofBits {bits : UInt64} (h : ¬ IsNaNWord bits) :
    (Float.ofBits bits).toBits = bits := by
  rw [← isNaN_ofBits, isNaN_iff, unpack_ofBits] at h
  exact UInt64.eq_of_toBitVec_eq (pack_unpack_of_ne h)

/-- Words stand for the same double only if they are the same or both stand for NaN. -/
theorem ofBits_eq_iff {p q : UInt64} :
    Float.ofBits p = Float.ofBits q ↔ p = q ∨ IsNaNWord p ∧ IsNaNWord q := by
  constructor
  · intro h
    by_cases hp : IsNaNWord p
    · exact .inr ⟨hp, isNaN_ofBits.mp (h ▸ isNaN_ofBits.mpr hp)⟩
    · have hq : ¬ IsNaNWord q := fun hq => hp (isNaN_ofBits.mp (h ▸ isNaN_ofBits.mpr hq))
      rw [← toBits_ofBits hp, ← toBits_ofBits hq, h]
      exact .inl rfl
  · rintro (rfl | ⟨hp, hq⟩)
    · rfl
    · exact eq_of_isNaN (isNaN_ofBits.mpr hp) (isNaN_ofBits.mpr hq)

end BlockScript.Number
