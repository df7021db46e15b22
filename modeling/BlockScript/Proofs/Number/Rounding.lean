import BlockScript.Proofs.Number.Bits

/-!
# The doubles that decimals are read as

A decimal is read as a double by rounding its value, and the result has no sign
(`Decimal.exists_hasParts_toFloat`). The exact decimal of a double needs no rounding: dividing its
coefficient by a power of ten leaves no remainder, and all bits of the quotient below the last place
of the double are zeros. So it is read as that double again (`Decimal.toFloat_exact`), and so is the
shortest decimal (`Decimal.toFloat_shortest`).
-/

open Float.Model (Format UnpackedFloat)
open Float.Model.UnpackedFloat

namespace BlockScript

/-! ## Numbers without a sign -/

namespace Number

/-- The float is not NaN, and its sign is positive. -/
def IsUnsigned : UnpackedFloat → Prop
  | .infinity s | .zero s | .finite s _ _ _ => s = .positive
  | .notANumber => False

theorem IsUnsigned.isNaN_eq_false {u : UnpackedFloat} (h : IsUnsigned u) : u.isNaN = false := by
  cases u with
  | notANumber => cases h
  | infinity | zero | finite => rfl

/-- Whether the float is finite and greater than zero. -/
def isPositive : UnpackedFloat → Bool
  | .finite .positive _ _ _ => true
  | _ => false

theorem isUnsigned_roundWithAccuracy (spec : Format) (m : Nat) (e : Int) (acc : Accuracy) :
    IsUnsigned (roundWithAccuracy spec .positive m e acc) := by
  unfold roundWithAccuracy
  simp only
  split <;> rfl

theorem isUnsigned_div (spec : Format) {u v : UnpackedFloat} (hu : IsUnsigned u)
    (hv : isPositive v = true) : IsUnsigned (div spec u v) := by
  unfold isPositive at hv
  split at hv
  case h_1 =>
    cases u with
    | infinity s =>
      obtain rfl : s = .positive := hu
      rfl
    | zero s =>
      obtain rfl : s = .positive := hu
      rfl
    | finite s =>
      obtain rfl : s = .positive := hu
      exact isUnsigned_roundWithAccuracy ..
    | notANumber => cases hu
  case h_2 => cases hv

theorem isUnsigned_ofNat (spec : Format) (n : Nat) : IsUnsigned (ofNat spec n) := by
  unfold ofNat ofInt UnpackedFloat.normalize
  cases n with
  | zero => rfl
  | succ n => exact isUnsigned_roundWithAccuracy ..

theorem isUnsigned_ofScientific (spec : Format) (m : Nat) (e : Int) :
    IsUnsigned (ofScientific spec m e) := by
  unfold ofScientific
  split
  · rfl
  · split
    · rfl
    · split
      · rfl
      · split
        · exact isUnsigned_roundWithAccuracy ..
        · exact isUnsigned_div spec rfl rfl

/-- A number that is packed from a float without a sign has none. -/
theorem hasParts_pack {u : UnpackedFloat} (hu : IsUnsigned u) :
    ∃ e m, HasParts (.ofModel (.pack u)) .positive e m := by
  cases u with
  | infinity s =>
    obtain rfl : s = .positive := hu
    exact ⟨-1#11, 0#52, rfl, fun _ => rfl⟩
  | zero s =>
    obtain rfl : s = .positive := hu
    exact ⟨0#11, 0#52, rfl, by simp⟩
  | finite s m e hm =>
    obtain rfl : s = .positive := hu
    suffices hpack : ∃ e' m', pack .binary64 (.finite .positive m e hm) =
        packComponents .binary64 .positive e' m' ∧ (e' = -1#11 → m' = 0#52) by
      obtain ⟨e', m', hbits, hfraction⟩ := hpack
      exact ⟨e', m', hbits, hfraction⟩
    simp only [pack]
    split
    case isTrue => exact ⟨-1#11, 0#52, rfl, fun _ => rfl⟩
    case isFalse hbiased =>
      split
      case isTrue =>
        refine ⟨_, _, rfl, ?_⟩
        intro he
        -- the exponent that is all ones is left to infinity
        have hones := congrArg BitVec.toNat he
        rw [BitVec.toNat_ofNat] at hones
        change ¬ 2 ^ 11 ≤ _ at hbiased
        rw [Nat.mod_eq_of_lt (by omega)] at hones
        change _ = 2 ^ 11 - 1 at hones
        omega
      case isFalse => exact ⟨0#11, _, rfl, by simp⟩
  | notANumber => cases hu

theorem HasParts.isUnsigned {x : Float} {e : BitVec 11} {m : BitVec 52}
    (h : HasParts x .positive e m) : IsUnsigned x.toModel.unpack := by
  rw [h.unpack_eq, unpack_packComponents]
  split
  case isTrue he =>
    rw [if_pos (h.fraction_eq he)]
    rfl
  case isFalse =>
    split
    · split <;> rfl
    · rfl

end Number

/-! ## Decimals -/

namespace Decimal

open Number (HasParts IsUnsigned)

theorem isPositive_powers : Float.exactlyRepresentablePowersOfTen.all
    (fun x => Number.isPositive x.toModel.unpack) = true := by
  decide +kernel

/-- A decimal is read as a number without a sign. -/
theorem exists_hasParts_toFloat (d : Decimal) : ∃ e m, HasParts d.toFloat .positive e m := by
  unfold toFloat Float.ofScientific
  split
  case isTrue h =>
    obtain ⟨e, m, hwhole⟩ := Number.hasParts_pack
      (Number.isUnsigned_ofNat .binary64 d.coefficient.toUInt64.toNat)
    have hpower := Array.all_eq_true.mp isPositive_powers d.places
    exact Number.hasParts_pack (Number.isUnsigned_div .binary64 hwhole.isUnsigned (hpower _))
  case isFalse => exact Number.hasParts_pack (Number.isUnsigned_ofScientific ..)

end Decimal

/-! ## Rounding that changes nothing -/

namespace Number

theorem log2_mul_pow {m : Nat} (hm : 0 < m) (k : Nat) : (m * 2 ^ k).log2 = m.log2 + k := by
  induction k with
  | zero => simp
  | succ k ih =>
    have hne : m * 2 ^ k ≠ 0 := Nat.ne_of_gt (Nat.mul_pos hm (Nat.two_pow_pos k))
    rw [Nat.pow_succ, ← Nat.mul_assoc, Nat.mul_comm, Nat.log2_two_mul hne, ih]
    rfl

/-- Zeros are shifted out without a trace. -/
theorem repeat_shiftRightOne (m k : Nat) :
    k.repeat ExtendedMantissa.shiftRightOne ⟨m * 2 ^ k, false, false⟩ = ⟨m, false, false⟩ := by
  induction k generalizing m with
  | zero => simp [Nat.repeat]
  | succ k ih =>
    have heq : m * 2 ^ (k + 1) = m * 2 * 2 ^ k := by
      rw [Nat.pow_succ, Nat.mul_comm (2 ^ k), Nat.mul_assoc]
    rw [Nat.repeat, heq, ih]
    simp [ExtendedMantissa.shiftRightOne]

/-- The exponent of a float with the mantissa `m` is the one that rounding gives it. -/
def IsRounded (m : Nat) (e : Int) : Prop :=
  Format.binary64.targetExponent (Float.Model.totalExponent m e) = e

theorem shiftToTargetExponent_eq {m : Nat} {e : Int} (hm : 0 < m) (h : IsRounded m e) (k : Nat) :
    shiftToTargetExponent .binary64 (m * 2 ^ k) (e - k) .exact = (⟨m, false, false⟩, e) := by
  have htotal : Float.Model.totalExponent (m * 2 ^ k) (e - k) = Float.Model.totalExponent m e := by
    rw [Float.Model.totalExponent, Float.Model.totalExponent, log2_mul_pow hm]
    omega
  have hshift : (e - (e - k)).toNat = k := by omega
  have hback : e - k + k = e := by omega
  unfold IsRounded at h
  simp only [shiftToTargetExponent, shiftToExponent, htotal, h, hshift, hback]
  exact congrArg (·, e) (repeat_shiftRightOne m k)

/-- A float whose bits after the last place are zeros is rounded to the float without them. -/
theorem roundWithAccuracy_eq {m : Nat} {e : Int} (hm : 0 < m) (h : IsRounded m e) (s : Sign)
    (k : Nat) : roundWithAccuracy .binary64 s (m * 2 ^ k) (e - k) .exact = .finite s m e hm := by
  have hagain : shiftToTargetExponent .binary64 m e .exact = (⟨m, false, false⟩, e) := by
    have hzero := shiftToTargetExponent_eq hm h 0
    simpa using hzero
  have hrounded : (ExtendedMantissa.mk m false false).roundedMantissa = m := rfl
  simp only [roundWithAccuracy, shiftToTargetExponent_eq hm h k, hrounded, hagain]
  rw [dif_neg (Nat.ne_of_gt hm)]

/-! ## Exact decimals -/

/-- A whole number of units above the last place of the fraction is read as it is. -/
theorem ofScientific_whole {m k : Nat} (hm : 0 < m) (h : IsRounded m (k + 1)) :
    ofScientific .binary64 (2 * m * 2 ^ k) 0 = .finite .positive m (k + 1) hm := by
  have hbits : Format.binary64.mantissaBits = 53 := rfl
  have hpow : (2 : Int) ^ Format.binary64.exponentBits = 2048 := rfl
  have hmantissa : (2 * m * 2 ^ k) <<< 53 * 10 ^ 0 = m * 2 ^ (k + 54) := by
    rw [Nat.shiftLeft_eq]
    ring
  have hexponent : -((53 : Nat) : Int) + 0 = k + 1 - (k + 54 : Nat) := by omega
  have hne : 2 * m * 2 ^ k ≠ 0 := by positivity
  have hhigh : ¬ (0 : Int) > 2 ^ Format.binary64.exponentBits := by omega
  have hlow : ¬ (0 : Int) < -(2 ^ Format.binary64.exponentBits + (2 * m * 2 ^ k).log2) := by omega
  rw [ofScientific, dif_neg hne, if_neg hhigh, if_neg hlow, if_pos (Int.le_refl 0)]
  simp only [mul, hbits, Int.toNat_zero, hmantissa, hexponent]
  exact roundWithAccuracy_eq hm h .positive (k + 54)

theorem log2_coefficient_le {m : Nat} (hm : 0 < m) (hlt : m < 2 ^ 53) (places : Nat) :
    (2 * m * 5 ^ places).log2 + places ≤ (10 ^ places).log2 + 54 := by
  have hpos : 0 < 5 ^ places := by positivity
  have hten : (10 ^ places).log2 = (5 ^ places).log2 + places := by
    have hprod : 10 ^ places = 5 ^ places * 2 ^ places := Nat.mul_pow 5 2 places
    rw [hprod, log2_mul_pow hpos]
  rw [hten]
  have hfive : 5 ^ places < 2 ^ ((5 ^ places).log2 + 1) := Nat.lt_log2_self
  generalize (5 ^ places).log2 = l at hfive
  have hne : 2 * m * 5 ^ places ≠ 0 := by positivity
  have hless : 2 * m * 5 ^ places < 2 ^ (l + 55) :=
    calc 2 * m * 5 ^ places
        < 2 * 2 ^ 53 * 5 ^ places := by gcongr
      _ ≤ 2 * 2 ^ 53 * 2 ^ (l + 1) := by gcongr
      _ = 2 ^ (l + 55) := by ring
  have hlog := (Nat.log2_lt hne).mpr hless
  omega

/-- The quotient of the coefficient and the power of ten has enough digits before the last place,
    and those after it are zeros. -/
theorem divCore_eq {m places : Nat} (hm : 0 < m) (hlt : m < 2 ^ 53) (hle : places ≤ 1075) :
    ∃ k : Nat, divCore .binary64 (2 * m * 5 ^ places) 0 (10 ^ places) 0 =
      (m * 2 ^ k, 1 - (places : Int) - k, Accuracy.exact) := by
  have hlog := log2_coefficient_le hm hlt places
  have hbits : Format.binary64.mantissaBits = 53 := rfl
  have hmin : Format.binary64.minExponent = -1074 := rfl
  obtain ⟨shift, hshift⟩ : ∃ shift : Nat, min ((0 : Int) - 0) (Format.binary64.targetExponent
      (Float.Model.totalExponent (2 * m * 5 ^ places) 0 -
        Float.Model.totalExponent (10 ^ places) 0)) = -shift ∧ places ≤ shift + 1 := by
    simp only [Format.targetExponent, Float.Model.totalExponent, hbits, hmin]
    generalize (2 * m * 5 ^ places).log2 = l, (10 ^ places).log2 = l' at hlog
    exact ⟨(-min ((0 : Int) - 0) (max (l + 1 + 0 - (l' + 1 + 0) - (53 : Nat)) (-1074))).toNat,
      by omega, by omega⟩
  obtain ⟨hexponent, hplaces⟩ := hshift
  obtain ⟨k, hk⟩ := Nat.exists_eq_add_of_le hplaces
  have hamount : ((0 : Int) - 0 - -(shift : Int)).toNat = shift := by omega
  have hquotient : (2 * m * 5 ^ places) <<< shift = m * 2 ^ k * 10 ^ places := by
    rw [Nat.shiftLeft_eq, mul_assoc 2]
    calc 2 * (m * 5 ^ places) * 2 ^ shift
        = m * 5 ^ places * 2 ^ (shift + 1) := by ring
      _ = m * 2 ^ k * (2 ^ places * 5 ^ places) := by rw [hk]; ring
      _ = m * 2 ^ k * 10 ^ places := by rw [← Nat.mul_pow]
  refine ⟨k, ?_⟩
  have hback : -(shift : Int) = 1 - (places : Int) - k := by omega
  simp only [divCore, hexponent, hamount, hquotient]
  rw [Nat.mul_div_cancel _ (by positivity), Nat.mul_mod_left, hback]
  rfl

theorem ofScientific_places {m places : Nat} (hm : 0 < m) (hlt : m < 2 ^ 53)
    (h : IsRounded m (1 - places)) (hplaces : 0 < places) (hle : places ≤ 1075) :
    ofScientific .binary64 (2 * m * 5 ^ places) (Int.negOfNat places) =
      .finite .positive m (1 - places) hm := by
  have hne : 2 * m * 5 ^ places ≠ 0 := by positivity
  have hpow : (2 : Int) ^ Format.binary64.exponentBits = 2048 := rfl
  rw [Int.negOfNat_eq, Int.ofNat_eq_natCast]
  have hhigh : ¬ (-(places : Int)) > 2 ^ Format.binary64.exponentBits := by omega
  have hlow : ¬ (-(places : Int)) <
      -(2 ^ Format.binary64.exponentBits + (2 * m * 5 ^ places).log2) := by
    omega
  have hneg : ¬ 0 ≤ -(places : Int) := by omega
  have hplacesEq : (- -(places : Int)).toNat = places := by omega
  obtain ⟨k, hdiv⟩ := divCore_eq hm hlt hle
  rw [ofScientific, dif_neg hne, if_neg hhigh, if_neg hlow, if_neg hneg]
  simp only [hplacesEq, div, hdiv]
  exact roundWithAccuracy_eq hm h .positive k

/-- The mantissa of a finite number, with the bit that only a subnormal number lacks. -/
def significand (e : BitVec 11) (m : BitVec 52) : Nat :=
  if e = 0#11 then m.toNat else 2 ^ 52 + m.toNat

theorem isRounded_significand {e : BitVec 11} {m : BitVec 52} (hpos : 0 < significand e m) :
    IsRounded (significand e m) ((max 1 e.toNat : Nat) - 1075) := by
  have hbits : Format.binary64.mantissaBits = 53 := rfl
  have hmin : Format.binary64.minExponent = -1074 := rfl
  simp only [IsRounded, Format.targetExponent, Float.Model.totalExponent, hbits, hmin]
  unfold significand at hpos ⊢
  split at hpos
  case isTrue he =>
    have hlog : m.toNat.log2 < 52 := (Nat.log2_lt (Nat.ne_of_gt hpos)).mpr m.isLt
    rw [if_pos he, he]
    simp only [BitVec.toNat_zero]
    omega
  case isFalse he =>
    have hpositive : e.toNat ≠ 0 := fun hzero => he (BitVec.eq_of_toNat_eq hzero)
    have hm := m.isLt
    have hlog : (2 ^ 52 + m.toNat).log2 = 52 := by
      rw [Nat.log2_eq_iff (by omega)]
      omega
    rw [if_neg he, hlog]
    omega

theorem significand_lt (e : BitVec 11) (m : BitVec 52) : significand e m < 2 ^ 53 := by
  have hm := m.isLt
  unfold significand
  split <;> omega

/-- The exact decimal of a finite number stands for the number itself. -/
theorem ofScientific_significand {e : BitVec 11} {m : BitVec 52} (hpos : 0 < significand e m) :
    ofScientific .binary64
      (2 * significand e m * 2 ^ (max 1 e.toNat - 1076) * 5 ^ (1076 - max 1 e.toNat))
      (Int.negOfNat (1076 - max 1 e.toNat)) =
        .finite .positive (significand e m) ((max 1 e.toNat : Nat) - 1075) hpos := by
  have hrounded := isRounded_significand hpos
  have hlt := significand_lt e m
  generalize significand e m = n at hpos hrounded hlt
  have hone : 1 ≤ max 1 e.toNat := by omega
  generalize max 1 e.toNat = exponent at hone hrounded
  rcases Nat.lt_or_ge exponent 1076 with hsmall | hlarge
  · have hexponent : (exponent : Int) - 1075 = 1 - (1076 - exponent : Nat) := by omega
    have hpower : exponent - 1076 = 0 := by omega
    simp only [hexponent, hpower] at hrounded ⊢
    rw [Nat.pow_zero, Nat.mul_one]
    exact ofScientific_places hpos hlt hrounded (by omega) (by omega)
  · have hexponent : (exponent : Int) - 1075 = (exponent - 1076 : Nat) + 1 := by omega
    have hplaces : 1076 - exponent = 0 := by omega
    simp only [hexponent, hplaces] at hrounded ⊢
    rw [Nat.pow_zero, Nat.mul_one]
    exact ofScientific_whole hpos hrounded

namespace HasParts

variable {x : Float} {s : Sign} {e : BitVec 11} {m : BitVec 52}

theorem unpack_of_finite (h : HasParts x s e m) (he : e ≠ -1#11) (hpos : 0 < significand e m) :
    x.toModel.unpack = .finite s (significand e m) ((max 1 e.toNat : Nat) - 1075) hpos := by
  rw [h.unpack_eq, unpack_packComponents, if_neg he]
  unfold significand at hpos
  split at hpos
  case isTrue hzero =>
    have hm : m ≠ 0#52 := by
      rintro rfl
      cases hpos
    rw [if_pos hzero, dif_neg hm]
    simp [significand, hzero]
  case isFalse hzero =>
    have hpositive : e.toNat ≠ 0 := fun hnone => hzero (BitVec.eq_of_toNat_eq hnone)
    have hmax : max 1 e.toNat = e.toNat := by omega
    rw [if_neg hzero]
    simp [significand, hzero, hmax]

theorem exact_eq (h : HasParts x s e m) :
    Decimal.exact x =
      ⟨2 * significand e m * 2 ^ (max 1 e.toNat - 1076) * 5 ^ (1076 - max 1 e.toNat),
        1076 - max 1 e.toNat⟩ := by
  have he := e.isLt
  have hm := m.isLt
  have hs := s.toBitVec.isLt
  have hbits := h.toNat_bits
  have hfraction : x.toBits.toNat % 2 ^ 52 = m.toNat := by omega
  have hexponent : x.toBits.toNat / 2 ^ 52 % 2 ^ 11 = e.toNat := by omega
  have hzero : e.toNat = 0 ↔ e = 0#11 := ⟨fun h => BitVec.eq_of_toNat_eq h, fun h => by rw [h]; rfl⟩
  simp only [Decimal.exact, Nat.pow_eq, hfraction, hexponent, hzero, significand]

end HasParts

end Number

namespace Decimal

open Number (HasParts significand)

/-- The decimal is not among those that are read by dividing two doubles. -/
theorem toFloat_eq {d : Decimal} (h : ¬ (d.coefficient < 2 ^ 53 ∧ d.places ≤ 22)) :
    d.toFloat =
      .ofModel (.pack (ofScientific .binary64 d.coefficient (Int.negOfNat d.places))) := by
  rw [toFloat, Float.ofScientific, dif_neg h]
  rfl

theorem eq_zero_of_significand {e : BitVec 11} {m : BitVec 52} (h : significand e m = 0) :
    e = 0#11 ∧ m = 0#52 := by
  unfold significand at h
  split at h
  case isTrue he => exact ⟨he, BitVec.eq_of_toNat_eq h⟩
  case isFalse => omega

/-- With few places the significand is that of a normal number. -/
theorem not_fast {e : BitVec 11} {m : BitVec 52} (hpos : 0 < significand e m) :
    ¬ (2 * significand e m * 2 ^ (max 1 e.toNat - 1076) * 5 ^ (1076 - max 1 e.toNat) < 2 ^ 53 ∧
      1076 - max 1 e.toNat ≤ 22) := by
  rintro ⟨hlt, hplaces⟩
  have hnormal : e ≠ 0#11 := by
    rintro rfl
    simp at hplaces
  have hlarge : 2 ^ 53 ≤ 2 * significand e m := by
    rw [significand, if_neg hnormal]
    omega
  have hpowers : 0 < 2 ^ (max 1 e.toNat - 1076) * 5 ^ (1076 - max 1 e.toNat) := by positivity
  have hle := Nat.le_mul_of_pos_right (2 * significand e m) hpowers
  rw [← Nat.mul_assoc] at hle
  omega

/-- The exact decimal of a finite number is read as its absolute value. -/
theorem toFloat_exact {x : Float} (hnan : x.isNaN = false) (hinf : x.isInf = false) :
    (exact x).toFloat = x.abs := by
  obtain ⟨s, e, m, hx⟩ := Number.exists_hasParts hnan
  have hfinite : e ≠ -1#11 := by
    rintro rfl
    have hunpack : UnpackedFloat.isInf x.toModel.unpack = false := hinf
    rw [hx.unpack_eq, Number.unpack_packComponents, if_pos rfl, if_pos (hx.fraction_eq rfl)]
      at hunpack
    cases hunpack
  rw [hx.exact_eq]
  rcases Nat.eq_zero_or_pos (significand e m) with hzero | hpos
  · obtain ⟨rfl, rfl⟩ := eq_zero_of_significand hzero
    rw [hzero, toFloat_eq fun hfew => absurd hfew.2 (by decide)]
    have hparts : HasParts (.ofModel (.pack (.zero .positive))) .positive 0#11 0#52 :=
      ⟨rfl, fun _ => rfl⟩
    simp only [Nat.mul_zero, Nat.zero_mul]
    rw [ofScientific, dif_pos rfl]
    exact hparts.unique hx.abs
  · rw [toFloat_eq (not_fast hpos)]
    simp only [Number.ofScientific_significand hpos]
    have habs : x.abs = .ofModel (.pack x.toModel.unpack.abs) := rfl
    rw [habs, hx.unpack_of_finite hfinite hpos]
    rfl

theorem toFloat_of_nearest? {x : Float} {d near : Decimal} {shift : Nat}
    (h : nearest? x d shift = some near) : near.toFloat = x.abs := by
  have hreads : ∀ d : Decimal, reads x d = true → d.toFloat = x.abs := fun d => of_decide_eq_true
  unfold nearest? at h
  simp only at h
  split at h
  case h_1 hlow hhigh =>
    cases h
    split
    · exact hreads _ hlow
    · exact hreads _ hhigh
  case h_2 hlow _ =>
    cases h
    exact hreads _ hlow
  case h_3 _ hhigh =>
    cases h
    exact hreads _ hhigh
  case h_4 => cases h

/-- The shortest decimal of a finite number is read as its absolute value. -/
theorem toFloat_shortest {x : Float} (hnan : x.isNaN = false) (hinf : x.isInf = false) :
    (shortest x).toFloat = x.abs := by
  unfold shortest
  simp only
  cases hfound : (List.range 17).findSome? fun n =>
    nearest? x (exact x) ((Nat.toDigits 10 (exact x).coefficient).length - (n + 1)) with
  | none => exact toFloat_exact hnan hinf
  | some d =>
    obtain ⟨n, -, hd⟩ := List.exists_of_findSome?_eq_some hfound
    exact toFloat_of_nearest? hd

end Decimal

end BlockScript
