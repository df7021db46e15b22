import BlockScript.Expr.Eval
import BlockScript.Proofs.Number.Bits

/-!
# Equality of values

Two values are equal in a script if they are the same or both are zeros (`Value.isEqual_iff`). As
there is one NaN, whatever word it is read from, this is an equivalence, and it differs from the
equality of components at NaN alone. The operands of `==` and `!=` are evaluated in the same way,
so that the two have opposite values where they have any (`Value.isEqual_equivalence`).
-/

open Float.Model (UnpackedFloat)

namespace BlockScript

/-! ## Numbers -/

namespace Number

/-- Floats are compared as equal if they are the same, unless that is NaN, or both are zeros. -/
theorem compare_eq_iff {u v : UnpackedFloat} :
    u.compare v = some .eq ↔
      u = v ∧ u.isNaN = false ∨ (∃ s, u = .zero s) ∧ ∃ s, v = .zero s := by
  cases u with
  | notANumber => simp [UnpackedFloat.compare, UnpackedFloat.isNaN]
  | infinity s =>
    cases v with
    | infinity s' =>
      cases s <;> cases s' <;>
        simp [UnpackedFloat.compare, UnpackedFloat.isNaN, compare, Ord.compare]
    | notANumber | zero | finite => cases s <;> simp [UnpackedFloat.compare]
  | zero s =>
    cases v with
    | infinity s' | finite s' => cases s' <;> simp [UnpackedFloat.compare]
    | notANumber | zero => simp [UnpackedFloat.compare]
  | finite s m e hm =>
    cases v with
    | infinity s' => cases s' <;> simp [UnpackedFloat.compare]
    | notANumber => simp [UnpackedFloat.compare]
    | zero => cases s <;> simp [UnpackedFloat.compare]
    | finite s' m' e' hm' =>
      cases s <;> cases s' <;>
        simp [UnpackedFloat.compare, UnpackedFloat.isNaN, Ordering.then_eq_eq, and_comm]

theorem beq_iff {x y : Float} :
    (x == y) = true ↔ x = y ∧ x.isNaN = false ∨ IsZero x ∧ IsZero y := by
  have hunpack : x.toModel.unpack = y.toModel.unpack ↔ x = y := ⟨unpack_inj, fun h => by rw [h]⟩
  change (x.toModel.unpack.compare y.toModel.unpack == some .eq) = true ↔ _
  rw [beq_iff_eq, compare_eq_iff, hunpack]
  rfl

/-- NaN is not the same as any number when numbers are compared as such. -/
theorem beq_eq_false_of_isNaN {x y : Float} (h : x.isNaN = true) : (x == y) = false := by
  rw [← Bool.not_eq_true, beq_iff]
  rintro (⟨-, hnot⟩ | ⟨⟨s, hzero⟩, -⟩)
  · rw [h] at hnot
    cases hnot
  · rw [isNaN_iff.mp h] at hzero
    cases hzero

end Number

/-! ## Operands -/

namespace Expr

/-- The operands have these values, the right one after the left. -/
def OperandsHave (env : Environment) (left right : Expr) (l r : Value) (after : Environment) :
    Prop :=
  ∃ middle, left.eval env = (.ok l, middle) ∧ right.eval middle = (.ok r, after)

/-- One of the operands fails, which is the right one only if the left one has a value. -/
def OperandsFail (env : Environment) (left right : Expr) (d : Diagnostic) (after : Environment) :
    Prop :=
  left.eval env = (.error d, after) ∨
    ∃ l middle, left.eval env = (.ok l, middle) ∧ right.eval middle = (.error d, after)

/-- Up to the operation itself, the operator makes no difference. -/
theorem eval_binary (env : Environment) (left right : Expr) :
    (∃ l r after, OperandsHave env left right l r after ∧
      ∀ op, (binary left op right).eval env = (applyBinary op l r, after)) ∨
    ∃ d after, OperandsFail env left right d after ∧
      ∀ op, (binary left op right).eval env = (.error d, after) := by
  cases hleft : left.eval env with
  | mk result middle =>
    cases result with
    | error d =>
      refine .inr ⟨d, middle, .inl hleft, fun op => ?_⟩
      rw [eval, hleft]
    | ok l =>
      cases hright : right.eval middle with
      | mk result after =>
        cases result with
        | error d =>
          refine .inr ⟨d, after, .inr ⟨l, middle, hleft, hright⟩, fun op => ?_⟩
          rw [eval, hleft]
          simp only [hright]
        | ok r =>
          refine .inl ⟨l, r, after, ⟨middle, hleft, hright⟩, fun op => ?_⟩
          rw [eval, hleft]
          simp only [hright]

theorem applyBinary_equal {op : Token} (h : op.kind = .equalEqual) (l r : Value) :
    applyBinary op l r = .ok (.boolean (l.isEqual r)) := by
  rw [applyBinary, h]
  rfl

theorem applyBinary_notEqual {op : Token} (h : op.kind = .bangEqual) (l r : Value) :
    applyBinary op l r = .ok (.boolean !(l.isEqual r)) := by
  rw [applyBinary, h]
  rfl

end Expr

/-! ## Values -/

namespace Value

open Number (IsZero IsZeroWord IsNaNWord)

theorem isEqual_number {x y : Float} :
    (number x).isEqual (number y) = true ↔ x = y ∨ IsZero x ∧ IsZero y := by
  rw [isEqual]
  split
  case isTrue h =>
    obtain ⟨hx, hy⟩ := (Bool.and_eq_true _ _).mp h
    exact iff_of_true rfl (.inl (Number.eq_of_isNaN hx hy))
  case isFalse h =>
    rw [Number.beq_iff]
    constructor
    · exact Or.imp_left And.left
    · rintro (rfl | hzeros)
      · exact .inl ⟨rfl, by simpa using h⟩
      · exact .inr hzeros

/-- Values are equal if they are the same or both are zeros. -/
theorem isEqual_iff {a b : Value} :
    a.isEqual b = true ↔
      a = b ∨ ∃ x y, a = number x ∧ b = number y ∧ IsZero x ∧ IsZero y := by
  cases a <;> cases b
  case number.number x y => simp [isEqual_number]
  all_goals simp [isEqual]

theorem kind_of_isEqual {a b : Value} (h : a.isEqual b = true) : a.kind = b.kind := by
  rcases isEqual_iff.mp h with rfl | ⟨x, y, rfl, rfl, -⟩ <;> rfl

/-- Two words stand for equal numbers if they are the same, both stand for NaN or both for zero. -/
theorem isEqual_ofBits {p q : UInt64} :
    (number (.ofBits p)).isEqual (number (.ofBits q)) = true ↔
      p = q ∨ IsNaNWord p ∧ IsNaNWord q ∨ IsZeroWord p ∧ IsZeroWord q := by
  rw [isEqual_number, Number.ofBits_eq_iff, Number.isZero_ofBits, Number.isZero_ofBits, or_assoc]

theorem isEqual_ne_hasSameContents {a b : Value} :
    a.isEqual b ≠ a.hasSameContents b ↔
      ∃ x y, a = number x ∧ b = number y ∧ x.isNaN = true ∧ y.isNaN = true := by
  cases a <;> cases b
  case number.number x y =>
    rw [isEqual, hasSameContents]
    split
    case isTrue h =>
      obtain ⟨hx, hy⟩ := (Bool.and_eq_true _ _).mp h
      rw [Number.beq_eq_false_of_isNaN hx]
      exact iff_of_true nofun ⟨x, y, rfl, rfl, hx, hy⟩
    case isFalse h =>
      refine iff_of_false (fun hne => hne rfl) ?_
      rintro ⟨_, _, ⟨⟩, ⟨⟩, hx, hy⟩
      exact h ((Bool.and_eq_true _ _).mpr ⟨hx, hy⟩)
  all_goals simp [isEqual, hasSameContents]

theorem equivalence_isEqual : Equivalence fun a b : Value => a.isEqual b = true := by
  refine ⟨fun a => isEqual_iff.mpr (.inl rfl), ?_, ?_⟩
  · intro a b hab
    rcases isEqual_iff.mp hab with rfl | ⟨x, y, rfl, rfl, hx, hy⟩
    · exact hab
    · exact isEqual_iff.mpr (.inr ⟨y, x, rfl, rfl, hy, hx⟩)
  · intro a b c hab hbc
    rcases isEqual_iff.mp hab with rfl | ⟨x, y, rfl, rfl, hx, -⟩
    · exact hbc
    · rcases isEqual_iff.mp hbc with rfl | ⟨-, z, -, rfl, -, hz⟩
      · exact hab
      · exact isEqual_iff.mpr (.inr ⟨x, z, rfl, rfl, hx, hz⟩)

/-- Equality in a script is an equivalence that keeps the kinds of values apart, and differs from
    the equality of components for two NaN and nothing else. It takes numbers as equal if their
    words are the same, both stand for NaN or both for zero. In the same environment `==` and `!=`
    have opposite values and leave the same environment, or they fail alike, where an operand
    does. -/
theorem isEqual_equivalence :
    (Equivalence fun a b : Value => a.isEqual b = true) ∧
    (∀ a b : Value, a.isEqual b = true → a.kind = b.kind) ∧
    (∀ a b : Value, a.isEqual b ≠ a.hasSameContents b ↔
      ∃ x y, a = number x ∧ b = number y ∧ x.isNaN = true ∧ y.isNaN = true) ∧
    (∀ p q : UInt64, (number (.ofBits p)).isEqual (number (.ofBits q)) = true ↔
      p = q ∨ IsNaNWord p ∧ IsNaNWord q ∨ IsZeroWord p ∧ IsZeroWord q) ∧
    ∀ (env : Environment) (left right : Expr) (equal notEqual : Token),
      equal.kind = .equalEqual → notEqual.kind = .bangEqual →
      (∃ l r after, Expr.OperandsHave env left right l r after ∧
        (Expr.binary left equal right).eval env = (.ok (.boolean (l.isEqual r)), after) ∧
        (Expr.binary left notEqual right).eval env = (.ok (.boolean !(l.isEqual r)), after)) ∨
      ∃ d after, Expr.OperandsFail env left right d after ∧
        (Expr.binary left equal right).eval env = (.error d, after) ∧
        (Expr.binary left notEqual right).eval env = (.error d, after) := by
  refine ⟨equivalence_isEqual, fun _ _ => kind_of_isEqual, fun _ _ => isEqual_ne_hasSameContents,
    fun _ _ => isEqual_ofBits, ?_⟩
  intro env left right equal notEqual hequal hnotEqual
  rcases Expr.eval_binary env left right with ⟨l, r, after, hoperands, heval⟩ |
    ⟨d, after, hoperands, heval⟩
  · refine .inl ⟨l, r, after, hoperands, ?_, ?_⟩
    · rw [heval, Expr.applyBinary_equal hequal]
    · rw [heval, Expr.applyBinary_notEqual hnotEqual]
  · exact .inr ⟨d, after, hoperands, heval equal, heval notEqual⟩

/-- The two zeros have different words and are equal, as `==` and `!=` find. -/
theorem isEqual_equivalence_zeros :
    (number (.ofBits 0x8000000000000000)).isEqual (number (.ofBits 0)) = true ∧
    (number (.ofBits 0x8000000000000000)).kind = (number (.ofBits 0)).kind ∧
    ∃ after,
      (Expr.binary (.literal (number (.ofBits 0x8000000000000000))) ⟨.equalEqual, "==", ⟨1, 4⟩⟩
        (.literal (number (.ofBits 0)))).eval .empty = (.ok (.boolean true), after) ∧
      (Expr.binary (.literal (number (.ofBits 0x8000000000000000))) ⟨.bangEqual, "!=", ⟨2, 4⟩⟩
        (.literal (number (.ofBits 0)))).eval .empty = (.ok (.boolean false), after) := by
  obtain ⟨-, hkind, -, hwords, hcompare⟩ := isEqual_equivalence
  have hequal := (hwords 0x8000000000000000 0).mpr (.inr (.inr ⟨rfl, rfl⟩))
  refine ⟨hequal, hkind _ _ hequal, ?_⟩
  rcases hcompare .empty (.literal (number (.ofBits 0x8000000000000000)))
    (.literal (number (.ofBits 0))) ⟨.equalEqual, "==", ⟨1, 4⟩⟩ ⟨.bangEqual, "!=", ⟨2, 4⟩⟩ rfl rfl
    with ⟨l, r, after, ⟨middle, ⟨⟩, ⟨⟩⟩, heq, hne⟩ | ⟨d, after, ⟨⟨⟩⟩ | ⟨l, middle, -, ⟨⟩⟩, -, -⟩
  rw [hequal] at heq hne
  exact ⟨_, heq, hne⟩

end Value

end BlockScript
