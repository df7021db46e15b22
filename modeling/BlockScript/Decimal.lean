/-!
# Decimal numbers in positional notation

A `Decimal` is a non-negative number together with the number of decimal places it is written
with. `text` writes it and `read?` reads it back; `toFloat` is the double nearest to it. The
notation has no sign and no exponent: digits, then optionally a point and more digits.
-/

namespace BlockScript

/-- The number `coefficient / 10 ^ places`. -/
structure Decimal where
  coefficient : Nat
  places : Nat
deriving DecidableEq, Repr

namespace Decimal

/-- The digits of `n`, with zeros in front where there are fewer than `width` of them. -/
def padded (width n : Nat) : List Char :=
  let digits := Nat.toDigits 10 n
  List.replicate (width - digits.length) '0' ++ digits

/-- The digits of the whole part, and after a point those of the places, if there are any. -/
def text (d : Decimal) : List Char :=
  if d.places = 0 then
    Nat.toDigits 10 d.coefficient
  else
    let unit := Nat.pow 10 d.places
    Nat.toDigits 10 (d.coefficient / unit) ++ '.' :: padded d.places (d.coefficient % unit)

/-- Reads `[0-9]+(\.[0-9]+)?` and refuses every other text. -/
def read? (cs : List Char) : Option Decimal :=
  let whole := cs.takeWhile Char.isDigit
  if whole.isEmpty then
    none
  else
    match cs.dropWhile Char.isDigit with
    | [] => some ⟨Nat.ofDigitChars 10 whole 0, 0⟩
    | '.' :: fraction =>
      if !fraction.isEmpty && fraction.all Char.isDigit then
        some ⟨Nat.ofDigitChars 10 (whole ++ fraction) 0, fraction.length⟩
      else
        none
    | _ => none

/-- The double nearest to the number, of two equally near ones the one with an even
    significand; infinity from half a unit above the largest double on. -/
def toFloat (d : Decimal) : Float := Float.ofScientific d.coefficient true d.places

/-- The number `c / 10 ^ places` without zeros at the end of its places. -/
def trimmed (c : Nat) : Nat → Decimal
  | 0 => ⟨c, 0⟩
  | places + 1 => if c % 10 = 0 then trimmed (c / 10) places else ⟨c, places + 1⟩

end Decimal

end BlockScript
