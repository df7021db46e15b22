import BlockScript.Decimal

/-!
# The shortest decimal of a double

`exact` is the absolute value of a finite double as a decimal. `shortest` is the decimal with the
fewest significant digits that is read as the same double; of two such decimals it is the nearer
one, and the larger one where both are equally near. A decimal of `n` digits that is read as the
double lies next to it on the grid of `n` digits, so only its two neighbours there are tried.
-/

namespace BlockScript.Decimal

/-- The absolute value of a finite double. With the exponent `e` it is a whole number of halves of
    the last place of the significand, each of which is `2 ^ (e - 1076)`. -/
def exact (x : Float) : Decimal :=
  let bits := x.toBits.toNat
  let fraction := bits % Nat.pow 2 52
  let exponent := bits / Nat.pow 2 52 % Nat.pow 2 11
  let significand := if exponent = 0 then fraction else Nat.pow 2 52 + fraction
  let e := max 1 exponent
  ⟨2 * significand * Nat.pow 2 (e - 1076) * Nat.pow 5 (1076 - e), 1076 - e⟩

/-- The number `c * 10 ^ shift / 10 ^ places`, without zeros at the end of its places. -/
def scaled (c shift places : Nat) : Decimal :=
  if places ≤ shift then ⟨c * Nat.pow 10 (shift - places), 0⟩ else trimmed c (places - shift)

/-- Whether the decimal is read as the absolute value of `x`. -/
def reads (x : Float) (d : Decimal) : Bool := d.toFloat = x.abs

/-- The neighbour of `d` on the grid of the multiples of `10 ^ shift` in its last place that is
    read as the absolute value of `x`. Of two it is the nearer one. -/
def nearest? (x : Float) (d : Decimal) (shift : Nat) : Option Decimal :=
  let unit := Nat.pow 10 shift
  let low := scaled (d.coefficient / unit) shift d.places
  let high := scaled (d.coefficient / unit + 1) shift d.places
  match reads x low, reads x high with
  | true, true => some (if 2 * (d.coefficient % unit) < unit then low else high)
  | true, false => some low
  | false, true => some high
  | false, false => none

/-- The shortest decimal that is read as the absolute value of a finite double. Seventeen digits
    tell all doubles apart, so the exact value is never needed. -/
def shortest (x : Float) : Decimal :=
  let d := exact x
  let length := (Nat.toDigits 10 d.coefficient).length
  ((List.range 17).findSome? fun n => nearest? x d (length - (n + 1))).getD d

end BlockScript.Decimal
