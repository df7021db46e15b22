import BlockScript.Decimal.Shortest

/-!
# Numbers and their text

The numbers of the language are doubles. A number is written positionally with the fewest digits
that are read back as the same double, with a minus sign when its sign bit is set, zero included.
-/

namespace BlockScript.Number

/-- The text of the absolute value of a number that is not NaN. -/
def magnitudeText (x : Float) : String :=
  if x.isInf then "inf" else String.ofList (Decimal.shortest x).text

/-- Whether the sign bit is set. -/
def isNegative (x : Float) : Bool := Nat.pow 2 63 ≤ x.toBits.toNat

/-- The text of a number: NaN has no sign. -/
def text (x : Float) : String :=
  if x.isNaN then "NaN"
  else if isNegative x then "-" ++ magnitudeText x
  else magnitudeText x

/-- The number that an unsigned numeral stands for. -/
def read? (cs : List Char) : Option Float := (Decimal.read? cs).map Decimal.toFloat

end BlockScript.Number
