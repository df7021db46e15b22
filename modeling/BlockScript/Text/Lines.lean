/-!
# Lines of text

Bytes fall into lines, each of which ends with a line feed, except that the last one may not.
-/

namespace BlockScript.Text

/-- The lines of the bytes, each with its line feed. -/
def splitLines (bytes : List UInt8) : List (List UInt8) :=
  match _h : bytes.dropWhile (· ≠ 10) with
  | [] => if bytes.isEmpty then [] else [bytes]
  | feed :: rest => (bytes.takeWhile (· ≠ 10) ++ [feed]) :: splitLines rest
termination_by bytes.length
decreasing_by
  have := (List.dropWhile_suffix (l := bytes) (· ≠ 10)).length_le
  rw [_h] at this
  exact this

end BlockScript.Text
