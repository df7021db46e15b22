/-!
# Program output

What a script prints is written to an `Output`, which keeps the bytes and may take only so many
of them. A write beyond the capacity is written in part, as far as there is room, and fails.
-/

namespace BlockScript

/-- What was written, and how much can be. -/
structure Output where
  /-- The bytes written so far. -/
  written : ByteArray
  /-- How many bytes the output takes in all, if there is a limit. -/
  capacity? : Option Nat

namespace Output

/-- The output of a new session, before anything is written. -/
def empty (capacity? : Option Nat) : Output := ⟨ByteArray.empty, capacity?⟩

/-- Writes a text, and tells whether all of it was taken. -/
def write (text : String) (out : Output) : Bool × Output :=
  let all := out.written ++ text.toUTF8
  match out.capacity? with
  | none => (true, { out with written := all })
  | some capacity =>
    if all.size ≤ capacity then
      (true, { out with written := all })
    else
      (false, { out with written := all.extract 0 capacity })

/-- The text of what was written after the first `start` bytes. A character that was cut short is
    shown as a replacement character. -/
def textFrom (out : Output) (start : Nat) : String :=
  let bytes := out.written.extract start out.written.size
  let upTo (missing : Nat) := String.fromUTF8? (bytes.extract 0 (bytes.size - missing))
  match upTo 0 with
  | some text => text
  | none => (([1, 2, 3].findSome? upTo).getD "").push '\ufffd'

/-- The text of all that was written. -/
def text (out : Output) : String := out.textFrom 0

end Output

end BlockScript
