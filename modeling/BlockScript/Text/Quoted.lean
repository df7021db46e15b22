import BlockScript.Text.DefaultIgnorable
import BlockScript.Text.GraphemeExtend
import BlockScript.Text.Unprintable

/-!
# Quoted text

A text in double quotes on one line: a quote, a backslash and the common controls are written
with a backslash, a character that does not show by itself as its code point in lower-case
hexadecimal, and every other character as itself.
-/

namespace BlockScript.Text

/-- Whether a character is one of the halfwidth katakana sound marks. They extend a grapheme, but
    take a place of their own. -/
def isHalfwidthSoundMark (c : Char) : Bool := c = '\uff9e' || c = '\uff9f'

/-- Whether a character beyond ASCII does not show by itself: it has no visible form, or is left
    out of a display, or is only drawn onto the character before it. -/
def isHidden (c : Char) : Bool :=
  isUnprintable c || isDefaultIgnorable c || isGraphemeExtend c && !isHalfwidthSoundMark c

/-- Whether a character is written as its code point. -/
def needsCodePoint (c : Char) : Bool :=
  if c.toNat < 0x7f then c.toNat < 0x20 else isHidden c

/-- A character between double quotes. -/
def escape (c : Char) : List Char :=
  match c with
  | '\x00' => ['\\', '0']
  | '\t' => ['\\', 't']
  | '\n' => ['\\', 'n']
  | '\r' => ['\\', 'r']
  | '"' => ['\\', '"']
  | '\\' => ['\\', '\\']
  | c =>
    if needsCodePoint c then
      '\\' :: 'u' :: '\x7b' :: Nat.toDigits 16 c.toNat ++ ['\x7d']
    else
      [c]

/-- A text in double quotes. -/
def quote (s : String) : String := String.ofList ('"' :: s.toList.flatMap escape ++ ['"'])

end BlockScript.Text
