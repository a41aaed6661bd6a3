import CallHoist.Text.Basic
import CallHoist.Text.Printable

/-!
# Quoted texts

A text in a message stands between single quotes, or between double quotes if it holds a single quote and no double
one. The quote in use and the backslash are escaped, line feed, carriage return and tab have a letter each, and an
unprintable character is written by its code point in two, four or eight hexadecimal digits.
-/

namespace CallHoist.Text

/-- The lower-case hexadecimal digits of a number, with zeros in front up to `width` digits. -/
def hex (width n : Nat) : Text :=
  let digits := Nat.toDigits 16 n
  List.replicate (width - digits.length) '0' ++ digits

/-- A character as it stands in a text between quotes `q`. -/
def quotedChar (q c : Char) : Text :=
  if c == q || c == '\\' then ['\\', c]
  else if c == '\n' then ['\\', 'n']
  else if c == '\r' then ['\\', 'r']
  else if c == '\t' then ['\\', 't']
  else if isPrintable c then [c]
  else if c.toNat < 0x100 then ['\\', 'x'] ++ hex 2 c.toNat
  else if c.toNat < 0x10000 then ['\\', 'u'] ++ hex 4 c.toNat
  else ['\\', 'U'] ++ hex 8 c.toNat

/-- The quote that a text is written with. -/
def quoteFor (s : Text) : Char :=
  if s.contains '\'' && !s.contains '"' then '"' else '\''

def quoted (s : Text) : Text :=
  let q := quoteFor s
  q :: s.flatMap (quotedChar q) ++ [q]

end CallHoist.Text
