/-!
# White space

Three classes of white space are in use, each a subset of the next: the blanks of a rule file, the blanks inside an
expression, and the blanks that a scan skips.
-/

namespace CallHoist

/-- The characters with the property White_Space. -/
def isWhiteSpace (c : Char) : Bool :=
  let n := c.toNat
  (9 ≤ n && n ≤ 13) || n == 0x20 || n == 0x85 || n == 0xA0 || n == 0x1680 || (0x2000 ≤ n && n ≤ 0x200A)
    || n == 0x2028 || n == 0x2029 || n == 0x202F || n == 0x205F || n == 0x3000

/-- White space together with the four information separators U+001C to U+001F. -/
def isSpacing (c : Char) : Bool :=
  isWhiteSpace c || (0x1C ≤ c.toNat && c.toNat ≤ 0x1F)

/-- The ASCII white space: the space and the controls from tab to carriage return. -/
def isAsciiSpace (c : Char) : Bool :=
  c == ' ' || (9 ≤ c.toNat && c.toNat ≤ 13)

theorem isSpacing_of_isWhiteSpace {c : Char} (h : isWhiteSpace c = true) : isSpacing c = true := by
  simp [isSpacing, h]

end CallHoist
