import CallHoist.Number.Double
import CallHoist.Text.Basic
import CallHoist.Text.Blank
import CallHoist.Text.DecimalDigit

/-!
# Number literals

White space around a literal is no part of it. A digit can be a decimal digit of any script, and one underscore can
stand between two digits.
-/

namespace CallHoist.Literal

/-- A text without the white space at its ends. -/
def trim (s : Text) : Text :=
  ((s.dropWhile isWhiteSpace).reverse.dropWhile isWhiteSpace).reverse

/-- The values of the digits that a text consists of. -/
def digits? : Text → Option (List Nat)
  | [] => none
  | [c] => (digitValue? c).map ([·])
  | c :: '_' :: rest => do
    let d ← digitValue? c
    let ds ← digits? rest
    return d :: ds
  | c :: rest => do
    let d ← digitValue? c
    let ds ← digits? rest
    return d :: ds

def number (digits : List Nat) : Nat :=
  digits.foldl (fun n d => 10 * n + d) 0

/-- The sign of a number, true if it is negative, and what is behind it. -/
def signed : Text → Bool × Text
  | '-' :: rest => (true, rest)
  | '+' :: rest => (false, rest)
  | s => (false, s)

/-- The most digits that an integer may have, read or written. -/
def maxDigits : Nat := 4300

/-- Whether an integer has few enough digits to be written. -/
def isWritable (n : Int) : Bool :=
  (Nat.toDigits 10 n.natAbs).length ≤ maxDigits

/-- The integer that a text writes. -/
def int? (s : Text) : Option Int := do
  let (negative, body) := signed (trim s)
  let ds ← digits? body
  if maxDigits < ds.length then none
  else some (if negative then -(number ds : Int) else number ds)

/-- Digits, of which there may be none. -/
def digitsOrNone? : Text → Option (List Nat)
  | [] => some []
  | s => digits? s

/-- The exponent that a text writes behind the letter `e`; zero for none at all. -/
def exponent? : Text → Option Int
  | [] => some 0
  | _ :: s =>
    let (negative, body) := signed s
    (digits? body).map fun ds => if negative then -(number ds : Int) else number ds

/-- The decimal that a text without a sign writes. There is a digit on one side of the point at least. -/
def decimal? (negative : Bool) (s : Text) : Option Double := do
  let isE := fun c => c == 'e' || c == 'E'
  let mantissa := s.takeWhile (!isE ·)
  let whole ← digitsOrNone? (mantissa.takeWhile (· != '.'))
  let fraction ← digitsOrNone? ((mantissa.dropWhile (· != '.')).drop 1)
  let power ← exponent? (s.dropWhile (!isE ·))
  if whole.isEmpty && fraction.isEmpty then none
  else some (Double.ofDecimal negative (number (whole ++ fraction)) (power - fraction.length))

/-- The double that a text writes: a decimal, an infinity or no number, the last two by name in any case. -/
def double? (s : Text) : Option Double :=
  let (negative, body) := signed (trim s)
  let name := body.map Char.toLower
  if name == "inf".toList || name == "infinity".toList then some (.infinite negative)
  else if name == "nan".toList then some .nan
  else decimal? negative body

end CallHoist.Literal
