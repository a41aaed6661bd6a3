import CallHoist.Number.Double
import CallHoist.Text.Basic

/-!
# The shortest decimal of a double

A double is written with the fewest significant digits that are read back as the same double, and among those of that
number with the digits nearest to it. For each number of digits the two neighbours of the double on the decimal grid
are tried; a number of 17 digits is always read back.
-/

namespace CallHoist.Double

/-- The numbers that are read as one double, over a common denominator: those between `low` and `high`, the ends with
them if `closed`. The double itself is `mid`. -/
structure Interval where
  low : Nat
  mid : Nat
  high : Nat
  den : Nat
  closed : Bool
  deriving DecidableEq, Repr

/-- The interval of a finite double. Below a power of two the doubles are twice as dense. -/
def interval (mantissa : Nat) (exponent : Int) : Interval :=
  let unit := if 2 ≤ exponent then Nat.pow 2 (exponent - 2).toNat else 1
  let den := if 2 ≤ exponent then 1 else Nat.pow 2 (2 - exponent).toNat
  let below := if mantissa = Nat.pow 2 52 && -1074 < exponent then 1 else 2
  ⟨(4 * mantissa - below) * unit, 4 * mantissa * unit, (4 * mantissa + 2) * unit, den, mantissa % 2 == 0⟩

/-- The fraction and the grid point `n * 10 ^ power`, both over a common denominator. -/
def onGrid (num den n : Nat) (power : Int) : Nat × Nat :=
  if 0 ≤ power then (num, n * Nat.pow 10 power.toNat * den) else (num * Nat.pow 10 (-power).toNat, n * den)

namespace Interval

/-- Whether the point `n * 10 ^ power` is read as the double. -/
def holds (i : Interval) (n : Nat) (power : Int) : Bool :=
  let (low, p) := onGrid i.low i.den n power
  let (high, _) := onGrid i.high i.den n power
  if i.closed then low ≤ p && p ≤ high else low < p && p < high

/-- The distance of the point from the double, up to a factor that depends on the grid alone. -/
def distance (i : Interval) (n : Nat) (power : Int) : Nat :=
  let (mid, p) := onGrid i.mid i.den n power
  max mid p - min mid p

/-- The greatest `e` up to a bound with `10 ^ e` at most the double. -/
def leadingPower (i : Interval) : (fuel : Nat) → (bound : Int) → Int
  | 0, bound => bound
  | fuel + 1, bound =>
    let (mid, p) := onGrid i.mid i.den 1 bound
    if p ≤ mid then bound else leadingPower i fuel (bound - 1)

/-- The neighbour of the double on the grid of a power of ten that is read as the double; the nearer if both are. -/
def neighbour? (i : Interval) (power : Int) : Option Nat :=
  let (num, den) := Double.scaled 10 i.mid i.den power
  let n := num / den
  match i.holds n power, i.holds (n + 1) power with
  | false, false => none
  | true, false => some n
  | false, true => some (n + 1)
  | true, true =>
    let a := i.distance n power
    let b := i.distance (n + 1) power
    if a < b || (a == b && n % 2 == 0) then some n else some (n + 1)

/-- The digits on the first grid that has some, from `power` downwards, and the power of that grid. -/
def digitsFrom (i : Interval) : (fuel : Nat) → (power : Int) → Nat × Int
  | 0, power => ((i.neighbour? power).getD 0, power)
  | fuel + 1, power =>
    match i.neighbour? power with
    | some n => (n, power)
    | none => digitsFrom i fuel (power - 1)

end Interval

/-- The shortest decimal `n * 10 ^ power` of a finite double other than zero. -/
def shortest (mantissa : Nat) (exponent : Int) : Nat × Int :=
  let i := interval mantissa exponent
  i.digitsFrom 16 (i.leadingPower 640 309)

/-- Digits without the zeros at their end, and how many there were. -/
def dropZeros (digits : Text) : Text × Nat :=
  let kept := (digits.reverse.dropWhile (· == '0')).reverse
  (kept, digits.length - kept.length)

/-- Digits with a point behind the first `point` of them; there is a digit on each side of the point. -/
def positional (digits : Text) (point : Int) : Text :=
  if point ≤ 0 then "0.".toList ++ List.replicate (-point).toNat '0' ++ digits
  else
    let n := point.toNat
    let fraction := digits.drop n
    digits.take n ++ List.replicate (n - digits.length) '0' ++ ['.'] ++ (if fraction.isEmpty then ['0'] else fraction)

/-- Digits with a point behind the first, and an exponent of a sign and at least two digits. -/
def scientific (digits : Text) (point : Int) : Text :=
  let e := point - 1
  let exponent := Nat.toDigits 10 e.natAbs
  let sign := if e < 0 then '-' else '+'
  let fraction := digits.drop 1
  digits.take 1 ++ (if fraction.isEmpty then [] else '.' :: fraction) ++ ['e', sign]
    ++ List.replicate (2 - exponent.length) '0' ++ exponent

/-- The text of a double. It has an exponent if the first digit stands for less than a ten-thousandth or for
10 ^ 16 or more. -/
def text : Double → Text
  | nan => "nan".toList
  | infinite negative => (if negative then ['-'] else []) ++ "inf".toList
  | finite negative mantissa exponent =>
    let body :=
      if mantissa = 0 then "0.0".toList
      else
        let (n, power) := shortest mantissa exponent
        let (digits, zeros) := dropZeros (Nat.toDigits 10 n)
        let point := (digits.length : Int) + power + zeros
        if -4 < point && point ≤ 16 then positional digits point else scientific digits point
    (if negative then ['-'] else []) ++ body

end CallHoist.Double
