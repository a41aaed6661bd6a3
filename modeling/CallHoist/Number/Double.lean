/-!
# Double-precision numbers

A finite number is a sign, a mantissa and a power of two, with the mantissa below 2^53 and the exponent at least -1074.
A decimal is read as the nearest of these; half-way between two it is the one with the even mantissa.
-/

namespace CallHoist

inductive Double where
  /-- The number `mantissa * 2 ^ exponent`, or its negative. -/
  | finite (negative : Bool) (mantissa : Nat) (exponent : Int)
  | infinite (negative : Bool)
  | nan
  deriving DecidableEq, Repr

namespace Double

/-- The quotient rounded to the nearest number, half-way to the even one. -/
def roundDiv (num den : Nat) : Nat :=
  let q := num / den
  let r := 2 * (num % den)
  if r < den then q
  else if den < r then q + 1
  else if q % 2 = 0 then q else q + 1

/-- The fraction `num / den` as a multiple of a power of a base, the power being moved into the fraction. -/
def scaled (base num den : Nat) (power : Int) : Nat × Nat :=
  if 0 ≤ power then (num, den * Nat.pow base power.toNat) else (num * Nat.pow base (-power).toNat, den)

/-- The exponent of the unit in the last of 53 binary places of `num / den`. -/
def unitExponent (num den : Nat) : Int :=
  let guess : Int := (num.log2 : Int) - den.log2 - 53
  let (n, d) := scaled 2 num den guess
  max (-1074) (if n < d * Nat.pow 2 53 then guess else guess + 1)

/-- The double nearest to `num / den`, where `num` is positive. -/
def nearest (negative : Bool) (num den : Nat) : Double :=
  let e := unitExponent num den
  let (n, d) := scaled 2 num den e
  let m := roundDiv n d
  let (m, e) := if m = Nat.pow 2 53 then (Nat.pow 2 52, e + 1) else (m, e)
  if 971 < e then infinite negative else finite negative m e

/-- The double nearest to `digits * 10 ^ power`. Numbers far outside the range are not computed. -/
def ofDecimal (negative : Bool) (digits : Nat) (power : Int) : Double :=
  let magnitude := ((Nat.toDigits 10 digits).length : Int) + power
  if digits = 0 || magnitude < -330 then finite negative 0 0
  else if 310 < magnitude then infinite negative
  else
    let (num, den) := scaled 10 digits 1 (-power)
    nearest negative num den

end Double

end CallHoist
