/-!
# Double-precision numbers

A number is kept as its sign, an integer mantissa and a power of two, so that rounding, comparison
and printing are exact integer arithmetic.  `Binary64.ofRatio` rounds a quotient of naturals to
the nearest representable number, a tie going to the even mantissa.
-/

namespace BuildRunner.Number

inductive Binary64
  | nan
  | infinite (negative : Bool)
  /-- The value `mantissa * 2 ^ exponent`; zero has the least exponent. -/
  | finite (negative : Bool) (mantissa : Nat) (exponent : Int)
deriving DecidableEq, Repr

/-- The quotient of two naturals rounded to the nearest integer, a tie going to the even one. -/
def roundQuotient (numerator denominator : Nat) : Nat :=
  let q := numerator / denominator
  let r := numerator % denominator
  if 2 * r < denominator then q
  else if denominator < 2 * r then q + 1
  else q + q % 2

/-- `numerator * base ^ power / denominator` as a pair of naturals. -/
def scaled (numerator denominator base : Nat) (power : Int) : Nat × Nat :=
  match power with
  | .ofNat n => (numerator * base.pow n, denominator)
  | .negSucc n => (numerator, denominator * base.pow (n + 1))

namespace Binary64

/-- The leading bit of a full mantissa, `2 ^ 52`; only the smallest numbers have less. -/
def leadingBit : Nat := 0x10000000000000

/-- The exponent of the smallest positive number. -/
def leastExponent : Int := -1074

/-- The exponent of the largest finite numbers. -/
def greatestExponent : Int := 971

def zero (negative : Bool) : Binary64 := .finite negative 0 leastExponent

/-- The number of this mantissa, at most `2 ^ 53`, and exponent. -/
def ofRounded (negative : Bool) (mantissa : Nat) (exponent : Int) : Binary64 :=
  if mantissa = 2 * leadingBit then
    if greatestExponent < exponent + 1 then .infinite negative
    else .finite negative leadingBit (exponent + 1)
  else if mantissa = 0 then zero negative
  else if greatestExponent < exponent then .infinite negative
  else .finite negative mantissa exponent

/-- The number nearest to `numerator / denominator`. -/
def ofRatio (negative : Bool) (numerator denominator : Nat) : Binary64 :=
  if numerator = 0 then zero negative
  else
    let guess : Int := (numerator.log2 : Int) - (denominator.log2 : Int) - 52
    let (n, d) := scaled numerator denominator 2 (-guess)
    let exponent := if n < d * leadingBit then guess - 1 else guess
    let exponent := max exponent leastExponent
    let (n, d) := scaled numerator denominator 2 (-exponent)
    ofRounded negative (roundQuotient n d) exponent

/-- The number nearest to `digits * 10 ^ power`.  Powers far outside the range are decided by the
number of digits alone. -/
def ofDecimal (negative : Bool) (digits : Nat) (power : Int) : Binary64 :=
  if digits = 0 then zero negative
  else
    let size : Int := (Nat.toDigits 10 digits).length + power
    if 320 < size then .infinite negative
    else if size < -350 then zero negative
    else
      let (n, d) := scaled digits 1 10 power
      ofRatio negative n d

/-- The number nearest to an integer. -/
def ofInt (n : Int) : Binary64 := ofRatio (n < 0) n.natAbs 1

/-- Below zero; negative zero is not. -/
def isNegative : Binary64 → Bool
  | .nan => false
  | .infinite negative => negative
  | .finite negative mantissa _ => negative && mantissa != 0

def isZero : Binary64 → Bool
  | .finite _ mantissa _ => mantissa == 0
  | _ => false

/-- Neither infinite nor not-a-number. -/
def isFinite : Binary64 → Bool
  | .finite .. => true
  | _ => false

/-- The magnitude of a finite number as a quotient. -/
def ratio (mantissa : Nat) (exponent : Int) : Nat × Nat := scaled mantissa 1 2 exponent

/-- The number without its fraction, for finite numbers. -/
def truncate? : Binary64 → Option Int
  | .finite negative mantissa exponent =>
    let (n, d) := ratio mantissa exponent
    let q : Int := (n / d : Nat)
    some (if negative then -q else q)
  | _ => none

/-- The number in units of `1 / unit`, rounded up; none for infinity. -/
def ceilUnits? (unit : Nat) : Binary64 → Option Nat
  | .nan => some 0
  | .infinite negative => if negative then some 0 else none
  | .finite negative mantissa exponent =>
    let (n, d) := ratio mantissa exponent
    some (if negative then 0 else (n * unit + d - 1) / d)

/-- The interchange format: sign, biased exponent and fraction. -/
def toBits : Binary64 → UInt64
  | .nan => 0x7ff8000000000000
  | .infinite negative => if negative then 0xfff0000000000000 else 0x7ff0000000000000
  | .finite negative mantissa exponent =>
    let sign : Nat := if negative then 0x8000000000000000 else 0
    let magnitude : Nat :=
      if mantissa < leadingBit then mantissa
      else (exponent + 1075).toNat * leadingBit + (mantissa - leadingBit)
    UInt64.ofNat (sign + magnitude)

end Binary64

end BuildRunner.Number
