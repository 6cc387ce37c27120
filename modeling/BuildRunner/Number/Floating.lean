import BuildRunner.Number.Reading
import BuildRunner.Number.Written

/-!
# Floating numbers of several sizes

A size says how many bits a mantissa has and how far exponents reach.  A number is read from the
head of a text, in decimal or hexadecimal form, and rounded to the nearest one of its size.  It is
written with a fixed number of places, in scientific notation, in the shorter of the two, or in
hexadecimal form.
-/

namespace BuildRunner.Number

structure FloatSize where
  /-- The number of bits of a full mantissa. -/
  bits : Nat
  leastExponent : Int
  greatestExponent : Int
  /-- The number of bits in front of the point of the hexadecimal form. -/
  leadingBits : Nat
deriving DecidableEq, Repr, Inhabited

namespace FloatSize

def double : FloatSize := ⟨53, -1074, 971, 1⟩

/-- Numbers of eighty bits. -/
def extended : FloatSize := ⟨64, -16445, 16320, 4⟩

end FloatSize

/-- A number of some size. -/
inductive Floating
  | nan (negative : Bool)
  | infinite (negative : Bool)
  /-- The value `mantissa * 2 ^ exponent`. -/
  | finite (negative : Bool) (mantissa : Nat) (exponent : Int)
deriving DecidableEq, Repr, Inhabited

namespace Floating

def zero (negative : Bool) : Floating := .finite negative 0 0

/-- The number of a size nearest to a quotient, and whether it is out of the range of the size. -/
def ofRatio (size : FloatSize) (negative : Bool) (numerator denominator : Nat) : Floating × Bool :=
  if numerator = 0 then (zero negative, false)
  else
    let full := Nat.pow 2 (size.bits - 1)
    let guess : Int := (numerator.log2 : Int) - (denominator.log2 : Int) - (size.bits - 1 : Nat)
    let (n, d) := scaled numerator denominator 2 (-guess)
    let exponent := if n < d * full then guess - 1 else guess
    let isSmall := exponent < size.leastExponent
    let exponent := max exponent size.leastExponent
    let (n, d) := scaled numerator denominator 2 (-exponent)
    let mantissa := roundQuotient n d
    let (mantissa, exponent) :=
      if mantissa = 2 * full then (full, exponent + 1) else (mantissa, exponent)
    if size.greatestExponent < exponent then (.infinite negative, true)
    else (.finite negative mantissa exponent, isSmall && n % d != 0)

/-- The number of a size nearest to `digits * base ^ power`. -/
def ofDigits (size : FloatSize) (negative : Bool) (base digits : Nat) (power : Int) :
    Floating × Bool :=
  let length : Int := (Nat.toDigits 10 digits).length + power
  if digits = 0 then (zero negative, false)
  else if 40000 < length then (.infinite negative, true)
  else if length < -40000 then (zero negative, true)
  else
    let (n, d) := scaled digits 1 base power
    ofRatio size negative n d

/-- A number that was read, with what stands behind it. -/
structure Read where
  value : Floating
  rest : List Char
  outOfRange : Bool := false

def isHex (c : Char) : Bool := c.isDigit || ('a' ≤ c && c ≤ 'f') || ('A' ≤ c && c ≤ 'F')

def hexValue (c : Char) : Nat :=
  if c.isDigit then c.toNat - '0'.toNat
  else if 'a' ≤ c then c.toNat - 'a'.toNat + 10
  else c.toNat - 'A'.toNat + 10

/-- The exponent at the head of a text, behind one of two marks; none where there is none. -/
def exponentAt (lower upper : Char) (s : List Char) : Option (Int × List Char) :=
  match s with
  | mark :: r =>
    let (negative, r) := takeSign r
    let digits := r.takeWhile Char.isDigit
    if (mark = lower || mark = upper) && !digits.isEmpty then
      let n : Int := naturalOf digits
      some (if negative then -n else n, r.drop digits.length)
    else none
  | [] => none

/-- Digits with at most one point among them, the number of places behind the point, and the
rest. -/
def pointedDigits (isDigit : Char → Bool) (s : List Char) : List Char × Nat × List Char :=
  let whole := s.takeWhile isDigit
  match s.drop whole.length with
  | '.' :: r =>
    let fraction := r.takeWhile isDigit
    if whole.isEmpty && fraction.isEmpty then ([], 0, s)
    else (whole ++ fraction, fraction.length, r.drop fraction.length)
  | r => (whole, 0, r)

/-- The rest behind a word in any case. -/
def behindWord? (word : String) (s : List Char) : Option (List Char) :=
  if (s.take word.length).map Char.toLower = word.toList then some (s.drop word.length) else none

/-- What stands behind the note in parentheses that a text without a number may have. -/
def behindNote (s : List Char) : List Char :=
  match s with
  | '(' :: r =>
    match r.dropWhile fun c => c.isAlphanum || c == '_' with
    | ')' :: r => r
    | _ => s
  | _ => s

/-- A number in decimal form. -/
def readDecimal? (size : FloatSize) (negative : Bool) (s : List Char) : Option Read :=
  let (digits, places, rest) := pointedDigits Char.isDigit s
  if digits.isEmpty then none
  else
    let (power, rest) := (exponentAt 'e' 'E' rest).getD (0, rest)
    let (value, outOfRange) := ofDigits size negative 10 (naturalOf digits) (power - places)
    some { value, rest, outOfRange }

/-- A number in hexadecimal form, behind its mark. -/
def readHex? (size : FloatSize) (negative : Bool) (s : List Char) : Option Read :=
  let (digits, places, rest) := pointedDigits isHex s
  if digits.isEmpty then none
  else
    let mantissa := digits.foldl (fun n c => 16 * n + hexValue c) 0
    let (power, rest) := (exponentAt 'p' 'P' rest).getD (0, rest)
    let (value, outOfRange) := ofDigits size negative 2 mantissa (power - 4 * places)
    some { value, rest, outOfRange }

/-- The number at the head of a text, behind blanks. -/
def read? (size : FloatSize) (s : List Char) : Option Read :=
  let (negative, body) := takeSign (s.dropWhile isPlainBlank)
  match behindWord? "infinity" body, behindWord? "inf" body, behindWord? "nan" body with
  | some rest, _, _ => some { value := .infinite negative, rest }
  | none, some rest, _ => some { value := .infinite negative, rest }
  | none, none, some rest => some { value := .nan negative, rest := behindNote rest }
  | none, none, none =>
    match body with
    | '0' :: x :: r =>
      let hex := if x = 'x' || x = 'X' then readHex? size negative r else none
      hex <|> readDecimal? size negative body
    | body => readDecimal? size negative body

/-- How a number is written. -/
inductive Style
  | fixed
  | scientific
  | general
  | hexadecimal
deriving DecidableEq, Repr, Inhabited

def hexDigit (n : Nat) : Char := (Nat.toDigits 16 (n % 16)).headD '0'

/-- The last `count` hexadecimal digits of a natural. -/
def hexDigits : (count : Nat) → Nat → List Char
  | 0, _ => []
  | count + 1, n => hexDigits count (n / 16) ++ [hexDigit n]

/-- The hexadecimal form of a positive number, whose mantissa is full unless its exponent is the
least one. -/
def hexForm (size : FloatSize) (mantissa : Nat) (exponent : Int) (places : Option Nat)
    (keepPoint : Bool) : List Char :=
  let digits := (size.bits - size.leadingBits + 3) / 4
  let spare := 4 * digits - (size.bits - size.leadingBits)
  let full := mantissa * Nat.pow 2 spare
  let power : Int := exponent + (size.bits - size.leadingBits : Nat)
  let (lead, fraction) := match places with
    | some p =>
      if p < digits then
        let rounded := roundQuotient full (Nat.pow 16 (digits - p))
        (rounded / Nat.pow 16 p, hexDigits p rounded)
      else (full / Nat.pow 16 digits, hexDigits digits full ++ List.replicate (p - digits) '0')
    | none => (full / Nat.pow 16 digits, dropZeros (hexDigits digits full))
  let (lead, power) := if 16 ≤ lead then (1, power + 4) else (lead, power)
  let sign := if power < 0 then '-' else '+'
  ['0', 'x', hexDigit lead] ++ (if fraction.isEmpty && !keepPoint then [] else '.' :: fraction) ++
    'p' :: sign :: digitsOf power.natAbs

/-- The magnitude of a number in some style; `keepPoint` also keeps zeros at the end. -/
def magnitude (size : FloatSize) (style : Style) (places : Option Nat) (keepPoint : Bool) :
    Floating → List Char
  | .nan _ => ['n', 'a', 'n']
  | .infinite _ => ['i', 'n', 'f']
  | .finite _ mantissa exponent =>
    let (n, d) := scaled mantissa 1 2 exponent
    match style with
    | .fixed => fixedPlaces n d (places.getD 6) keepPoint
    | .scientific => Number.scientific n d (places.getD 6) 'e' keepPoint
    | .general => Number.general n d (places.getD 6) 'e' keepPoint
    | .hexadecimal =>
      if mantissa = 0 then
        let zeros := List.replicate (places.getD 0) '0'
        ['0', 'x', '0'] ++ (if zeros.isEmpty && !keepPoint then [] else '.' :: zeros) ++
          ['p', '+', '0']
      else hexForm size mantissa exponent places keepPoint

def isNegative : Floating → Bool
  | .nan negative | .infinite negative | .finite negative _ _ => negative

def isFinite : Floating → Bool
  | .finite .. => true
  | _ => false

end Floating

end BuildRunner.Number
