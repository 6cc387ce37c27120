import BuildRunner.Number.Binary64

/-!
# Writing numbers

Three ways to write a double: with a fixed number of places, with a fixed number of significant
digits and an exponent, and with the fewest digits that read back as the same number.  All of them
start from the exact quotient that the number is.
-/

namespace BuildRunner.Number

/-- The decimal digits of a natural. -/
def digitsOf (n : Nat) : List Char := Nat.toDigits 10 n

/-- The digits of `n`, padded with zeros in front to `width`. -/
def paddedDigits (width n : Nat) : List Char :=
  let digits := digitsOf n
  List.replicate (width - digits.length) '0' ++ digits

/-- An estimate from below of the decimal exponent of `n / d`, off by at most two. -/
def exponentGuess (n d : Nat) : Int :=
  let bits : Int := (n.log2 : Int) - (d.log2 : Int) - 1
  Int.fdiv (bits * 30103) 100000 - 1

/-- The power `x` with `10 ^ x ≤ n / d < 10 ^ (x + 1)`, searched upwards from `x`. -/
def exponentFrom (n d : Nat) : (fuel : Nat) → (x : Int) → Int
  | 0, x => x
  | fuel + 1, x =>
    let (p, q) := scaled n d 10 (-(x + 1))
    if q ≤ p then exponentFrom n d fuel (x + 1) else x

/-- The decimal exponent of a positive quotient. -/
def decimalExponent (n d : Nat) : Int := exponentFrom n d 6 (exponentGuess n d)

/-- The first `count + 1` significant digits of a quotient, rounded, and their exponent. -/
def significant (n d count : Nat) : Nat × Int :=
  if n = 0 then (0, 0)
  else
    let x := decimalExponent n d
    let (p, q) := scaled n d 10 (count - x)
    let digits := roundQuotient p q
    if digits = Nat.pow 10 (count + 1) then (Nat.pow 10 count, x + 1) else (digits, x)

/-- The quotient with `places` digits after the point; the point is kept on demand. -/
def fixedPlaces (n d places : Nat) (keepPoint : Bool) : List Char :=
  let digits := paddedDigits (places + 1) (roundQuotient (n * Nat.pow 10 places) d)
  let whole := digits.take (digits.length - places)
  let fraction := digits.drop (digits.length - places)
  whole ++ (if fraction.isEmpty && !keepPoint then [] else '.' :: fraction)

/-- An exponent with its sign and at least two digits. -/
def exponentPart (mark : Char) (x : Int) : List Char :=
  mark :: (if x < 0 then '-' else '+') :: paddedDigits 2 x.natAbs

/-- The digits with a point after the first; the point is kept on demand. -/
def pointed (keepPoint : Bool) : List Char → List Char
  | [] => []
  | [c] => if keepPoint then [c, '.'] else [c]
  | c :: r => c :: '.' :: r

/-- Scientific notation with `places` digits after the point. -/
def scientific (n d places : Nat) (mark : Char) (keepPoint : Bool) : List Char :=
  let (digits, x) := significant n d places
  pointed keepPoint (paddedDigits (places + 1) digits) ++ exponentPart mark x

/-- The text without the zeros at its end. -/
def dropZeros (s : List Char) : List Char := (s.reverse.dropWhile (· == '0')).reverse

/-- The digits of `digits` placed around the point for the decimal exponent `x`. -/
def positional (digits : List Char) (x : Int) : List Char × List Char :=
  if x < 0 then (['0'], List.replicate (-x - 1).toNat '0' ++ digits)
  else
    let whole := x.toNat + 1
    (digits.take whole ++ List.replicate (whole - digits.length) '0', digits.drop whole)

/-- `places` significant digits, in scientific notation where the exponent is below -4 or not
below `places`.  Unless `keepZeros`, zeros at the end of the fraction are dropped. -/
def general (n d places : Nat) (mark : Char) (keepZeros : Bool) : List Char :=
  let places := max places 1
  let (number, x) := significant n d (places - 1)
  let digits := paddedDigits places number
  if x < -4 ∨ (places : Int) ≤ x then
    let kept := if keepZeros then digits else digits.take 1 ++ dropZeros (digits.drop 1)
    pointed keepZeros kept ++ exponentPart mark x
  else
    let (whole, fraction) := positional digits x
    let fraction := if keepZeros then fraction else dropZeros fraction
    whole ++ (if fraction.isEmpty && !keepZeros then [] else '.' :: fraction)

/-- The fewest significant digits, up to seventeen, that read back as the finite number of this
mantissa and exponent; of two such, the nearer.  The digits come with their decimal exponent. -/
def shortestFrom (mantissa : Nat) (exponent : Int) : (fuel count : Nat) → Nat × Int
  | 0, count =>
    let (n, d) := Binary64.ratio mantissa exponent
    significant n d count
  | fuel + 1, count =>
    let (n, d) := Binary64.ratio mantissa exponent
    let x := decimalExponent n d
    let (p, q) := scaled n d 10 (count - x)
    let below := p / q
    let readsBack (digits : Nat) : Bool :=
      Binary64.ofDecimal false digits (x - count) == .finite false mantissa exponent
    let remainder := p % q
    match readsBack below, readsBack (below + 1) with
    | true, true =>
      if 2 * remainder < q || (2 * remainder == q && below % 2 == 0) then (below, x - count)
      else (below + 1, x - count)
    | true, false => (below, x - count)
    | false, true => (below + 1, x - count)
    | false, false => shortestFrom mantissa exponent fuel (count + 1)

/-- The fewest digits that read back, positional between `0.0001` and `10 ^ 16` and then with at
least one digit after the point, and otherwise with an exponent of two or more digits. -/
def Binary64.shortest : Binary64 → List Char
  | .nan => ['n', 'a', 'n']
  | .infinite negative => (if negative then ['-'] else []) ++ ['i', 'n', 'f']
  | .finite negative mantissa exponent =>
    let sign := if negative then ['-'] else []
    if mantissa = 0 then sign ++ ['0', '.', '0']
    else
      let (number, power) := shortestFrom mantissa exponent 17 0
      let all := digitsOf number
      let digits := dropZeros all
      let x := power + all.length - 1
      if x < -4 ∨ 16 ≤ x then sign ++ pointed false digits ++ exponentPart 'e' x
      else
        let (whole, fraction) := positional digits x
        sign ++ whole ++ '.' :: (if fraction.isEmpty then ['0'] else fraction)

end BuildRunner.Number
