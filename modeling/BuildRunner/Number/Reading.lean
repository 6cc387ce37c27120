import BuildRunner.Number.Binary64
import BuildRunner.Text.Blank

/-!
# Reading numbers

A number in a setting may be surrounded by blanks, may be written with the decimal digits of any
script, and may group its digits with single underscores.  It is an optional sign followed by
`inf`, `infinity` or `nan` in any case, or by digits with at most one point among them and an
optional exponent.
-/

namespace BuildRunner.Number

/-- The code points of the zeros of the decimal digits; nine more digits follow each. -/
def zeros : List Nat := [
    0x30, 0x660, 0x6f0, 0x7c0, 0x966, 0x9e6, 0xa66, 0xae6, 0xb66, 0xbe6, 0xc66, 0xce6, 0xd66,
    0xde6, 0xe50, 0xed0, 0xf20, 0x1040, 0x1090, 0x17e0, 0x1810, 0x1946, 0x19d0, 0x1a80, 0x1a90,
    0x1b50, 0x1bb0, 0x1c40, 0x1c50, 0xa620, 0xa8d0, 0xa900, 0xa9d0, 0xa9f0, 0xaa50, 0xabf0,
    0xff10, 0x104a0, 0x10d30, 0x11066, 0x110f0, 0x11136, 0x111d0, 0x112f0, 0x11450, 0x114d0,
    0x11650, 0x116c0, 0x11730, 0x118e0, 0x11950, 0x11c50, 0x11d50, 0x11da0, 0x16a60, 0x16ac0,
    0x16b50, 0x1d7ce, 0x1d7d8, 0x1d7e2, 0x1d7ec, 0x1d7f6, 0x1e140, 0x1e2f0, 0x1e950, 0x1fbf0]

/-- The value of a decimal digit of any script. -/
def digitValue? (c : Char) : Option Nat :=
  (zeros.find? fun first => first ≤ c.toNat && c.toNat ≤ first + 9).map (c.toNat - ·)

/-- The text with digits and blanks outside of ASCII replaced by their plain forms; none where
some other character is met. -/
def plain? (s : List Char) : Option (List Char) :=
  s.mapM fun c =>
    if c.toNat < 0x7f then some c
    else if Text.isBlank c then some ' '
    else (digitValue? c).map fun n => Char.ofNat (n + '0'.toNat)

/-- The blanks that may surround a number once it is plain. -/
def isPlainBlank (c : Char) : Bool := c == ' ' || (0x09 ≤ c.toNat && c.toNat ≤ 0x0d)

/-- The text without the underscores that stand between two digits; none where an underscore
stands elsewhere.  `digit` tells whether the character before is a digit. -/
def ungroup? (digit : Bool) : List Char → Option (List Char)
  | [] => some []
  | '_' :: c :: r =>
    if digit && c.isDigit then (ungroup? true r).map (c :: ·) else none
  | c :: r => if c = '_' then none else (ungroup? c.isDigit r).map (c :: ·)

/-- An optional sign and what follows it. -/
def takeSign : List Char → Bool × List Char
  | '-' :: r => (true, r)
  | '+' :: r => (false, r)
  | r => (false, r)

/-- The natural that a run of digits denotes. -/
def naturalOf (digits : List Char) : Nat :=
  digits.foldl (fun n c => 10 * n + (c.toNat - '0'.toNat)) 0

/-- The exponent part, if the whole text is one. -/
def exponent? : List Char → Option Int
  | [] => some 0
  | c :: r =>
    if c = 'e' ∨ c = 'E' then
      let (negative, digits) := takeSign r
      if digits.isEmpty || !digits.all Char.isDigit then none
      else
        let n : Int := naturalOf digits
        some (if negative then -n else n)
    else none

/-- The digits behind a point, if there is one, and what follows them. -/
def takeFraction : List Char → List Char × List Char
  | '.' :: r => (r.takeWhile Char.isDigit, r.dropWhile Char.isDigit)
  | r => ([], r)

/-- A number in plain characters, without blanks and underscores. -/
def ofPlain? (s : List Char) : Option Binary64 :=
  let (negative, body) := takeSign s
  let word := body.map Char.toLower
  if word = ['i', 'n', 'f'] ∨ word = "infinity".toList then some (.infinite negative)
  else if word = ['n', 'a', 'n'] then some .nan
  else
    let whole := body.takeWhile Char.isDigit
    let (fraction, rest) := takeFraction (body.dropWhile Char.isDigit)
    if whole.isEmpty && fraction.isEmpty then none
    else (exponent? rest).map fun power =>
      Binary64.ofDecimal negative (naturalOf (whole ++ fraction)) (power - fraction.length)

/-- The number that a text denotes. -/
def Binary64.ofString? (s : String) : Option Binary64 := do
  let plain ← plain? s.toList
  let core := (plain.dropWhile isPlainBlank).reverse.dropWhile isPlainBlank |>.reverse
  ofPlain? (← ungroup? false core)

/-- The greatest number of digits of an integer that is read or written in decimal. -/
def greatestDigits : Nat := 4300

/-- The integer that a text denotes. -/
def integer? (s : String) : Option Int := do
  let plain ← plain? s.toList
  let core := (plain.dropWhile isPlainBlank).reverse.dropWhile isPlainBlank |>.reverse
  let (negative, body) := takeSign core
  let digits ← ungroup? false body
  if digits.isEmpty || !digits.all Char.isDigit || greatestDigits < digits.length then none
  else
    let n : Int := naturalOf digits
    some (if negative then -n else n)

end BuildRunner.Number
