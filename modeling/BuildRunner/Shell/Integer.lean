/-!
# Integers of the shell

Scripts write integers in decimal, with a leading zero in octal, or with a leading `0x` in
hexadecimal form.  Arithmetic wraps around at 64 bits.
-/

namespace BuildRunner.Shell

/-- The value of a digit in a base. -/
def digitIn? (base : Nat) (c : Char) : Option Nat :=
  let value? :=
    if c.isDigit then some (c.toNat - '0'.toNat)
    else if 'a' ≤ c ∧ c ≤ 'f' then some (c.toNat - 'a'.toNat + 10)
    else if 'A' ≤ c ∧ c ≤ 'F' then some (c.toNat - 'A'.toNat + 10)
    else none
  value?.filter (· < base)

/-- The digits of a base at the head of a text, with their value, and the rest. -/
def digitsIn (base : Nat) (value : Nat) : List Char → Nat × List Char
  | [] => (value, [])
  | c :: r =>
    match digitIn? base c with
    | some digit => digitsIn base (base * value + digit) r
    | none => (value, c :: r)

/-- The natural number at the head of a text, which shows its base, and the rest. -/
def natural? (s : List Char) : Option (Nat × List Char) :=
  match s with
  | '0' :: x :: c :: r =>
    if (x == 'x' || x == 'X') && (digitIn? 16 c).isSome then some (digitsIn 16 0 (c :: r))
    else some (digitsIn 8 0 s)
  | '0' :: _ => some (digitsIn 8 0 s)
  | c :: _ => if c.isDigit then some (digitsIn 10 0 s) else none
  | [] => none

def isSpace (c : Char) : Bool := c == ' ' || ('\t' ≤ c && c ≤ '\r')

/-- The integer at the head of a text, behind blanks, and the rest.  `natural` reads it without its
sign. -/
def signed? (natural : List Char → Option (Nat × List Char)) (s : List Char) :
    Option (Int × List Char) :=
  match s.dropWhile isSpace with
  | '-' :: r => (natural r).map fun (n, r) => (-(n : Int), r)
  | '+' :: r => (natural r).map fun (n, r) => ((n : Int), r)
  | r => (natural r).map fun (n, r) => ((n : Int), r)

/-- The integer that a whole text is, blanks around it left out. -/
def whole? (natural : List Char → Option (Nat × List Char)) (s : List Char) : Option Int :=
  match signed? natural s with
  | some (n, rest) => if rest.all isSpace then some n else none
  | none => none

/-- The decimal number at the head of a text. -/
def decimal? (s : List Char) : Option (Nat × List Char) :=
  if (s.head?.any Char.isDigit) then some (digitsIn 10 0 s) else none

/-- How many words of 64 bits there are. -/
def wordCount : Nat := 0x10000000000000000

/-- The least integer of 64 bits. -/
def leastInteger : Int := -0x8000000000000000

/-- The greatest integer of 64 bits. -/
def greatestInteger : Int := 0x7fffffffffffffff

/-- An integer modulo 64 bits. -/
def wrap (n : Int) : Int := n.bmod wordCount

end BuildRunner.Shell
