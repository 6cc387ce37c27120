import BuildRunner.Message.Value

/-!
# Message formats

A format is text with conversions.  A conversion starts with a percent sign, has flags, a width and
a precision, and ends with the letter that says how the next value is written.  Filling in a format
either succeeds, or does not fit the values, or runs out of the range of a machine number or of the
stack; the third case is kept apart because a caller treats it differently.
-/

namespace BuildRunner.Message

open BuildRunner.Number BuildRunner.Text

/-- The ways in which something is out of range: a number, or the depth of nested calls. -/
inductive RangeError
  | codePoint
  | width
  | precision
  | longPrecision
  | intToFloat
  | infinityToInt
  | nesting
  /-- A value cannot be written. -/
  | unwritten (fault : Value.Fault)
deriving DecidableEq, Repr

def RangeError.message : RangeError → String
  | .codePoint => "%c arg not in range(0x110000)"
  | .width => "Python int too large to convert to C ssize_t"
  | .precision => "Python int too large to convert to C int"
  | .longPrecision => "precision too large"
  | .intToFloat => "int too large to convert to float"
  | .infinityToInt => "cannot convert float infinity to integer"
  | .nesting => "maximum recursion depth exceeded"
  | .unwritten .nesting => "maximum recursion depth exceeded while getting the repr of an object"
  | .unwritten .longInteger =>
    "Exceeds the limit (4300 digits) for integer string conversion; " ++
      "use sys.set_int_max_str_digits() to increase the limit"

inductive FormatError
  /-- The format and the values do not fit together. -/
  | mismatch
  | range (cause : RangeError)
deriving DecidableEq, Repr

structure Conversion where
  left : Bool := false
  sign : Bool := false
  blank : Bool := false
  alternate : Bool := false
  zero : Bool := false
  width : Nat := 0
  precision : Option Nat := none

/-- What the fault of a value is for a format: an integer that is too long does not fit. -/
def FormatError.ofFault : Value.Fault → FormatError
  | .longInteger => .mismatch
  | .nesting => .range (.unwritten .nesting)

/-- The state of filling in: the rest of the format, the values not yet used, what is written. -/
abbrev Filling (α : Type) :=
  List Char → List Value → Except FormatError (α × List Char × List Value)

/-- The greatest width of a field. -/
def greatestWidth : Nat := 0x7fffffffffffffff

/-- The greatest precision. -/
def greatestPrecision : Nat := 0x7fffffff

/-- The flags at the head of a conversion. -/
def takeFlags (conversion : Conversion) : List Char → Conversion × List Char
  | '-' :: r => takeFlags { conversion with left := true } r
  | '+' :: r => takeFlags { conversion with sign := true } r
  | ' ' :: r => takeFlags { conversion with blank := true } r
  | '#' :: r => takeFlags { conversion with alternate := true } r
  | '0' :: r => takeFlags { conversion with zero := true } r
  | r => (conversion, r)

/-- The natural at the head of a format, refused as soon as it exceeds `bound`. -/
def takeNatural (bound value : Nat) : List Char → Except FormatError (Nat × List Char)
  | [] => .ok (value, [])
  | c :: r =>
    if c.isDigit then
      let digit := c.toNat - '0'.toNat
      if (bound - digit) / 10 < value then .error .mismatch
      else takeNatural bound (10 * value + digit) r
    else .ok (value, c :: r)

/-- The width of a field; a negative one from the values asks for the left margin. -/
def takeWidth (conversion : Conversion) (format : List Char) (values : List Value) :
    Except FormatError (Conversion × List Char × List Value) :=
  match format with
  | '*' :: r =>
    match values with
    | [] => .error .mismatch
    | v :: values =>
      match v.integer? with
      | none => .error .mismatch
      | some n =>
        if n < -greatestWidth - 1 ∨ greatestWidth < n then .error (.range .width)
        else if n < 0 then .ok ({ conversion with left := true, width := n.natAbs }, r, values)
        else .ok ({ conversion with width := n.toNat }, r, values)
  | r => do
    let (width, r) ← takeNatural greatestWidth 0 r
    .ok ({ conversion with width }, r, values)

/-- The precision of a conversion; a lone point means zero. -/
def takePrecision (conversion : Conversion) (format : List Char) (values : List Value) :
    Except FormatError (Conversion × List Char × List Value) :=
  match format with
  | '.' :: '*' :: r =>
    match values with
    | [] => .error .mismatch
    | v :: values =>
      match v.integer? with
      | none => .error .mismatch
      | some n =>
        if n < -greatestPrecision - 1 ∨ greatestPrecision < n then .error (.range .precision)
        else .ok ({ conversion with precision := some n.toNat }, r, values)
  | '.' :: r => do
    let (precision, r) ← takeNatural greatestPrecision 0 r
    .ok ({ conversion with precision := some precision }, r, values)
  | r => .ok (conversion, r, values)

/-- A size letter has no effect. -/
def dropSize : List Char → List Char
  | 'h' :: r => r
  | 'l' :: r => r
  | 'L' :: r => r
  | r => r

/-- A written value: sign, base mark and body are padded apart from one another. -/
structure Field where
  sign : List Char := []
  mark : List Char := []
  body : List Char
  /-- Whether zeros may be put before the body. -/
  numeric : Bool := false

/-- The field padded to its width. -/
def Field.render (conversion : Conversion) (field : Field) : List Char :=
  let sign :=
    if !field.numeric || !field.sign.isEmpty then field.sign
    else if conversion.sign then ['+']
    else if conversion.blank then [' ']
    else []
  let size := sign.length + field.mark.length + field.body.length
  let missing := conversion.width - size
  if conversion.left then
    sign ++ field.mark ++ field.body ++ List.replicate missing ' '
  else if field.numeric && conversion.zero then
    sign ++ field.mark ++ List.replicate missing '0' ++ field.body
  else List.replicate missing ' ' ++ sign ++ field.mark ++ field.body

/-- The text cut to the precision. -/
def cut (conversion : Conversion) (s : List Char) : List Char :=
  match conversion.precision with
  | none => s
  | some n => s.take n

/-- An integer in the base that the letter asks for. -/
def integerField (conversion : Conversion) (letter : Char) (n : Int) :
    Except FormatError Field :=
  let based := letter = 'o' ∨ letter = 'x' ∨ letter = 'X'
  if greatestPrecision - 3 < conversion.precision.getD 0 then .error (.range .longPrecision)
  else if Value.isLong n ∧ ¬based then .error .mismatch
  else
    let digits :=
      if letter = 'o' then Nat.toDigits 8 n.natAbs
      else if letter = 'x' then Nat.toDigits 16 n.natAbs
      else if letter = 'X' then (Nat.toDigits 16 n.natAbs).map Char.toUpper
      else digitsOf n.natAbs
    .ok {
      sign := if n < 0 then ['-'] else []
      mark := if conversion.alternate ∧ based then ['0', letter] else []
      body := List.replicate (conversion.precision.getD 0 - digits.length) '0' ++ digits
      numeric := true }

/-- A number in the notation that the letter asks for. -/
def floatField (conversion : Conversion) (letter : Char) (x : Binary64) : Field :=
  let places := conversion.precision.getD 6
  let upper := letter.isUpper
  match x with
  | .nan => { body := if upper then ['N', 'A', 'N'] else ['n', 'a', 'n'], numeric := true }
  | .infinite negative =>
    { sign := if negative then ['-'] else []
      body := if upper then ['I', 'N', 'F'] else ['i', 'n', 'f']
      numeric := true }
  | .finite negative mantissa exponent =>
    let (n, d) := Binary64.ratio mantissa exponent
    let mark := if upper then 'E' else 'e'
    let body :=
      match letter.toLower with
      | 'f' => fixedPlaces n d places conversion.alternate
      | 'e' => scientific n d places mark conversion.alternate
      | _ => general n d places mark conversion.alternate
    { sign := if negative then ['-'] else [], body, numeric := true }

/-- The text with everything outside of ASCII escaped. -/
def asciiOnly (s : List Char) : List Char :=
  s.flatMap fun c =>
    if c.toNat < 0x80 then [c]
    else if c.toNat < 0x100 then '\\' :: 'x' :: hex 2 c.toNat
    else if c.toNat < 0x10000 then '\\' :: 'u' :: hex 4 c.toNat
    else '\\' :: 'U' :: hex 8 c.toNat

/-- A value as an integer; a float loses its fraction. -/
def toInteger (v : Value) : Except FormatError Int :=
  match v with
  | .float (.infinite _) => .error (.range .infinityToInt)
  | .float x => x.truncate?.elim (.error .mismatch) .ok
  | v => v.integer?.elim (.error .mismatch) .ok

/-- A value as a float. -/
def toFloat (v : Value) : Except FormatError Binary64 :=
  match v with
  | .float x => .ok x
  | v =>
    match v.integer? with
    | none => .error .mismatch
    | some n =>
      let x := Binary64.ofInt n
      if x.isFinite then .ok x else .error (.range .intToFloat)

/-- A value as one character. -/
def toCharacter (v : Value) : Except FormatError Char :=
  match v with
  | .text s =>
    match s.toList with
    | [c] => .ok c
    | _ => .error .mismatch
  | v =>
    match v.integer? with
    | none => .error .mismatch
    | some n =>
      if n < 0 ∨ 0x110000 ≤ n then .error (.range .codePoint) else .ok (Char.ofNat n.toNat)

/-- One value written as the letter of its conversion asks. -/
def convert (conversion : Conversion) (letter : Char) (v : Value) :
    Except FormatError (List Char) :=
  match letter with
  | 's' => do
    let s ← v.plain?.mapError FormatError.ofFault
    .ok (Field.render conversion { body := cut conversion s })
  | 'r' => do
    let s ← v.literal?.mapError FormatError.ofFault
    .ok (Field.render conversion { body := cut conversion s })
  | 'a' => do
    let s ← v.literal?.mapError FormatError.ofFault
    .ok (Field.render conversion { body := cut conversion (asciiOnly s) })
  | 'c' => do
    let c ← toCharacter v
    .ok (Field.render conversion { body := [c] })
  | 'd' | 'i' | 'u' => do
    let n ← toInteger v
    let field ← integerField conversion letter n
    .ok (field.render conversion)
  | 'o' | 'x' | 'X' =>
    match v.integer? with
    | none => .error .mismatch
    | some n => do
      let field ← integerField conversion letter n
      .ok (field.render conversion)
  | 'e' | 'E' | 'f' | 'F' | 'g' | 'G' => do
    let x ← toFloat v
    .ok ((floatField conversion letter x).render conversion)
  | _ => .error .mismatch

/-- A conversion after its percent sign: what it writes, and what is left of format and values. -/
def fillOne (format : List Char) (values : List Value) :
    Except FormatError (List Char × List Char × List Value) := do
  let (conversion, format) := takeFlags {} format
  let (conversion, format, values) ← takeWidth conversion format values
  let (conversion, format, values) ← takePrecision conversion format values
  match dropSize format, values with
  | [], _ => .error .mismatch
  | _ :: _, [] => .error .mismatch
  | letter :: format, v :: values => do
    let written ← convert conversion letter v
    .ok (written, format, values)

/-- The format filled in with the values.  The fuel bounds the number of conversions. -/
def fillFrom : (fuel : Nat) → List Char → List Value → Except FormatError (List Char)
  | _, [], [] => .ok []
  | _, [], _ :: _ => .error .mismatch
  | 0, _ :: _, _ => .error .mismatch
  | fuel + 1, c :: format, values =>
    if c = '%' then
      match format with
      | '%' :: rest => do
        let written ← fillFrom fuel rest values
        .ok ('%' :: written)
      | format => do
        let (head, rest, values) ← fillOne format values
        let written ← fillFrom fuel rest values
        .ok (head ++ written)
    else do
      let written ← fillFrom fuel format values
      .ok (c :: written)

/-- The format filled in with all the values, in order. -/
def fill (format : String) (values : List Value) : Except FormatError String := do
  let written ← fillFrom format.length format.toList values
  .ok (String.ofList written)

/-- The text followed by the plain form of each value. -/
def spaced (text : String) (values : List Value) : Except Value.Fault String := do
  let written ← values.mapM Value.plain?
  .ok (String.ofList (written.foldl (fun s word => s ++ ' ' :: word) text.toList))

/-- The message of an aborted operation.  Without values the text is taken as it is; values that
do not fit are listed behind it. -/
def compose (text : String) (values : List Value) : Except RangeError String :=
  if values.isEmpty then .ok text
  else
    match fill text values with
    | .ok s => .ok s
    | .error .mismatch => (spaced text values).mapError .unwritten
    | .error (.range cause) => .error cause

end BuildRunner.Message
