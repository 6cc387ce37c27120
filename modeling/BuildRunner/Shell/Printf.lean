import BuildRunner.Number.Floating
import BuildRunner.Shell.Integer
import BuildRunner.Shell.ShownName

/-!
# Formatted output

`printf` writes its arguments as a format says.  The format is used again as long as arguments are
left, and missing arguments count as empty.  There are two forms of it: the command of the shell,
and a program that knows more escapes and larger numbers.  Texts are narrow.
-/

namespace BuildRunner.Shell

open BuildRunner.Number (FloatSize Floating)

def isOctal (c : Char) : Bool := '0' ≤ c && c ≤ '7'

/-- Up to `count` octal digits at the head of a text, as a byte. -/
def octal (count : Nat) (s : List Char) : Char × List Char :=
  let digits := (s.take count).takeWhile isOctal
  (Char.ofNat ((digitsIn 8 0 digits).1 % 256), s.drop digits.length)

/-- The byte of an escape behind its backslash; none where it is no escape. -/
def escapeByte? (s : List Char) : Option (Char × List Char) :=
  match s with
  | 'a' :: r => some ('\x07', r)
  | 'b' :: r => some ('\x08', r)
  | 'e' :: r => some ('\x1b', r)
  | 't' :: r => some ('\t', r)
  | 'n' :: r => some ('\n', r)
  | 'v' :: r => some ('\x0b', r)
  | 'f' :: r => some ('\x0c', r)
  | 'r' :: r => some ('\r', r)
  | '\\' :: r => some ('\\', r)
  | c :: r => if isOctal c then some (octal 3 (c :: r)) else none
  | [] => none

/-- What is wrong with a format or an argument. -/
inductive FormatFault
  | notNumeric (argument : String)
  | partlyNumeric (argument : String)
  | outOfRange (argument : String)
  /-- What stands behind the character that a quote names; it is passed over. -/
  | behindCharacter (rest : String)
  | badDirective (directive : String)
  | missingLetter
  | badWidth (argument : String)
  | badPrecision (argument : String)
  | missingDigits
  | badCharacterName (name : String)
deriving DecidableEq, Repr

namespace FormatFault

def isWarning : FormatFault → Bool
  | behindCharacter _ => true
  | _ => false

/-- Whether nothing more is written. -/
def isFatal : FormatFault → Bool
  | notNumeric _ | partlyNumeric _ | outOfRange _ | behindCharacter _ => false
  | _ => true

end FormatFault

/-- What has been written. -/
structure Written where
  /-- The last character first. -/
  chars : List Char := []
  /-- The faults, each with the number of characters that were written before. -/
  faults : List (Nat × FormatFault) := []
  /-- Whether an escape or a fault has ended the output. -/
  stopped : Bool := false
deriving Inhabited

namespace Written

def add (s : List Char) (written : Written) : Written :=
  { written with chars := s.reverse ++ written.chars }

def blame (fault : FormatFault) (written : Written) : Written :=
  { written with
    faults := written.faults ++ [(written.chars.length, fault)]
    stopped := written.stopped || fault.isFatal }

def stop (written : Written) : Written := { written with stopped := true }

def text (written : Written) : String := String.ofList written.chars.reverse

end Written

/-! ### Escapes -/

def hexDigitsAt (count : Nat) (s : List Char) : List Char :=
  (s.take count).takeWhile fun c => (digitIn? 16 c).isSome

/-- The digits of a character name in a message. -/
def nameDigits (width : Nat) (n : Nat) : List Char :=
  let digits := Nat.toDigits 16 n
  List.replicate (width - digits.length) '0' ++ digits

/-- Whether a character must not be named by its number. -/
def isUnnamed (n : Nat) : Bool :=
  (n ≤ 0x9f && n != 0x24 && n != 0x40 && n != 0x60 && !(0x20 ≤ n && n < 0x7f)) ||
    (0xd800 ≤ n && n ≤ 0xdfff)

/-- Writes the escape of a program behind its backslash; none where it is no escape that only
programs know. -/
def programEscape? (s : List Char) (written : Written) : Option (Written × List Char) :=
  let named (mark : Char) (width : Nat) (r : List Char) : Written × List Char :=
    let digits := hexDigitsAt width r
    let n := (digitsIn 16 0 digits).1
    let rest := r.drop width
    if digits.length < width then (written.blame .missingDigits, rest)
    else if isUnnamed n then
      (written.blame (.badCharacterName (String.ofList (mark :: nameDigits width n))), rest)
    else if n < 0x80 then (written.add [Char.ofNat n], rest)
    else
      let width := if n < 0x10000 then 4 else 8
      let mark := if n < 0x10000 then 'u' else 'U'
      (written.add ('\\' :: mark :: (nameDigits width n).map Char.toUpper), rest)
  match s with
  | 'c' :: r => some (written.stop, r)
  | '"' :: r => some (written.add ['"'], r)
  | 'x' :: r =>
    let digits := hexDigitsAt 2 r
    if digits.isEmpty then some (written.blame .missingDigits, r)
    else some (written.add [Char.ofNat (digitsIn 16 0 digits).1], r.drop digits.length)
  | 'u' :: r => some (named 'u' 4 r)
  | 'U' :: r => some (named 'U' 8 r)
  | _ => none

/-- Writes an escape of a format, behind its backslash. -/
def formatEscape (isProgram : Bool) (s : List Char) (written : Written) : Written × List Char :=
  match if isProgram then programEscape? s written else none with
  | some result => result
  | none =>
    match escapeByte? s with
    | some (b, r) => (written.add [b], r)
    | none => (written.add ['\\'], s)

/-- Writes a text with escapes, in which an octal escape may have one more leading zero, and `\c`
ends the output. -/
def unescape (isProgram : Bool) : (fuel : Nat) → List Char → Written → Written
  | 0, _, written => written
  | _, [], written => written
  | fuel + 1, '\\' :: r, written =>
    match r with
    | 'c' :: _ => written.stop
    | '0' :: r =>
      let (b, r) := octal 3 r
      unescape isProgram fuel r (written.add [b])
    | r =>
      let (written, r) := formatEscape isProgram r written
      if written.stopped then written else unescape isProgram fuel r written
  | fuel + 1, c :: r, written => unescape isProgram fuel r (written.add [c])

/-- A text with its escapes, and whether one of them has ended it. -/
def unescaped (isProgram : Bool) (s : List Char) : Written :=
  unescape isProgram (s.length + 1) s {}

/-! ### Directives -/

/-- A conversion of a format. -/
structure Directive where
  left : Bool := false
  zero : Bool := false
  plus : Bool := false
  blank : Bool := false
  alternate : Bool := false
  /-- Digits are grouped. -/
  grouped : Bool := false
  /-- Other digits are asked for. -/
  foreign : Bool := false
  width : Nat := 0
  precision : Option Nat := none
  /-- Whether a point stands before the letter. -/
  pointed : Bool := false
deriving Inhabited

namespace Directive

def takeFlags (isProgram : Bool) (directive : Directive) : List Char → Directive × List Char
  | '-' :: r => takeFlags isProgram { directive with left := true } r
  | '0' :: r => takeFlags isProgram { directive with zero := true } r
  | '+' :: r => takeFlags isProgram { directive with plus := true } r
  | ' ' :: r => takeFlags isProgram { directive with blank := true } r
  | '#' :: r => takeFlags isProgram { directive with alternate := true } r
  | c :: r =>
    if isProgram && c = '\'' then takeFlags isProgram { directive with grouped := true } r
    else if isProgram && c = 'I' then takeFlags isProgram { directive with foreign := true } r
    else (directive, c :: r)
  | [] => (directive, [])

/-- Text padded to the width. -/
def pad (directive : Directive) (s : List Char) : List Char :=
  let blanks := List.replicate (directive.width - s.length) ' '
  if directive.left then s ++ blanks else blanks ++ s

/-- A number padded to the width, where its sign stands before zeros. -/
def padNumber (directive : Directive) (zeros : Bool) (sign digits : List Char) : List Char :=
  if zeros && directive.zero && !directive.left then
    sign ++ List.replicate (directive.width - sign.length - digits.length) '0' ++ digits
  else directive.pad (sign ++ digits)

def signOf (directive : Directive) (negative : Bool) : List Char :=
  if negative then ['-']
  else if directive.plus then ['+']
  else if directive.blank then [' ']
  else []

/-- An integer in a base; `signed` is set where it may have a sign. -/
def integer (directive : Directive) (base : Nat) (signed upper : Bool) (n : Int) : List Char :=
  let digits := if n = 0 then [] else Nat.toDigits base n.natAbs
  let digits := if upper then digits.map Char.toUpper else digits
  let digits := List.replicate (directive.precision.getD 1 - digits.length) '0' ++ digits
  let digits :=
    if directive.alternate && base = 8 && digits.head? != some '0' then '0' :: digits else digits
  let sign := if signed then directive.signOf (n < 0) else []
  let mark :=
    if directive.alternate && base = 16 && n != 0 then ['0', if upper then 'X' else 'x'] else []
  directive.padNumber directive.precision.isNone (sign ++ mark) digits

/-- A number with a fraction, in the style of a letter. -/
def floating (directive : Directive) (size : FloatSize) (letter : Char) (value : Floating) :
    List Char :=
  let style : Floating.Style := match letter.toLower with
    | 'f' => .fixed
    | 'e' => .scientific
    | 'g' => .general
    | _ => .hexadecimal
  let digits := value.magnitude size style directive.precision directive.alternate
  let digits := if letter.isUpper then digits.map Char.toUpper else digits
  let sign := directive.signOf value.isNegative
  let (mark, digits) := match style with
    | .hexadecimal => if value.isFinite then (digits.take 2, digits.drop 2) else ([], digits)
    | _ => ([], digits)
  directive.padNumber value.isFinite (sign ++ mark) digits

end Directive

/-! ### Arguments -/

/-- The nearest integer of 64 bits, and whether it is the same one. -/
def signedWord (n : Int) : Int × Bool :=
  (max leastInteger (min greatestInteger n), leastInteger ≤ n && n ≤ greatestInteger)

/-- The word of 64 bits that an integer is; an integer whose size is out of range becomes the
greatest word. -/
def naturalWord (n : Int) : Int × Bool :=
  if n.natAbs < wordCount then (n % wordCount, true) else (wordCount - 1, false)

/-- The fault of a number that was read. -/
def numberFault (isProgram : Bool) (argument : String) (isNumber : Bool) (rest : List Char)
    (outOfRange : Bool) : Option FormatFault :=
  if argument.isEmpty then none
  else if !isNumber then some (.notNumeric argument)
  else if isProgram && outOfRange then some (.outOfRange argument)
  else if !rest.isEmpty then some (.partlyNumeric argument)
  else if outOfRange then some (.outOfRange argument)
  else none

/-- The byte that an argument names by a quote before it, and the fault of that. -/
def quotedByte? (isProgram : Bool) (argument : String) : Option (Nat × Option FormatFault) :=
  let named (r : List Char) : Option (Nat × Option FormatFault) :=
    match r with
    | c :: more =>
      let fault :=
        if isProgram && !more.isEmpty then some (.behindCharacter (String.ofList more)) else none
      some (c.toNat, fault)
    | [] => if isProgram then none else some (0, none)
  match argument.toList with
  | '\'' :: r | '"' :: r => named r
  | _ => none

/-- The integer that an argument denotes, made to fit by `toWord`. -/
def integerOf (isProgram : Bool) (toWord : Int → Int × Bool) (argument : String) :
    Int × Option FormatFault :=
  match quotedByte? isProgram argument with
  | some (n, fault) => (n, fault)
  | none =>
    match signed? natural? argument.toList with
    | none => (0, numberFault isProgram argument false [] false)
    | some (n, rest) =>
      let (word, fits) := toWord n
      (word, numberFault isProgram argument true rest (!fits))

/-- The number with a fraction that an argument denotes. -/
def floatingOf (isProgram : Bool) (size : FloatSize) (argument : String) :
    Floating × Option FormatFault :=
  match quotedByte? isProgram argument with
  | some (n, fault) => ((Floating.ofRatio size false n 1).1, fault)
  | none =>
    match Floating.read? size argument.toList with
    | none => (Floating.zero false, numberFault isProgram argument false [] false)
    | some read =>
      (read.value, numberFault isProgram argument true read.rest read.outOfRange)

/-! ### Formats -/

/-- What is left of a format and its arguments. -/
structure Formatting where
  isProgram : Bool
  rest : List Char
  arguments : List String
  written : Written

namespace Formatting

def blame (fault : Option FormatFault) (f : Formatting) : Formatting :=
  match fault with
  | some fault => { f with written := f.written.blame fault }
  | none => f

def add (s : List Char) (f : Formatting) : Formatting := { f with written := f.written.add s }

/-- The next argument. -/
def take (f : Formatting) : String × Formatting :=
  (f.arguments.headD "", { f with arguments := f.arguments.drop 1 })

/-- A number that is an argument of its own. -/
def takeNumber (f : Formatting) : Int × Formatting :=
  let (argument, f) := f.take
  let (n, fault) := integerOf f.isProgram signedWord argument
  (n, f.blame fault)

/-- The greatest width. -/
def greatestWidth : Int := 0x7fffffff

/-- Reads the width of a directive. -/
def takeWidth (directive : Directive) (f : Formatting) : Directive × Formatting :=
  match f.rest with
  | '*' :: rest =>
    let argument := f.arguments.headD ""
    let (n, f) := { f with rest }.takeNumber
    if f.isProgram && (n < -greatestWidth - 1 || greatestWidth < n) then
      (directive, f.blame (some (.badWidth argument)))
    else ({ directive with width := n.natAbs, left := directive.left || n < 0 }, f)
  | rest =>
    let digits := rest.takeWhile Char.isDigit
    let width := (digitsIn 10 0 digits).1
    ({ directive with width }, { f with rest := rest.drop digits.length })

/-- Reads the precision of a directive. -/
def takePrecision (directive : Directive) (f : Formatting) : Directive × Formatting :=
  match f.rest with
  | '.' :: '*' :: rest =>
    let argument := f.arguments.headD ""
    let (n, f) := { f with rest }.takeNumber
    if f.isProgram && greatestWidth < n then (directive, f.blame (some (.badPrecision argument)))
    else
      let precision := if n < 0 then none else some n.toNat
      ({ directive with precision, pointed := true }, f)
  | '.' :: rest =>
    let digits := rest.takeWhile Char.isDigit
    ({ directive with precision := some (digitsIn 10 0 digits).1, pointed := true },
      { f with rest := rest.drop digits.length })
  | _ => (directive, f)

/-- Whether a program takes a letter behind the flags of a directive. -/
def allows (directive : Directive) (letter : Char) : Bool :=
  "aAcdeEfFgGiosuxX".toList.contains letter &&
    !((directive.grouped || directive.foreign) && "aAceEosxX".toList.contains letter) &&
    !(directive.alternate && "cdisu".toList.contains letter) &&
    !(directive.zero && "cs".toList.contains letter) && !(directive.pointed && letter = 'c')

/-- Writes the next argument as a directive with its letter says; none where it cannot. -/
def writeArgument (directive : Directive) (letter : Char) (f : Formatting) : Option Formatting :=
  let cut (s : List Char) : List Char := directive.precision.elim s s.take
  let (argument, next) := f.take
  let chars := argument.toList
  let integer (toWord : Int → Int × Bool) (write : Int → List Char) : Formatting :=
    let (n, fault) := integerOf f.isProgram toWord argument
    (next.blame fault).add (write n)
  let size := if f.isProgram then FloatSize.extended else FloatSize.double
  if f.isProgram && !allows directive letter then none
  else
    match letter with
    | 's' => some (next.add (directive.pad (cut chars)))
    | 'b' =>
      let inner := unescaped false chars
      let next := next.add (directive.pad (cut inner.chars.reverse))
      some (if inner.stopped then { next with written := next.written.stop } else next)
    | 'c' => some (next.add (directive.pad [chars.headD '\x00']))
    | 'd' | 'i' => some (integer signedWord (directive.integer 10 true false))
    | 'u' => some (integer naturalWord (directive.integer 10 false false))
    | 'o' => some (integer naturalWord (directive.integer 8 false false))
    | 'x' => some (integer naturalWord (directive.integer 16 false false))
    | 'X' => some (integer naturalWord (directive.integer 16 false true))
    | letter =>
      if "aAeEfFgG".toList.contains letter then
        let (value, fault) := floatingOf f.isProgram size argument
        some ((next.blame fault).add (directive.floating size letter value))
      else none

/-- Writes the next argument with the escapes in it, or as a shell would read it back. -/
def writeWhole? (f : Formatting) : Option Formatting :=
  match f.isProgram, f.rest with
  | true, 'b' :: rest =>
    let (argument, next) := { f with rest }.take
    some { next with written := unescape true (argument.length + 1) argument.toList next.written }
  | true, 'q' :: rest =>
    let (argument, next) := { f with rest }.take
    some (if f.arguments.isEmpty then next else next.add (shownName false argument).toList)
  | _, _ => none

/-- Works on a directive behind its percent sign. -/
def directive (f : Formatting) : Formatting :=
  match f.writeWhole? with
  | some f => f
  | none =>
    let start := f.rest
    let (directive, rest) := Directive.takeFlags f.isProgram {} start
    let (directive, f) := { f with rest }.takeWidth directive
    if f.written.stopped then f
    else
      let (directive, f) := f.takePrecision directive
      if f.written.stopped then f
      else
        let rest := if f.isProgram then f.rest.dropWhile "hlLjtz".toList.contains else f.rest
        let text (rest : List Char) : String :=
          String.ofList ('%' :: start.take (start.length - rest.length))
        match rest with
        | [] => f.blame (some (if f.isProgram then .badDirective (text []) else .missingLetter))
        | letter :: rest =>
          match { f with rest }.writeArgument directive letter with
          | some f => f
          | none => f.blame (some (.badDirective (text rest)))

/-- One pass over a format. -/
def pass : (fuel : Nat) → Formatting → Formatting
  | 0, f => f
  | fuel + 1, f =>
    if f.written.stopped then f
    else
      match f.rest with
      | [] => f
      | '\\' :: r =>
        let (written, rest) := formatEscape f.isProgram r f.written
        pass fuel { f with written, rest }
      | '%' :: '%' :: rest => pass fuel { f.add ['%'] with rest }
      | '%' :: rest => pass fuel { f with rest }.directive
      | c :: rest => pass fuel { f.add [c] with rest }

/-- The format used until no argument is left, or none is used. -/
def passes (format : List Char) : (fuel : Nat) → Formatting → Formatting
  | 0, f => f
  | fuel + 1, f =>
    let next := pass (format.length + 1) { f with rest := format }
    let unused := next.arguments.length = f.arguments.length
    if next.written.stopped || next.arguments.isEmpty || unused then next
    else passes format fuel next

end Formatting

/-- What a format and its arguments write, and the arguments that are not used. -/
def formatted (isProgram : Bool) (format : String) (arguments : List String) :
    Written × List String :=
  let start : Formatting := { isProgram, rest := [], arguments, written := {} }
  let f := start.passes format.toList (arguments.length + 1)
  (f.written, f.arguments)

end BuildRunner.Shell
