/-!
# Names and texts in messages of tools

A tool shows a file name in a form that a shell would read back: as it is where no character has a
meaning to the shell, and quoted otherwise.  Other texts are shown between single quotes.  Bytes
that are not printable ASCII are shown as escapes in both.
-/

namespace BuildRunner.Shell

/-- Characters that never make quotes necessary. -/
def isHarmless (c : Char) : Bool := c.isAlphanum || "%+,-./]_@\x7b\x7d#~".toList.contains c

/-- Whether a name can be shown without quotes. -/
def needsNoQuotes (name : List Char) : Bool :=
  match name with
  | [] => false
  | ['\x7b'] | ['\x7d'] => false
  | c :: r => isHarmless c && c != '#' && c != '~' && r.all isHarmless

/-- Whether a name can be shown between double quotes. -/
def allowsDoubleQuotes (name : List Char) : Bool :=
  name.all fun c => c.isAlphanum || "%+,-./:]_' ".toList.contains c

def isPlainByte (c : Char) : Bool := ' ' ≤ c && c < '\x7f'

/-- The escape of a byte. -/
def byteEscape (c : Char) : List Char :=
  match c with
  | '\x07' => ['\\', 'a']
  | '\x08' => ['\\', 'b']
  | '\t' => ['\\', 't']
  | '\n' => ['\\', 'n']
  | '\x0b' => ['\\', 'v']
  | '\x0c' => ['\\', 'f']
  | '\r' => ['\\', 'r']
  | c =>
    let digit (n : Nat) : Char := Char.ofNat ('0'.toNat + n % 8)
    ['\\', digit (c.toNat / 64), digit (c.toNat / 8), digit c.toNat]

/-- A name between single quotes; `escaping` is set behind an escape. -/
def singleQuoted (escaping : Bool) : List Char → List Char
  | [] => ['\'']
  | c :: r =>
    if c = '\'' then '\'' :: '\\' :: '\'' :: '\'' :: singleQuoted false r
    else if isPlainByte c then
      (if escaping then ['\'', '\''] else []) ++ c :: singleQuoted false r
    else (if escaping then [] else ['\'', '$', '\'']) ++ byteEscape c ++ singleQuoted true r

/-- A text between single quotes, with an escape for each quote, backslash and byte that is not
printable ASCII. -/
def quotedText (text : String) : String :=
  let escaped := text.toList.flatMap fun c =>
    if c = '\'' || c = '\\' then ['\\', c]
    else if isPlainByte c then [c]
    else byteEscape c
  String.ofList ('\'' :: (escaped ++ ['\'']))

/-- A name as messages show it; it is always quoted if `always` is set. -/
def shownName (always : Bool) (name : String) : String :=
  let chars := name.toList
  if !always && needsNoQuotes chars then name
  else if chars.contains '\'' && allowsDoubleQuotes chars then "\"" ++ name ++ "\""
  else String.ofList ('\'' :: singleQuoted false chars)

end BuildRunner.Shell
