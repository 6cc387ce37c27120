import BuildRunner.Shell.Command

/-!
# Readers

A reader goes through the text of a script.  An alias puts its text in front of the rest, so that
the text comes in layers; an alias is not used again within its own text.  A token that was read may
be handed back, to be read once more.
-/

namespace BuildRunner.Shell

/-- A redirection operator, whose target is still to be read. -/
inductive RedirectionStart
  | file (stream : Nat) (mode : OpenMode)
  | duplicate (stream : Nat)
  | document (stream : Nat) (withoutTabs : Bool)
deriving DecidableEq, Repr

inductive Token
  | word (word : Word) (quoted : Bool)
  | redirection (start : RedirectionStart)
  | symbol (text : String)
  | keyword (text : String)
  | newline
  | finish
deriving Inhabited

/-- What is looked for when a token is read. -/
structure Checks where
  /-- Line ends are passed over. -/
  newlines : Bool := false
  keywords : Bool := false
  aliases : Bool := false
  /-- The word is the mark that ends a document, in which nothing is expanded. -/
  mark : Bool := false
deriving Inhabited

/-- A part of the text; that of an alias comes with its name, and tells whether the word behind it
may be an alias too. -/
structure Layer where
  alias? : Option (String × Bool) := none
  rest : List Char
deriving Inhabited

/-- A text in the script that is still to be read. -/
structure DocumentRequest where
  number : Nat
  mark : List Char
  withoutTabs : Bool
  expanded : Bool

structure Reader where
  layers : List Layer
  /-- The aliases whose texts came to their end with the last character. -/
  spent : List String := []
  line : Nat := 1
  last : Token := .newline
  isHandedBack : Bool := false
  checks : Checks := {}
  requests : List DocumentRequest := []
  /-- The texts that were read, and the number of the next one. -/
  documents : List (Nat × Word) := []
  nextDocument : Nat := 0
  aliases : List (String × String) := []
deriving Inhabited

abbrev Reading := StateT Reader (Except Fault)

namespace Reader

/-- The next character of some layers, what is left of them, and the aliases that came to their end
on the way. -/
def takeFrom : List Layer → Option Char × List Layer × List (String × Bool)
  | [] => (none, [], [])
  | layer :: outer =>
    match layer.rest with
    | c :: rest => (some c, { layer with rest } :: outer, [])
    | [] =>
      if outer.isEmpty then (none, [layer], [])
      else
        let (c, layers, ended) := takeFrom outer
        (c, layers, layer.alias?.toList ++ ended)

/-- Whether the text of an alias is being read. -/
def isInUse (name : String) (reader : Reader) : Bool :=
  reader.spent.contains name ||
    reader.layers.any fun layer => (layer.alias?.map Prod.fst) == some name

/-- Whether everything has been read. -/
def isAtEnd (reader : Reader) : Bool := reader.layers.all fun layer => layer.rest.isEmpty

/-- What is left of the text itself, without that of aliases. -/
def rest (reader : Reader) : List Char := (reader.layers.getLast?).elim [] Layer.rest

/-- The text that was read between two states of a reader. -/
def textBefore (before after : Reader) : String :=
  String.ofList (before.rest.take (before.rest.length - after.rest.length))

/-- The text up to the end of a line. -/
def linesTo (reader : Reader) (line : Nat) : String :=
  let lines := reader.rest.splitOn '\n'
  let count := line + 1 - reader.line
  let text := ['\n'].intercalate (lines.take count)
  String.ofList (if count < lines.length then text ++ ['\n'] else text)

end Reader

namespace Reading

def fail {α : Type} (message : String) : Reading α := do
  throw ⟨(← get).line, "Syntax error: " ++ message⟩

/-- The next character, none at the end of the text. -/
def next : Reading (Option Char) :=
  modifyGet fun reader =>
    let (c, layers, ended) := Reader.takeFrom reader.layers
    let aliases := reader.checks.aliases || ended.any Prod.snd
    (c, { reader with
      layers, spent := ended.map Prod.fst, checks := { reader.checks with aliases } })

/-- Hands a character back. -/
def handBack (c : Option Char) : Reading Unit :=
  modify fun reader =>
    match c, reader.layers with
    | some c, layer :: outer =>
      { reader with layers := { layer with rest := c :: layer.rest } :: outer }
    | _, _ => reader

def nextLine : Reading Unit := modify fun reader => { reader with line := reader.line + 1 }

/-- The greatest number of steps of a reader. -/
def endlessSteps : Nat := 0x40000000

/-- The next character, where line ends behind a backslash do not count. -/
def nextJoinedFrom : (fuel : Nat) → Reading (Option Char)
  | 0 => next
  | fuel + 1 => do
    match ← next with
    | some '\\' =>
      let c ← next
      if c = some '\n' then
        nextLine
        nextJoinedFrom fuel
      else
        handBack c
        return some '\\'
    | c => return c

def nextJoined : Reading (Option Char) := nextJoinedFrom endlessSteps

/-- The next character if it is a given one, which is then taken. -/
def takes (c : Char) : Reading Bool := do
  let found ← nextJoined
  if found = some c then return true
  handBack found
  return false

def check (checks : Checks) : Reading Unit := modify fun reader => { reader with checks }

/-- Reads another text, with lines of its own, in place of the rest, and then returns to it. -/
def within {α : Type} (text : List Char) (reading : Reading α) : Reading α := do
  let outer ← get
  set { outer with layers := [{ rest := text }], line := 1 }
  let result ← reading
  modify fun reader => { reader with layers := outer.layers, line := outer.line }
  return result

end Reading

end BuildRunner.Shell
