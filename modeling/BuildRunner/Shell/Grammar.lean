import BuildRunner.Shell.Word

/-!
# Shell grammar

Tokens are put together to a command by recursive descent; the fuel bounds the depth.  A script is
read one line of commands at a time, so that the lines before a fault can still be run, and aliases
hold from the line on that follows their definition.
-/

namespace BuildRunner.Shell

/-- The words with a meaning of their own at the place of a command. -/
def reservedWords : List String :=
  ["!", "case", "do", "done", "elif", "else", "esac", "fi", "for", "if", "in", "then", "until",
    "while", "\x7b", "\x7d"]

/-- The tokens that end a list of commands. -/
def Token.endsList : Token → Bool
  | .keyword text => ["\x7d", "do", "done", "elif", "else", "esac", "fi", "then"].contains text
  | .symbol text => text == ")" || text == ";;"
  | .finish => true
  | _ => false

/-- How messages name a token. -/
def Token.shown : Token → String
  | .word .. => "word"
  | .redirection _ => "redirection"
  | .symbol text | .keyword text => "\"" ++ text ++ "\""
  | .newline => "newline"
  | .finish => "end of file"

def Token.isSymbol (text : String) : Token → Bool
  | .symbol s => s == text
  | _ => false

def Token.isKeyword (text : String) : Token → Bool
  | .keyword s => s == text
  | _ => false

/-- The commands of the shell that end a script when they fail, and whose names no function has. -/
def specialCommands : List String :=
  [".", ":", "break", "continue", "eval", "exec", "exit", "export", "local", "readonly", "return",
    "set", "shift", "times", "trap", "unset"]

namespace Reading

/-- What is looked for in front of a command. -/
def commandChecks : Checks := { keywords := true, aliases := true }

/-- What is looked for in front of a command that may stand on a later line. -/
def laterChecks : Checks := { newlines := true, keywords := true, aliases := true }

def handBackToken : Reading Unit := modify fun reader => { reader with isHandedBack := true }

/-- Refuses the last token. -/
def unexpected {α : Type} (expected : Option String) : Reading α := do
  let hint := expected.elim "" fun s => " (expecting " ++ s ++ ")"
  fail ((← get).last.shown ++ " unexpected" ++ hint)

/-- Passes over a comment. -/
def comment : (fuel : Nat) → Reading Unit
  | 0 => return
  | fuel + 1 => do
    match ← next with
    | none => return
    | some '\n' => handBack (some '\n')
    | some _ => comment fuel

/-- Reads a token without regard to reserved words and aliases. -/
def rawToken (nested : NestedReading) : (fuel : Nat) → Reading Token
  | 0 => return .finish
  | fuel + 1 => do
    match ← nextJoined with
    | none => return .finish
    | some c =>
      match c with
      | ' ' | '\t' => rawToken nested fuel
      | '#' =>
        comment endlessSteps
        rawToken nested fuel
      | '\n' =>
        nextLine
        return .newline
      | '&' => return .symbol (if ← takes '&' then "&&" else "&")
      | '|' => return .symbol (if ← takes '|' then "||" else "|")
      | ';' => return .symbol (if ← takes ';' then ";;" else ";")
      | '(' => return .symbol "("
      | ')' => return .symbol ")"
      | c => wordOrRedirection nested (← get).checks.mark (some c)

/-- The token that was handed back, or the next one. -/
def tokenOrLast (nested : NestedReading) : Reading Token := do
  let reader ← get
  if reader.isHandedBack then
    set { reader with isHandedBack := false }
    return reader.last
  let token ← rawToken nested endlessSteps
  modify fun reader => { reader with last := token }
  return token

/-- Reads a token that is no line end. -/
def skipNewlines (nested : NestedReading) : (fuel : Nat) → Token → Reading Token
  | 0, token => return token
  | fuel + 1, token => do
    match token with
    | .newline =>
      documents nested
      check {}
      skipNewlines nested fuel (← tokenOrLast nested)
    | token => return token

/-- The text of an alias that a word is replaced by. -/
def aliasOf? (word : Word) : Reading (Option (String × String)) := do
  let reader ← get
  match Word.bare? word with
  | none => return none
  | some name =>
    let name := String.ofList name
    if reader.isInUse name then return none
    return (reader.aliases.lookup name).map (name, ·)

/-- Puts the text of an alias in front of what is left to read. -/
def pushAlias (name text : String) : Reading Unit :=
  modify fun reader =>
    let blankBehind := text.toList.getLast?.any fun c => c == ' ' || c == '\t'
    let layer : Layer := { alias? := some (name, blankBehind), rest := text.toList }
    if text.isEmpty then reader else { reader with layers := layer :: reader.layers }

/-- Reads a token, with the checks that are set or come up on the way. -/
def tokenWith (nested : NestedReading) : (fuel : Nat) → Checks → Reading Token
  | 0, _ => return .finish
  | fuel + 1, checks => do
    let token ← tokenOrLast nested
    let token ← if checks.newlines then skipNewlines nested endlessSteps token else pure token
    let more := (← get).checks
    check {}
    let checks : Checks :=
      { newlines := checks.newlines || more.newlines
        keywords := checks.keywords || more.keywords
        aliases := checks.aliases || more.aliases }
    match token with
    | .word word false =>
      let text := (Word.bare? word).elim "" String.ofList
      if checks.keywords && reservedWords.contains text then
        modify fun reader => { reader with last := .keyword text }
        return .keyword text
      if !checks.aliases then return token
      match ← aliasOf? word with
      | none => return token
      | some (name, text) =>
        pushAlias name text
        tokenWith nested fuel checks
    | token => return token

def token (nested : NestedReading) : Reading Token := do
  tokenWith nested endlessSteps (← get).checks

def tokenAfter (nested : NestedReading) (checks : Checks) : Reading Token := do
  check checks
  token nested

/-- Reads a reserved word. -/
def expectKeyword (nested : NestedReading) (text : String) : Reading Unit := do
  if !(← token nested).isKeyword text then unexpected (some ("\"" ++ text ++ "\""))

/-- Reads the target of a redirection. -/
def redirectionFrom (nested : NestedReading) (start : RedirectionStart) : Reading Redirection := do
  if let .document .. := start then check { mark := true }
  match ← token nested with
  | .word word quoted =>
    match start with
    | .file stream mode => return .file stream mode word
    | .duplicate stream =>
      match Word.bare? word with
      | some ['-'] => return .duplicate stream none
      | some [c] =>
        if c.isDigit then return .duplicate stream (some (c.toNat - '0'.toNat))
        else return .duplicateOf stream word
      | _ => return .duplicateOf stream word
    | .document stream withoutTabs =>
      let reader ← get
      let number := reader.nextDocument
      let request : DocumentRequest :=
        { number, mark := Word.characters word, withoutTabs, expanded := !quoted }
      set { reader with nextDocument := number + 1, requests := reader.requests ++ [request] }
      return .document stream number
  | _ => unexpected none

/-- The redirections behind a compound command. -/
def redirections (nested : NestedReading) :
    (fuel : Nat) → List Redirection → Reading (List Redirection)
  | 0, found => return found
  | fuel + 1, found => do
    match ← token nested with
    | .redirection start => redirections nested fuel (found ++ [← redirectionFrom nested start])
    | _ =>
      handBackToken
      return found

/-- The parts of a simple command. -/
structure SimpleParts where
  assignments : List Word := []
  words : List Word := []
  redirections : List Redirection := []

/-- The words of a loop up to the end of the line. -/
def loopWords (nested : NestedReading) : (fuel : Nat) → List Word → Reading (List Word)
  | 0, words => return words
  | fuel + 1, words => do
    match ← token nested with
    | .word word _ => loopWords nested fuel (words ++ [word])
    | .newline | .symbol ";" => return words
    | _ => unexpected none

/-- The word that stands for all arguments. -/
def allArguments : Word := [.mark, .parameter "@" .value false [], .mark]

/-- The patterns of a choice, from its first one on, up to the parenthesis. -/
def patterns (nested : NestedReading) : (fuel : Nat) → Token → List Word → Reading (List Word)
  | 0, _, found => return found
  | fuel + 1, first, found => do
    let word : Word := match first with
      | .word word _ => word
      | .keyword text => text.toList.map fun c => .char c false
      | _ => []
    match ← token nested with
    | .symbol "|" => patterns nested fuel (← token nested) (found ++ [word])
    | .symbol ")" => return found ++ [word]
    | _ => unexpected (some "\")\"")

/-- Which lists of commands there are: the line of a script, the inside of a compound command, and
the body of a choice or a substitution, which may be empty. -/
inductive ListKind
  | line
  | inner
  | maybeEmpty
deriving DecidableEq

/-- A command that is left running. -/
def inBackground : Command → Command
  | .pipeline commands _ => .pipeline commands true
  | .redirected line body redirections => .apart line true body redirections
  | .simple line assignments words redirections =>
    .apart line true (.simple line assignments words redirections) []
  | command => .apart 1 true command []

mutual

/-- The commands of a substitution. -/
def nestedReading : (fuel : Nat) → NestedReading
  | 0 => { toParenthesis := fail "nested too deeply", toEnd := fail "nested too deeply" }
  | fuel + 1 =>
    { toParenthesis := do
        let requests := (← get).requests
        modify fun reader => { reader with requests := [] }
        let body ← commandList fuel .maybeEmpty none
        if !(← token (nestedReading fuel)).isSymbol ")" then unexpected (some "\")\"")
        within [] (documents (nestedReading fuel))
        modify fun reader => { reader with requests }
        return body
      toEnd := do
        let requests := (← get).requests
        modify fun reader => { reader with requests := [] }
        let body ← commandList fuel .maybeEmpty none
        modify fun reader => { reader with requests, isHandedBack := false }
        return body }

/-- A list of commands behind those that were read already. -/
def commandList : (fuel : Nat) → ListKind → Option Command → Reading (Option Command)
  | 0, _, _ => fail "nested too deeply"
  | fuel + 1, kind, before => do
    let nested := nestedReading fuel
    let start ← tokenAfter nested { commandChecks with newlines := kind ≠ .line }
    match start with
    | .newline =>
      documents nested
      return before
    | .finish =>
      documents nested
      handBackToken
      return before
    | start =>
      handBackToken
      let mayEnd := kind = .maybeEmpty || (kind = .inner && before.isSome)
      if mayEnd && start.endsList then return before
      let command ← andOr fuel
      let behind ← token nested
      let command := if behind.isSymbol "&" then inBackground command else command
      let all := before.elim command fun first => .sequence first command
      match behind with
      | .finish =>
        documents nested
        handBackToken
        return some all
      | .newline =>
        handBackToken
        commandListAfter fuel kind all
      | .symbol "&" | .symbol ";" => commandListAfter fuel kind all
      | _ =>
        if kind = .line then unexpected none
        handBackToken
        return some all

/-- What is left of a list of commands. -/
def commandListAfter : (fuel : Nat) → ListKind → Command → Reading (Option Command)
  | 0, _, _ => fail "nested too deeply"
  | fuel + 1, kind, before => commandList fuel kind (some before)

/-- Commands joined by `&&` and `||`, from the left. -/
def andOr : (fuel : Nat) → Reading Command
  | 0 => fail "nested too deeply"
  | fuel + 1 => do andOrRest fuel (← pipeline fuel)

def andOrRest : (fuel : Nat) → Command → Reading Command
  | 0, _ => fail "nested too deeply"
  | fuel + 1, first => do
    match ← token (nestedReading fuel) with
    | .symbol "&&" =>
      check laterChecks
      andOrRest fuel (.conjunction first (← pipeline fuel))
    | .symbol "||" =>
      check laterChecks
      andOrRest fuel (.disjunction first (← pipeline fuel))
    | _ =>
      handBackToken
      return first

def pipeline : (fuel : Nat) → Reading Command
  | 0 => fail "nested too deeply"
  | fuel + 1 => do
    let negated := (← token (nestedReading fuel)).isKeyword "!"
    if negated then check commandChecks else handBackToken
    let first ← single fuel
    let commands ← pipelineRest fuel [first]
    let all := if commands.length = 1 then first else .pipeline commands false
    return if negated then .negation all else all

def pipelineRest : (fuel : Nat) → List Command → Reading (List Command)
  | 0, _ => fail "nested too deeply"
  | fuel + 1, commands => do
    if (← token (nestedReading fuel)).isSymbol "|" then
      check laterChecks
      pipelineRest fuel (commands ++ [← single fuel])
    else
      handBackToken
      return commands

/-- The inside of a compound command; where the script ends it holds nothing, and what has to follow
it is missing. -/
def inner : (fuel : Nat) → Reading Command
  | 0 => fail "nested too deeply"
  | fuel + 1 => do
    return (← commandList fuel .inner none).getD default

/-- The branches behind a condition. -/
def branches : (fuel : Nat) → Reading Command
  | 0 => fail "nested too deeply"
  | fuel + 1 => do
    let nested := nestedReading fuel
    let condition ← inner fuel
    expectKeyword nested "then"
    let yes ← inner fuel
    match ← token nested with
    | .keyword "elif" => return .branch condition yes (some (← branches fuel))
    | .keyword "else" => return .branch condition yes (some (← inner fuel))
    | _ =>
      handBackToken
      return .branch condition yes none

/-- The choices of a selection. -/
def choices : (fuel : Nat) → List (List Word × Option Command) →
    Reading (List (List Word × Option Command))
  | 0, _ => fail "nested too deeply"
  | fuel + 1, found => do
    let nested := nestedReading fuel
    let start ← tokenAfter nested { newlines := true, keywords := true }
    if start.isKeyword "esac" then return found
    let first ← if start.isSymbol "(" then token nested else pure start
    let words ← patterns nested endlessSteps first []
    let body ← commandList fuel .maybeEmpty none
    let found := found ++ [(words, body)]
    match ← tokenAfter nested { newlines := true, keywords := true } with
    | .keyword "esac" => return found
    | .symbol ";;" => choices fuel found
    | _ => unexpected (some "\";;\"")

/-- A compound command behind its first word, without its redirections. -/
def compound : (fuel : Nat) → (line : Nat) → Token → Reading Command
  | 0, _, _ => fail "nested too deeply"
  | fuel + 1, line, start => do
    let nested := nestedReading fuel
    match start with
    | .keyword "if" =>
      let command ← branches fuel
      expectKeyword nested "fi"
      return command
    | .keyword "for" =>
      let name ← match ← token nested with
        | .word word false => pure ((Word.bare? word).getD [])
        | _ => pure []
      if !isName name then fail "Bad for loop variable"
      let words ← match ← tokenAfter nested laterChecks with
        | .keyword "in" => loopWords nested endlessSteps []
        | .symbol ";" => pure [allArguments]
        | _ => do
          handBackToken
          pure [allArguments]
      check laterChecks
      expectKeyword nested "do"
      let body ← inner fuel
      expectKeyword nested "done"
      return .each line (String.ofList name) words body
    | .keyword "case" =>
      match ← token nested with
      | .word word _ =>
        check laterChecks
        expectKeyword nested "in"
        return .select line word (← choices fuel [])
      | _ => unexpected (some "word")
    | .symbol "(" =>
      let body ← inner fuel
      if !(← token nested).isSymbol ")" then unexpected (some "\")\"")
      return .apart line false body []
    | .keyword "\x7b" =>
      let body ← inner fuel
      expectKeyword nested "\x7d"
      return body
    | start =>
      let condition ← inner fuel
      expectKeyword nested "do"
      let body ← inner fuel
      expectKeyword nested "done"
      return .loop (start.isKeyword "until") condition body

/-- A simple or a compound command. -/
def single : (fuel : Nat) → Reading Command
  | 0 => fail "nested too deeply"
  | fuel + 1 => do
    let nested := nestedReading fuel
    let line := (← get).line
    let start ← token nested
    let isCompound := match start with
      | .keyword text => ["if", "while", "until", "for", "case", "\x7b"].contains text
      | .symbol text => text == "("
      | _ => false
    if isCompound then
      let command ← compound fuel line start
      check commandChecks
      match ← redirections nested endlessSteps [], command with
      | [], command => return command
      | found, .apart line background body _ => return .apart line background body found
      | found, command => return .redirected line command found
    else
      match start with
      | .word .. | .redirection _ =>
        handBackToken
        simple fuel (← get).line true {}
      | _ => unexpected none

/-- A simple command with the parts that were read already, or the definition of a function.
`leading` is set as long as there may be assignments. -/
def simple : (fuel : Nat) → (line : Nat) → (leading : Bool) → SimpleParts → Reading Command
  | 0, _, _, _ => fail "nested too deeply"
  | fuel + 1, line, leading, parts => do
    let nested := nestedReading fuel
    match ← tokenAfter nested { aliases := leading } with
    | .word word _ =>
      if leading && Word.isAssignment word then
        simple fuel line true { parts with assignments := parts.assignments ++ [word] }
      else simple fuel line false { parts with words := parts.words ++ [word] }
    | .redirection start =>
      let found ← redirectionFrom nested start
      simple fuel line leading { parts with redirections := parts.redirections ++ [found] }
    | .symbol "(" =>
      match parts.words, parts.assignments, parts.redirections with
      | [word], [], [] => definition fuel word
      | _, _, _ =>
        handBackToken
        return .simple line parts.assignments parts.words parts.redirections
    | _ =>
      handBackToken
      return .simple line parts.assignments parts.words parts.redirections

/-- The definition of a function behind its name and the opening parenthesis. -/
def definition : (fuel : Nat) → Word → Reading Command
  | 0, _ => fail "nested too deeply"
  | fuel + 1, word => do
    if !(← token (nestedReading fuel)).isSymbol ")" then unexpected (some "\")\"")
    let name := (Word.bare? word).getD []
    if !isName name || specialCommands.contains (String.ofList name) then fail "Bad function name"
    check laterChecks
    let line := (← get).line
    return .define line (String.ofList name) (← single fuel)

end

/-- The greatest depth of commands within one another. -/
def depthLimit : Nat := 100000

end Reading

/-- What a line of a script holds. -/
inductive Line
  /-- The commands of the line; `last` is set where nothing stands behind them, not even the end of
  the line. -/
  | commands (command : Option Command) (last : Bool)
  | finish

/-- Reads the next line of commands of a script. -/
def readLine : Reading Line := do
  modify fun reader => { reader with isHandedBack := false, requests := [], checks := {} }
  let command ← Reading.commandList Reading.depthLimit .line none
  let reader ← get
  match command, reader.last, reader.isHandedBack with
  | none, .finish, true => return .finish
  | command, .finish, true => return .commands command true
  | command, _, _ => return .commands command false

end BuildRunner.Shell
