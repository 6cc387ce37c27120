import BuildRunner.Shell.Tool.Options

/-!
# Writing files one after the other

`cat` copies its files to its output, in the order in which they are named, and its input where a
dash is named or nothing.  It may number lines, squeeze empty ones, and show bytes that cannot be
seen; then it works on one byte after the other.
-/

namespace BuildRunner.Shell

/-- How lines are shown. -/
structure LineStyle where
  numbers : Bool := false
  /-- Empty lines are not numbered. -/
  skipsEmpty : Bool := false
  /-- Of several empty lines only the first is shown. -/
  squeezes : Bool := false
  showsEnds : Bool := false
  showsTabs : Bool := false
  showsControls : Bool := false
deriving DecidableEq, Repr, Inhabited

/-- Where in the lines a byte stands. -/
structure LineState where
  /-- The number of line ends before, at most two; none within a line. -/
  ends : Option Nat := some 0
  /-- Whether a carriage return was read and is still to be shown. -/
  awaitsEnd : Bool := false
  lines : Nat := 0
deriving DecidableEq, Repr, Inhabited

/-- The number of a line. -/
def lineNumber (n : Nat) : List Char :=
  let digits := Nat.toDigits 10 n
  List.replicate (6 - digits.length) ' ' ++ digits ++ ['\t']

/-- A byte below 128 as it can be seen. -/
def shownControl (n : Nat) : List Char :=
  if n < 0x20 then ['^', Char.ofNat (n + 0x40)]
  else if n = 0x7f then ['^', '?']
  else [Char.ofNat n]

namespace LineStyle

/-- A byte other than a line end, as it is shown. -/
def shown (style : LineStyle) (c : Char) : List Char :=
  if c = '\t' then if style.showsTabs then shownControl c.toNat else [c]
  else if !style.showsControls then [c]
  else if 0x80 ≤ c.toNat then 'M' :: '-' :: shownControl (c.toNat - 0x80)
  else shownControl c.toNat

/-- The number of the next line, if it is shown. -/
def start (style : LineStyle) (isShown : Bool) (state : LineState) : List Char × LineState :=
  if style.numbers && isShown then
    (lineNumber (state.lines + 1), { state with lines := state.lines + 1 })
  else ([], state)

/-- What is shown for one byte. -/
def step (style : LineStyle) (state : LineState) (c : Char) : List Char × LineState :=
  if c = '\n' then
    let ends := state.ends.elim 0 fun n => min 2 (n + 1)
    if style.squeezes && ends = 2 then ([], { state with ends := some ends })
    else
      let (number, next) := style.start (0 < ends && !style.skipsEmpty) state
      let shownReturn := if state.awaitsEnd then ['^', 'M'] else []
      let mark := if style.showsEnds then ['$'] else []
      (number ++ shownReturn ++ mark ++ [c], { next with ends := some ends, awaitsEnd := false })
  else
    let before := if state.awaitsEnd then ['\r'] else []
    let (number, next) := style.start state.ends.isSome state
    let awaitsEnd := c = '\r' && style.showsEnds && !style.showsControls
    let here := if awaitsEnd then [] else style.shown c
    (before ++ number ++ here, { next with ends := none, awaitsEnd })

/-- What is shown for some bytes. -/
def shownBytes (style : LineStyle) (state : LineState) (bytes : List Char) :
    List Char × LineState :=
  let (parts, state) := bytes.foldl (fun (parts, state) c =>
    let (part, state) := style.step state c
    (part :: parts, state)) ([], state)
  (parts.reverse.flatten, state)

/-- Whether files are copied as they are. -/
def isPlain (style : LineStyle) : Bool := style = {}

/-- The style that options ask for. -/
def ofGiven (given : Given) : LineStyle :=
  { numbers := given.has "number" || given.has "number-nonblank"
    skipsEmpty := given.has "number-nonblank"
    squeezes := given.has "squeeze-blank"
    showsEnds := ["show-ends", "show-all", "e"].any given.has
    showsTabs := ["show-tabs", "show-all", "t"].any given.has
    showsControls := ["show-nonprinting", "show-all", "e", "t"].any given.has }

end LineStyle

namespace Tool

def concatenateOptions : List ToolOption :=
  [{ key := "number-nonblank", letter := 'b', name := "number-nonblank" },
    { key := "number", letter := 'n', name := "number" },
    { key := "squeeze-blank", letter := 's', name := "squeeze-blank" },
    { key := "show-nonprinting", letter := 'v', name := "show-nonprinting" },
    { key := "show-ends", letter := 'E', name := "show-ends" },
    { key := "show-tabs", letter := 'T', name := "show-tabs" },
    { key := "show-all", letter := 'A', name := "show-all" },
    { key := "e", letter := 'e' }, { key := "t", letter := 't' }, { key := "u", letter := 'u' }] ++
    commonOptions

/-- The number under which a tool has the file that it reads. -/
def ownStream : Nat := 200

/-- The number of bytes that are read at once. -/
def chunk : Nat := 0x20000

/-- The number of chunks that are read from a file. -/
def chunkLimit : Nat := 1000000

/-- Writes bytes at once. -/
def put (text : String) : Tool Unit := do
  if !text.isEmpty then
    match ← ask (.write 1 (bytesOf text)) with
    | .ok () => pure ()
    | .error code => fail (unwritten code)

/-- Copies a stream to its end. -/
def copyStream (style : LineStyle) (name : String) (number : Nat) :
    (fuel : Nat) → LineState → Tool LineState
  | 0, state => return state
  | fuel + 1, state => do
    match ← ask (.read number chunk) with
    | .error code =>
      complain [shownName false name, ": ", code.wording]
      return state
    | .ok [] => return state
    | .ok bytes =>
      let text := ofBytes bytes
      let (shown, state) := if style.isPlain then (text, state) else style.shownBytes state text
      put (String.ofList shown)
      copyStream style name number fuel state

/-- Whether a stream reads a file to whose later part another one writes. -/
def readsOwnOutput (d : Disk) (input output : Stream) : Bool :=
  match input, output with
  | .file i _ _, .file o _ _ =>
    match d.files[i]?, d.files[o]? with
    | some source, some target =>
      let length := (target.location.bind d.tree.get?).elim 0 fun node => node.data.length
      let place := if target.append then length else target.offset
      source.location.isSome && source.location == target.location && source.offset < place
    | _, _ => false
  | _, _ => false

/-- Copies what a name stands for. -/
def copyNamed (style : LineStyle) (output : Stream) (state : LineState) (name : String) :
    Tool LineState := do
  let copy (number : Nat) : Tool LineState := do
    match ← ask (.stream number) with
    | none =>
      complain [shownName false name, ": ", Errno.badStream.wording]
      return state
    | some input =>
      let d ← ask .disk
      if readsOwnOutput d input output then
        complain [shownName false name, ": input file is output file"]
        return state
      else copyStream style name number chunkLimit state
  if name = "-" then copy 0
  else
    match ← ask (.openFile .read (widen name)) with
    | .error code =>
      complain [shownName false name, ": ", code.wording]
      return state
    | .ok stream =>
      ask (.connect ownStream (some stream))
      let state ← copy ownStream
      ask (.connect ownStream none)
      return state

def concatenate (mixed : Bool) (arguments : List String) : Tool Unit := do
  let given := Given.ofArguments concatenateOptions mixed none arguments
  checkOptions given
  match ← ask (.stream 1) with
  | none => fail ["standard output: ", Errno.badStream.wording]
  | some output =>
    let names := if given.operands.isEmpty then ["-"] else given.operands
    let state ← names.foldlM (copyNamed (.ofGiven given) output) {}
    if state.awaitsEnd then put "\r"
    if names.contains "-" && (← ask (.stream 0)).isNone then
      fail ["closing standard input: ", Errno.badStream.wording]

end Tool

end BuildRunner.Shell
