import BuildRunner.Shell.Expansion

/-!
# Redirections

A redirection makes a stream number stand for a file, for the stream of another number, or for a
text of the script.  The streams that were there before are put aside under high numbers, so that
they can be put back.
-/

namespace BuildRunner.Shell

/-- What a redirection asks for once its words are expanded. -/
inductive Target
  | file (stream : Nat) (mode : OpenMode) (path : String)
  | duplicate (stream : Nat) (source : Option Nat)
  | document (stream number : Nat)
deriving DecidableEq, Repr, Inhabited

namespace Script

/-- Expands the words of a redirection. -/
def target (by_ : Substitution) : Redirection → Script Target
  | .file stream mode word => do
    return .file stream mode (← expandText by_ { tilde := true } word)
  | .duplicate stream source => return .duplicate stream source
  | .duplicateOf stream word => do
    match (← expandText by_ { tilde := true } word).toList with
    | ['-'] => return .duplicate stream none
    | [c] =>
      if c.isDigit then return .duplicate stream (some (c.toNat - '0'.toNat))
      else badNumber
    | _ => badNumber
  | .document stream number => return .document stream number
where
  badNumber : Script Target := do
    modify fun s => { s with line := s.reached }
    fault ["Syntax error: Bad fd number"]

/-- Puts a stream aside, unless that was done for the same command. -/
def putAside (number : Nat) : Script Unit := do
  match (← get).aside with
  | [] => return
  | inner :: outer =>
    if inner.any fun entry => entry.1 == number then return
    let stream ← ask (.stream number)
    let taken := (inner :: outer).flatten.filterMap Prod.snd
    let place := (taken.foldl max (firstSaved - 1)) + 1
    if stream.isSome then
      ask (.connect place stream)
      ask (.connect number none)
    let entry := (number, if stream.isSome then some place else none)
    modify fun s => { s with aside := (entry :: inner) :: outer }

/-- Puts back the streams that were put aside last. -/
def putBack : Script Unit := do
  match (← get).aside with
  | [] => return
  | inner :: outer =>
    inner.forM fun (number, place) => do
      match place with
      | none => ask (.connect number none)
      | some place =>
        ask (.connect number (← ask (.stream place)))
        ask (.connect place none)
    modify fun s => { s with aside := outer }

/-- Forgets the streams that were put aside last. -/
def forgetAside : Script Unit := do
  match (← get).aside with
  | [] => return
  | inner :: outer =>
    (inner.filterMap Prod.snd).forM fun place => ask (.connect place none)
    modify fun s => { s with aside := outer }

/-- The wording of a refusal; `missing` is that of a missing file. -/
def refusal (missing : String) (code : Errno) : String :=
  match code with
  | .notFound | .notDirectory => missing
  | code => code.wording

/-- Opens a file. -/
def openTarget (mode : OpenMode) (path : String) : Script Stream := do
  let isProtected ← hasOption .noclobber
  let wanted := match mode with
    | .write force => .write (force || !isProtected)
    | mode => mode
  match ← ask (.openFile wanted (widen path)), mode with
  | .ok stream, _ => return stream
  | .error code, .read => fault ["cannot open ", path, ": ", refusal "No such file" code]
  | .error code, _ => fault ["cannot create ", path, ": ", refusal "Directory nonexistent" code]

/-- Redirects a stream. -/
def redirect (by_ : Substitution) : Target → Script Unit
  | .file number mode path => do
    let stream ← openTarget mode path
    putAside number
    ask (.connect number (some stream))
  | .duplicate number none => do
    putAside number
    ask (.connect number none)
  | .duplicate number (some source) => do
    if number = source then return
    putAside number
    match ← ask (.stream source) with
    | some stream => ask (.connect number (some stream))
    | none => fault [toString source, ": ", Errno.badStream.wording]
  | .document number document => do
    let word := ((← get).documents.lookup document).getD []
    let text ← expandText by_ { isQuoted := true } word
    let pipe ← ask (.pipe (bytesOf text))
    putAside number
    ask (.connect number (some (.pipe pipe false)))

end Script

end BuildRunner.Shell
