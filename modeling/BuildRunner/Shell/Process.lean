import BuildRunner.Machine
import BuildRunner.Shell.Dialogue
import BuildRunner.Shell.Signal

/-!
# Processes

A process is a program that was started, together with the programs that it has started in turn.
Each of them is a thread: a dialogue, the streams it has, and what signals do to it.  The requests
of the dialogues are answered in `Process.perform`; a thread that cannot be answered yet waits.  A
process is over when its first thread has ended, and the others go on.
-/

namespace BuildRunner.Shell

open BuildRunner.Text (Bytes)

structure Thread where
  id : Nat
  /-- The thread that is told of the end of this one. -/
  parent : Option Nat
  /-- The index of the directory of the thread in `Disk.away`. -/
  place : Nat
  streams : List (Nat × Stream)
  /-- The reactions other than the usual ones. -/
  reactions : List (Nat × Reaction) := []
  noted : List Nat := []
  isStopped : Bool := false
  /-- The signal that ends the thread. -/
  killedBy : Option Nat := none
  /-- The time at which a sleep is over. -/
  wakesAt : Option Nat := none
  /-- The children that have ended, with their results, as long as nobody has asked. -/
  ended : List (Nat × Int) := []
  dialogue : Dialogue Nat
deriving Inhabited

structure Process where
  threads : List Thread
  /-- What is left to read in the pipes. -/
  pipes : List Bytes := []
  nextId : Nat
  /-- The number of the first thread, and its result once it has ended. -/
  first : Nat
  result : Option Int := none
deriving Inhabited

/-- The number of the first thread of a process. -/
def firstNumber : Nat := 4711

namespace Thread

def reaction (thread : Thread) (signal : Nat) : Reaction :=
  (thread.reactions.lookup signal).getD .usual

/-- The signals that are ignored. -/
def ignored (thread : Thread) : List Nat :=
  (thread.reactions.filter fun entry => entry.2 == .ignores).map Prod.fst

def setReaction (signal : Nat) (reaction : Reaction) (thread : Thread) : Thread :=
  { thread with
    reactions := (signal, reaction) :: thread.reactions.filter fun entry => entry.1 != signal }

def stream (thread : Thread) (number : Nat) : Option Stream := thread.streams.lookup number

def connect (number : Nat) (stream : Option Stream) (thread : Thread) : Thread :=
  let others := thread.streams.filter fun entry => entry.1 != number
  { thread with streams := stream.toList.map (number, ·) ++ others }

/-- The thread that a signal has reached. -/
def receive (signal : Nat) (thread : Thread) : Thread :=
  let thread := if signal = Signal.goOn then { thread with isStopped := false } else thread
  if signal = 0 then thread
  else if signal = Signal.kill then { thread with killedBy := some signal }
  else if signal = Signal.stop then { thread with isStopped := true }
  else
    match thread.reaction signal with
    | .ignores => thread
    | .notes =>
      if thread.noted.contains signal then thread
      else { thread with noted := thread.noted ++ [signal] }
    | .usual =>
      if Signal.isHarmless signal then thread
      else if Signal.stops signal then { thread with isStopped := true }
      else { thread with killedBy := some signal }

/-- The thread when it becomes another program. -/
def replaced (thread : Thread) : Thread :=
  { thread with
    streams := thread.streams.filter fun entry => entry.1 < firstSaved
    reactions := thread.reactions.filter fun entry => entry.2 == .ignores
    noted := [] }

end Thread

namespace Process

def thread? (p : Process) (id : Nat) : Option Thread := p.threads.find? fun t => t.id == id

def setThread (p : Process) (thread : Thread) : Process :=
  { p with threads := p.threads.map fun t => if t.id = thread.id then thread else t }

/-- Whether some thread has an end of a pipe. -/
def hasEnd (p : Process) (number : Nat) (writes : Bool) : Bool :=
  p.threads.any fun t => t.streams.any fun entry => entry.2 == .pipe number writes

/-- The state in which a request leaves everything. -/
inductive Outcome (α : Type)
  | answered (answer : α) (disk : Disk) (process : Process)
  /-- The thread has to wait. -/
  | waits (thread : Thread)

/-! ### Streams -/

/-- The number of the stream that a path under `/dev` stands for. -/
def deviceStream? (path : String) : Option Nat :=
  match path with
  | "/dev/stdin" => some 0
  | "/dev/stdout" => some 1
  | "/dev/stderr" => some 2
  | path =>
    let rest := path.toList.drop "/dev/fd/".length
    if "/dev/fd/".toList.isPrefixOf path.toList && !rest.isEmpty && rest.all Char.isDigit then
      (String.ofList rest).toNat?
    else none

/-- Whether a path leads to a file that must not be written over. -/
def isProtected (d : Disk) (path : String) : Bool := d.isFile path

/-- Opens what a path leads to. -/
def openPath (d : Disk) (mode : OpenMode) (path : String) : Except Errno (Stream × Disk) := do
  match mode with
  | .read =>
    match d.status true path with
    | .ok (_, .dir ..) => .ok (.directory, d)
    | _ => do
      let (d, index) ← d.openReading path
      .ok (.file index true false, d)
  | .write force =>
    if !force && isProtected d path then .error .fileExists
    else do
      let (d, index) ← d.openFile false path
      .ok (.file index false true, d)
  | .append => do
    let (d, index) ← d.openFile true path
    .ok (.file index false true, d)
  | .readWrite => do
    let (d, index) ← d.openBoth path
    .ok (.file index true true, d)

/-- Opens a path for a thread, to which a path may also stand for one of its streams. -/
def openFor (d : Disk) (thread : Thread) (mode : OpenMode) (path : String) :
    Except Errno (Stream × Disk) :=
  match deviceStream? path with
  | none => openPath d mode path
  | some number =>
    match thread.stream number with
    | none => .error .notFound
    | some (.file index _ _) =>
      match (d.files[index]?).bind OpenFile.location with
      | some location => openPath d mode ("/" ++ String.intercalate "/" location)
      | none => .ok (.null, d)
    | some stream => .ok (stream, d)

def read (d : Disk) (p : Process) (thread : Thread) (number count : Nat) :
    Outcome (Except Errno Bytes) :=
  match thread.stream number with
  | some .null => .answered (.ok []) d p
  | some .directory => .answered (.error .isDirectory) d p
  | some (.file index true _) =>
    let (bytes, d) := d.readOpen index count
    .answered (.ok bytes) d p
  | some (.pipe pipe false) =>
    match (p.pipes[pipe]?).getD [] with
    | [] =>
      if !p.hasEnd pipe true then .answered (.ok []) d p
      else if thread.noted.isEmpty then .waits thread
      else .answered (.error .interrupted) d p
    | bytes =>
      .answered (.ok (bytes.take count)) d { p with pipes := p.pipes.set pipe (bytes.drop count) }
  | _ => .answered (.error .badStream) d p

def write (d : Disk) (p : Process) (thread : Thread) (number : Nat) (bytes : Bytes) :
    Outcome (Except Errno Unit) :=
  match thread.stream number with
  | some .null => .answered (.ok ()) d p
  | some (.file index _ true) =>
    .answered (.ok ()) (if bytes.isEmpty then d else d.write index bytes) p
  | some (.pipe pipe true) =>
    if p.hasEnd pipe false then
      .answered (.ok ()) d { p with pipes := p.pipes.modify pipe (· ++ bytes) }
    else .answered (.error .brokenPipe) d (p.setThread (thread.receive Signal.pipe))
  | _ => .answered (.error .badStream) d p

/-! ### Threads -/

/-- Sends a signal to a thread, or to all of them. -/
def signal (p : Process) (target : Int) (number : Nat) : Except Errno Process :=
  if Signal.greatest < number then .error .invalidArgument
  else if target ≤ 0 then .ok { p with threads := p.threads.map (Thread.receive number) }
  else
    match p.thread? target.toNat with
    | some thread => .ok (p.setThread (thread.receive number))
    | none => .error .noProcess

def awaitChild (d : Disk) (p : Process) (thread : Thread) (interruptible : Bool) :
    Outcome Awaited :=
  match thread.ended with
  | (id, result) :: ended => .answered (.child id result) d (p.setThread { thread with ended })
  | [] =>
    if !(p.threads.any fun t => t.parent == some thread.id) then .answered .noChild d p
    else if interruptible && !thread.noted.isEmpty then .answered .interrupted d p
    else .waits thread

/-- The process without a thread that has ended. -/
def finish (p : Process) (thread : Thread) (result : Int) : Process :=
  let others := (p.threads.filter fun t => t.id != thread.id).map fun t =>
    if t.parent = some thread.id then { t with parent := none }
    else if thread.parent = some t.id then { t with ended := t.ended ++ [(thread.id, result)] }
    else t
  { p with threads := others, result := if thread.id = p.first then some result else p.result }

/-- The second half of a thread. -/
def half (p : Process) (thread : Thread) (d : Disk) (dialogue : Dialogue Nat) : Thread :=
  { thread with
    id := p.nextId
    parent := some thread.id
    place := d.away.length
    noted := []
    ended := []
    dialogue }

/-- Answers a request of a thread, which is one of the threads of the process. -/
def perform (now : Nat) (d : Disk) (p : Process) (thread : Thread) :
    (request : Request) → Outcome request.Answer
  | .pause => .answered () d p
  | .disk => .answered d d p
  | .change f =>
    match f d with
    | .ok d => .answered (.ok ()) d p
    | .error code => .answered (.error code) d p
  | .openFile mode path =>
    match openFor d thread mode path with
    | .ok (stream, d) => .answered (.ok stream) d p
    | .error code => .answered (.error code) d p
  | .pipe contents => .answered p.pipes.length d { p with pipes := p.pipes ++ [contents] }
  | .stream number => .answered (thread.stream number) d p
  | .connect number stream => .answered () d (p.setThread (thread.connect number stream))
  | .read number count => p.read d thread number count
  | .write number bytes => p.write d thread number bytes
  | .fork => .answered (some p.nextId) d p
  | .awaitChild interruptible => p.awaitChild d thread interruptible
  | .identity => .answered thread.id d p
  | .signal target number =>
    match p.signal target number with
    | .ok p => .answered (.ok ()) d p
    | .error code => .answered (.error code) d p
  | .ignored => .answered thread.ignored d p
  | .react signal reaction => .answered () d (p.setThread (thread.setReaction signal reaction))
  | .noted => .answered thread.noted d (p.setThread { thread with noted := [] })
  | .sleep milliseconds =>
    match thread.wakesAt with
    | none =>
      if milliseconds = 0 then .answered () d p
      else .waits { thread with wakesAt := some (now + milliseconds) }
    | some time =>
      if now < time then .waits thread
      else .answered () d (p.setThread { thread with wakesAt := none })
  | .replace => .answered () d (p.setThread thread.replaced)

/-- Goes on with the dialogue of a thread, if that is still there. -/
def proceed (p : Process) (id : Nat) (dialogue : Dialogue Nat) : Process :=
  match p.thread? id with
  | some thread => p.setThread { thread with dialogue }
  | none => p

/-- A step of a thread; none if it has to wait, with what it has noted for that. -/
def step (now : Nat) (d : Disk) (p : Process) (thread : Thread) : Except Process (Disk × Process) :=
  match thread.killedBy with
  | some signal => .ok (d, p.finish thread (-(signal : Int)))
  | none =>
    if thread.isStopped then .error p
    else
      match thread.dialogue with
      | .done status | .exit status => .ok (d, p.finish thread (status % 256 : Nat))
      | .ask .fork next =>
        let second := p.half thread d (next none)
        let first := { thread with dialogue := next (some p.nextId) }
        let p := p.setThread first
        .ok ({ d with away := d.away ++ [d.cwd] },
          { p with threads := p.threads ++ [second], nextId := p.nextId + 1 })
      | .ask request next =>
        match p.perform now d thread request with
        | .answered answer d p => .ok (d, p.proceed thread.id (next answer))
        | .waits thread => .error (p.setThread thread)

/-- Steps of the thread of a number, until it waits or has taken a number of them; tells whether it
took one. -/
def steps (now id : Nat) : (steps : Nat) → (moved : Bool) → Disk → Process → Bool × Disk × Process
  | 0, moved, d, p => (moved, d, p)
  | n + 1, moved, d, p =>
    match p.thread? id with
    | none => (moved, d, p)
    | some thread =>
      match p.step now (d.exchange thread.place) thread with
      | .ok (d, p) => steps now id n true (d.exchange thread.place) p
      | .error p => (moved, d, p)

/-- The number of steps that a thread takes before the next one has its turn. -/
def stepsAtOnce : Nat := 512

/-- Every thread has its turn, in the order in which they were started. -/
def round (now : Nat) (d : Disk) (p : Process) : Bool × Disk × Process :=
  p.threads.foldl (fun (moved, d, p) thread => steps now thread.id stepsAtOnce moved d p)
    (false, d, p)

/-- Rounds until all threads wait, or a number of rounds is over. -/
def turn (now : Nat) : (rounds : Nat) → Disk → Process → Disk × Process
  | 0, d, p => (d, p)
  | rounds + 1, d, p =>
    let (moved, d, p) := p.round now d
    if moved then turn now rounds d p else (d, p)

/-- The number of rounds in a turn. -/
def roundsPerTurn : Nat := 8

def answer (p : Process) : Answer := p.result.elim .running .exited

end Process

end BuildRunner.Shell
