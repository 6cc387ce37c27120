/-!
# Signals

Signals have numbers, and most of them have names.  A program that does not say otherwise is ended
by a signal; some signals stop it instead, and some do nothing.
-/

namespace BuildRunner.Shell

namespace Signal

/-- The signals that have names, from the number one on. -/
def names : List String :=
  ["HUP", "INT", "QUIT", "ILL", "TRAP", "ABRT", "BUS", "FPE", "KILL", "USR1", "SEGV", "USR2",
    "PIPE", "ALRM", "TERM", "16", "CHLD", "CONT", "STOP", "TSTP", "TTIN", "TTOU", "URG", "XCPU",
    "XFSZ", "VTALRM", "PROF", "WINCH", "IO", "PWR", "SYS", "32", "33", "RTMIN", "RTMIN+1",
    "RTMIN+2", "RTMIN+3", "RTMIN+4", "RTMIN+5", "RTMIN+6", "RTMIN+7", "RTMIN+8", "RTMIN+9",
    "RTMIN+10", "RTMIN+11", "RTMIN+12", "RTMIN+13", "RTMIN+14", "RTMIN+15", "RTMAX-14", "RTMAX-13",
    "RTMAX-12", "RTMAX-11", "RTMAX-10", "RTMAX-9", "RTMAX-8", "RTMAX-7", "RTMAX-6", "RTMAX-5",
    "RTMAX-4", "RTMAX-3", "RTMAX-2", "RTMAX-1", "RTMAX"]

/-- The greatest number of a signal. -/
def greatest : Nat := 64

/-- The end of a program, which has the number zero and the name of a signal. -/
def exitName : String := "EXIT"

def name? (number : Nat) : Option String :=
  match number with
  | 0 => some exitName
  | n + 1 => names[n]?

/-- The number of a name. -/
def ofName? (name : String) : Option Nat :=
  let name := name.toUpper
  if name = exitName then some 0 else (names.findIdx? (· == name)).map (· + 1)

def hangup : Nat := 1
def interrupt : Nat := 2
def quit : Nat := 3
def kill : Nat := 9
def pipe : Nat := 13
def terminate : Nat := 15
def child : Nat := 17
def goOn : Nat := 18
def stop : Nat := 19

/-- Signals that do nothing unless a program says otherwise. -/
def isHarmless (signal : Nat) : Bool := [child, goOn, 23, 28].contains signal

/-- Signals that stop a program. -/
def stops (signal : Nat) : Bool := stop ≤ signal && signal ≤ 22

/-- How the death of a program by a signal is told. -/
def wording (signal : Nat) : String :=
  match signal with
  | 1 => "Hangup"
  | 2 => "Interrupt"
  | 3 => "Quit"
  | 4 => "Illegal instruction"
  | 5 => "Trace/breakpoint trap"
  | 6 => "Aborted"
  | 7 => "Bus error"
  | 8 => "Floating point exception"
  | 9 => "Killed"
  | 10 => "User defined signal 1"
  | 11 => "Segmentation fault"
  | 12 => "User defined signal 2"
  | 13 => "Broken pipe"
  | 14 => "Alarm clock"
  | 15 => "Terminated"
  | 16 => "Stack fault"
  | 24 => "CPU time limit exceeded"
  | 25 => "File size limit exceeded"
  | 26 => "Virtual timer expired"
  | 27 => "Profiling timer expired"
  | 29 => "I/O possible"
  | 30 => "Power failure"
  | 31 => "Bad system call"
  | n =>
    if 34 ≤ n then "Real-time signal " ++ toString (n - 34) else "Unknown signal " ++ toString n

end Signal

end BuildRunner.Shell
