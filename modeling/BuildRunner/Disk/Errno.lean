/-!
# System errors

The reasons for which the system refuses an operation on the disk, on a stream or on a program, with
their numbers and wordings.
-/

namespace BuildRunner

inductive Errno
  | notFound
  | noProcess
  | interrupted
  | execFormat
  | badStream
  | accessDenied
  | busy
  | fileExists
  | notDirectory
  | isDirectory
  | invalidArgument
  | nameTooLong
  | brokenPipe
  | directoryNotEmpty
  | linkLoop
deriving DecidableEq, Repr

namespace Errno

def number : Errno → Nat
  | notFound => 2
  | noProcess => 3
  | interrupted => 4
  | execFormat => 8
  | badStream => 9
  | accessDenied => 13
  | busy => 16
  | fileExists => 17
  | notDirectory => 20
  | isDirectory => 21
  | invalidArgument => 22
  | brokenPipe => 32
  | nameTooLong => 36
  | directoryNotEmpty => 39
  | linkLoop => 40

def wording : Errno → String
  | notFound => "No such file or directory"
  | noProcess => "No such process"
  | interrupted => "Interrupted system call"
  | badStream => "Bad file descriptor"
  | execFormat => "Exec format error"
  | accessDenied => "Permission denied"
  | busy => "Device or resource busy"
  | fileExists => "File exists"
  | notDirectory => "Not a directory"
  | isDirectory => "Is a directory"
  | invalidArgument => "Invalid argument"
  | brokenPipe => "Broken pipe"
  | nameTooLong => "File name too long"
  | directoryNotEmpty => "Directory not empty"
  | linkLoop => "Too many levels of symbolic links"

end Errno

end BuildRunner
