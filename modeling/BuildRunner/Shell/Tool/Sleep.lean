import BuildRunner.Number.Floating
import BuildRunner.Shell.Tool.Options

/-!
# Sleeping

`sleep` waits for the sum of some durations.  A duration is a number that may have a fraction, with
a letter for its unit.
-/

namespace BuildRunner.Shell

open BuildRunner.Number (FloatSize Floating)

/-- The milliseconds of a unit. -/
def unitLength? : List Char → Option Nat
  | [] | ['s'] => some 1000
  | ['m'] => some 60000
  | ['h'] => some 3600000
  | ['d'] => some 86400000
  | _ => none

/-- A time that nobody waits for. -/
def endless : Nat := 1000000000000000

/-- The milliseconds of a duration, rounded up. -/
def duration? (text : String) : Option Nat := do
  let read ← Floating.read? .double text.toList
  let unit ← unitLength? read.rest
  match read.value with
  | .nan _ => none
  | .infinite isNegative => if isNegative then none else some endless
  | .finite isNegative mantissa exponent =>
    if isNegative && mantissa != 0 then none
    else
      let size := exponent.natAbs
      if 0 ≤ exponent then some (min endless (mantissa * unit * Nat.pow 2 size))
      else
        let parts := Nat.pow 2 size
        some ((mantissa * unit + parts - 1) / parts)

namespace Tool

def sleep (mixed : Bool) (arguments : List String) : Tool Unit := do
  let given := Given.ofArguments commonOptions mixed none arguments
  checkOptions given
  if arguments.isEmpty then misused ["missing operand"]
  let bad := given.operands.filter fun text => (duration? text).isNone
  bad.forM fun text => complain ["invalid time interval ", quotedText text]
  if !bad.isEmpty then giveHint
  ask (.sleep ((given.operands.filterMap duration?).foldl (· + ·) 0))

end Tool

end BuildRunner.Shell
