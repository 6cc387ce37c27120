import BuildRunner.Number.Reading
import BuildRunner.Number.Written
import BuildRunner.Text.Quoted

/-!
# Message values

Messages are filled in with values: texts, numbers, truth values, nothing, and lists and
dictionaries of them.  A value is displayed either plainly, where a text stands for itself, or in
its literal form, where a text is quoted.  An integer that is too long, or lists and dictionaries
nested too deep, keep a value from being written in a message.
-/

namespace BuildRunner.Message

open BuildRunner.Number BuildRunner.Text

inductive Value
  | none
  | bool (b : Bool)
  | int (n : Int)
  | float (x : Binary64)
  | text (s : String)
  | list (items : List Value)
  | dict (entries : List (String × Value))
deriving Inhabited

/-- The decimal form of an integer. -/
def intText (n : Int) : List Char :=
  if n < 0 then '-' :: digitsOf n.natAbs else digitsOf n.natAbs

/-- Texts joined by a comma and a space. -/
def commaJoined : List (List Char) → List Char
  | [] => []
  | [s] => s
  | s :: r => s ++ ',' :: ' ' :: commaJoined r

namespace Value

mutual

/-- The literal form of a value. -/
def literal : Value → List Char
  | .none => ['N', 'o', 'n', 'e']
  | .bool b => if b then ['T', 'r', 'u', 'e'] else ['F', 'a', 'l', 's', 'e']
  | .int n => intText n
  | .float x => x.shortest
  | .text s => (quoted s).toList
  | .list items => '[' :: commaJoined (literals items) ++ [']']
  | .dict entries => '\x7b' :: commaJoined (entryLiterals entries) ++ ['\x7d']

def literals : List Value → List (List Char)
  | [] => []
  | v :: r => v.literal :: literals r

def entryLiterals : List (String × Value) → List (List Char)
  | [] => []
  | (key, v) :: r => ((quoted key).toList ++ ':' :: ' ' :: v.literal) :: entryLiterals r

end

/-- The number of lists and dictionaries, one in the other, that can be written before the calls are
nested too deep. -/
def greatestDepth : Nat := 990

/-- What keeps a value from being written. -/
inductive Fault
  | longInteger
  | nesting
deriving DecidableEq, Repr

/-- An integer with more digits than are written in decimal. -/
def isLong (n : Int) : Bool := Nat.pow 10 greatestDigits ≤ n.natAbs

mutual

/-- The first fault of a value, from the left to the right, at a depth that may still be gone down. -/
def fault? : (depth : Nat) → Value → Option Fault
  | 0, _ => some .nesting
  | _ + 1, .int n => if isLong n then some .longInteger else Option.none
  | depth + 1, .list items => faultAmong? depth items
  | depth + 1, .dict entries => faultBehind? depth entries
  | _ + 1, _ => Option.none

def faultAmong? (depth : Nat) : List Value → Option Fault
  | [] => Option.none
  | v :: r => (v.fault? depth).or (faultAmong? depth r)

def faultBehind? (depth : Nat) : List (String × Value) → Option Fault
  | [] => Option.none
  | (_, v) :: r => (v.fault? depth).or (faultBehind? depth r)

end

/-- The plain form of a value. -/
def plain : Value → List Char
  | .text s => s.toList
  | v => v.literal

/-- The literal form of a value that can be written. -/
def literal? (v : Value) : Except Fault (List Char) :=
  match v.fault? greatestDepth with
  | Option.none => .ok v.literal
  | some fault => .error fault

/-- The plain form of a value that can be written. -/
def plain? : Value → Except Fault (List Char)
  | .text s => .ok s.toList
  | v => v.literal?

/-- Zero, nothing and whatever is empty count as false. -/
def isTrue : Value → Bool
  | .none => false
  | .bool b => b
  | .int n => n != 0
  | .float x => !x.isZero
  | .text s => !s.isEmpty
  | .list items => !items.isEmpty
  | .dict entries => !entries.isEmpty

/-- The integer that an integer or a truth value is. -/
def integer? : Value → Option Int
  | .int n => some n
  | .bool b => some (if b then 1 else 0)
  | _ => Option.none

end Value

end BuildRunner.Message
