import BuildRunner.Disk.Basic
import BuildRunner.Shell.Integer
import BuildRunner.Shell.Narrow

/-!
# Tests of the shell

`test` and `[` decide about files, texts and numbers.  Their arguments are read by recursive
descent: `-o` joins conditions more weakly than `-a`, and `!` binds to the condition behind it.
-/

namespace BuildRunner.Shell

/-- Operators in front of one operand. -/
def unaryOperators : List String :=
  ["-n", "-z", "-e", "-f", "-d", "-h", "-L", "-p", "-s", "-r", "-w", "-x", "-b", "-c", "-g", "-k",
    "-u", "-t", "-O", "-G", "-S"]

/-- Operators between two operands. -/
def binaryOperators : List String :=
  ["=", "!=", "<", ">", "-eq", "-ne", "-lt", "-le", "-gt", "-ge", "-nt", "-ot", "-ef"]

/-- Whether a condition on one operand holds. -/
def unaryTest (d : Disk) (operator operand : String) : Bool :=
  let path := widen operand
  match operator with
  | "-n" => !operand.isEmpty
  | "-z" => operand.isEmpty
  | "-f" => d.isFile path
  | "-d" => d.isDirectory path
  | "-h" | "-L" => d.isLink path
  | "-p" => (d.node? true path).any fun | .pipe => true | _ => false
  | "-c" => (d.node? true path).any fun | .null => true | _ => false
  | "-s" => (d.node? true path).any fun node => !node.data.isEmpty || node.isDir
  | "-x" => d.isExecutable path
  | "-e" | "-r" | "-w" | "-O" | "-G" => d.pathExists path
  | _ => false

/-- Whether an entry is newer than another one, as far as their times are known.  A time that is not
known is the present. -/
def isNewer (a b : Node) : Bool :=
  match a.modified?, b.modified? with
  | some a, some b => b < a
  | none, some _ => true
  | _, none => false

/-- The number that an operand is. -/
def testNumber (operand : String) : Except String Int :=
  let fits (n : Int) : Bool := leastInteger ≤ n && n ≤ greatestInteger
  match (whole? decimal? operand.toList).filter fits with
  | some n => .ok n
  | none => .error ("Illegal number: " ++ operand)

/-- Whether a condition on two operands holds. -/
def binaryTest (d : Disk) (left operator right : String) : Except String Bool :=
  let numbers (holds : Int → Int → Bool) : Except String Bool := do
    .ok (holds (← testNumber left) (← testNumber right))
  let newer (a b : String) : Bool :=
    match d.node? true (widen a), d.node? true (widen b) with
    | some a, some b => isNewer a b
    | _, _ => false
  match operator with
  | "=" => .ok (left == right)
  | "!=" => .ok (left != right)
  | "<" => .ok (left < right)
  | ">" => .ok (right < left)
  | "-eq" => numbers (· == ·)
  | "-ne" => numbers (· != ·)
  | "-lt" => numbers (· < ·)
  | "-le" => numbers (· ≤ ·)
  | "-gt" => numbers (· > ·)
  | "-ge" => numbers (· ≥ ·)
  | "-ef" => .ok ((d.sameEntry (widen left) (widen right)).toOption.getD false)
  | "-nt" => .ok (newer left right)
  | "-ot" => .ok (newer right left)
  | _ => .ok false

/-- Whether the first word is an operator in front of the operand behind it. -/
def isUnary : List String → Bool
  | [_] | [] => false
  | [operator, _] => unaryOperators.contains operator
  | operator :: second :: _ => unaryOperators.contains operator && !binaryOperators.contains second

/-- One condition, and the words behind it. -/
def primary (d : Disk) : List String → Except String (Bool × List String)
  | [] => .ok (false, [])
  | operand :: rest =>
    if isUnary (operand :: rest) then .ok (unaryTest d operand (rest.headD ""), rest.drop 1)
    else
      match rest with
      | operator :: r =>
        if binaryOperators.contains operator then
          match r with
          | [] => .error (operator ++ ": argument expected")
          | right :: r => do .ok (← binaryTest d operand operator right, r)
        else .ok (!operand.isEmpty, rest)
      | [] => .ok (!operand.isEmpty, [])

mutual

/-- Conditions joined by `-o`, and the words behind them. -/
def disjunctions (d : Disk) : (fuel : Nat) → List String → Except String (Bool × List String)
  | 0, words => .ok (false, words)
  | fuel + 1, words => do
    let (first, r) ← conjunctions d fuel words
    match r with
    | "-o" :: r =>
      let (second, r) ← disjunctions d fuel r
      .ok (first || second, r)
    | r => .ok (first, r)

/-- Conditions joined by `-a`, and the words behind them. -/
def conjunctions (d : Disk) : (fuel : Nat) → List String → Except String (Bool × List String)
  | 0, words => .ok (false, words)
  | fuel + 1, words => do
    let (first, r) ← negations d fuel words
    match r with
    | "-a" :: r =>
      let (second, r) ← conjunctions d fuel r
      .ok (first && second, r)
    | r => .ok (first, r)

/-- A condition that may be negated or stand between parentheses, and the words behind it. -/
def negations (d : Disk) : (fuel : Nat) → List String → Except String (Bool × List String)
  | 0, words => .ok (false, words)
  | fuel + 1, words =>
    match words with
    | ["!"] => .ok (true, [])
    | "!" :: r => do
      let (holds, r) ← negations d fuel r
      .ok (!holds, r)
    | "(" :: c :: r => do
      let (holds, r) ← disjunctions d fuel (c :: r)
      match r with
      | ")" :: r => .ok (holds, r)
      | _ => .error "closing paren expected"
    | words => primary d words

end

/-- Whether words are a comparison of two operands, which is what three words are read as first. -/
def comparison? : List String → Option (String × String × String)
  | [left, operator, right] =>
    if binaryOperators.contains operator then some (left, operator, right) else none
  | _ => none

/-- Whether the condition that the words of a test state holds; the refusal is the rest of a
complaint. -/
def test (d : Disk) (words : List String) : Except String Bool :=
  match comparison? words, words with
  | some (left, operator, right), _ => binaryTest d left operator right
  | none, ["!", left, operator, right] =>
    if binaryOperators.contains operator then (binaryTest d left operator right).map (!·)
    else .error (left ++ ": unexpected operator")
  | none, words => do
    let (holds, rest) ← disjunctions d (4 * words.length + 4) words
    if rest.isEmpty then .ok holds
    else
      let last := (words.take (words.length - rest.length)).getLast?.getD ""
      .error (last ++ ": unexpected operator")

end BuildRunner.Shell
