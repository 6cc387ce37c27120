import BuildRunner.Shell.Session

/-!
# Arithmetic of the shell

Expressions over integers of 64 bits, with variables that may also be set.  An expression is
evaluated while it is read, from the left; what a condition decides against is read without being
evaluated.
-/

namespace BuildRunner.Shell

namespace Arithmetic

inductive Symbol
  | number (n : Int)
  | name (s : String)
  | operator (s : String)
deriving DecidableEq, Repr, Inhabited

/-- The operators of several characters, those that begin with others first. -/
def longOperators : List String :=
  ["<<=", ">>=", "<<", ">>", "<=", ">=", "==", "!=", "&&", "||", "+=", "-=", "*=", "/=", "%=", "&=",
    "^=", "|="]

/-- The operator at the head of a text that is not empty. -/
def operatorOf (s : List Char) : String :=
  (longOperators.find? fun o => o.toList.isPrefixOf s).getD (String.ofList (s.take 1))

/-- A number that is held within 64 bits. -/
def held (n : Nat) : Int := min (n : Int) greatestInteger

/-- The symbols of an expression. -/
def symbols : (fuel : Nat) → List Char → List Symbol
  | 0, _ => []
  | fuel + 1, s =>
    match s.dropWhile fun c => c = ' ' || c = '\t' || c = '\n' with
    | [] => []
    | c :: r =>
      if isNameStart c then
        let name := (c :: r).takeWhile isNameChar
        .name (String.ofList name) :: symbols fuel ((c :: r).drop name.length)
      else
        match natural? (c :: r) with
        | some (n, rest) => .number (held n) :: symbols fuel rest
        | none =>
          let operator := operatorOf (c :: r)
          .operator operator :: symbols fuel ((c :: r).drop operator.length)

/-- What is left of an expression that is being read. -/
structure Reading where
  expression : String
  rest : List Symbol

abbrev Evaluation := StateT Reading Script

def refuse {α : Type} (what : String) : Evaluation α := do
  let expression := (← get).expression
  Script.fault ["arithmetic expression: ", what, ": \"", expression, "\""]

/-- Takes an operator if it comes next. -/
def takes (operator : String) : Evaluation Bool := do
  let reading ← get
  match reading.rest with
  | .operator o :: rest =>
    if o = operator then
      set { reading with rest }
      return true
    else return false
  | _ => return false

/-- The value of a variable; one without a value counts as zero. -/
def valueOf (name : String) : Script Int := do
  let text := ((← get).value? name).getD ""
  if text.toList.all isSpace then return 0
  match whole? natural? text.toList with
  | some n =>
    if leastInteger ≤ n && n ≤ greatestInteger then return n
    else Script.fault ["Illegal number: ", text]
  | none => Script.fault ["Illegal number: ", text]

/-- The binary operators, with their ranks; those of lower ranks bind more tightly. -/
def ranks : List (String × Nat) :=
  [("*", 0), ("/", 0), ("%", 0), ("+", 1), ("-", 1), ("<<", 2), (">>", 2), ("<", 3), ("<=", 3),
    (">", 3), (">=", 3), ("==", 4), ("!=", 4), ("&", 5), ("^", 6), ("|", 7)]

/-- The rank that all binary operators are below. -/
def greatestRank : Nat := 8

/-- A binary operation on the bits of two integers. -/
def onBits (f : BitVec 64 → BitVec 64 → BitVec 64) (a b : Int) : Int :=
  (f (BitVec.ofInt 64 a) (BitVec.ofInt 64 b)).toInt

def truth (b : Bool) : Int := if b then 1 else 0

/-- The shift of an integer, by an amount modulo 64. -/
def shifted (left : Bool) (a b : Int) : Int :=
  let amount := (b % 64).toNat
  if left then wrap (a * (Nat.pow 2 amount : Nat)) else a.fdiv (Nat.pow 2 amount : Nat)

/-- Applies a binary operator. -/
def apply (operator : String) (a b : Int) : Evaluation Int := do
  match operator with
  | "*" => return wrap (a * b)
  | "/" => if b = 0 then refuse "division by zero" else return wrap (a.tdiv b)
  | "%" => if b = 0 then refuse "division by zero" else return wrap (a.tmod b)
  | "+" => return wrap (a + b)
  | "-" => return wrap (a - b)
  | "<<" => return shifted true a b
  | ">>" => return shifted false a b
  | "<" => return truth (a < b)
  | "<=" => return truth (a ≤ b)
  | ">" => return truth (b < a)
  | ">=" => return truth (b ≤ a)
  | "==" => return truth (a == b)
  | "!=" => return truth (a != b)
  | "&" => return onBits (· &&& ·) a b
  | "^" => return onBits (· ^^^ ·) a b
  | _ => return onBits (· ||| ·) a b

/-- The binary operator that comes next, if its rank is below a bound. -/
def nextBinary (bound : Nat) : Evaluation (Option (String × Nat)) := do
  match (← get).rest with
  | .operator o :: _ => return ((ranks.lookup o).filter (· < bound)).map (o, ·)
  | _ => return none

/-- The operator within an assignment, which is empty for a plain one; none where there is no
assignment. -/
def assignment? : Symbol → Option String
  | .operator "=" => some ""
  | .operator o =>
    let inner := String.ofList o.toList.dropLast
    if o.toList.getLast? = some '=' && !(["<=", ">=", "==", "!="].contains o) &&
        (ranks.lookup inner).isSome then some inner else none
  | _ => none

mutual

/-- An operand.  With `dry` nothing is evaluated. -/
def operand : (fuel : Nat) → (dry : Bool) → Evaluation Int
  | 0, _ => refuse "expecting primary"
  | fuel + 1, dry => do
    let reading ← get
    match reading.rest with
    | .number n :: rest =>
      set { reading with rest }
      return n
    | .name name :: rest =>
      set { reading with rest }
      if dry then return 0
      valueOf name
    | .operator o :: rest =>
      set { reading with rest }
      match o with
      | "(" =>
        let n ← assignment fuel dry
        if !(← takes ")") then refuse "expecting ')'"
        return n
      | "+" => operand fuel dry
      | "-" => return wrap (-(← operand fuel dry))
      | "!" => return truth ((← operand fuel dry) == 0)
      | "~" => return -1 - (← operand fuel dry)
      | _ => refuse "expecting primary"
    | [] => refuse "expecting primary"

/-- Applies the binary operators of ranks below a bound to a left operand. -/
def binaryRest : (fuel : Nat) → (dry : Bool) → (bound : Nat) → Int → Evaluation Int
  | 0, _, _, a => return a
  | fuel + 1, dry, bound, a => do
    match ← nextBinary bound with
    | none => return a
    | some (operator, rank) =>
      discard (takes operator)
      let b ← operand fuel dry
      let b ← binaryRest fuel dry rank b
      let a ← if dry then pure b else apply operator a b
      binaryRest fuel dry bound a

def conjunction : (fuel : Nat) → (dry : Bool) → Evaluation Int
  | 0, _ => refuse "expecting primary"
  | fuel + 1, dry => do
    let a ← operand fuel dry
    let a ← binaryRest fuel dry greatestRank a
    if ← takes "&&" then
      let b ← conjunction fuel (dry || a == 0)
      return truth (a != 0 && b != 0)
    else return a

def disjunction : (fuel : Nat) → (dry : Bool) → Evaluation Int
  | 0, _ => refuse "expecting primary"
  | fuel + 1, dry => do
    let a ← conjunction fuel dry
    if ← takes "||" then
      let b ← disjunction fuel (dry || a != 0)
      return truth (a != 0 || b != 0)
    else return a

def conditional : (fuel : Nat) → (dry : Bool) → Evaluation Int
  | 0, _ => refuse "expecting primary"
  | fuel + 1, dry => do
    let a ← disjunction fuel dry
    if ← takes "?" then
      let b ← assignment fuel (dry || a == 0)
      if !(← takes ":") then refuse "expecting ':'"
      let c ← conditional fuel (dry || a != 0)
      return if a != 0 then b else c
    else return a

def assignment : (fuel : Nat) → (dry : Bool) → Evaluation Int
  | 0, _ => refuse "expecting primary"
  | fuel + 1, dry => do
    let reading ← get
    match reading.rest with
    | .name name :: symbol :: rest =>
      match assignment? symbol with
      | none => conditional fuel dry
      | some operator =>
        set { reading with rest }
        let b ← assignment fuel dry
        if dry then return b
        let n ← if operator.isEmpty then pure b else do apply operator (← valueOf name) b
        Script.setVariable name (toString n)
        return n
    | _ => conditional fuel dry

end

/-- The value of an expression. -/
def evaluate (expression : String) : Script Int := do
  let rest := symbols (expression.length + 1) expression.toList
  let fuel := 8 * expression.length + 8
  let (n, reading) ← (assignment fuel false).run { expression, rest }
  if !reading.rest.isEmpty then
    Script.fault ["arithmetic expression: expecting EOF: \"", expression, "\""]
  return n

end Arithmetic

end BuildRunner.Shell
