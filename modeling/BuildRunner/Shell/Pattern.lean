/-!
# Patterns of the shell

A pattern matches texts: a star stands for any text, a question mark for any character, and a set in
brackets for one of its characters.  A character behind a backslash stands for itself.
-/

namespace BuildRunner.Shell

namespace Pattern

/-- The classes of characters that a set may name. -/
def classes : List (String × (Char → Bool)) :=
  let isPrint (c : Char) : Bool := ' ' ≤ c && c ≤ '~'
  let isGraph (c : Char) : Bool := isPrint c && c != ' '
  [("alnum", Char.isAlphanum), ("cntrl", fun c => c < ' ' || c == '\x7f'), ("lower", Char.isLower),
    ("space", fun c => c == ' ' || ('\t' ≤ c && c ≤ '\r')), ("alpha", Char.isAlpha),
    ("digit", Char.isDigit), ("print", isPrint), ("upper", Char.isUpper),
    ("blank", fun c => c == ' ' || c == '\t'), ("graph", isGraph),
    ("punct", fun c => isGraph c && !c.isAlphanum),
    ("xdigit", fun c => c.isDigit || ('a' ≤ c && c ≤ 'f') || ('A' ≤ c && c ≤ 'F'))]

/-- The class that a text names, and what stands behind its name. -/
def class? (s : List Char) : Option ((Char → Bool) × List Char) :=
  classes.findSome? fun (name, holds) =>
    let text := ':' :: name.toList ++ [':', ']']
    if text.isPrefixOf s then some (holds, s.drop text.length) else none

/-- The place of a character in the order of ranges: bytes above 127 come before all others. -/
def order (c : Char) : Int := if c.toNat < 0x80 then c.toNat else (c.toNat : Int) - 0x100

/-- Whether a set holds a character, from one of its members on, and what stands behind its closing
bracket; none where it is not closed. -/
def inSet (c : Char) : (fuel : Nat) → (found : Bool) → List Char → Option (Bool × List Char)
  | 0, _, _ => none
  | fuel + 1, found, s =>
    let goOn (found : Bool) (rest : List Char) : Option (Bool × List Char) :=
      match rest with
      | ']' :: rest => some (found, rest)
      | rest => inSet c fuel found rest
    let member (low : Char) (rest : List Char) : Option (Bool × List Char) :=
      match rest with
      | '-' :: high :: more =>
        if high = ']' then goOn (found || c == low) rest
        else
          let (high, more) := match high, more with
            | '\\', h :: more => (h, more)
            | high, more => (high, more)
          goOn (found || (order low ≤ order c && order c ≤ order high)) more
      | rest => goOn (found || c == low) rest
    match s with
    | [] => none
    | '[' :: rest =>
      match class? rest with
      | some (holds, rest) => goOn (found || holds c) rest
      | none => member '[' rest
    | '\\' :: low :: rest => member low rest
    | low :: rest => member low rest

/-- Whether a pattern matches a whole text.  The fuel bounds the sum of their lengths. -/
def matchesFrom : (fuel : Nat) → List Char → List Char → Bool
  | 0, _, _ => false
  | _ + 1, [], s => s.isEmpty
  | fuel + 1, '*' :: p, s =>
    matchesFrom fuel p s ||
      match s with
      | [] => false
      | _ :: s => matchesFrom fuel ('*' :: p) s
  | fuel + 1, '?' :: p, s =>
    match s with
    | [] => false
    | _ :: s => matchesFrom fuel p s
  | fuel + 1, '[' :: p, s =>
    match s with
    | [] => false
    | c :: s =>
      let (negated, set) := match p with
        | '!' :: set => (true, set)
        | set => (false, set)
      match inSet c (set.length + 1) false set with
      | some (found, rest) => found != negated && matchesFrom fuel rest s
      | none => c == '[' && matchesFrom fuel p s
  | fuel + 1, '\\' :: c :: p, s =>
    match s with
    | [] => false
    | d :: s => c == d && matchesFrom fuel p s
  | fuel + 1, c :: p, s =>
    match s with
    | [] => false
    | d :: s => c == d && matchesFrom fuel p s

end Pattern

/-- Whether a pattern matches a whole text. -/
def matchesPattern (pattern s : List Char) : Bool :=
  Pattern.matchesFrom (pattern.length + s.length + 1) pattern s

/-- The text of a pattern that stands for one text only. -/
def withoutEscapes : List Char → List Char
  | '\\' :: c :: rest => c :: withoutEscapes rest
  | c :: rest => c :: withoutEscapes rest
  | [] => []

/-- Whether a bracket before a text opens a set, which ends within the text. -/
def closesSet : (fuel : Nat) → List Char → Bool
  | 0, _ => false
  | fuel + 1, s =>
    match (match s with | '\\' :: s => s | s => s) with
    | [] | [_] => false
    | _ :: ']' :: _ => true
    | _ :: s => closesSet fuel s

/-- Whether a pattern stands for more than one text. -/
def isOpenPattern : List Char → Bool
  | '\\' :: _ :: rest => isOpenPattern rest
  | '*' :: _ | '?' :: _ => true
  | '[' :: rest =>
    let set := match rest with
      | '!' :: set => set
      | set => set
    closesSet (set.length + 1) set || isOpenPattern rest
  | _ :: rest => isOpenPattern rest
  | [] => false

end BuildRunner.Shell
