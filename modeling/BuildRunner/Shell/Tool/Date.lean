import BuildRunner.Shell.Integer

/-!
# Dates

A date is a number of seconds since the start of the year 1970.  It is read from a row of digits, or
from a text that names a day and perhaps a time of the day.
-/

namespace BuildRunner.Shell

/-- The moment of a clock. -/
structure Moment where
  year : Nat
  month : Nat
  day : Nat
  hour : Nat := 0
  minute : Nat := 0
  second : Nat := 0
deriving DecidableEq, Repr, Inhabited

namespace Moment

def isLeap (year : Nat) : Bool := year % 4 = 0 && (year % 100 != 0 || year % 400 = 0)

def monthLength (year month : Nat) : Nat :=
  match month with
  | 2 => if isLeap year then 29 else 28
  | 4 | 6 | 9 | 11 => 30
  | _ => 31

def isValid (m : Moment) : Bool :=
  1 ≤ m.month && m.month ≤ 12 && 1 ≤ m.day && m.day ≤ monthLength m.year m.month && m.hour < 24 &&
    m.minute < 60 && m.second ≤ 60

/-- The number of days from the start of the year one to a day. -/
def dayNumber (m : Moment) : Int :=
  let y : Int := m.year - 1
  let before := 365 * y + y / 4 - y / 100 + y / 400
  let months : Nat := (List.range (m.month - 1)).foldl (fun n i => n + monthLength m.year (i + 1)) 0
  before + months + (m.day - 1 : Nat)

/-- The number of seconds from the start of the year 1970. -/
def seconds (m : Moment) : Int :=
  (m.dayNumber - dayNumber ⟨1970, 1, 1, 0, 0, 0⟩) * 86400 +
    (m.hour * 3600 + m.minute * 60 + m.second : Nat)

end Moment

/-- The year of two digits. -/
def fullYear (short : Nat) : Nat := if short < 69 then 2000 + short else 1900 + short

/-- A moment written as month, day, hour and minute, each of two digits, behind the year and perhaps
before a point and the second.  Without a year there is no answer in it. -/
def stampedMoment? (text : String) : Option (Option Moment) := do
  let chars := text.toList
  let digits := chars.takeWhile Char.isDigit
  let second ← match chars.drop digits.length with
    | [] => some 0
    | ['.', a, b] => if a.isDigit && b.isDigit then some (digitsIn 10 0 [a, b]).1 else none
    | _ => none
  let pair (i : Nat) : Nat := (digitsIn 10 0 ((digits.drop i).take 2)).1
  let make (year lead : Nat) : Moment :=
    { year, month := pair lead, day := pair (lead + 2), hour := pair (lead + 4),
      minute := pair (lead + 6), second }
  let checked (m : Moment) : Option Moment := if m.isValid then some m else none
  match digits.length with
  | 8 => (checked (make 2000 0)).map fun _ => none
  | 10 => (checked (make (fullYear (pair 0)) 2)).map some
  | 12 => (checked (make (pair 0 * 100 + pair 2) 4)).map some
  | _ => none

/-- The numbers of a text that a mark separates. -/
def numbersBetween (mark : Char) (text : List Char) : Option (List Nat) :=
  (text.splitOn mark).mapM fun part =>
    if part.isEmpty || !part.all Char.isDigit then none else some (digitsIn 10 0 part).1

/-- Whether a text names a time zone by one letter, perhaps with an hour behind it. -/
def isZone (text : List Char) : Bool :=
  match text.dropWhile fun c => c = '-' || c = '+' || isSpace c with
  | letter :: hour =>
    letter.isAlpha && letter.toLower != 'j' && hour.length ≤ 2 && hour.all Char.isDigit &&
      (digitsIn 10 0 hour).1 < 24
  | [] => false

/-- Whether a text is a time of the day without a mark between its hour and its minute. -/
def isTime (text : List Char) : Bool :=
  let n := (digitsIn 10 0 text).1
  !text.isEmpty && text.all Char.isDigit &&
    if text.length ≤ 2 then n < 24 else text.length ≤ 4 && n / 100 < 24 && n % 100 < 60

/-- The date that a text asks for, where it is not the present or a part of this day. -/
def dateOf? (text : String) : Option (Option Int) := do
  let chars := text.toList.dropWhile isSpace
  match chars with
  | [] => some none
  | '@' :: number =>
    let digits := number.takeWhile fun c => c != '.'
    match whole? decimal? digits with
    | some n => some (some n)
    | none => none
  | chars =>
    let isPresent := ["now", "today"].contains (String.ofList chars)
    if isPresent || isZone chars || isTime chars then some none
    else
      let day := chars.takeWhile fun c => c.isDigit || c = '-'
      let rest := (chars.drop day.length).dropWhile fun c => isSpace c || c = 'T'
      let clock := rest.takeWhile fun c => c.isDigit || c = ':'
      let zone := (rest.drop clock.length).dropWhile isSpace
      if !(["", "Z", "UTC", "GMT"].contains (String.ofList zone)) then none
      else
        let clock := if clock.isEmpty then some [0, 0] else numbersBetween ':' clock
        match numbersBetween '-' day, clock with
        | some [year, month, day], some (hour :: minute :: rest) =>
          let m : Moment := { year, month, day, hour, minute, second := rest.headD 0 }
          if m.isValid && rest.length ≤ 1 then some (some m.seconds) else none
        | _, _ => none

end BuildRunner.Shell
