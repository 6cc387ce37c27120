import BuildRunner.Text.Blank

/-!
# Console styles

A style is named by words: each sets an attribute of the text, and `not` before an attribute clears
it.  Two names are the same style when their canonical forms agree: the attributes in a fixed
order, or, for a name with other words in it such as a colour, the name in lower case.
-/

namespace BuildRunner.Console

/-- The attributes of a text, in their canonical order. -/
inductive Attribute
  | bold | dim | italic | underline | blink | blink2 | reverse | conceal | strike | underline2
  | frame | encircle | overline
deriving DecidableEq, Repr

namespace Attribute

def all : List Attribute :=
  [.bold, .dim, .italic, .underline, .blink, .blink2, .reverse, .conceal, .strike, .underline2,
    .frame, .encircle, .overline]

def name : Attribute → String
  | .bold => "bold"
  | .dim => "dim"
  | .italic => "italic"
  | .underline => "underline"
  | .blink => "blink"
  | .blink2 => "blink2"
  | .reverse => "reverse"
  | .conceal => "conceal"
  | .strike => "strike"
  | .underline2 => "underline2"
  | .frame => "frame"
  | .encircle => "encircle"
  | .overline => "overline"

/-- The short name of an attribute that has one. -/
def shortName? : Attribute → Option String
  | .bold => some "b"
  | .dim => some "d"
  | .italic => some "i"
  | .underline => some "u"
  | .reverse => some "r"
  | .conceal => some "c"
  | .strike => some "s"
  | .underline2 => some "uu"
  | .overline => some "o"
  | _ => none

def ofWord? (word : String) : Option Attribute :=
  all.find? fun a => a.name == word || a.shortName? == some word

end Attribute

/-- The words between the blanks of a text. -/
def words (s : List Char) : List (List Char) :=
  (s.splitOnP Text.isBlank).filter (· ≠ [])

/-- The attributes that the words of a style set or clear, a later one first; none where a word is
no attribute. -/
def attributesOf? : List (List Char) → Option (List (Attribute × Bool))
  | [] => some []
  | word :: rest =>
    let word := word.map Char.toLower
    if word = "not".toList then
      match rest with
      | [] => none
      | cleared :: rest => do
        let a ← Attribute.ofWord? (String.ofList cleared)
        return (← attributesOf? rest) ++ [(a, false)]
    else do
      let a ← Attribute.ofWord? (String.ofList word)
      return (← attributesOf? rest) ++ [(a, true)]

/-- The canonical form of the name of a style. -/
def canonicalStyle (style : List Char) : List Char :=
  match attributesOf? (words style) with
  | none => (Text.trim style).map Char.toLower
  | some set =>
    let parts := Attribute.all.filterMap fun a =>
      (set.lookup a).map fun on => if on then a.name.toList else "not ".toList ++ a.name.toList
    if parts.isEmpty then "none".toList else [' '].intercalate parts

end BuildRunner.Console
