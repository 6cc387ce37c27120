import BuildRunner.Console.Width

/-!
# Console layout

The console does not pass on the control characters that would ring or move the cursor, and it
expands a tab to the next multiple of eight columns of its line.
-/

namespace BuildRunner.Console

/-- Bell, backspace, vertical tab, form feed and carriage return are not passed on. -/
def isDropped (c : Char) : Bool :=
  c == '\x07' || c == '\x08' || c == '\x0b' || c == '\x0c' || c == '\r'

/-- The number of columns between two tab stops. -/
def tabSize : Nat := 8

/-- The text with its tabs expanded; the line so far takes `column` columns. -/
def expandTabs (column : Nat) : List Char → List Char
  | [] => []
  | '\t' :: r =>
    let width := tabSize - column % tabSize
    List.replicate width ' ' ++ expandTabs (column + width) r
  | c :: r => c :: expandTabs (if c = '\n' then 0 else column + columns c) r

/-- What the console shows of a text. -/
def shown (s : String) : String := String.ofList (expandTabs 0 (s.toList.filter (!isDropped ·)))

end BuildRunner.Console
