import BuildRunner.Shell.Image
import BuildRunner.Shell.Tool.Concatenate
import BuildRunner.Shell.Tool.Directory
import BuildRunner.Shell.Tool.Output
import BuildRunner.Shell.Tool.Remove
import BuildRunner.Shell.Tool.Sleep
import BuildRunner.Shell.Tool.Touch

/-!
# The tools by their names
-/

namespace BuildRunner.Shell

/-- What a tool does with its arguments in an environment. -/
abbrev ToolAction := (environment : List (String × String)) → (arguments : List String) → Tool Unit

/-- The tools other than the shell. -/
def tools : List (String × ToolAction) :=
  let optional (tool : Bool → List String → Tool Unit) : ToolAction :=
    fun environment => tool (mixesOptions environment)
  [("cat", optional Tool.concatenate),
    ("echo", fun _ => Tool.echo),
    ("false", fun _ _ => Tool.finish 1),
    ("printf", fun _ => Tool.printf),
    ("pwd", fun environment => Tool.printDirectory (mixesOptions environment) environment),
    ("rm", optional Tool.remove),
    ("sleep", optional Tool.sleep),
    ("touch", optional Tool.touch),
    ("true", fun _ _ => Tool.finish 0)]

/-- The dialogue of a call of a tool; there is none for other names. -/
def toolDialogue? (call : Call) (environment : List (String × String)) : Option (Dialogue Nat) :=
  (tools.lookup call.tool).map fun action =>
    Tool.dialogue (call.arguments.headD "") (action environment (call.arguments.drop 1))

end BuildRunner.Shell
