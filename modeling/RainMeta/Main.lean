import RainMeta.CommandLine
import RainMeta.Workspace

/-!
# The program

Reads the description of a workspace from the standard input stream, runs the command line on it,
and prints what it comes to.
-/

namespace RainMeta.Main

/-- The string of a text; lone surrogates are spelled out. -/
def shown (t : Text) : String :=
  let spelled := t.flatMap fun c => if c.isSurrogate then Json.unitEscape c.val else [c]
  String.ofList (spelled.map fun c => Char.ofNat c.val)

/-- Everything that a stream still holds. -/
partial def readAll (stream : IO.FS.Stream) (lines : List String) : IO String := do
  let line ← stream.getLine
  if line.isEmpty then return String.join lines.reverse
  readAll stream (line :: lines)

/-- Prints an outcome and gives its exit code. -/
def report (o : CommandLine.Outcome) : IO UInt32 := do
  (← IO.getStdout).putStr (shown o.stdout)
  (← IO.getStderr).putStr (shown o.stderr)
  return o.exit.toUInt32

/-- Prints why there is no outcome. -/
def fail (message : Text) : IO UInt32 := do
  (← IO.getStderr).putStr (shown (message ++ "\n"))
  return 1

end RainMeta.Main

open RainMeta in
/-- Runs the command line on the workspace that the input describes. -/
def main (arguments : List String) : IO UInt32 := do
  let description ← Main.readAll (← IO.getStdin) []
  match Json.read (Text.ofString description) with
  | .error _ => Main.fail "the input describes no workspace"
  | .ok v =>
    let w := Workspace.ofDocument v
    match CommandLine.run w.tree w.environment true (arguments.map Text.ofString) with
    | .ok outcome => Main.report outcome
    | .error cause => Main.fail cause.message
