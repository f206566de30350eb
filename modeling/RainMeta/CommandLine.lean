import RainMeta.Build
import RainMeta.CommandLine.Arguments
import RainMeta.CommandLine.Log
import RainMeta.Config.Load
import RainMeta.FileTree.Change
import RainMeta.Json.Printer
import RainMeta.Platform.Usual

/-!
# The command line

The command `build` loads a configuration, builds its store, and prints a report. Under `--force`
items that fail are skipped. What happens is logged to the standard error stream and, if a
path is given, to the end of a file.

* `CommandLine.run`: what a command line comes to.
* `CommandLine.Outcome`: the exit code, what is printed, and the files afterwards.
-/

namespace RainMeta

namespace CommandLine

/-- What a command line comes to. -/
structure Outcome where
  exit : Nat
  stdout : Text := []
  stderr : Text := []
  tree : FileTree

/-- The text of a file afterwards, if there is one. -/
def Outcome.fileText? (o : Outcome) (path : Text) : Option Text :=
  match o.tree.readFile path with
  | .ok content => some (Utf8.decodeEscaped content)
  | .error _ => none

/-- What ends the program without an exit code. -/
inductive Abort
  | logLevel (cause : LogLevelError)
  | logFile (path : Path) (cause : AccessError)
  | config (cause : ConfigCrash)
  | build (cause : Crash)

/-- The words for it. -/
def Abort.message : Abort → Text
  | .logLevel cause => cause.message
  | .logFile path cause => cause.message path.text
  | .config cause => cause.message
  | .build cause => cause.message

/-- Where log lines go: from a threshold on to the standard error stream, and to a file. -/
structure LogSetup where
  threshold : Nat
  file : Option Path

/-- Makes the log file and the directories above it. -/
def openLog (tree : FileTree) (path : Path) : Except Abort FileTree := do
  let tree ← (tree.makeDirectories path.parent).mapError fun (cause, p) => .logFile p cause
  (tree.touch path).mapError (.logFile path)

/-- Sets logging up. An empty path is none. -/
def setUpLog (tree : FileTree) (settings : Settings) : Except Abort (LogSetup × FileTree) := do
  let file := (settings.logPath.filter fun t => !t.isEmpty).map Path.ofText
  let tree ← match file with
    | some path => openLog tree path
    | none => pure tree
  let threshold ← (LogLevel.threshold settings.logLevel).mapError .logLevel
  return ({ threshold, file }, tree)

/-- The tree with log lines at the end of a file. A line that no encoding can carry is left
out. -/
def writeLog (tree : FileTree) (file : Option Path) (lines : List Text) : FileTree :=
  match file with
  | none => tree
  | some path => tree.append path.text (lines.filterMap fun l => (Utf8.encode l).toOption).flatten

/-- Ends with a message on the standard error stream, after the log. -/
def failed (tree : FileTree) (log : List Text) (message : Text) : Outcome :=
  { exit := 1, stderr := log.flatten ++ message ++ "\n", tree }

variable [Platform]

/-- Loads the configuration and builds its store. Without a log nothing is logged. -/
def build (tree : FileTree) (env : Environment) (settings : Settings) (log : Option LogSetup) :
    Except Abort Outcome := do
  let policy : Policy := if settings.force then .lenient else .strict
  match Config.load tree env { source := .packaged } (Path.ofText settings.config) with
  | .error (.problem source cause) => return failed tree [] (cause.message source)
  | .error (.crash cause) => throw (.config cause)
  | .ok config =>
    let (result, journal) := (Build.build tree policy config).result
    let lines := match log with
      | some setup => journal.lines setup.threshold
      | none => []
    let after := writeLog tree (log.bind LogSetup.file) lines
    match result with
    | .ok (_, report) =>
      return {
        exit := 0
        stdout := Json.print report.toValue ++ "\n"
        stderr := lines.flatten
        tree := after }
    | .error (.failure cause) => return failed after lines cause.message
    | .error (.crash cause) => throw (.build cause)

/-- The one line of explanation. -/
def usage : Text :=
  "usage: dotrain-workspace build [-h] [--config CONFIG] [--force] [--log-level LOG_LEVEL] "
    ++ "[--log-path LOG_PATH]\n"

/-- Runs a command line. If `logging` is off, someone else takes care of logs, and nothing is set
up for them. -/
def run (tree : FileTree) (env : Environment) (logging : Bool) (arguments : List Text) :
    Except Abort Outcome := do
  match Invocation.read arguments with
  | .help => return { exit := 0, stdout := usage, tree }
  | .refused program message =>
    return { exit := 2, stderr := program ++ ": error: " ++ message ++ "\n", tree }
  | .build settings =>
    if logging then
      let (setup, tree) ← setUpLog tree settings
      build tree env settings (some setup)
    else build tree env settings none

end CommandLine

end RainMeta
