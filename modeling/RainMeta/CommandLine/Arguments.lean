import RainMeta.Text.Decimal
import RainMeta.Text.Quoted

/-!
# Arguments of the command line

The command `build` takes switches, some of them with a value. A switch may be shortened as long
as one switch alone is meant, and its value follows an equals sign or is the next argument.

* `Word.ofArguments`: what each argument is, before any of them takes effect.
* `Settings.read`: the settings that the arguments of `build` ask for.
* `Invocation.read`: what a whole command line asks for.
-/

namespace RainMeta.CommandLine

/-! ### Switches -/

/-- The switches. -/
inductive Switch
  | help | config | force | logLevel | logPath
  deriving DecidableEq

namespace Switch

/-- The long name of a switch. -/
def name : Switch → Text
  | help => "--help"
  | config => "--config"
  | force => "--force"
  | logLevel => "--log-level"
  | logPath => "--log-path"

/-- All names of a switch. -/
def names : Switch → List Text
  | help => ["-h", help.name]
  | s => [s.name]

/-- The switches of the program itself. -/
def ofProgram : List Switch := [help]

/-- The switches of the command `build`. -/
def ofBuild : List Switch := [help, config, force, logLevel, logPath]

end Switch

/-! ### Words -/

/-- What an argument is. -/
inductive Word
  /-- A value, or something to work on. -/
  | operand
  /-- Two hyphens: everything after them is an operand. -/
  | mark
  /-- A switch by its long name, with the value after an equals sign. -/
  | switch (s : Switch) (value : Option Text)
  /-- The short name of the switch for help, with what follows it. -/
  | letters (more : Text)
  /-- It looks like a switch, but there is none of that name. -/
  | unknown
  deriving DecidableEq

namespace Word

/-- Splits a text at the first equals sign. -/
def splitValue (t : Text) : Text × Option Text :=
  match Text.cutAt "=" t with
  | some (name, value) => (name, some value)
  | none => (t, none)

/-- Whether a text is a hyphen and a number. A line feed at the end does not count. -/
def isNegativeNumber (t : Text) : Bool :=
  let isDigit (c : CodePoint) : Bool := c.decimal?.isSome
  match t.withoutLineFeed with
  | _ :: rest =>
    let whole := rest.takeWhile isDigit
    match rest.drop whole.length with
    | [] => !whole.isEmpty
    | dot :: places => dot.val == 46 && !places.isEmpty && places.all isDigit
  | [] => false

/-- The switches whose long names begin with a text. -/
def meanings (switches : List Switch) (start : Text) : List Switch :=
  switches.filter fun s => start.isPrefixOf s.name

/-- The words about a shortened name that means several switches. -/
def ambiguous (t : Text) (found : List Switch) : Text :=
  "ambiguous option: " ++ t ++ " could match " ++ Text.join ", " (found.map Switch.name)

/-- What an argument is that does not follow two hyphens. A name that is complete means its switch,
even if longer names begin with it. -/
def ofArgument (switches : List Switch) (t : Text) : Except Text Word :=
  let (name, value) := splitValue t
  if t.startsWith "--" then
    match switches.find? fun s => s.name == name with
    | some s => .ok (switch s value)
    | none => match meanings switches name with
      | [s] => .ok (switch s value)
      | [] => .ok (if t.contains (CodePoint.ofChar ' ') then operand else unknown)
      | found => .error (ambiguous t found)
  else if t.startsWith "-h" then .ok (letters (t.drop 2))
  else if !t.startsWith "-" || t.length = 1 || isNegativeNumber t
      || t.contains (CodePoint.ofChar ' ') then .ok operand
  else .ok unknown

/-- What each argument is. -/
def ofArguments (switches : List Switch) : List Text → Except Text (List (Text × Word))
  | [] => .ok []
  | t :: rest =>
    if t = "--" then .ok ((t, mark) :: rest.map (·, operand))
    else do
      let word ← ofArgument switches t
      return (t, word) :: (← ofArguments switches rest)

end Word

/-! ### Settings -/

/-- What a build is asked to do. -/
structure Settings where
  config : Text := "rainconfig.json"
  force : Bool := false
  logLevel : Text := "WARNING"
  logPath : Option Text := none

/-- What arguments come to. -/
inductive Reading (α : Type)
  | done (a : α)
  /-- An explanation is asked for. -/
  | help
  /-- The arguments do not fit. -/
  | refused (message : Text)

/-- The words about a switch. -/
def aboutSwitch (s : Switch) (words : Text) : Text :=
  "argument " ++ Text.join "/" s.names ++ ": " ++ words

/-- The words about a value of a switch that has none. -/
def valueIgnored (s : Switch) (value : Text) : Text :=
  aboutSwitch s ("ignored explicit argument " ++ value.quoted)

/-- Asks for an explanation, by the long name of the switch. -/
def readHelp {α : Type} : Option Text → Reading α
  | none => .help
  | some value => .refused (valueIgnored .help value)

/-- Asks for an explanation, by the short name of the switch. Letters after it are short names
too; the first one that is no name ends them, but a value is refused. -/
def readLetters {α : Type} : Text → Reading α
  | [] => .help
  | c :: rest =>
    if c = CodePoint.ofChar '=' then .refused (valueIgnored .help rest)
    else if c = CodePoint.ofChar '-' then .refused (valueIgnored .help (c :: rest))
    else if c = CodePoint.ofChar 'h' then readLetters rest
    else .help

namespace Settings

/-- The settings with the value of a switch. -/
def withValue (settings : Settings) (s : Switch) (value : Text) : Settings :=
  match s with
  | .config => { settings with config := value }
  | .logLevel => { settings with logLevel := value }
  | .logPath => { settings with logPath := some value }
  | .force | .help => settings

/-- Reads words one after another; `others` are the arguments that belong to no switch. -/
def readWords (settings : Settings) (others : List Text) :
    List (Text × Word) → Reading (Settings × List Text)
  | [] => .done (settings, others.reverse)
  | (t, .operand) :: rest | (t, .mark) :: rest | (t, .unknown) :: rest =>
    readWords settings (t :: others) rest
  | (_, .letters more) :: _ => readLetters more
  | (_, .switch .help value) :: _ => readHelp value
  | (_, .switch .force none) :: rest => readWords { settings with force := true } others rest
  | (_, .switch .force (some value)) :: _ => .refused (valueIgnored .force value)
  | (_, .switch s (some value)) :: rest => readWords (settings.withValue s value) others rest
  | (_, .switch s none) :: rest =>
    match rest with
    | (value, .operand) :: rest => readWords (settings.withValue s value) others rest
    | _ => .refused (aboutSwitch s "expected one argument")

/-- The settings that the arguments of `build` ask for, and the arguments that belong to no
switch. -/
def read (arguments : List Text) : Reading (Settings × List Text) :=
  match Word.ofArguments Switch.ofBuild arguments with
  | .error message => .refused message
  | .ok words => readWords {} [] words

end Settings

/-! ### Invocations -/

/-- What a command line asks for. -/
inductive Invocation
  | build (settings : Settings)
  | help
  /-- The command line does not fit; part of the program says so. -/
  | refused (program message : Text)

namespace Invocation

/-- The name of the program. -/
def program : Text := "dotrain-workspace"

/-- The only command. -/
def command : Text := "build"

/-- The words about arguments that nobody asked for. -/
def unrecognized (others : List Text) : Text :=
  "unrecognized arguments: " ++ Text.join " " others

/-- Reads the command and its arguments. -/
def readCommand (others : List Text) (name : Text) (arguments : List Text) : Invocation :=
  if name ≠ command then
    .refused program ("argument command: invalid choice: " ++ name.quoted ++ " (choose from "
      ++ command.quoted ++ ")")
  else match Settings.read arguments with
    | .help => .help
    | .refused message => .refused (program ++ " " ++ command) message
    | .done (settings, more) =>
      if (others ++ more).isEmpty then .build settings
      else .refused program (unrecognized (others ++ more))

/-- What an argument of the program itself asks for. -/
def ofReading (t : Text) : Reading Unit → Invocation
  | .help => .help
  | .refused message => .refused program message
  | .done () => .refused program (unrecognized [t])

/-- Reads words up to the command; `others` are the arguments before it. Two hyphens do not hide
the command, but are taken for it. -/
def readWords (others : List Text) : List (Text × Word) → Invocation
  | [] =>
    if others.isEmpty then .refused program "a command is required"
    else .refused program (unrecognized others)
  | (name, .operand) :: rest => readCommand others name (rest.map Prod.fst)
  | (t, .mark) :: rest =>
    if rest.isEmpty then .refused program (unrecognized (others ++ [t]))
    else readCommand others t (rest.map Prod.fst)
  | (t, .unknown) :: rest => readWords (others ++ [t]) rest
  | (t, .switch _ value) :: _ => ofReading t (readHelp value)
  | (t, .letters more) :: _ => ofReading t (readLetters more)

/-- Reads a whole command line. -/
def read (arguments : List Text) : Invocation :=
  match Word.ofArguments Switch.ofProgram arguments with
  | .error message => .refused program message
  | .ok words => readWords [] words

end Invocation

end RainMeta.CommandLine
