import RainMeta.Hex
import RainMeta.Run

/-!
# Logs

The journal of a run is shown as lines, each with a level, the part of the program that speaks,
and a message. Lines below a threshold are left out.

* `LogLevel`: the levels; `LogLevel.threshold` reads the name of one.
* `Event.line`: how an event is shown.
* `Journal.lines`: the lines of a journal from a threshold on.
-/

namespace RainMeta

/-! ### Levels -/

/-- How much a line matters. -/
inductive LogLevel
  | debug | info | warning | error | critical
  deriving DecidableEq

/-- A name that stands for something that is no level. -/
inductive LogLevelError
  /-- The form of a line. -/
  | lineForm
  /-- The styles of such forms. -/
  | styles
  deriving DecidableEq

namespace LogLevel

/-- The number of a level. -/
def number : LogLevel → Nat
  | debug => 10
  | info => 20
  | warning => 30
  | error => 40
  | critical => 50

/-- The name of a level. -/
def name : LogLevel → Text
  | debug => "DEBUG"
  | info => "INFO"
  | warning => "WARNING"
  | error => "ERROR"
  | critical => "CRITICAL"

/-- The capitals for a code point, as far as they occur in names of levels. -/
def capitals (c : CodePoint) : Text :=
  if c.isIn 'a' 'z' then [.ofNat (c.val - 32)]
  else if c.val = 0x131 then "I"
  else if c.val = 0x17F then "S"
  else if c.val = 0xFB05 || c.val = 0xFB06 then "ST"
  else [c]

/-- The names that stand for numbers, in capitals. -/
def thresholds : List (String × Nat) :=
  [("DEBUG", 10), ("INFO", 20), ("WARN", 30), ("WARNING", 30), ("ERROR", 40), ("CRITICAL", 50),
   ("FATAL", 50), ("NOTSET", 0)]

/-- The number from which on lines are shown: that of the level with a name in letters of either
case, else that of a warning. Two names are taken by other things. -/
def threshold (t : Text) : Except LogLevelError Nat :=
  let t := t.flatMap capitals
  if t = "BASIC_FORMAT" then .error .lineForm
  else if t = "_STYLES" then .error .styles
  else .ok (((thresholds.find? fun e => t == Text.ofString e.1).map Prod.snd).getD warning.number)

end LogLevel

/-- The words for it. -/
def LogLevelError.message : LogLevelError → Text
  | .lineForm => "Unknown level: '%(levelname)s:%(name)s:%(message)s'"
  | .styles => "Level not an integer or a valid string: \x7b'%': (<class 'logging.PercentStyle'>, "
      ++ "'%(levelname)s:%(name)s:%(message)s'), '\x7b': (<class 'logging.StrFormatStyle'>, "
      ++ "'\x7blevelname\x7d:\x7bname\x7d:\x7bmessage\x7d'), '$': (<class "
      ++ "'logging.StringTemplateStyle'>, '$\x7blevelname\x7d:$\x7bname\x7d:$\x7bmessage\x7d')\x7d"

/-! ### Lines -/

namespace Event

/-- How much an event matters. -/
def level : Event → LogLevel
  | .skipped _ | .dotrainDropped _ | .deployerReplaced _ => .warning
  | .scanned .. | .metasLoaded _ | .deployerAssembled .. => .debug
  | .buildStarted .. | .buildDone .. => .info

/-- The part of the program that speaks of an event. -/
def speaker : Event → Text
  | .skipped _ => "dotrain_workspace.rainconfig.errors"
  | .scanned .. => "dotrain_workspace.rainconfig.scanner"
  | .metasLoaded _ => "dotrain_workspace.rainconfig.meta_loader"
  | .deployerAssembled .. => "dotrain_workspace.rainconfig.deployer"
  | .dotrainDropped _ | .buildStarted .. | .buildDone .. => "dotrain_workspace.rainconfig.builder"
  | .deployerReplaced _ => "dotrain_workspace.meta_store.store"

/-- Names and values with equals signs between, after some words. -/
def wording (words : Text) (fields : List (Text × Text)) : Text :=
  Text.join " " (words :: fields.map fun f => f.1 ++ "=" ++ f.2)

/-- What is said about an event. -/
def message : Event → Text
  | .skipped item =>
    wording "rainconfig item skipped"
      [("stage", item.stage), ("item", item.item), ("error", item.error)]
  | .scanned root files =>
    wording "rainconfig scan" [("root", root.text), ("files", Text.ofNat files)]
  | .metasLoaded count => "rainconfig metas loaded=" ++ Text.ofNat count
  | .deployerAssembled key hash =>
    wording "rainconfig deployer assembled"
      [("key", key), ("bytecode_meta_hash", Hex.encode hash)]
  | .dotrainDropped path =>
    wording "rainconfig dotrain skipped"
      [("path", Failure.shownPath path), ("reason", "uri_not_utf8")]
  | .deployerReplaced hash =>
    wording "meta store deployer replaced" [("bytecode_meta_hash", Hex.encode hash)]
  | .buildStarted policy roots metas deployers =>
    wording "rainconfig build start"
      [("policy", policy.name), ("include", Text.ofNat roots), ("meta", Text.ofNat metas),
       ("deployers", Text.ofNat deployers)]
  | .buildDone policy subgraphs metas dotrains deployers left =>
    wording "rainconfig build done"
      [("policy", policy.name), ("subgraphs", Text.ofNat subgraphs), ("metas", Text.ofNat metas),
       ("dotrains", Text.ofNat dotrains), ("deployers", Text.ofNat deployers),
       ("skipped", Text.ofNat left)]

/-- How an event is shown. -/
def line (e : Event) : Text :=
  "[" ++ e.level.name ++ "] " ++ e.speaker ++ ": " ++ e.message ++ "\n"

end Event

/-- The lines of a journal from a threshold on. -/
def Journal.lines (j : Journal) (threshold : Nat) : List Text :=
  (j.filter fun e => threshold ≤ e.level.number).map Event.line

end RainMeta
