import RainMeta.Text

/-!
# Tags

* `Yaml.Tag`: the tags that a value may have.
* `Tag.ofUri`: the tag that a resolved name denotes.
* `Tag.ofPlain`: the tag that the text of a plain scalar implies: a null, a truth value, an
  integer, a floating point number, a moment, one of the two marks of mappings, an indicator of
  the language, else a text.
-/

namespace RainMeta.Yaml

/-- The tags of nodes. -/
inductive Tag
  | null | bool | int | float | binary | timestamp | text
  | sequence | mapping | set | orderedMapping | pairs
  /-- The key whose value is merged into a mapping. -/
  | merge
  /-- The key whose value stands for a mapping. -/
  | value
  /-- Any other name. -/
  | other
  deriving DecidableEq

namespace Tag

/-- The common beginning of the names of all tags here. -/
def stem : Text := "tag:yaml.org,2002:"

/-- The names of tags, after their common beginning. -/
def names : List (String × Tag) :=
  [("null", null), ("bool", bool), ("int", int), ("float", float), ("binary", binary),
   ("timestamp", timestamp), ("str", text), ("seq", sequence), ("map", mapping), ("set", set),
   ("omap", orderedMapping), ("pairs", pairs), ("merge", merge), ("value", value)]

/-- The tag that a name denotes. -/
def ofUri (uri : Text) : Tag :=
  match names.find? fun e => uri == stem ++ Text.ofString e.1 with
  | some e => e.2
  | none => other

/-! ### Patterns of plain scalars -/

/-- A pattern reads from the start of a text and gives what is left of it. -/
abbrev Pattern := Text → Option Text

namespace Pattern

/-- Exactly one code point of a class. -/
def one (p : CodePoint → Bool) : Pattern
  | [] => none
  | c :: rest => if p c then some rest else none

/-- All code points of a class that stand here. -/
def many (p : CodePoint → Bool) : Pattern := fun t => some (t.dropWhile p)

/-- At least one code point of a class, and all that follow. -/
def some (p : CodePoint → Bool) : Pattern := fun t => (one p t).map (·.dropWhile p)

/-- The characters of a string. -/
def exactly (s : String) : Pattern := fun t =>
  if t.startsWith s then .some (t.drop s.length) else none

/-- One after another. -/
def seq (patterns : List Pattern) : Pattern := fun t =>
  patterns.foldlM (fun rest p => p rest) t

/-- The pattern if it fits, else nothing. -/
def optional (p : Pattern) : Pattern := fun t => .some ((p t).getD t)

/-- Whether some pattern takes the whole text. -/
def anyTakesAll (patterns : List Pattern) (t : Text) : Bool :=
  patterns.any fun p => p t == .some []

/-- A sign, if there is one. -/
def sign : Pattern := optional (one (CodePoint.isOneOf "+-"))

/-- Digits and low lines, a digit first. -/
def digits : Pattern := seq [one CodePoint.isDigit, many fun c => c.isDigit || c.isOneOf "_"]

/-- Groups of one or two digits below sixty, each after a colon, at least one. -/
def sixties : Pattern := fun t =>
  match go t (t.length + 1) with
  | rest => if rest.length < t.length then .some rest else none
where
  /-- As many groups as stand here. -/
  go (t : Text) : Nat → Text
    | 0 => t
    | fuel + 1 =>
      let two := seq [exactly ":", one (CodePoint.isIn '0' '5'), one CodePoint.isDigit]
      let single := seq [exactly ":", one CodePoint.isDigit]
      match (two t).orElse fun _ => single t with
      | .some rest => go rest fuel
      | none => t

/-- The patterns of floating point numbers. -/
def floats : List Pattern :=
  let exponent := optional (seq [one (CodePoint.isOneOf "eE"), one (CodePoint.isOneOf "+-"),
    some CodePoint.isDigit])
  let places := many fun c => c.isDigit || c.isOneOf "_"
  let dot := exactly "."
  [seq [sign, digits, dot, places, exponent],
   seq [dot, digits, exponent],
   seq [sign, digits, sixties, dot, places],
   seq [sign, exactly ".inf"], seq [sign, exactly ".Inf"], seq [sign, exactly ".INF"],
   exactly ".nan", exactly ".NaN", exactly ".NAN"]

/-- The patterns of integers. -/
def integers : List Pattern :=
  let nonzero := seq [one (CodePoint.isIn '1' '9'), many fun c => c.isDigit || c.isOneOf "_"]
  [seq [sign, exactly "0b", some (CodePoint.isOneOf "01_")],
   seq [sign, exactly "0", some (CodePoint.isOneOf "01234567_")],
   seq [sign, exactly "0"],
   seq [sign, nonzero],
   seq [sign, exactly "0x", some fun c => c.isHexDigit || c.isOneOf "_"],
   seq [sign, nonzero, sixties]]

/-- The patterns of moments. -/
def moments : List Pattern :=
  let digit := one CodePoint.isDigit
  let oneOrTwo := seq [digit, optional digit]
  let two := seq [digit, digit]
  let day := seq [two, two, exactly "-", two, exactly "-", two]
  let looseDay := seq [two, two, exactly "-", oneOrTwo, exactly "-", oneOrTwo]
  let blanks := fun c : CodePoint => c.isOneOf " \t"
  let time := seq [oneOrTwo, exactly ":", two, exactly ":", two,
    optional (seq [exactly ".", many CodePoint.isDigit])]
  let offset := seq [one (CodePoint.isOneOf "+-"), oneOrTwo, optional (seq [exactly ":", two])]
  let zone (z : Pattern) := optional (seq [many blanks, z])
  let starts := [one (CodePoint.isOneOf "Tt"), some blanks]
  day :: starts.flatMap fun start =>
    [seq [looseDay, start, time, zone (exactly "Z")], seq [looseDay, start, time, zone offset]]

end Pattern

/-- The spellings of truth values. -/
def truthWords : List String :=
  ["yes", "Yes", "YES", "no", "No", "NO", "true", "True", "TRUE", "false", "False", "FALSE",
   "on", "On", "ON", "off", "Off", "OFF"]

/-- The spellings of null. -/
def nullWords : List String := ["~", "null", "Null", "NULL"]

/-- The indicators of the language that have a tag of their own, though without a meaning. No plain
scalar starts with one, but a scalar between quotes may stand for a plain one. -/
def indicatorWords : List String := ["!", "&", "*"]

/-- The tag that the text of a plain scalar implies. A line feed at its end does not count. -/
def ofPlain (t : Text) : Tag :=
  let t := t.withoutLineFeed
  let isWord (words : List String) : Bool := words.any fun w => t == Text.ofString w
  if t.isEmpty then null
  else if isWord truthWords then bool
  else if Pattern.anyTakesAll Pattern.floats t then float
  else if Pattern.anyTakesAll Pattern.integers t then int
  else if isWord ["<<"] then merge
  else if isWord nullWords then null
  else if Pattern.anyTakesAll Pattern.moments t then timestamp
  else if isWord ["="] then value
  else if isWord indicatorWords then other
  else text

end Tag

end RainMeta.Yaml
