import RainMeta.Document
import RainMeta.Yaml.Number
import RainMeta.Yaml.Tag

/-!
# Values of scalars

* `Tag.valueOf`: the value that a text has under a tag.
* `readTimestamp`, `readBase64`: moments and byte strings.
-/

namespace RainMeta.Yaml

/-! ### Dates and moments -/

/-- Reading from a text, which may fail. -/
abbrev Reading := StateT Text Option

namespace Reading

/-- A number of at least `least` and at most `most` digits. -/
def number (least most : Nat) : Reading Nat := do
  let t ← get
  let digits := (t.take most).takeWhile CodePoint.isDigit
  guard (least ≤ digits.length)
  set (t.drop digits.length)
  return Text.readNat 10 digits

/-- Whether one of the characters of a string stands here; passes over it. -/
def accept (marks : String) : Reading Bool := do
  match ← get with
  | c :: rest =>
    if c.isOneOf marks then
      set rest
      return true
    else return false
  | [] => return false

/-- One of the characters of a string. -/
def demand (marks : String) : Reading Unit := do
  guard (← accept marks)

/-- Passes over spaces and tabs. -/
def skipBlanks : Reading Unit :=
  modify fun t => t.dropWhile fun c => c.isOneOf " \t"

/-- The digits after a point as a number of millionths, if there is a point. -/
def fraction : Reading Nat := do
  if ← accept "." then
    let digits := (← get).takeWhile CodePoint.isDigit
    set ((← get).drop digits.length)
    let six := digits.take 6
    return Text.readNat 10 six * Nat.pow 10 (6 - six.length)
  else return 0

/-- An offset from universal time in seconds, if there is one. -/
def offset : Reading (Option Int) := do
  if (← get).isEmpty then return none
  skipBlanks
  if ← accept "Z" then return some 0
  let negative := (← get).startsWith "-"
  demand "+-"
  let hours ← number 1 2
  let minutes ← if ← accept ":" then number 2 2 else pure 0
  let seconds : Int := hours * 3600 + minutes * 60
  return some (if negative then -seconds else seconds)

/-- A date, or a date with a time of day. -/
def timestamp : Reading (Except CalendarError Value) := do
  let year ← number 4 4
  demand "-"
  let month ← number 1 2
  demand "-"
  let day ← number 1 2
  if (← get).isEmpty then return (Date.ofNumbers year month day).map Value.date
  unless ← accept "Tt" do
    demand " \t"
    skipBlanks
  let hour ← number 1 2
  demand ":"
  let minute ← number 2 2
  demand ":"
  let second ← number 2 2
  let micro ← fraction
  let zone ← offset
  guard (← get).isEmpty
  return (Moment.ofNumbers year month day hour minute second micro zone).map Value.moment

end Reading

/-- A date or a moment. A line feed at the end does not count. -/
def readTimestamp (t : Text) : Except ValueDefect Value :=
  match Reading.timestamp.run (t.withoutLineFeed) with
  | none => .error .timestamp
  | some (.error e, _) => .error (.calendar e)
  | some (.ok v, _) => .ok v

/-! ### Byte strings -/

/-- The value of a letter of the alphabet for byte strings. -/
def base64Value? (c : CodePoint) : Option Nat :=
  if c.isIn 'A' 'Z' then some (c.val - 65)
  else if c.isIn 'a' 'z' then some (c.val - 71)
  else if c.isIn '0' '9' then some (c.val + 4)
  else if c.isOneOf "+" then some 62
  else if c.isOneOf "/" then some 63
  else none

/-- Reads on in the letters of a byte string; `place` counts the letters of the group that is
open, `left` is what their bits leave over, `marks` the equals signs before. What is no letter
does not count. Enough equals signs end the text; an open group elsewhere is an error. -/
def base64From (out : Bytes) (place left marks : Nat) : Text → Option Bytes
  | [] => if place = 0 then some out.reverse else none
  | c :: rest =>
    if c.isOneOf "=" then
      if 2 ≤ place then
        if 4 ≤ place + marks + 1 then some out.reverse
        else base64From out place left (marks + 1) rest
      else base64From out place left marks rest
    else match base64Value? c with
      | none => base64From out place left marks rest
      | some n =>
        match place with
        | 0 => base64From out 1 n 0 rest
        | 1 => base64From ((left * 4 + n / 16).toUInt8 :: out) 2 (n % 16) 0 rest
        | 2 => base64From ((left * 16 + n / 4).toUInt8 :: out) 3 (n % 4) 0 rest
        | _ => base64From ((left * 64 + n).toUInt8 :: out) 0 0 0 rest

/-- The byte string that letters, each for six bits, spell. -/
def readBase64 (t : Text) : Option Bytes :=
  if t.all fun c => c.val < 128 then base64From [] 0 0 0 t else none

/-! ### Tags -/

/-- The truth values of words. -/
def truths : List (String × Bool) :=
  [("yes", true), ("no", false), ("true", true), ("false", false), ("on", true), ("off", false)]

/-- A truth value in letters of either case. -/
def readTruth (t : Text) : Except ValueDefect Bool :=
  match truths.find? fun e => t.toLower == Text.ofString e.1 with
  | some e => .ok e.2
  | none => .error (.truth t.toLower)

/-- A value, or why there is none. -/
def orDefect {α : Type} (x : Except ValueDefect α) : Except Error α :=
  x.mapError Error.value

/-- The value that a text has under a tag. Tags of collections and tags without a meaning give
no value to a text. -/
def Tag.valueOf (tag : Tag) (t : Text) : Except Error Value :=
  match tag with
  | .null => .ok .null
  | .text => .ok (.text t)
  | .bool => orDefect ((readTruth t).map Value.bool)
  | .int => orDefect ((readInteger t).map Value.int)
  | .float => orDefect ((readFloat t).map Value.float)
  | .timestamp => orDefect (readTimestamp t)
  | .binary =>
    match readBase64 t with
    | some b => .ok (.bytes b)
    | none => .error .malformed
  | .sequence | .mapping | .set | .orderedMapping | .pairs | .merge | .value | .other =>
    .error .malformed

end RainMeta.Yaml
