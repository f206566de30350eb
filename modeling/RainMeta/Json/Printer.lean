import RainMeta.Document
import RainMeta.Number.Shortest

/-!
# Writing JSON

One line in ASCII: everything else is written as an escape, and the keys of an object are
sorted.

* `Json.print`: the text of a value. Values that JSON does not know are written as `null`.
-/

namespace RainMeta.Json

/-- The escape for a unit of sixteen bits. -/
def unitEscape (n : Nat) : Text :=
  "\\u" ++ Text.hexPadded 4 n

/-- How a code point is written inside a string. -/
def escape (c : CodePoint) : Text :=
  let n := c.val
  if n = 34 then "\\\""
  else if n = 92 then "\\\\"
  else if n = 10 then "\\n"
  else if n = 13 then "\\r"
  else if n = 9 then "\\t"
  else if n = 12 then "\\f"
  else if n = 8 then "\\b"
  else if 32 ≤ n && n < 127 then [c]
  else if n < 0x10000 then unitEscape n
  else unitEscape (0xD800 + (n - 0x10000) / 0x400) ++ unitEscape (0xDC00 + (n - 0x10000) % 0x400)

/-- A string. -/
def printString (t : Text) : Text :=
  "\"" ++ t.flatMap escape ++ "\""

mutual

/-- The text of a value. -/
def print : Value → Text
  | .bool b => if b then "true" else "false"
  | .int i => Text.ofInt i
  | .float x => x.text
  | .text t => printString t
  | .list items => "[" ++ Text.join ", " (printItems items) ++ "]"
  | .mapping entries =>
    let sorted := (printEntries entries).mergeSort fun e f => Text.le e.1 f.1
    "\x7b" ++ Text.join ", " (sorted.map fun e => printString e.1 ++ ": " ++ e.2) ++ "\x7d"
  | _ => "null"

/-- The text of each of the values. -/
def printItems : List Value → List Text
  | [] => []
  | v :: rest => print v :: printItems rest

/-- The entries with text keys, and the texts of their values. -/
def printEntries : List (Value × Value) → List (Text × Text)
  | [] => []
  | (.text k, v) :: rest => (k, print v) :: printEntries rest
  | _ :: rest => printEntries rest

end

end RainMeta.Json
