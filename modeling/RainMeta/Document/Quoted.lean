import RainMeta.Document
import RainMeta.Number.DigitLimit
import RainMeta.Number.Shortest
import RainMeta.Text.Quoted

/-!
# Values inside messages

* `Value.quoted`: a value on one line, with brackets around lists and braces around sets and
  mappings. It fails for an integer of too many digits.
* `Value.plain`: the same, but a text, date or moment stands as it is.
-/

namespace RainMeta.Value

mutual

/-- A value on one line. -/
def quoted : Value → Except DigitLimit Text
  | .null => .ok "None"
  | .bool b => .ok (if b then "True" else "False")
  | .int i => Text.ofInt? i
  | .float x => .ok x.text
  | .text t => .ok t.quoted
  | .bytes b => .ok (Bytes.quoted b)
  | .date d => .ok d.quoted
  | .moment m => .ok m.quoted
  | .list items => do
    return "[" ++ Text.join ", " (← quotedItems items) ++ "]"
  | .pair a b => do
    return "(" ++ (← a.quoted) ++ ", " ++ (← b.quoted) ++ ")"
  | .set members => do
    if members.isEmpty then return "set()"
    return "\x7b" ++ Text.join ", " (← quotedItems members) ++ "\x7d"
  | .mapping entries => do
    return "\x7b" ++ Text.join ", " (← quotedEntries entries) ++ "\x7d"

/-- Each of the values on one line. -/
def quotedItems : List Value → Except DigitLimit (List Text)
  | [] => .ok []
  | v :: rest => do
    let head ← v.quoted
    return head :: (← quotedItems rest)

/-- Each of the entries on one line, a colon between key and value. -/
def quotedEntries : List (Value × Value) → Except DigitLimit (List Text)
  | [] => .ok []
  | (k, v) :: rest => do
    let key ← k.quoted
    let value ← v.quoted
    return (key ++ ": " ++ value) :: (← quotedEntries rest)

end

/-- A value on one line, a text, date or moment as it is. -/
def plain : Value → Except DigitLimit Text
  | .text t => .ok t
  | .date d => .ok d.text
  | .moment m => .ok m.text
  | v => v.quoted

end RainMeta.Value
