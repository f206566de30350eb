import RainMeta.Cbor
import RainMeta.Document.Quoted

/-!
# CBOR items inside messages

* `Cbor.Item.quoted`: an item on one line. Inside a key of a map, lists and maps are shown
  in their fixed forms.
* `Cbor.Item.kind`: the word for the kind of an item.

Objects of the library are never shown, as the library has words of its own for them; they only
have a word here so that every item has one.
-/

namespace RainMeta.Cbor

/-- The word for the kind of an item; `fixed` says that it is a key of a map. -/
def Item.kind (fixed : Bool) : Item → Text
  | .int _ => "int"
  | .bytes _ => "bytes"
  | .text _ => "str"
  | .list _ => if fixed then "tuple" else "list"
  | .map _ => if fixed then "FrozenDict" else "dict"
  | .tagged _ _ => "CBORTag"
  | .bool _ => "bool"
  | .null => "NoneType"
  | .undefined => "undefined_type"
  | .simple _ => "CBORSimpleValue"
  | .float _ => "float"
  | .stop => "break_marker_type"
  | .object _ => "object"

mutual

/-- An item on one line. -/
def Item.quoted (fixed : Bool) : Item → Except DigitLimit Text
  | .int i => Text.ofInt? i
  | .bytes b => .ok (Bytes.quoted b)
  | .text t => .ok t.quoted
  | .list items => do
    let shown ← quotedItems fixed items
    if fixed then
      match shown with
      | [one] => return "(" ++ one ++ ",)"
      | _ => return "(" ++ Text.join ", " shown ++ ")"
    return "[" ++ Text.join ", " shown ++ "]"
  | .map entries => do
    let shown ← quotedEntries fixed entries
    let braces : Text := "\x7b" ++ Text.join ", " shown ++ "\x7d"
    return if fixed then "FrozenDict(" ++ braces ++ ")" else braces
  | .tagged tag item => do
    return "CBORTag(" ++ Text.ofNat tag ++ ", " ++ (← item.quoted fixed) ++ ")"
  | .bool b => .ok (if b then "True" else "False")
  | .null => .ok "None"
  | .undefined => .ok "undefined"
  | .simple n => .ok ("CBORSimpleValue(value=" ++ Text.ofNat n ++ ")")
  | .float x => .ok x.text
  | .stop => .ok "break_marker"
  | .object _ => .ok "object"

/-- Each of the items on one line. -/
def quotedItems (fixed : Bool) : List Item → Except DigitLimit (List Text)
  | [] => .ok []
  | item :: rest => do
    let first ← item.quoted fixed
    return first :: (← quotedItems fixed rest)

/-- Each of the entries on one line, a colon between key and value. -/
def quotedEntries (fixed : Bool) : List (Item × Item) → Except DigitLimit (List Text)
  | [] => .ok []
  | (k, v) :: rest => do
    let key ← k.quoted true
    let value ← v.quoted fixed
    return (key ++ ": " ++ value) :: (← quotedEntries fixed rest)

end

end RainMeta.Cbor
