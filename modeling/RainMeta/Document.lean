import RainMeta.Calendar
import RainMeta.Number.Binary64
import RainMeta.Text

/-!
# Documents

The values that configuration files, schemas and artifacts hold, once read.

* `Value`: a value of a document. Keys of mappings are values too, though in most documents
  all of them are texts.
* `Value.field?`: the value of a text key in a mapping.
* `Value.kind`: the word for the kind of a value.
* `Value.isWithin`: whether a value is nested at most so deep.
-/

namespace RainMeta

/-- A value of a document. Mappings keep their keys in order. -/
inductive Value
  | null
  | bool (b : Bool)
  | int (i : Int)
  | float (x : Binary64)
  | text (t : Text)
  | bytes (b : Bytes)
  | date (d : Date)
  | moment (m : Moment)
  | list (items : List Value)
  | pair (first second : Value)
  | set (members : List Value)
  | mapping (entries : List (Value × Value))
  deriving Inhabited

namespace Value

/-- Whether the value is a certain text. -/
def isText (k : Text) : Value → Bool
  | .text t => t == k
  | _ => false

/-- The value of a text key among the entries of a mapping. -/
def fieldOf? (k : Text) (entries : List (Value × Value)) : Option Value :=
  (entries.find? fun e => e.1.isText k).map Prod.snd

/-- The value of a text key, if the value is a mapping that has it. -/
def field? (v : Value) (k : Text) : Option Value :=
  match v with
  | .mapping entries => fieldOf? k entries
  | _ => none

/-- The text that the value is, if it is one. -/
def text? : Value → Option Text
  | .text t => some t
  | _ => none

/-- The number that a value counts as among the keys of a mapping: truth values count as
zero and one. -/
inductive Number
  | int (i : Int)
  | float (x : Binary64)

/-- The number that a value counts as, if it does. -/
def number? : Value → Option Number
  | .bool b => some (.int (if b then 1 else 0))
  | .int i => some (.int i)
  | .float x => some (.float x)
  | _ => none

/-- Whether two numbers have the same value. -/
def Number.same : Number → Number → Bool
  | .int i, .int j => i == j
  | .int i, .float x => x.toInt? == some i
  | .float x, .int i => x.toInt? == some i
  | .float x, .float y => x.sameValue y

/-- Whether two moments are the same instant; a moment without an offset is compared only
with its like. -/
def sameMoment (m n : Moment) : Bool :=
  match m.offset, n.offset with
  | some s, some t =>
    let days (y mo d : Nat) : Int :=
      -- days before the first of March of year zero, counted with years that start in March
      let shifted := if mo ≤ 2 then y - 1 else y
      let month := (mo + 9) % 12
      365 * shifted + shifted / 4 - shifted / 100 + shifted / 400 + (153 * month + 2) / 5 + d
    let micros (m : Moment) (s : Int) : Int :=
      ((days m.date.year m.date.month m.date.day * 86400 + m.hour * 3600 + m.minute * 60 + m.second
        - s) * 1000000) + m.microsecond
    micros m s == micros n t
  | none, none => m == n
  | _, _ => false

/-- Whether two values are the same key of a mapping: numbers by value, all else by what
they are. Lists, pairs, sets and mappings are never keys. -/
def sameKey (v w : Value) : Bool :=
  match v.number?, w.number? with
  | some a, some b => a.same b
  | none, none =>
    match v, w with
    | .null, .null => true
    | .text t, .text u => t == u
    | .bytes b, .bytes c => b == c
    | .date d, .date e => d == e
    | .moment m, .moment n => sameMoment m n
    | _, _ => false
  | _, _ => false

/-- Gives a key a value among the entries of a mapping: in its place if it occurs, else at
the end. The key that came first stays as it was written. -/
def setKey (k v : Value) : List (Value × Value) → List (Value × Value)
  | [] => [(k, v)]
  | (a, b) :: rest => if a.sameKey k then (a, v) :: rest else (a, b) :: setKey k v rest

/-- The word for the kind of a value. -/
def kind : Value → Text
  | .null => "NoneType"
  | .bool _ => "bool"
  | .int _ => "int"
  | .float _ => "float"
  | .text _ => "str"
  | .bytes _ => "bytes"
  | .date _ => "date"
  | .moment _ => "datetime"
  | .list _ => "list"
  | .pair _ _ => "tuple"
  | .set _ => "set"
  | .mapping _ => "dict"

mutual

/-- Whether a value is nested at most `n` levels deep. -/
def isWithin (n : Nat) : Value → Bool
  | .list items => 0 < n && itemsWithin (n - 1) items
  | .mapping entries => 0 < n && entriesWithin (n - 1) entries
  | _ => true

/-- Whether all items of a list are. -/
def itemsWithin (n : Nat) : List Value → Bool
  | [] => true
  | v :: rest => v.isWithin n && itemsWithin n rest

/-- Whether all values of a mapping are. -/
def entriesWithin (n : Nat) : List (Value × Value) → Bool
  | [] => true
  | (_, v) :: rest => v.isWithin n && entriesWithin n rest

end

end Value

end RainMeta
