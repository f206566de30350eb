import RainMeta.Platform
import RainMeta.Text.Utf8

/-!
# CBOR items

* `Cbor.Item.encode`: the canonical form of an item: definite lengths and the shortest head for
  every number.
* `Cbor.Item.sameKey`: when two items are the same key of a map.
-/

namespace RainMeta.Cbor

/-! ### Writing -/

/-- A number in `width` bytes, the most significant one first. -/
def bigEndian (width n : Nat) : Bytes :=
  match width with
  | 0 => []
  | w + 1 => ((n >>> (8 * w)) % 256).toUInt8 :: bigEndian w n

/-- The head of an item: its major type and its number, in the shortest of the five forms. -/
def head (major n : Nat) : Bytes :=
  let initial (info : Nat) : UInt8 := (major * 32 + info).toUInt8
  if n < 24 then [initial n]
  else if n < 0x100 then initial 24 :: bigEndian 1 n
  else if n < 0x10000 then initial 25 :: bigEndian 2 n
  else if n < 0x100000000 then initial 26 :: bigEndian 4 n
  else initial 27 :: bigEndian 8 n

/-- The bytes of a number without zeros in front. -/
def minimalBytes (n : Nat) : Bytes :=
  bigEndian ((n.log2 + 8) / 8) n

/-- A number of any size: beyond 64 bits it is a tagged byte string. -/
def encodeNat (major tag n : Nat) : Bytes :=
  if n < 0x10000000000000000 then head major n
  else
    let digits := minimalBytes n
    head 6 tag ++ head 2 digits.length ++ digits

mutual

/-- The canonical form of an item. Objects have none here. -/
def Item.encode : Item → Bytes
  | .int i => if 0 ≤ i then encodeNat 0 2 i.toNat else encodeNat 1 3 (-i - 1).toNat
  | .bytes b => head 2 b.length ++ b
  | .text t =>
    let b := t.flatMap Utf8.encodeOne
    head 3 b.length ++ b
  | .list items => head 4 items.length ++ encodeItems items
  | .map entries => head 5 entries.length ++ encodeEntries entries
  | .tagged tag item => head 6 tag ++ item.encode
  | .bool b => [if b then 0xF5 else 0xF4]
  | .null => [0xF6]
  | .undefined => [0xF7]
  | .simple n => head 7 n
  | .float x => 0xFB :: bigEndian 8 x.bits.toNat
  | .stop => [0xFF]
  | .object _ => []

/-- The items one after another. -/
def encodeItems : List Item → Bytes
  | [] => []
  | item :: rest => item.encode ++ encodeItems rest

/-- The keys and values one after another. -/
def encodeEntries : List (Item × Item) → Bytes
  | [] => []
  | (k, v) :: rest => k.encode ++ v.encode ++ encodeEntries rest

end

/-! ### Keys -/

variable [Platform]

/-- The number that an item counts as among keys, if it does. -/
def Item.number? : Item → Option Value.Number
  | .bool b => some (.int (if b then 1 else 0))
  | .int i => some (.int i)
  | .simple n => some (.int n)
  | .float x => some (.float x)
  | _ => none

mutual

/-- Whether two items are the same key: numbers by value, objects as the library says, all else
by what they are. -/
def Item.sameKey : Item → Item → Bool
  | .object n, y => Platform.cbor.isKey n y
  | x, .object n => Platform.cbor.isKey n x
  | .list xs, .list ys => sameItems xs ys
  | .map xs, .map ys => xs.length == ys.length && entriesAmong xs ys
  | .tagged m x, .tagged n y => m == n && x.sameKey y
  | .bytes b, .bytes c => b == c
  | .text t, .text u => t == u
  | .null, .null => true
  | .undefined, .undefined => true
  | .stop, .stop => true
  | x, y => match x.number?, y.number? with
    | some a, some b => a.same b
    | _, _ => false

/-- Whether two lists have the same keys in the same places. -/
def sameItems : List Item → List Item → Bool
  | [], [] => true
  | x :: xs, y :: ys => x.sameKey y && sameItems xs ys
  | _, _ => false

/-- Whether all entries of the first list stand somewhere in the second. -/
def entriesAmong : List (Item × Item) → List (Item × Item) → Bool
  | [], _ => true
  | (k, v) :: rest, ys =>
    ys.any (fun e => k.sameKey e.1 && v.sameKey e.2) && entriesAmong rest ys

end

/-- Gives a key a value among the entries of a map: in its place if it occurs, else at the
end. -/
def setKey (k v : Item) : List (Item × Item) → List (Item × Item)
  | [] => [(k, v)]
  | (a, b) :: rest => if a.sameKey k then (a, v) :: rest else (a, b) :: setKey k v rest

/-- The value of a number among the keys of a map. -/
def field? (n : Int) (entries : List (Item × Item)) : Option Item :=
  (entries.find? fun e => e.1.sameKey (.int n)).map Prod.snd

end RainMeta.Cbor
