import RainMeta.Cbor

/-!
# Reading CBOR

* `Cbor.read?`: the first item of a byte string, and the bytes after it. Items may have any
  head, in definite or indefinite length. What tags mean is up to the library.
-/

namespace RainMeta.Cbor

/-- Splits off the first `n` bytes, if there are so many. -/
def takeBytes? (n : Nat) (b : Bytes) : Option (Bytes × Bytes) :=
  let first := b.take n
  if first.length = n then some (first, b.drop n) else none

/-- The number that bytes spell, the most significant one first. -/
def ofBigEndian (b : Bytes) : Nat :=
  b.foldl (fun n byte => n * 256 + byte.toNat) 0

/-- The number in a head. -/
inductive Argument
  | number (n : Nat)
  | indefinite

/-- The number that belongs to the lower five bits of a head. -/
def readArgument? (info : Nat) (b : Bytes) : Option (Argument × Bytes) :=
  let wide (width : Nat) : Option (Argument × Bytes) :=
    (takeBytes? width b).map fun (digits, rest) => (.number (ofBigEndian digits), rest)
  if info < 24 then some (.number info, b)
  else if info = 24 then wide 1
  else if info = 25 then wide 2
  else if info = 26 then wide 4
  else if info = 27 then wide 8
  else if info = 31 then some (.indefinite, b)
  else none

/-- A byte string of definite length inside one of indefinite length, or the end mark. -/
def readChunk? (major : Nat) : Bytes → Option (Option Bytes × Bytes)
  | [] => none
  | b :: rest =>
    if b = 0xFF then some (none, rest)
    else if b.toNat / 32 = major then
      match readArgument? (b.toNat % 32) rest with
      | some (.number n, rest) => (takeBytes? n rest).map fun (chunk, rest) => (some chunk, rest)
      | _ => none
    else none

/-- The chunks up to the end mark. Every chunk takes a byte, so `fuel` counts bytes. -/
def readChunks? (major : Nat) (out : List Bytes) : Nat → Bytes → Option (List Bytes × Bytes)
  | 0, _ => none
  | fuel + 1, b =>
    match readChunk? major b with
    | some (some chunk, rest) => readChunks? major (chunk :: out) fuel rest
    | some (none, rest) => some (out.reverse, rest)
    | none => none

/-- The contents of a byte or text string, in chunks. -/
def readString? (major info : Nat) (b : Bytes) : Option (List Bytes × Bytes) :=
  match readArgument? info b with
  | some (.number n, rest) => (takeBytes? n rest).map fun (chunk, rest) => ([chunk], rest)
  | some (.indefinite, rest) => readChunks? major [] (rest.length + 1) rest
  | none => none

/-- The text that chunks spell, each on its own. -/
def textOfChunks? (chunks : List Bytes) : Option Text :=
  (chunks.mapM fun chunk => (Utf8.decode chunk).toOption).map List.flatten

/-- Items one after another, `n` of them, or up to an end mark if `untilStop` holds. -/
def readItems? (read : Bytes → Option (Item × Bytes)) (untilStop : Bool) (out : List Item) :
    Nat → Bytes → Option (List Item × Bytes)
  | 0, b => if untilStop then none else some (out.reverse, b)
  | n + 1, b =>
    match read b with
    | none => none
    | some (.stop, rest) =>
      if untilStop then some (out.reverse, rest)
      else readItems? read untilStop (.stop :: out) n rest
    | some (item, rest) => readItems? read untilStop (item :: out) n rest

variable [Platform]

/-- Entries of a map, `n` of them, or up to an end mark in the place of a key if `untilStop`
holds. -/
def readEntries? (read : Bytes → Option (Item × Bytes)) (untilStop : Bool)
    (out : List (Item × Item)) : Nat → Bytes → Option (List (Item × Item) × Bytes)
  | 0, b => if untilStop then none else some (out, b)
  | n + 1, b =>
    match read b with
    | none => none
    | some (key, rest) =>
      let ends := untilStop && (match key with | .stop => true | _ => false)
      if ends then some (out, rest)
      else match read rest with
        | none => none
        | some (value, rest) => readEntries? read untilStop (setKey key value out) n rest

/-- A simple value or a floating point number. -/
def readSimple? (info : Nat) (b : Bytes) : Option (Item × Bytes) :=
  let wide (width : Nat) (make : Nat → Option Item) : Option (Item × Bytes) := do
    let (digits, rest) ← takeBytes? width b
    return (← make (ofBigEndian digits), rest)
  if info < 20 then some (.simple info, b)
  else if info = 20 then some (.bool false, b)
  else if info = 21 then some (.bool true, b)
  else if info = 22 then some (.null, b)
  else if info = 23 then some (.undefined, b)
  else if info = 24 then wide 1 fun n => if n < 32 then none else some (.simple n)
  else if info = 25 then wide 2 fun n => some (.float (Binary64.ofBinary16 n))
  else if info = 26 then wide 4 fun n => some (.float (Binary64.ofBinary32 n))
  else if info = 27 then wide 8 fun n => some (.float ⟨n.toUInt64⟩)
  else if info = 31 then some (.stop, b)
  else none

/-- The first item at a place in a document, nested less than `depth` deep, and the bytes after
it. -/
def readItem? (document : Bytes) : Nat → Bytes → Option (Item × Bytes)
  | 0, _ => none
  | _ + 1, [] => none
  | depth + 1, b :: rest =>
    let read := readItem? document depth
    let major := b.toNat / 32
    let info := b.toNat % 32
    if major = 7 then readSimple? info rest
    else if major = 2 then
      (readString? 2 info rest).map fun (chunks, rest) => (.bytes chunks.flatten, rest)
    else if major = 3 then do
      let (chunks, rest) ← readString? 3 info rest
      return (.text (← textOfChunks? chunks), rest)
    else match readArgument? info rest with
      | none => none
      | some (.number n, rest) =>
        if major = 0 then some (.int n, rest)
        else if major = 1 then some (.int (-(n : Int) - 1), rest)
        else if major = 4 then
          (readItems? read false [] n rest).map fun (items, rest) => (.list items, rest)
        else if major = 5 then
          (readEntries? read false [] n rest).map fun (entries, rest) => (.map entries, rest)
        else Platform.cbor.resolve document n read rest
      | some (.indefinite, rest) =>
        if major = 4 then
          (readItems? read true [] (rest.length + 1) rest).map fun (items, rest) =>
            (.list items, rest)
        else if major = 5 then
          (readEntries? read true [] (rest.length + 1) rest).map fun (entries, rest) =>
            (.map entries, rest)
        else none

/-- The first item and the bytes after it, if the library gets through it. A map whose keys and
values have no parts is never too much for it. Every item takes a byte, so that the document is
nested less deeply than it is long. -/
def read? (b : Bytes) : Option (Item × Bytes) :=
  if Platform.cbor.completes b || (readItem? b 2 b).isSome then readItem? b (b.length + 1) b
  else none

end RainMeta.Cbor
