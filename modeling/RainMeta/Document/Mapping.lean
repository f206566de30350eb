import RainMeta.Document

/-!
# Values as mappings

A mapping stands for itself, and anything whose parts are pairs stands for the mapping with these
entries.

* `Value.isKey`: whether a value can be the key of a mapping.
* `Value.parts?`: the parts of a value that has some.
* `Value.asMapping`: the entries of the mapping that a value stands for.
* `MappingDefect`: why it stands for none.
-/

namespace RainMeta

/-- Why a value stands for no mapping. -/
inductive MappingDefect
  /-- The value has no parts. -/
  | noParts (kind : Text)
  /-- A part has no parts of its own. -/
  | partWhole (index : Nat)
  /-- A part has some other number of parts than two. -/
  | partCount (index count : Nat)
  /-- The first part of a pair cannot be a key. -/
  | noKey (kind : Text)
  deriving DecidableEq

/-- The words for it. -/
def MappingDefect.message : MappingDefect → Text
  | .noParts kind => "'" ++ kind ++ "' object is not iterable"
  | .partWhole index =>
    "cannot convert dictionary update sequence element #" ++ Text.ofNat index ++ " to a sequence"
  | .partCount index count =>
    "dictionary update sequence element #" ++ Text.ofNat index ++ " has length "
      ++ Text.ofNat count ++ "; 2 is required"
  | .noKey kind => "unhashable type: '" ++ kind ++ "'"

namespace Value

/-- Whether a value can be the key of a mapping. -/
def isKey : Value → Bool
  | .list _ | .set _ | .mapping _ => false
  | _ => true

/-- The parts of a value: items, members, keys, characters or bytes. -/
def parts? : Value → Option (List Value)
  | .list items | .set items => some items
  | .pair first second => some [first, second]
  | .mapping entries => some (entries.map Prod.fst)
  | .text t => some (t.map fun c => .text [c])
  | .bytes b => some (b.map fun byte => .int byte.toNat)
  | .null | .bool _ | .int _ | .float _ | .date _ | .moment _ => none

/-- The key and the value that the parts of a value are; `index` is its place in a list. -/
def asPair (index : Nat) (v : Value) : Except MappingDefect (Value × Value) :=
  match v.parts? with
  | none => .error (.partWhole index)
  | some [k, w] => if k.isKey then .ok (k, w) else .error (.noKey k.kind)
  | some parts => .error (.partCount index parts.length)

/-- The entries of the mapping that a value stands for. Of pairs with the same key, the first gives
the place and the last the value. -/
def asMapping (v : Value) : Except MappingDefect (List (Value × Value)) :=
  match v with
  | .mapping entries => .ok entries
  | v => match v.parts? with
    | none => .error (.noParts v.kind)
    | some parts => do
      let pairs ← parts.zipIdx.mapM fun (part, index) => part.asPair index
      return pairs.foldl (fun entries (k, w) => setKey k w entries) []

@[simp] theorem asMapping_mapping (entries : List (Value × Value)) :
    (mapping entries).asMapping = .ok entries := rfl

end Value

end RainMeta
