import RainMeta.Cbor.Reader
import RainMeta.Json.Reader
import RainMeta.Yaml.Value

/-!
# The usual platform

* `Platform.usual`: a platform to run programs on. Its stack has a thousand frames, its memory holds
  less than four gibibytes, and its library for CBOR has no objects of its own.
* `Yaml.Loader.usual`: the library for YAML on it.
-/

namespace RainMeta

/-! ### CBOR -/

namespace Cbor

/-- The integer of a tagged byte string. -/
def bignum? (negative : Bool) : Item → Option Item
  | .bytes b =>
    let n := ofBigEndian b
    some (.int (if negative then -(n : Int) - 1 else n))
  | _ => none

/-- The item that a tag makes of the item after it: tags for large integers and the tag that
marks a document are resolved, all others are kept. -/
def resolveTag? (tag : Nat) (item : Item) : Option Item :=
  if tag = 2 then bignum? false item
  else if tag = 3 then bignum? true item
  else if tag = 55799 then some item
  else some (.tagged tag item)

/-- A library without objects of its own. -/
def Library.plain (completes : Bytes → Bool) : Library where
  resolve _ tag read b := do
    let (item, rest) ← read b
    return (← resolveTag? tag item, rest)
  completes
  isKey _ _ := false
  worth _ item := .ok item

end Cbor

/-! ### YAML -/

namespace Yaml

namespace Node

mutual

/-- The number of frames that the value of a node takes at once. A sequence takes four and any
other collection two; what stands behind a reference is there by then. -/
def frames : Node → Nat
  | scalar _ _ _ | reference _ => 3
  | sequence _ _ items => itemsFrames items + 4
  | mapping _ _ entries => entriesFrames entries + 2

/-- The same for a list of nodes. -/
def itemsFrames : List Node → Nat
  | [] => 0
  | n :: rest => max n.frames (itemsFrames rest)

/-- The same for the entries of a mapping. -/
def entriesFrames : List (Node × Node) → Nat
  | [] => 0
  | (k, v) :: rest => max (max k.frames v.frames) (entriesFrames rest)

end

end Node

/-- Whether a thousand frames suffice for a text. Finding the tree takes two for each level; its
value takes as many as it has to have at once, which is nothing for a tree that is filled later. -/
def fitsStack (style : KeyStyle) (t : Text) : Bool :=
  match Node.ofTokens 490 (tokens t) with
  | .error .tooDeep => false
  | .ok (some root) => Node.isDeferred style root.tag || root.frames ≤ 985
  | _ => true

/-- The library for YAML. -/
def Loader.usual : Loader where
  compose := Node.read
  valueOf := Tag.valueOf
  completes := fitsStack

end Yaml

namespace Platform

/-- Whether nothing in a JSON text is nested more than 985 levels deep, as far as it is read. -/
def fitsStack (t : Text) : Bool :=
  match Json.readWholeAs Json.values 985 t with
  | .error .tooDeep => false
  | _ => true

/-- A platform whose library for CBOR gets through some documents. -/
@[reducible]
def completing (completes : Bytes → Bool) : Platform where
  depth := 490
  readsText := fitsStack
  readsBytes b := (Json.decodeDetected b).toOption.all fitsStack
  expands _ _ := false
  memory := 0xFFFFFFFF
  cbor := .plain completes
  shows _ := true
  yaml := Yaml.read .usual

/-- **The usual platform.** -/
instance usual : Platform :=
  .completing fun b => (@Cbor.readItem? (.completing fun _ => true) b 985 b).isSome

end Platform

end RainMeta
