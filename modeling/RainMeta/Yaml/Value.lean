import RainMeta.Document.Mapping
import RainMeta.Yaml.Node
import RainMeta.Yaml.Scalar

/-!
# Values of YAML documents

How a tree of nodes becomes a value. Two ways of reading the keys of mappings are in use: as
the texts that are written, whatever value they might have, or by their values.

* `Node.flattened`: the entries of a mapping with those that it takes over from others.
* `Node.value`: the value of a node of a tree.
* `Node.construct`: the value of a whole tree. A collection that is not needed at once is begun
  where it stands and filled later, which tells of several faults the one that is met first.
* `Yaml.Loader`: what turns texts into trees and scalars into values.
* `Yaml.read`: the value of a text. An empty stream is null.
-/

namespace RainMeta.Yaml

/-- A node around the one that is being read: its name, and whether it is still without a
value, so that nothing inside can use it. -/
structure Enclosing where
  name : Text
  pending : Bool

namespace Node

/-- The tag of a node; a reference has none of its own. -/
def tag : Node → Tag
  | scalar _ t _ | sequence _ t _ | mapping _ t _ => t
  | reference _ => .other

/-- The node itself, or the node of the tree that a reference stands for. -/
def target (n root : Node) : Node :=
  match n with
  | reference name => (root.named? name).getD blank
  | n => n

/-- The tag of the node, or of the one that a reference stands for. -/
def targetTag (n root : Node) : Tag := (n.target root).tag

/-! ### Entries that are taken over -/

/-- Whether an entry takes over others. -/
def isMerge (root : Node) (e : Node × Node) : Bool :=
  e.1.targetTag root = .merge

/-- The entries of a mapping that are its own. -/
def ownEntries (root : Node) (entries : List (Node × Node)) : List (Node × Node) :=
  entries.filter fun e => !isMerge root e

/-- The entries that are taken over from a node, which has to be a mapping. `merging` names the
mappings whose entries are being gathered by `flatten`; one that is reached again adds only entries
of its own. -/
def takenFrom (root : Node) (around : List Enclosing) (merging : List Text)
    (flatten : List Text → List (Node × Node) → Except Error (List (Node × Node))) (n : Node) :
    Except Error (List (Node × Node)) :=
  match n with
  | mapping anchor _ entries => flatten (anchor.toList ++ merging) entries
  | reference name =>
    match root.named? name with
    | some (mapping _ _ entries) =>
      if merging.contains name then .ok (ownEntries root entries)
      else if around.any fun a => a.name == name && a.pending then .error .malformed
      else flatten (name :: merging) entries
    | _ => .error .malformed
  | _ => .error .malformed

/-- The entries that one entry takes over. Of a list of mappings the first has the last word. -/
def takenBy (root : Node) (takenFrom : Node → Except Error (List (Node × Node)))
    (e : Node × Node) : Except Error (List (Node × Node)) :=
  if isMerge root e then
    match e.2.target root with
    | sequence _ _ items => (items.mapM takenFrom).map fun taken => taken.reverse.flatten
    | _ => takenFrom e.2
  else .ok []

/-- The entries of a mapping: first those that merge keys take over, in order, then its own. -/
def flattened (root : Node) (around : List Enclosing) :
    Nat → List Text → List (Node × Node) → Except Error (List (Node × Node))
  | 0, _, _ => .error .tooDeep
  | fuel + 1, merging, entries => do
    let taken ← entries.mapM
      (takenBy root (takenFrom root around merging (flattened root around fuel)))
    return taken.flatten ++ ownEntries root entries

/-! ### Values -/

/-- The text of a node where a scalar is asked for: a mapping with a value key stands for the
value of that key. -/
def scalarText (root : Node) : Nat → Node → Except Error Text
  | 0, _ => .error .tooDeep
  | fuel + 1, n =>
    match n.target root with
    | scalar _ _ t => .ok t
    | mapping _ _ entries =>
      match entries.find? fun e => e.1.targetTag root = .value with
      | some e => scalarText root fuel e.2
      | none => .error .malformed
    | _ => .error .malformed

/-- Stands for a collection inside itself, where its members are not known yet. -/
def unfinished (n : Node) : Value :=
  match n.tag with
  | .mapping => .mapping []
  | .set => .set []
  | _ => .list []

/-- The word for the kind of a node. -/
def kind : Node → Text
  | scalar _ _ _ | reference _ => "ScalarNode"
  | sequence _ _ _ => "SequenceNode"
  | mapping _ _ _ => "MappingNode"

/-- The value of a scalar tag. Only a text is ever matched against the form of a moment. -/
def scalarValue (valueOf : Tag → Text → Except Error Value) (root : Node) (fuel : Nat) (tag : Tag)
    (n : Node) : Except Error Value := do
  let t ← scalarText root fuel n
  match tag, n with
  | .timestamp, mapping _ _ _ => throw (.kind "expected string or bytes-like object, got 'list'")
  | _, _ => valueOf tag t

/-- A key that is the text that is written; other nodes than scalars are keys by their values. -/
def keyAsWritten (root : Node) (value : Node → Except Error Value) (k : Node) :
    Except Error Value :=
  match k.target root with
  | scalar _ _ t => .ok (.text t)
  | _ => value k

/-- A key that is a value; the key that stands for a value is the text that is written. -/
def keyByValue (root : Node) (value : Node → Except Error Value) (k : Node) :
    Except Error Value :=
  match k.target root with
  | scalar _ .value t => .ok (.text t)
  | _ => value k

/-- The entries of a mapping whose keys are the texts that are written. A key has to be fit for it,
once its value is there. -/
def entriesAsWritten (root : Node) (value : Node → Except Error Value)
    (entries : List (Node × Node)) : Except Error (List (Value × Value)) :=
  entries.foldlM (fun found e => do
    let key ← keyAsWritten root value e.1
    let v ← value e.2
    if key.isKey then return Value.setKey key v found
    else throw (.kind ("unhashable type: '" ++ key.kind ++ "'"))) []

/-- The entries of a mapping whose keys are values. -/
def entriesByValue (root : Node) (value : Node → Except Error Value)
    (entries : List (Node × Node)) : Except Error (List (Value × Value)) :=
  entries.foldlM (fun found e => do
    let key ← keyByValue root value e.1
    if key.isKey then return Value.setKey key (← value e.2) found else throw .malformed) []

/-- The one key and its value in each member of a list of mappings. -/
def pairsOf (root : Node) (value : Node → Except Error Value) (items : List Node) :
    Except Error (List Value) :=
  items.mapM fun item => do
    match item.target root with
    | mapping _ _ [(k, v)] => return .pair (← value k) (← value v)
    | _ => throw .malformed

/-- The node around that a reference stands for, if it is one of them. -/
def enclosing? (around : List Enclosing) : Node → Option Enclosing
  | reference name => around.find? fun a => a.name == name
  | _ => none

/-- The nodes with names around the parts of a node. -/
def insideOf (n : Node) (pending : Bool) (outer : List Enclosing) : List Enclosing :=
  (n.anchor?.map fun name => Enclosing.mk name pending).toList ++ outer

/-- The value of a node that does not stand inside itself, where `read` gives the values of nodes
inside it, `outer` are the nodes around it that bear names, and `inside` says that the value is
needed at once, since a mapping that is read as written is around it. -/
def valueFrom (valueOf : Tag → Text → Except Error Value) (root : Node) (style : KeyStyle)
    (fuel : Nat) (outer : List Enclosing) (inside : Bool)
    (read : List Enclosing → Bool → Node → Except Error Value) (n : Node) : Except Error Value := do
  let entriesOf (entries : List (Node × Node)) : Except Error (List (Node × Node)) :=
    flattened root outer (fuel + 1) n.anchor?.toList entries
  match n.tag, n with
  | .mapping, mapping _ _ entries =>
    match style with
    | .asWritten =>
      return .mapping (← entriesAsWritten root (read (n.insideOf true outer) true)
        (← entriesOf entries))
    | .byValue =>
      return .mapping (← entriesByValue root (read (n.insideOf inside outer) inside)
        (← entriesOf entries))
  | .mapping, sequence _ _ items =>
    match style, items with
    | .byValue, _ => throw .malformed
    | .asWritten, [] => return .mapping []
    | .asWritten, item :: _ =>
      throw (.kind ("cannot unpack non-iterable " ++ (item.target root).kind ++ " object"))
  | .mapping, scalar _ _ t =>
    match style with
    | .byValue => throw .malformed
    | .asWritten => if t.isEmpty then return .mapping [] else throw (.value .entries)
  | .sequence, sequence _ _ items =>
    return .list (← items.mapM (read (n.insideOf inside outer) inside))
  | .set, mapping _ _ entries =>
    let members ← entriesByValue root (read (n.insideOf inside outer) inside) (← entriesOf entries)
    return .set (members.map Prod.fst)
  | .orderedMapping, sequence _ _ items | .pairs, sequence _ _ items =>
    return .list (← pairsOf root (read (n.insideOf inside outer) inside) items)
  | .sequence, _ | .set, _ | .orderedMapping, _ | .pairs, _ => throw .malformed
  | tag, _ => scalarValue valueOf root fuel tag n

/-- The value of a node in a tree. Every level of the tree takes fuel, also behind references. -/
def value (valueOf : Tag → Text → Except Error Value) (root : Node) (style : KeyStyle) :
    Nat → List Enclosing → Bool → Node → Except Error Value
  | 0, _, _, _ => .error .tooDeep
  | fuel + 1, outer, inside, n =>
    match enclosing? outer n with
    | some a => if a.pending then .error .malformed else .ok (unfinished (n.target root))
    | none => valueFrom valueOf root style fuel outer inside (value valueOf root style fuel)
        (n.target root)

/-! ### Whole trees -/

mutual

/-- The number of levels of a tree, references not followed. -/
def height : Node → Nat
  | scalar _ _ _ | reference _ => 0
  | sequence _ _ items => itemsHeight items + 1
  | mapping _ _ entries => entriesHeight entries + 1

/-- The greatest height in a list of nodes. -/
def itemsHeight : List Node → Nat
  | [] => 0
  | n :: rest => max n.height (itemsHeight rest)

/-- The greatest height in the entries of a mapping. -/
def entriesHeight : List (Node × Node) → Nat
  | [] => 0
  | (k, v) :: rest => max (max k.height v.height) (entriesHeight rest)

end

mutual

/-- The number of nodes in a tree. -/
def size : Node → Nat
  | scalar _ _ _ | reference _ => 1
  | sequence _ _ items => itemsSize items + 1
  | mapping _ _ entries => entriesSize entries + 1

/-- The number of nodes in a list of trees. -/
def itemsSize : List Node → Nat
  | [] => 0
  | n :: rest => n.size + itemsSize rest

/-- The number of nodes in the entries of a mapping. -/
def entriesSize : List (Node × Node) → Nat
  | [] => 0
  | (k, v) :: rest => k.size + v.size + entriesSize rest

end

/-- Fuel for a tree. Going down, each name is passed at most once, and between two names there are
as many levels as the tree has; what a mapping takes over may be as far away again. -/
def fuel (root : Node) : Nat :=
  2 * ((root.anchored.length + 1) * (root.height + 1)) + 2

/-- Whether a node with a tag is begun where it stands and filled later. A mapping that is read as
written has to be filled at once. -/
def isDeferred (style : KeyStyle) : Tag → Bool
  | .sequence | .set | .orderedMapping | .pairs => true
  | .mapping => style = .byValue
  | _ => false

/-- How far the nodes of a tree have been gone through: the names of those that have been begun,
and the nodes that are to be filled, in the order in which they were begun. -/
structure Progress where
  begun : List Text := []
  waiting : List Node := []

/-- Whether a node is a reference to one that has been begun. -/
def Progress.hasBegun (p : Progress) : Node → Bool
  | reference name => p.begun.contains name
  | _ => false

/-- Going through a tree. -/
abbrev Filling := StateT Progress (Except Error)

section Filling

variable (valueOf : Tag → Text → Except Error Value) (root : Node) (style : KeyStyle)

/-- Begins a node, if that has not been done before. Gives what stands for it for the time
being. -/
def begin (n : Node) : Filling Value := do
  let p ← get
  if p.hasBegun n then return unfinished (n.target root)
  else
    let n := n.target root
    let begun := n.anchor?.toList ++ p.begun
    if isDeferred style n.tag then
      set { begun, waiting := p.waiting ++ [n] : Progress }
      return unfinished n
    else
      let v ← value valueOf root style root.fuel (p.begun.map fun name => ⟨name, false⟩) false n
      set { p with begun }
      return v

/-- Begins a key that is a value; the key that stands for a value is the text that is written. -/
def beginKey (k : Node) : Filling Value :=
  match k.target root with
  | scalar _ .value t => return .text t
  | _ => begin valueOf root style k

/-- Begins the key and the value of an entry. -/
def fillEntry (e : Node × Node) : Filling Unit := do
  let key ← beginKey valueOf root style e.1
  if key.isKey then
    let _ ← begin valueOf root style e.2
  else throw .malformed

/-- Begins the one key and its value in a mapping. -/
def fillPair (n : Node) : Filling Unit := do
  match n.target root with
  | mapping _ _ [(k, v)] =>
    let _ ← begin valueOf root style k
    let _ ← begin valueOf root style v
  | _ => throw .malformed

/-- Fills a node that has been begun. -/
def fill (n : Node) : Filling Unit := do
  match n.tag, n with
  | .sequence, sequence _ _ items =>
    items.forM fun item => do
      let _ ← begin valueOf root style item
  | .set, mapping _ _ entries | .mapping, mapping _ _ entries =>
    let entries ← flattened root [] root.fuel n.anchor?.toList entries
    entries.forM (fillEntry valueOf root style)
  | .orderedMapping, sequence _ _ items | .pairs, sequence _ _ items =>
    items.forM (fillPair valueOf root style)
  | _, _ => throw .malformed

/-- Fills the nodes that are waiting, one after another. -/
def fillAll : Nat → Filling Unit
  | 0 => return
  | fuel + 1 => do
    match (← get).waiting with
    | [] => return
    | n :: waiting =>
      set { (← get) with waiting }
      fill valueOf root style n
      fillAll fuel

/-- Goes through a whole tree. -/
def fillTree : Filling Unit := do
  let _ ← begin valueOf root style root
  fillAll valueOf root style (root.size * root.size + 1)

end Filling

/-- The value of a whole tree. If the tree can be filled later, its faults are met in the order in
which the nodes are gone through. -/
def construct (valueOf : Tag → Text → Except Error Value) (root : Node) (style : KeyStyle) :
    Except Error Value :=
  match value valueOf root style root.fuel [] false root with
  | .ok v => .ok v
  | .error e =>
    if isDeferred style root.tag then
      ((fillTree valueOf root style).run {}).map fun _ => unfinished root
    else .error e

end Node

/-! ### Texts -/

/-- What turns texts into trees and scalars into values. -/
structure Loader where
  /-- The one tree in a text, if it holds one. -/
  compose (t : Text) : Except Error (Option Node)
  /-- The value of a scalar, whose tag is none of a collection. -/
  valueOf (tag : Tag) (t : Text) : Except Error Value
  /-- Whether the stack suffices for a text. -/
  completes (style : KeyStyle) (t : Text) : Bool

/-- The value of a text. -/
def read (loader : Loader) (style : KeyStyle) (t : Text) : Except Error Value := do
  unless loader.completes style t do throw .tooDeep
  match ← loader.compose t with
  | none => return .null
  | some root => root.construct loader.valueOf style

end RainMeta.Yaml
