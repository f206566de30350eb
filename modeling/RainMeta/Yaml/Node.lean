import RainMeta.Yaml.Lexer
import RainMeta.Yaml.Tag

/-!
# Trees of nodes

What a YAML stream describes, before its scalars get values: a tree of scalars, sequences and
mappings, each with its tag. A node may bear a name, and a reference stands for the node of
that name, which has to begin earlier in the stream.

* `Node`: the trees. `Node.named?` finds the node of a name.
* `Node.ofTokens`: the one document of a stream of tokens; an empty stream has none.
* `Node.read`: the same from a text.
-/

namespace RainMeta.Yaml

/-- A tree of nodes. -/
inductive Node
  | scalar (anchor : Option Text) (tag : Tag) (text : Text)
  | sequence (anchor : Option Text) (tag : Tag) (items : List Node)
  | mapping (anchor : Option Text) (tag : Tag) (entries : List (Node × Node))
  | reference (name : Text)
  deriving Inhabited

namespace Node

/-- The name that a node bears. -/
def anchor? : Node → Option Text
  | scalar a _ _ | sequence a _ _ | mapping a _ _ => a
  | reference _ => none

mutual

/-- All nodes of the tree that bear a name, with their names. -/
def anchored (node : Node) : List (Text × Node) :=
  let here := node.anchor?.toList.map (·, node)
  match node with
  | scalar _ _ _ | reference _ => here
  | sequence _ _ items => here ++ anchoredItems items
  | mapping _ _ entries => here ++ anchoredEntries entries

/-- The nodes that bear a name in a list of nodes. -/
def anchoredItems : List Node → List (Text × Node)
  | [] => []
  | n :: rest => n.anchored ++ anchoredItems rest

/-- The nodes that bear a name in the entries of a mapping. -/
def anchoredEntries : List (Node × Node) → List (Text × Node)
  | [] => []
  | (k, v) :: rest => k.anchored ++ v.anchored ++ anchoredEntries rest

end

/-- The node of a name in a tree. -/
def named? (root : Node) (name : Text) : Option Node :=
  (root.anchored.find? fun e => e.1 == name).map Prod.snd

/-- The scalar that stands where a node is left out. -/
def blank : Node := scalar none .null []

/-! ### The grammar -/

/-- The state of reading nodes: the tokens that are left, and the names given so far. -/
structure Source where
  tokens : List Token
  names : List Text := []

/-- Reading from tokens. -/
abbrev Grammar := StateT Source (Except Error)

/-- The tokens do not fit; if the stream leaves the language here, that is why. -/
def refuse {α : Type} : Grammar α := do
  match (← get).tokens with
  | .broken e :: _ => throw e
  | _ => throw .malformed

/-- Whether the next token is of a class. -/
def sees (p : Token → Bool) : Grammar Bool := do
  match (← get).tokens with
  | .broken e :: _ => throw e
  | t :: _ => return p t
  | [] => return false

/-- Passes over the next token. -/
def skip : Grammar Unit :=
  modify fun s => { s with tokens := s.tokens.drop 1 }

/-- Passes over a certain token, if it is the next one. -/
def accept (t : Token) : Grammar Bool := do
  if ← sees (· == t) then
    skip
    return true
  else return false

/-- Passes over a certain token, which has to be the next one. -/
def demand (t : Token) : Grammar Unit := do
  unless ← accept t do refuse

/-- Reads as long as `step` finds something; `fuel` bounds how often. -/
def repeated {α : Type} (step : Grammar (Option α)) : Nat → Grammar (List α)
  | 0 => return []
  | fuel + 1 => do
    match ← step with
    | some a => return a :: (← repeated step fuel)
    | none => return []

/-- Reads items with commas between them up to a closing bracket; a comma may also stand before
the bracket. -/
def separated {α : Type} (close : Token) (item : Grammar α) : Nat → Bool → Grammar (List α)
  | 0, _ => refuse
  | fuel + 1, first => do
    if ← accept close then return []
    unless first do
      demand .flowEntry
      if ← accept close then return []
    return (← item) :: (← separated close item fuel false)

/-- Where a node stands. -/
inductive Place
  /-- In a block collection, or alone. -/
  | block
  /-- In a block mapping, where the items of a sequence need no indentation. -/
  | member
  /-- Inside brackets. -/
  | flow
  deriving DecidableEq

/-- A node that is left out if one of some tokens follows. -/
def orBlank (ends : List Token) (node : Grammar Node) : Grammar Node := do
  if ← sees (ends.contains ·) then return blank else node

/-- A key and its value after the token of a key; each is left out where one of the tokens
`ends` follows. -/
def keyAndValue (ends : List Token) (node : Grammar Node) : Grammar (Node × Node) := do
  let k ← orBlank (.value :: ends) node
  if ← accept .value then return (k, ← orBlank ends node) else return (k, blank)

/-- An item of a block sequence, left out where one of the tokens `ends` follows. -/
def blockItem (ends : List Token) (node : Place → Grammar Node) : Grammar (Option Node) := do
  if ← accept .blockEntry then return some (← orBlank (.blockEntry :: ends) (node .block))
  else return none

/-- An entry of a block mapping. -/
def blockMember (node : Place → Grammar Node) : Grammar (Option (Node × Node)) := do
  if ← accept .key then return some (← keyAndValue [.key, .blockEnd] (node .member))
  else return none

/-- An item inside square brackets; a key with its value is a mapping of its own. -/
def flowItem (node : Place → Grammar Node) : Grammar Node := do
  if ← accept .key then
    let entry ← keyAndValue [.flowEntry, .flowSequenceEnd] (node .flow)
    return mapping none .mapping [entry]
  else node .flow

/-- An entry inside curly brackets; a node on its own is a key without a value. -/
def flowMember (node : Place → Grammar Node) : Grammar (Node × Node) := do
  if ← accept .key then keyAndValue [.flowEntry, .flowMappingEnd] (node .flow)
  else return (← node .flow, blank)

/-- The name of a tag, its handle replaced by what it stands for. -/
def tagName (handles : List (Text × Text)) (handle : Option Text) (suffix : Text) :
    Grammar Text := do
  match handle with
  | none => return suffix
  | some h => match handles.find? fun e => e.1 == h with
    | some e => return e.2 ++ suffix
    | none => refuse

/-- Takes an anchor, if one stands here. -/
def anchorHere : Grammar (Option Text) := do
  if let .anchor name :: _ := (← get).tokens then
    skip
    return some name
  else return none

/-- Takes a tag, if one stands here. -/
def tagHere (handles : List (Text × Text)) : Grammar (Option Text) := do
  if let .tag handle suffix :: _ := (← get).tokens then
    skip
    return some (← tagName handles handle suffix)
  else return none

/-- The anchor and the tag of a node, in either order. -/
def properties (handles : List (Text × Text)) : Grammar (Option Text × Option Text) := do
  match ← anchorHere with
  | some a => return (some a, ← tagHere handles)
  | none =>
    match ← tagHere handles with
    | some t => return (← anchorHere, some t)
    | none => return (none, none)

/-- The lone exclamation mark asks for the tag that a plain node would have. -/
def isUntagged (tag : Option Text) : Bool :=
  tag.all fun t => t == Text.ofString "!"

/-- The tag of a scalar. -/
def scalarTag (tag : Option Text) (plain : Bool) (text : Text) : Tag :=
  match tag with
  | none => if plain then .ofPlain text else .text
  | some _ => if isUntagged tag then .ofPlain text else .ofUri (tag.getD [])

/-- The tag of a collection that is a `usual` one unless it says otherwise. -/
def collectionTag (tag : Option Text) (usual : Tag) : Tag :=
  if isUntagged tag then usual else .ofUri (tag.getD [])

/-- Gives a node a name, which may be given only once. -/
def register (anchor : Option Text) : Grammar Unit := do
  match anchor with
  | none => return
  | some name =>
    if (← get).names.contains name then throw .malformed
    modify fun s => { s with names := name :: s.names }

/-- A node; collections may be nested as deeply as `depth` says. -/
def node (handles : List (Text × Text)) : Nat → Place → Grammar Node
  | 0, _ => throw .tooDeep
  | depth + 1, place => do
    if let .reference name :: _ := (← get).tokens then
      skip
      unless (← get).names.contains name do throw .malformed
      return reference name
    let child := node handles depth
    let (anchor, tag) ← properties handles
    let count := (← get).tokens.length
    let nested (usual : Tag) (build : Tag → Grammar Node) : Grammar Node := do
      skip
      register anchor
      build (collectionTag tag usual)
    match (← get).tokens with
    | .scalar plain text :: _ =>
      skip
      register anchor
      return scalar anchor (scalarTag tag plain text) text
    | .flowSequenceStart :: _ => nested .sequence fun tag => do
      return sequence anchor tag (← separated .flowSequenceEnd (flowItem child) count true)
    | .flowMappingStart :: _ => nested .mapping fun tag => do
      return mapping anchor tag (← separated .flowMappingEnd (flowMember child) count true)
    | .broken e :: _ => throw e
    | t :: _ =>
      if t = .blockEntry && place = .member then
        register anchor
        let items ← repeated (blockItem [.key, .value, .blockEnd] child) count
        return sequence anchor (collectionTag tag .sequence) items
      else if t = .blockSequenceStart && place ≠ .flow then
        nested .sequence fun tag => do
          let items ← repeated (blockItem [.blockEnd] child) count
          demand .blockEnd
          return sequence anchor tag items
      else if t = .blockMappingStart && place ≠ .flow then
        nested .mapping fun tag => do
          let entries ← repeated (blockMember child) count
          demand .blockEnd
          return mapping anchor tag entries
      else if anchor.isSome || tag.isSome then
        register anchor
        return scalar anchor (scalarTag tag true []) []
      else refuse
    | [] => refuse

/-! ### Documents -/

/-- The handles that every document has. -/
def usualHandles : List (Text × Text) :=
  [("!", "!"), ("!!", Tag.stem)]

/-- The directives before a document: one version at most, of the first generation, and handles
that are given once each. -/
def directives (version : Bool) (handles : List (Text × Text)) :
    Nat → Grammar (List (Text × Text))
  | 0 => return handles
  | fuel + 1 => do
    match (← get).tokens with
    | .directive d :: _ =>
      skip
      match d with
      | .version major _ =>
        if version || major ≠ 1 then throw .malformed
        directives true handles fuel
      | .handle name stem =>
        if handles.any fun e => e.1 == name then throw .malformed
        directives version (handles ++ [(name, stem)]) fuel
      | .other => directives version handles fuel
    | _ => return handles

/-- The start of a document: nothing, or directives and a mark. Gives the handles, and whether
there is a mark. -/
def documentStart : Grammar (List (Text × Text) × Bool) := do
  let marked ← sees fun t => match t with
    | .directive _ | .documentStart => true
    | _ => false
  if marked then
    let handles ← directives false [] (← get).tokens.length
    demand .documentStart
    return (handles ++ usualHandles, true)
  else return (usualHandles, false)

/-- Whether the content of a document is left out. -/
def contentEnds : Grammar Bool :=
  sees fun t => match t with
    | .directive _ | .documentStart | .documentEnd | .streamEnd => true
    | _ => false

/-- The one document of a stream, nested at most `depth` deep. -/
def document (depth : Nat) : Grammar (Option Node) := do
  if ← sees (· == .streamEnd) then return none
  let (handles, marked) ← documentStart
  let content := node handles depth .block
  let root ← if marked then if ← contentEnds then pure blank else content else content
  let count := (← get).tokens.length
  let _ ← repeated (do return if ← accept .documentEnd then some () else none) count
  demand .streamEnd
  return some root

/-- The one document of a stream of tokens, if the stream is not empty. -/
def ofTokens (depth : Nat) (tokens : List Token) : Except Error (Option Node) :=
  ((document depth).run { tokens }).map Prod.fst

/-- The one document of a text, if it holds one. Every collection takes a token, so that there are
tokens enough for the depth. -/
def read (t : Text) : Except Error (Option Node) :=
  ofTokens ((tokens t).length + 1) (tokens t)

end Node

end RainMeta.Yaml
