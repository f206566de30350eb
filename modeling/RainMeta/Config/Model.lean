import RainMeta.Config
import RainMeta.Document
import RainMeta.Text.Utf8

/-!
# Documents as configurations

A document is turned into a configuration field by field. Everything that is wrong with it is
reported, in the order of the fields and then of the keys that belong to no field.

* `MetaEntry.ofDocument`, `DeployerConfig.ofDocument`, `Config.ofDocument`: what a document
  describes.
* `ModelError`: something that is wrong, and where.
-/

namespace RainMeta

/-- In which way a value is not what it should be. -/
inductive ModelProblem
  /-- A field is missing. -/
  | missing
  /-- A key belongs to no field. -/
  | extra
  /-- The value is no object, but should describe something that has this name. -/
  | notModel (name : Text)
  | notList
  | notObject
  | notText
  /-- The value spells no text. -/
  | notUnicode
  | notPath
  /-- A meta file has to be binary or hexadecimal, and not both. -/
  | kindOfMeta
  deriving DecidableEq

/-- The name of a problem. -/
def ModelProblem.name : ModelProblem → Text
  | .missing => "missing"
  | .extra => "extra_forbidden"
  | .notModel _ => "model_type"
  | .notList => "list_type"
  | .notObject => "dict_type"
  | .notText => "string_type"
  | .notUnicode => "string_unicode"
  | .notPath => "path_type"
  | .kindOfMeta => "value_error"

/-- The words for a problem. -/
def ModelProblem.message : ModelProblem → Text
  | .missing => "Field required"
  | .extra => "Extra inputs are not permitted"
  | .notModel name => "Input should be a valid dictionary or instance of " ++ name
  | .notList => "Input should be a valid list"
  | .notObject => "Input should be a valid dictionary"
  | .notText => "Input should be a valid string"
  | .notUnicode => "Input should be a valid string, unable to parse raw data as a unicode string"
  | .notPath => "Input is not a valid path for <class 'pathlib.Path'>"
  | .kindOfMeta => "Value error, meta entry needs exactly one of 'binary' or 'hex'"

/-- A problem, and the keys and indices that lead to it. -/
structure ModelError where
  location : List Text
  problem : ModelProblem
  deriving DecidableEq

/-- The result of looking at a value: what it describes, or all that is wrong. -/
abbrev Modelled (α : Type) := Except (List ModelError) α

namespace Modelled

/-- All that is wrong. -/
def errors {α : Type} : Modelled α → List ModelError
  | .ok _ => []
  | .error es => es

/-- A single problem with the value itself. -/
def problem {α : Type} (p : ModelProblem) : Modelled α :=
  .error [{ location := [], problem := p }]

/-- The result, seen from the value around. -/
def inside {α : Type} (part : Text) (r : Modelled α) : Modelled α :=
  r.mapError fun es => es.map fun e => { e with location := part :: e.location }

/-- All values, or all that is wrong with them. -/
def all {α : Type} : List (Modelled α) → Modelled (List α)
  | [] => .ok []
  | r :: rest => match r, all rest with
    | .ok a, .ok as => .ok (a :: as)
    | r, rs => .error (r.errors ++ rs.errors)

end Modelled

namespace Model

/-! ### Parts -/

/-- A key as locations show it: a surrogate is shown as the three bytes it would take, none of
which shows. -/
def shownKey (k : Text) : Text :=
  k.flatMap fun c => if c.isSurrogate then List.replicate 3 (.ofNat 0xFFFD) else [c]

/-- The entries of an object, with their keys. -/
def entriesOf (entries : List (Value × Value)) : List (Text × Value) :=
  entries.filterMap fun e => e.1.text?.map fun k => (k, e.2)

/-- A path. -/
def path : Value → Modelled Path
  | .text t => .ok (Path.ofText t)
  | _ => Modelled.problem .notPath

/-- A path that may be absent. -/
def path? : Value → Modelled (Option Path)
  | .null => .ok none
  | v => (path v).map some

/-- A text; bytes may spell one. -/
def text : Value → Modelled Text
  | .text t => .ok t
  | .bytes b => match Utf8.decode b with
    | .ok t => .ok t
    | .error _ => Modelled.problem .notUnicode
  | _ => Modelled.problem .notText

/-- The items of a list, each looked at. -/
def listOf {α : Type} (item : Value → Modelled α) (v : Value) : Modelled (List α) :=
  let items? := match v with
    | .list items => some items
    | .set members => some members
    | .pair a b => some [a, b]
    | _ => none
  match items? with
  | none => Modelled.problem .notList
  | some items => Modelled.all (items.zipIdx.map fun (v, i) => (item v).inside (Text.ofNat i))

/-- The values of an object, each looked at. -/
def objectOf {α : Type} (value : Value → Modelled α) : Value → Modelled (List (Text × α))
  | .mapping entries =>
    let entry (e : Text × Value) : Modelled (Text × α) := do
      return (e.1, ← (value e.2).inside (shownKey e.1))
    Modelled.all ((entriesOf entries).map entry)
  | _ => Modelled.problem .notObject

/-- The value of a field under the first of its keys that occurs, and that key. -/
def found? (keys : List Text) (entries : List (Value × Value)) : Option (Text × Value) :=
  keys.findSome? fun k => (Value.fieldOf? k entries).map fun v => (k, v)

/-- A field that has to be there, under one of its keys. -/
def required {α : Type} (keys : List Text) (look : Value → Modelled α)
    (entries : List (Value × Value)) : Modelled α :=
  match found? keys entries with
  | some (k, v) => (look v).inside k
  | none => (Modelled.problem .missing).inside (keys.headD [])

/-- A field that may be left out. -/
def optional {α : Type} (key : Text) (default : α) (look : Value → Modelled α)
    (entries : List (Value × Value)) : Modelled α :=
  match Value.fieldOf? key entries with
  | some v => (look v).inside key
  | none => .ok default

/-- The errors for the keys that belong to no field; `fields` gives the keys of each one, of
which the first that occurs is used. -/
def extras (fields : List (List Text)) (entries : List (Value × Value)) : List ModelError :=
  let used := fields.filterMap fun keys => (found? keys entries).map Prod.fst
  ((entriesOf entries).filter fun e => !used.contains e.1).map fun e =>
    { location := [e.1], problem := .extra }

/-- Whether some key has a surrogate; then nothing else is reported. -/
def hasBrokenKey (entries : List (Value × Value)) : Bool :=
  (entriesOf entries).any fun e => e.1.any CodePoint.isSurrogate

/-- What the entries of an object describe, given what is wrong with them. -/
def finish {α : Type} (entries : List (Value × Value)) (errors : List ModelError)
    (result : Modelled α) : Modelled α :=
  if hasBrokenKey entries then Modelled.problem .notUnicode
  else if errors.isEmpty then result
  else .error errors

end Model

open Model

/-! ### Meta files -/

/-- The meta file with a binary or a hexadecimal path, but not with both. -/
def MetaEntry.ofPaths : Option Path → Option Path → Modelled MetaEntry
  | some p, none => .ok (.binary p)
  | none, some p => .ok (.hex p)
  | _, _ => Modelled.problem .kindOfMeta

/-- The meta file that a value describes. -/
def MetaEntry.ofDocument : Value → Modelled MetaEntry
  | .mapping entries =>
    let binary := optional "binary" none path? entries
    let hex := optional "hex" none path? entries
    finish entries (binary.errors ++ hex.errors ++ extras [["binary"], ["hex"]] entries) do
      MetaEntry.ofPaths (← binary) (← hex)
  | _ => Modelled.problem (.notModel "MetaEntry")

/-! ### Deployers -/

/-- The deployer that a value describes. -/
def DeployerConfig.ofDocument : Value → Modelled DeployerConfig
  | .mapping entries =>
    let metaKeys : List Text := ["constructionMeta", "construction_meta"]
    let deployerKeys : List Text := ["expressionDeployer", "expression_deployer"]
    let constructionMeta := required metaKeys MetaEntry.ofDocument entries
    let expressionDeployer := required deployerKeys path entries
    let parser := required ["parser"] path entries
    let store := required ["store"] path entries
    let interpreter := required ["interpreter"] path entries
    let others := extras [metaKeys, deployerKeys, ["parser"], ["store"], ["interpreter"]] entries
    let errors := constructionMeta.errors ++ expressionDeployer.errors ++ parser.errors
      ++ store.errors ++ interpreter.errors ++ others
    finish entries errors do
      return {
        constructionMeta := ← constructionMeta
        expressionDeployer := ← expressionDeployer
        parser := ← parser
        store := ← store
        interpreter := ← interpreter }
  | _ => Modelled.problem (.notModel "DeployerConfig")

/-! ### Configurations -/

/-- The configuration that a value describes. -/
def Config.ofDocument : Value → Modelled Config
  | .mapping entries =>
    let roots := optional "include" [] (listOf path) entries
    let subgraphs := optional "subgraphs" [] (listOf text) entries
    let metas := optional "meta" [] (listOf MetaEntry.ofDocument) entries
    let deployers := optional "deployers" [] (objectOf DeployerConfig.ofDocument) entries
    let others := extras [["include"], ["subgraphs"], ["meta"], ["deployers"]] entries
    let errors := roots.errors ++ subgraphs.errors ++ metas.errors ++ deployers.errors ++ others
    finish entries errors do
      return {
        roots := ← roots
        subgraphs := ← subgraphs
        metas := ← metas
        deployers := ← deployers }
  | _ => Modelled.problem (.notModel "RainConfig")

end RainMeta
