import RainMeta.Document.Mapping
import RainMeta.FileTree
import RainMeta.Path
import RainMeta.Platform
import RainMeta.Schema.Packaged
import RainMeta.Schema.Reader
import RainMeta.Table
import RainMeta.Text.Blank
import RainMeta.Text.Utf8

/-!
# Registries of schemas

A registry finds schemas by their names, reads each of them once, and checks documents against
them.

* `SchemaSource`: where schemas are found; `SchemaSource.schema` reads one.
* `Registry`: a source with the schemas read so far.
* `Registry.validate`: checks a document and reports the most telling violation.
-/

namespace RainMeta

/-! ### Refusals -/

/-- Why a registry does not accept a document. -/
inductive SchemaRefusal
  /-- The name of the schema is blank. -/
  | nameMissing
  | notFound (path : Path)
  | notMapping (path : Path)
  /-- What the file holds is no schema. -/
  | invalid (name message : Text)
  /-- The document breaks the schema. -/
  | violated (name location message : Text)
  deriving DecidableEq

/-- The words for it. -/
def SchemaRefusal.message : SchemaRefusal → Text
  | .nameMissing => "schema_name is required"
  | .notFound path => "schema not found: " ++ path.text
  | .notMapping path => "schema is not a mapping: " ++ path.text
  | .invalid name message => name ++ ":schema is invalid:" ++ message
  | .violated name location message => Text.join ":" [name, location, message]

/-- Why a document is not checked to the end. -/
inductive SchemaFault
  | refusal (cause : SchemaRefusal)
  /-- The file cannot be opened. -/
  | unreadable (path : Path) (cause : AccessError)
  /-- The file holds no text. -/
  | undecodable (cause : DecodeError)
  /-- The text spells no document. -/
  | malformed (cause : Yaml.Error)
  /-- The document stands for no mapping. -/
  | notMapping (cause : MappingDefect)
  /-- A message would show an integer of too many digits. -/
  | digits (cause : DigitLimit)
  deriving DecidableEq

/-! ### Sources -/

/-- Where schemas are found. -/
inductive SchemaSource
  /-- The one schema for configurations that is known without any file. -/
  | packaged
  /-- The files of a directory. -/
  | directory (root : Path)

namespace SchemaSource

/-- The name of the schema for configurations. -/
def configurationName : Text := "rainconfig.schema.yaml"

/-- The directory that the paths of schemas are seen from. -/
def root : SchemaSource → Path
  | packaged => Path.ofText "schemas"
  | directory root => root

variable [Platform]

/-- The document in the file of a schema. -/
def document (tree : FileTree) (path : Path) : Except SchemaFault Value := do
  let bytes ← match tree.readFile path.text with
    | .ok bytes => pure bytes
    | .error (.os .noEntry) => throw (.refusal (.notFound path))
    | .error cause => throw (.unreadable path cause)
  let text ← (Utf8.decode bytes).mapError .undecodable
  (Platform.yaml .byValue text.unifyLineEnds).mapError .malformed

/-- The schema of a name without blanks around it. -/
def schema (tree : FileTree) (source : SchemaSource) (name : Text) : Except SchemaFault Schema := do
  let path := source.root.join (Path.ofText name)
  match source with
  | packaged =>
    if path = source.root.join (Path.ofText configurationName) then return Schema.configuration
    else throw (.refusal (.notFound path))
  | directory _ =>
    match ← document tree path with
    | .mapping entries =>
      match Schema.ofDocument (.mapping entries) with
      | .ok s => return s
      | .error (.broken message) => throw (.refusal (.invalid name message))
      | .error (.digits cause) => throw (.digits cause)
    | _ => throw (.refusal (.notMapping path))

end SchemaSource

/-! ### Registries -/

/-- A source of schemas with those that have been read, under their names without blanks around
them. -/
structure Registry where
  source : SchemaSource
  known : Table Text Schema := .empty

namespace Registry

/-- Checks a document, as the mapping that it stands for, against a schema that goes by a name. -/
def check (name : Text) (schema : Schema) (v : Value) : Except SchemaFault Unit := do
  let entries ← v.asMapping.mapError .notMapping
  let violations ← (schema.violations (.mapping entries)).mapError .digits
  match Violation.best? violations with
  | none => return ()
  | some violation => throw (.refusal (.violated name violation.location violation.message))

variable [Platform]

/-- The schema of a name, and the registry that knows it. Nothing is kept of a schema that
cannot be read. -/
def schema (tree : FileTree) (r : Registry) (name : Text) : Except SchemaFault Schema × Registry :=
  let name := name.strip
  if name.isEmpty then (.error (.refusal .nameMissing), r)
  else match r.known.find? name with
    | some s => (.ok s, r)
    | none =>
      match r.source.schema tree name with
      | .ok s => (.ok s, { r with known := r.known.set name s })
      | .error fault => (.error fault, r)

/-- Checks a document against the schema of a name. -/
def validate (tree : FileTree) (r : Registry) (name : Text) (v : Value) :
    Except SchemaFault Unit × Registry :=
  let (found, r) := r.schema tree name
  (found.bind fun s => check name s v, r)

end Registry

end RainMeta
