import RainMeta.Config.Expansion
import RainMeta.Config.Model
import RainMeta.Failure
import RainMeta.Json.Reader
import RainMeta.Schema.Registry

/-!
# Loading configurations

A configuration comes from a document: variables are expanded, the document is checked against
the schema, and then it is turned into paths, metas and deployers. Relative paths are seen
from the directory of the file.

* `Config.parse`: the configuration in a document.
* `Config.load`: the configuration in a file, which is JSON or YAML as its suffix says.
* `ConfigFault`: why there is none.
-/

namespace RainMeta

/-! ### Faults -/

/-- What is wrong with a configuration. -/
inductive ConfigProblem
  | unreadable (path : Path) (cause : OsError)
  | undecodable (cause : DecodeError)
  | notJson (cause : Json.SyntaxError)
  | notYaml
  /-- A value is of a kind that cannot stand where it does. -/
  | kind (message : Text)
  | notMapping
  | environment (message : Text)
  | schema (cause : SchemaRefusal)
  | model (errors : List ModelError)
  deriving DecidableEq

namespace ConfigProblem

/-- The code of a problem. -/
def code : ConfigProblem → Text
  | .unreadable .. | .undecodable _ => "RAINCONFIG_UNREADABLE"
  | .notJson _ | .notYaml | .kind _ => "RAINCONFIG_PARSE_FAILED"
  | .notMapping => "RAINCONFIG_NOT_A_MAPPING"
  | .environment _ => "RAINCONFIG_ENV_MISSING"
  | .schema _ => "RAINCONFIG_SCHEMA_INVALID"
  | .model _ => "RAINCONFIG_INVALID"

/-- The details of a problem. -/
def detail : ConfigProblem → Option Text
  | .unreadable path cause => some (cause.message path.text)
  | .undecodable cause => some cause.message
  | .notJson cause => some cause.message
  | .kind message => some message
  | .environment message => some message
  | .schema cause => some cause.message
  | .notYaml | .notMapping | .model _ => none

/-- The code, the source and the details, with colons between. -/
def message (p : ConfigProblem) (source : Text) : Text :=
  Failure.wording p.code (some source) p.detail

end ConfigProblem

/-- What ends loading without being a problem of the configuration. -/
inductive ConfigCrash
  /-- A path cannot be used at all. -/
  | access (path : Path) (cause : AccessError)
  | digits (cause : DigitLimit)
  | tooDeep
  /-- A scalar has no value. -/
  | value (defect : Yaml.ValueDefect)
  /-- The schema cannot be read. -/
  | schemaUndecodable (cause : DecodeError)
  | schemaMalformed
  /-- A value in the schema is of a kind that cannot stand where it does. -/
  | schemaKind (message : Text)
  /-- The document stands for no mapping. -/
  | notMapping (cause : MappingDefect)
  deriving DecidableEq

/-- The words for it. -/
def ConfigCrash.message : ConfigCrash → Text
  | .access path cause => cause.message path.text
  | .digits cause => cause.message
  | .tooDeep => Crash.tooDeep.message
  | .value defect => defect.message
  | .schemaUndecodable cause => cause.message
  | .schemaMalformed => "the schema is malformed"
  | .schemaKind message => message
  | .notMapping cause => cause.message

/-- Why there is no configuration. -/
inductive ConfigFault
  | problem (source : Text) (cause : ConfigProblem)
  | crash (cause : ConfigCrash)
  deriving DecidableEq

/-- A refusal of the schema is a problem of the configuration; that a schema cannot be read is
none. -/
def ConfigFault.ofSchemaFault (source : Text) : SchemaFault → ConfigFault
  | .refusal cause => .problem source (.schema cause)
  | .unreadable path cause => .crash (.access path cause)
  | .undecodable cause => .crash (.schemaUndecodable cause)
  | .malformed .malformed => .crash .schemaMalformed
  | .malformed (.kind message) => .crash (.schemaKind message)
  | .malformed (.value defect) => .crash (.value defect)
  | .malformed .tooDeep => .crash .tooDeep
  | .notMapping cause => .crash (.notMapping cause)
  | .digits cause => .crash (.digits cause)

namespace Config

variable [Platform]

/-! ### Documents -/

/-- The text that stands for the source of a document without a file. -/
def unnamedSource : Text := "<payload>"

/-- Variables expanded. -/
def expanded (env : Environment) (source : Text) (payload : Value) : Except ConfigFault Value :=
  (Expansion.expand env payload).mapError fun
    | .missing reference =>
      .problem source (.environment ("missing environment variable: " ++ reference))
    | .unencodable cause => .problem source (.environment cause.message)
    | .digits cause => .problem source (.environment cause.message)
    | .tooDeep => .crash .tooDeep

/-- Checked against the schema for configurations. -/
def checked (tree : FileTree) (registry : Registry) (source : Text) (payload : Value) :
    Except ConfigFault Unit :=
  (registry.validate tree SchemaSource.configurationName payload).1.mapError
    (ConfigFault.ofSchemaFault source)

/-- The configuration in a document. Without a base its paths stay as they are. -/
def parse (tree : FileTree) (env : Environment) (registry : Registry) (base : Option Path)
    (source : Text) (payload : Value) : Except ConfigFault Config := do
  let payload ← expanded env source payload
  checked tree registry source payload
  let config ← (Config.ofDocument payload).mapError fun errors => .problem source (.model errors)
  return match base with
    | some base => config.resolved base
    | none => config

/-! ### Files -/

/-- The text of a file, with line feeds as its only line ends. -/
def readText (tree : FileTree) (path : Path) : Except ConfigFault Text := do
  match tree.readFile path.text with
  | .error (.os cause) => throw (.problem path.text (.unreadable path cause))
  | .error cause => throw (.crash (.access path cause))
  | .ok bytes =>
    let text ← (Utf8.decode bytes).mapError fun cause => .problem path.text (.undecodable cause)
    return text.unifyLineEnds

/-- Whether a file is JSON; any other file is YAML. -/
def isJson (path : Path) : Bool :=
  path.suffix.toLower = ".json"

/-- The document in the text of a file. -/
def readDocument (path : Path) (text : Text) : Except ConfigFault Value :=
  if isJson path then
    (Json.read text).mapError fun
      | .malformed cause => .problem path.text (.notJson cause)
      | .encoding cause => .problem path.text (.undecodable cause)
      | .digits cause => .crash (.digits cause)
      | .tooDeep => .crash .tooDeep
  else
    (Platform.yaml .asWritten text).mapError fun
      | .malformed => .problem path.text .notYaml
      | .kind message => .problem path.text (.kind message)
      | .value defect => .crash (.value defect)
      | .tooDeep => .crash .tooDeep

/-- The configuration in a file. An empty document is an empty configuration. -/
def load (tree : FileTree) (env : Environment) (registry : Registry) (path : Path) :
    Except ConfigFault Config := do
  match ← readDocument path (← readText tree path) with
  | .null => parse tree env registry (some path.parent) path.text (.mapping [])
  | .mapping entries => parse tree env registry (some path.parent) path.text (.mapping entries)
  | _ => throw (.problem path.text .notMapping)

end Config

end RainMeta
