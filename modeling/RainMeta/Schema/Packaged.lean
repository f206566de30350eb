import RainMeta.Schema.Reader

/-!
# The schema of configurations

* `Schema.configuration`: which documents are configurations: objects with directories,
  subgraphs, meta files and deployers.
* `Schema.configurationDocument`: the document that describes it. There the schemas of meta files
  and of deployers are definitions that are referred to.
-/

namespace RainMeta.Schema

/-- A text that is not empty. -/
def nonEmptyText : Schema :=
  .rules [.types [.string], .minLength 1]

/-- A list whose items follow a schema. -/
def listOf (item : Schema) : Schema :=
  .rules [.types [.array], .items item]

/-- A meta file: an object with one key, for its kind, and a path. -/
def metaEntry : Schema :=
  .rules [.types [.object], .additionalProperties [.text "binary", .text "hex"] (.always false),
    .minProperties 1, .maxProperties 1,
    .properties [(.text "binary", nonEmptyText), (.text "hex", nonEmptyText)]]

/-- The keys of a deployer. -/
def deployerKeys : List Text :=
  ["constructionMeta", "expressionDeployer", "parser", "store", "interpreter"]

/-- A deployer: a meta file and four paths. -/
def deployer : Schema :=
  .rules [.types [.object], .additionalProperties (deployerKeys.map .text) (.always false),
    .required deployerKeys,
    .properties [(.text "constructionMeta", metaEntry), (.text "expressionDeployer", nonEmptyText),
      (.text "parser", nonEmptyText), (.text "store", nonEmptyText),
      (.text "interpreter", nonEmptyText)]]

/-- A configuration. All of its fields may be left out. -/
def configuration : Schema :=
  .rules [.types [.object],
    .additionalProperties
      [.text "include", .text "subgraphs", .text "meta", .text "deployers"] (.always false),
    .properties [(.text "include", listOf nonEmptyText), (.text "subgraphs", listOf nonEmptyText),
      (.text "meta", listOf metaEntry),
      (.text "deployers", .rules [.types [.object], .additionalProperties [] deployer])]]

/-! ### The document -/

/-- The document for a text that is not empty. -/
def textDocument : Value :=
  .mapping [(.text "type", .text "string"), (.text "minLength", .int 1)]

/-- The same with a description. -/
def describedDocument (description : Text) : Value :=
  .mapping [(.text "description", .text description), (.text "type", .text "string"),
    (.text "minLength", .int 1)]

/-- The document that refers to a definition. -/
def referenceDocument (name : Text) : Value :=
  .mapping [(.text "$ref", .text (definitionsPrefix ++ name))]

/-- The document for a meta file. -/
def metaEntryDocument : Value :=
  .mapping [(.text "type", .text "object"), (.text "additionalProperties", .bool false),
    (.text "minProperties", .int 1), (.text "maxProperties", .int 1),
    (.text "properties", .mapping
      [(.text "binary", describedDocument "Path to a binary meta file."),
        (.text "hex", describedDocument
          "Path to a text file holding the meta as a hex string.")])]

/-- The document for a deployer. -/
def deployerDocument : Value :=
  .mapping [(.text "type", .text "object"), (.text "additionalProperties", .bool false),
    (.text "required", .list (deployerKeys.map .text)),
    (.text "properties", .mapping
      [(.text "constructionMeta", referenceDocument "metaEntry"),
        (.text "expressionDeployer", textDocument), (.text "parser", textDocument),
        (.text "store", textDocument), (.text "interpreter", textDocument)])]

/-- **The document for a configuration.** -/
def configurationDocument : List (Value × Value) :=
  [(.text "$schema", .text "https://json-schema.org/draft/2020-12/schema"),
    (.text "title", .text "rainconfig"),
    (.text "description", .text ("rainconfig.json provides configuration details and " ++
      "information required for the .rain composer. Usually it is placed at the root directory " ++
      "of the workspace and named 'rainconfig.json', but any path can be passed to the CLI with " ++
      "--config. All fields are optional.")),
    (.text "type", .text "object"),
    (.text "additionalProperties", .bool false),
    (.text "properties", .mapping
      [(.text "include", .mapping
        [(.text "description", .text ("Directories to be included. Folders are searched " ++
          "recursively for .rain files, which become available as dotrain meta in the store so " ++
          "their hash resolves when referenced from a composition target.")),
          (.text "type", .text "array"), (.text "items", textDocument)]),
      (.text "subgraphs", .mapping
        [(.text "description", .text ("Additional subgraph endpoint URLs to include when " ++
          "searching for metas of meta hashes specified in a rainlang document.")),
          (.text "type", .text "array"), (.text "items", textDocument)]),
      (.text "meta", .mapping
        [(.text "description", .text ("Local meta files, either binary or utf8 encoded text " ++
          "files containing a hex string starting with 0x.")),
          (.text "type", .text "array"), (.text "items", referenceDocument "metaEntry")]),
      (.text "deployers", .mapping
        [(.text "description", .text ("ExpressionDeployer data sets keyed by their hash. " ++
          "'expressionDeployer', 'parser', 'store' and 'interpreter' point to contract json " ++
          "artifacts where bytecode and deployed bytecode can be read from, and " ++
          "'constructionMeta' is specified the same as any other meta.")),
          (.text "type", .text "object"),
          (.text "additionalProperties", referenceDocument "deployer")])]),
    (.text "$defs", .mapping
      [(.text "metaEntry", metaEntryDocument), (.text "deployer", deployerDocument)])]

/-- **The document describes the schema of configurations.** -/
theorem ofReferring_configurationDocument :
    ofReferring configurationDocument = .ok configuration := by
  rfl

end RainMeta.Schema
