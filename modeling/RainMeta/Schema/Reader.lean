import RainMeta.Schema

/-!
# Reading schemas

* `Schema.ofDocument`: the schema that a document describes. The document is first checked
  against the rules for schemas; `SchemaDefect` is the first of these rules that is broken.
* `Schema.ofReferring`: the schema of a document that refers to definitions in it.

Rules for schemas are looked at group by group: those for names and for schemas inside come
before those for what values are asked for.

Of the vocabulary of schemas only eight rules are known, which are those of the schema for
configurations. A document that uses another one describes no schema here (`Schema.foreignRules`);
that is how it is kept from being read as a schema that asks for less. References to definitions
belong there, and have to be replaced by them first (`Schema.inlined`). Keys outside the vocabulary
only comment.
-/

namespace RainMeta

/-- Why a document describes no schema. -/
inductive SchemaDefect
  /-- A rule for schemas is broken. -/
  | broken (message : Text)
  /-- The message would show an integer of too many digits. -/
  | digits (cause : DigitLimit)
  deriving DecidableEq

namespace Schema

/-- The defect that a value is not what the words ask for. -/
def defect {α : Type} (v : Value) (words : Text) : Except SchemaDefect α :=
  match v.quoted with
  | .ok shown => .error (.broken (shown ++ words))
  | .error cause => .error (.digits cause)

/-- The rules of the vocabulary that are not known here. -/
def foreignRules : List String :=
  ["$ref", "$dynamicRef", "$defs", "definitions", "$anchor", "$dynamicAnchor", "$vocabulary",
   "allOf", "anyOf", "oneOf", "not", "if", "then", "else", "dependentSchemas", "dependencies",
   "prefixItems", "contains", "minContains", "maxContains", "patternProperties", "propertyNames",
   "unevaluatedItems", "unevaluatedProperties", "const", "enum", "multipleOf", "minimum",
   "maximum", "exclusiveMinimum", "exclusiveMaximum", "maxLength", "pattern", "minItems",
   "maxItems", "uniqueItems", "dependentRequired", "format", "contentEncoding",
   "contentMediaType", "contentSchema", "default", "deprecated", "readOnly", "writeOnly",
   "examples"]

/-! ### Checks of single fields -/

/-- Checks the value of a field, if the field is there. -/
def checkField (entries : List (Value × Value)) (name : Text)
    (check : Value → Except SchemaDefect Unit) : Except SchemaDefect Unit :=
  match Value.fieldOf? name entries with
  | some v => check v
  | none => .ok ()

/-- The value is a text. -/
def checkText (v : Value) : Except SchemaDefect Unit :=
  if TypeName.string.holds v then .ok () else defect v " is not of type 'string'"

/-- The value is a number of things. -/
def checkCount (v : Value) : Except SchemaDefect Unit :=
  if !TypeName.integer.holds v then defect v " is not of type 'integer'"
  else
    let negative : Bool := match v with
      | .int i => i < 0
      | .float x => x.toInt?.any fun i => i < 0
      | _ => false
    if negative then defect v " is less than the minimum of 0" else .ok ()

/-- The value is a list of different texts. -/
def checkNames : Value → Except SchemaDefect Unit
  | .list items => do
    items.forM checkText
    let names := items.filterMap Value.text?
    if names.eraseDups.length = items.length then return ()
    else defect (.list items) " has non-unique elements"
  | v => defect v " is not of type 'array'"

/-- The type with a name. -/
def typeName? (v : Value) : Option TypeName :=
  TypeName.all.find? fun name => v.isText name.text

/-- The types that a value names: one, or several different ones. -/
def typeNames? : Value → Option (List TypeName)
  | .list items => match items.mapM typeName? with
    | some names => if names ≠ [] && names.eraseDups.length = names.length then some names else none
    | none => none
  | v => (typeName? v).map fun name => [name]

/-- The value names types. -/
def checkTypes (v : Value) : Except SchemaDefect Unit :=
  if (typeNames? v).isSome then .ok () else defect v " is not valid under any of the given schemas"

/-- The number that a value is. -/
def countOf : Value → Nat
  | .int i => i.toNat
  | .float x => (x.toInt?.getD 0).toNat
  | _ => 0

/-! ### Schemas inside schemas -/

mutual

/-- Checks that a value describes a schema. -/
def check : Value → Except SchemaDefect Unit
  | .bool _ => .ok ()
  | .mapping entries => do
    for name in ["$id", "$schema", "$comment"] do
      checkField entries name checkText
    checkUnder "items" entries
    checkUnder "additionalProperties" entries
    checkProperties entries
    checkField entries "type" checkTypes
    checkField entries "minLength" checkCount
    checkField entries "maxProperties" checkCount
    checkField entries "minProperties" checkCount
    checkField entries "required" checkNames
    checkField entries "title" checkText
    checkField entries "description" checkText
    for name in foreignRules do
      checkField entries name fun _ =>
        .error (.broken ((name : Text) ++ " is no rule that is known here"))
  | v => defect v " is not of type 'object', 'boolean'"

/-- Checks that the value of a field describes a schema, if the field is there. -/
def checkUnder (name : Text) : List (Value × Value) → Except SchemaDefect Unit
  | [] => .ok ()
  | (k, v) :: rest => if k.isText name then check v else checkUnder name rest

/-- Checks that the field of properties, if it is there, holds schemas. -/
def checkProperties : List (Value × Value) → Except SchemaDefect Unit
  | [] => .ok ()
  | (k, .mapping schemas) :: rest =>
    if k.isText "properties" then checkAll schemas else checkProperties rest
  | (k, v) :: rest =>
    if k.isText "properties" then defect v " is not of type 'object'" else checkProperties rest

/-- Checks that all values describe schemas. -/
def checkAll : List (Value × Value) → Except SchemaDefect Unit
  | [] => .ok ()
  | (_, v) :: rest => do
    check v
    checkAll rest

end

/-! ### The rules of a schema -/

/-- The keys that have schemas of their own in a schema. -/
def knownKeys (entries : List (Value × Value)) : List Value :=
  match Value.fieldOf? "properties" entries with
  | some (.mapping schemas) => schemas.map Prod.fst
  | _ => []

mutual

/-- The schema that a checked value describes. -/
def ofChecked : Value → Schema
  | .bool allowed => .always allowed
  | .mapping entries => .rules (keywordsOf (knownKeys entries) entries)
  | _ => .always true

/-- The rules that fields describe, in their order. Fields that only comment give none. -/
def keywordsOf (known : List Value) : List (Value × Value) → List Keyword
  | [] => []
  | (name, v) :: rest =>
    let others := keywordsOf known rest
    if name.isText "type" then .types ((typeNames? v).getD []) :: others
    else if name.isText "required" then
      .required (match v with
        | .list items => items.filterMap Value.text?
        | _ => []) :: others
    else if name.isText "items" then .items (ofChecked v) :: others
    else if name.isText "minLength" then .minLength (countOf v) :: others
    else if name.isText "minProperties" then .minProperties (countOf v) :: others
    else if name.isText "maxProperties" then .maxProperties (countOf v) :: others
    else if name.isText "properties" then
      .properties (match v with
        | .mapping schemas => schemasOf schemas
        | _ => []) :: others
    else if name.isText "additionalProperties" then
      .additionalProperties known (ofChecked v) :: others
    else others

/-- The schemas of several keys. -/
def schemasOf : List (Value × Value) → List (Value × Schema)
  | [] => []
  | (k, v) :: rest => (k, ofChecked v) :: schemasOf rest

end

/-- The schema that a document describes. -/
def ofDocument (v : Value) : Except SchemaDefect Schema := do
  check v
  return ofChecked v

/-! ### Definitions -/

/-- How references to the definitions of a document begin. -/
def definitionsPrefix : Text := "#/$defs/"

/-- The definition that a mapping refers to, if that is all that it does. -/
def referred? (definitions : List (Value × Value)) : List (Value × Value) → Option Value
  | [(k, .text target)] =>
    if k.isText "$ref" && definitionsPrefix.isPrefixOf target then
      Value.fieldOf? (target.drop definitionsPrefix.length) definitions
    else none
  | _ => none

mutual

/-- A value with definitions in place of the references to them. References inside the definitions
stay. -/
def inlined (definitions : List (Value × Value)) : Value → Value
  | .mapping entries =>
    (referred? definitions entries).getD (.mapping (inlinedEntries definitions entries))
  | v => v

/-- The same for the values of a mapping. -/
def inlinedEntries (definitions : List (Value × Value)) :
    List (Value × Value) → List (Value × Value)
  | [] => []
  | (k, v) :: rest => (k, inlined definitions v) :: inlinedEntries definitions rest

end

/-- The same, several times. -/
def inlinedTimes (definitions : List (Value × Value)) : Nat → Value → Value
  | 0, v => v
  | n + 1, v => inlinedTimes definitions n (inlined definitions v)

/-- The schema of a document that refers to definitions in it. As often as there are definitions,
references are replaced; if some are left then, definitions refer to each other in a circle. -/
def ofReferring (entries : List (Value × Value)) : Except SchemaDefect Schema :=
  match Value.fieldOf? "$defs" entries with
  | some (.mapping definitions) =>
    let rest := entries.filter fun e => !e.1.isText "$defs"
    ofDocument (inlinedTimes definitions definitions.length (.mapping rest))
  | _ => ofDocument (.mapping entries)

end Schema

end RainMeta
