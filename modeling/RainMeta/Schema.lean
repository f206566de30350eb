import RainMeta.Document.Quoted

/-!
# Schemas

A schema says which values a document may hold. Values that break it are reported with the
place where they stand, and of all such reports the most telling one is singled out.

* `Schema`, `Keyword`: a schema is a list of rules, or allows everything or nothing.
* `Schema.violations`: all the ways in which a value breaks a schema, in the order of the
  rules.
* `Violation.best?`: the violation to report.
-/

namespace RainMeta

/-- The types that a schema can ask for. -/
inductive TypeName
  | array | boolean | integer | null | number | object | string
  deriving DecidableEq

/-- How a type is written. -/
def TypeName.text : TypeName → Text
  | .array => "array"
  | .boolean => "boolean"
  | .integer => "integer"
  | .null => "null"
  | .number => "number"
  | .object => "object"
  | .string => "string"

/-- All types. -/
def TypeName.all : List TypeName :=
  [.array, .boolean, .integer, .null, .number, .object, .string]

/-- Whether a value has a type. A floating point number without fraction is an integer too,
and truth values are no numbers. -/
def TypeName.holds : TypeName → Value → Bool
  | .array, .list _ => true
  | .boolean, .bool _ => true
  | .integer, .int _ => true
  | .integer, .float x => x.toInt?.isSome
  | .null, .null => true
  | .number, .int _ => true
  | .number, .float _ => true
  | .object, .mapping _ => true
  | .string, .text _ => true
  | _, _ => false

mutual

/-- What a document may hold. -/
inductive Schema
  /-- Everything, or nothing. -/
  | always (allowed : Bool)
  /-- What all rules allow. -/
  | rules (keywords : List Keyword)

/-- A rule of a schema. Rules for other types than the one of a value do not concern it. -/
inductive Keyword
  /-- The value has one of these types. -/
  | types (names : List TypeName)
  /-- The object has these keys. -/
  | required (names : List Text)
  /-- Every item of the list follows a schema. -/
  | items (schema : Schema)
  /-- The text has at least so many code points. -/
  | minLength (n : Nat)
  /-- The object has at least so many keys. -/
  | minProperties (n : Nat)
  /-- The object has at most so many keys. -/
  | maxProperties (n : Nat)
  /-- The values of certain keys follow schemas of their own. -/
  | properties (schemas : List (Value × Schema))
  /-- The values of all keys but the known ones follow a schema. -/
  | additionalProperties (known : List Value) (schema : Schema)

end

/-- A step from a value into it. -/
inductive PathPart
  | key (name : Text)
  | index (n : Nat)
  deriving DecidableEq

/-- How a step is written. -/
def PathPart.text : PathPart → Text
  | .key name => name
  | .index n => Text.ofNat n

/-- Whether a step comes before another one; steps into the same value are of one kind. -/
def PathPart.lt : PathPart → PathPart → Bool
  | .key a, .key b => Text.le a b && a != b
  | .index m, .index n => m < n
  | .index _, .key _ => true
  | .key _, .index _ => false

/-- A way in which a value breaks a schema. -/
structure Violation where
  /-- Where the value stands. -/
  path : List PathPart
  message : Text
  /-- Whether the value has the type that the broken schema asks for. -/
  typeMatches : Bool
  deriving DecidableEq

namespace Violation

/-- Whether the first of two paths of equal length comes before the second. -/
def pathLt : List PathPart → List PathPart → Bool
  | p :: ps, q :: qs => p.lt q || (p == q && pathLt ps qs)
  | [], _ :: _ => true
  | _, [] => false

/-- Whether a violation tells more than another one: it stands less deep, else further back,
else its value has not even the right type. -/
def tellsMore (v w : Violation) : Bool :=
  v.path.length < w.path.length
    || (v.path.length == w.path.length
      && (pathLt w.path v.path || (v.path == w.path && !v.typeMatches && w.typeMatches)))

/-- The first violation that tells at least as much as all others. -/
def best? : List Violation → Option Violation
  | [] => none
  | v :: rest => some (rest.foldl (fun best w => if w.tellsMore best then w else best) v)

/-- The place of the violation, as it is written. -/
def location (v : Violation) : Text :=
  let written := Text.join "." (v.path.map PathPart.text)
  if written.isEmpty then "<root>" else written

end Violation

namespace Schema

/-- The types that the rules of a schema ask for, if they do. -/
def typesOf (keywords : List Keyword) : Option (List TypeName) :=
  keywords.findSome? fun
    | .types names => some names
    | _ => none

/-- A violation at the value itself. -/
def violation (keywords : List Keyword) (v : Value) (message : Text) : Violation :=
  { path := [], message
    typeMatches := match typesOf keywords with
      | none => false
      | some names => names.any fun name => name.holds v }

/-- The violation, seen from the value above. -/
def inside (part : PathPart) (v : Violation) : Violation :=
  { v with path := part :: v.path }

/-- A value followed by words about it, as the only violation. -/
def about (keywords : List Keyword) (v : Value) (words : Text) :
    Except DigitLimit (List Violation) := do
  return [violation keywords v ((← v.quoted) ++ words)]

/-- The violation of a schema that allows nothing. -/
def forbidden (v : Value) : Except DigitLimit (List Violation) := do
  let shown ← v.quoted
  return [{ path := [], message := "False schema does not allow " ++ shown, typeMatches := false }]

/-- The entries of an object with text keys. -/
def textEntries (entries : List (Value × Value)) : List (Text × Value) :=
  entries.filterMap fun e => e.1.text?.map fun k => (k, e.2)

/-- The message about keys that a schema does not know. -/
def unexpected (keys : List Text) : Text :=
  let names := (keys.mergeSort Text.le).map Text.quoted
  let verb : Text := if keys.length = 1 then "was" else "were"
  "Additional properties are not allowed (" ++ Text.join ", " names ++ " " ++ verb
    ++ " unexpected)"

end Schema

open Schema

mutual

/-- All the ways in which a value breaks a schema. -/
def Schema.violations : Schema → Value → Except DigitLimit (List Violation)
  | .always true, _ => .ok []
  | .always false, v => forbidden v
  | .rules keywords, v => Keyword.allViolations keywords keywords v

/-- The same for a value inside the one that is looked at. A schema that allows nothing
reports the value outside. -/
def Schema.violationsAt (part : PathPart) : Schema → Value → Except DigitLimit (List Violation)
  | .always true, _ => .ok []
  | .always false, v => forbidden v
  | .rules keywords, v => do
    return (← Keyword.allViolations keywords keywords v).map (inside part)

/-- All the ways in which a value breaks rules, which are among the rules `all` of a
schema. -/
def Keyword.allViolations (all : List Keyword) :
    List Keyword → Value → Except DigitLimit (List Violation)
  | [], _ => .ok []
  | keyword :: rest, v => do
    let first ← keyword.violations all v
    return first ++ (← Keyword.allViolations all rest v)

/-- All the ways in which a value breaks a rule. -/
def Keyword.violations (all : List Keyword) :
    Keyword → Value → Except DigitLimit (List Violation)
  | .types names, v =>
    if names.any fun name => name.holds v then .ok []
    else about all v (" is not of type " ++ Text.join ", " (names.map fun n => n.text.quoted))
  | .required names, v => match v with
    | .mapping entries =>
      let missing := names.filter fun name => (Value.fieldOf? name entries).isNone
      .ok (missing.map fun name => violation all v (name.quoted ++ " is a required property"))
    | _ => .ok []
  | .items (.always false), v => match v with
    | .list [] => .ok []
    | .list [item] => do
      return [violation all v ("Expected at most 0 items but found 1 extra: " ++ (← item.quoted))]
    | .list items => do
      return [violation all v ("Expected at most 0 items but found " ++ Text.ofNat items.length
        ++ " extra: " ++ (← v.quoted))]
    | _ => .ok []
  | .items schema, v => match v with
    | .list items => do
      let found ← items.zipIdx.mapM fun (item, i) => Schema.violationsAt (.index i) schema item
      return found.flatten
    | _ => .ok []
  | .minLength n, v => match v with
    | .text t =>
      if t.length < n then about all v (if n = 1 then " should be non-empty" else " is too short")
      else .ok []
    | _ => .ok []
  | .minProperties n, v => match v with
    | .mapping entries =>
      if entries.length < n then
        about all v (if n = 1 then " should be non-empty" else " does not have enough properties")
      else .ok []
    | _ => .ok []
  | .maxProperties n, v => match v with
    | .mapping entries =>
      if n < entries.length then
        about all v (if n = 0 then " is expected to be empty" else " has too many properties")
      else .ok []
    | _ => .ok []
  | .properties schemas, v => match v with
    | .mapping entries => Keyword.propertyViolations entries schemas
    | _ => .ok []
  | .additionalProperties known schema, v => match v with
    | .mapping entries =>
      let extras := (textEntries entries).filter fun e => !known.any fun k => k.isText e.1
      match schema with
      | .always true => .ok []
      | .always false =>
        if extras.isEmpty then .ok []
        else .ok [violation all v (unexpected (extras.map Prod.fst))]
      | .rules keywords => do
        let found ← extras.mapM fun e => do
          return (← Keyword.allViolations keywords keywords e.2).map (inside (.key e.1))
        return found.flatten
    | _ => .ok []

/-- All the ways in which the values of certain keys break their schemas. -/
def Keyword.propertyViolations (entries : List (Value × Value)) :
    List (Value × Schema) → Except DigitLimit (List Violation)
  | [] => .ok []
  | (name, schema) :: rest => do
    let first ← match name with
      | .text k => match Value.fieldOf? k entries with
        | some v => Schema.violationsAt (.key k) schema v
        | none => .ok []
      | _ => .ok []
    return first ++ (← Keyword.propertyViolations entries rest)

end

end RainMeta
