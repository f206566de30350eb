import RainMeta.Yaml.Cursor
import RainMeta.Yaml.Error

/-!
# Tokens of YAML streams

* `Yaml.Token`: the tokens that a stream is made of.
* `Yaml.Directive`: what a directive line says.
-/

namespace RainMeta.Yaml

/-- What a directive line says. -/
inductive Directive
  /-- The version of the language. -/
  | version (major minor : Nat)
  /-- A handle stands for the beginning of tags. -/
  | handle (name stem : Text)
  /-- Anything else. -/
  | other
  deriving DecidableEq

/-- A token of a stream. -/
inductive Token
  | directive (d : Directive)
  | documentStart
  | documentEnd
  | blockSequenceStart
  | blockMappingStart
  | blockEnd
  | flowSequenceStart
  | flowSequenceEnd
  | flowMappingStart
  | flowMappingEnd
  | flowEntry
  | blockEntry
  | key
  | value
  | reference (name : Text)
  | anchor (name : Text)
  /-- A tag: a handle, if it has one, and what follows it. -/
  | tag (handle : Option Text) (suffix : Text)
  /-- A scalar, and whether it is plain. -/
  | scalar (plain : Bool) (text : Text)
  | streamEnd
  /-- The stream leaves the language here. -/
  | broken (cause : Error)
  deriving DecidableEq

end RainMeta.Yaml
