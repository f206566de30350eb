import RainMeta.Cbor.Item
import RainMeta.Environment
import RainMeta.Yaml.Error

/-!
# What programs run on

* `Platform`: the stack of the interpreter, the memory, and the libraries for CBOR and YAML.

How deeply things may be nested depends on how many frames the interpreter needs for them, which
differs from version to version and with what has been called before. So nothing is said about it
but that some depth is always safe. The libraries are likewise given only by what they answer.

Whatever is said about programs is said for every platform. For running them there is one to begin
with, `RainMeta.Platform.usual`.
-/

namespace RainMeta

/-- What a program runs on. -/
class Platform where
  /-- So many levels of nesting never use up the stack. -/
  depth : Nat
  /-- Whether the stack suffices to read a JSON text. -/
  readsText (t : Text) : Bool
  /-- Whether the stack suffices to read bytes as JSON. -/
  readsBytes (b : Bytes) : Bool
  /-- Whether the stack suffices to expand the variables in a document. -/
  expands (env : Environment) (v : Value) : Bool
  /-- So many bytes fit into memory, and no more. -/
  memory : Nat
  /-- The library for CBOR. -/
  cbor : Cbor.Library
  /-- Whether the stack suffices to show an item of a CBOR document in a message. -/
  shows (item : Cbor.Item) : Bool
  /-- What the library for YAML makes of a text. -/
  yaml (style : Yaml.KeyStyle) (t : Text) : Except Yaml.Error Value

end RainMeta
