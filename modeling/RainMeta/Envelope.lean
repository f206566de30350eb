import RainMeta.Cbor
import RainMeta.Keccak

/-!
# Meta envelopes

An envelope wraps a payload together with what it is: a magic number for its kind, and its
content type, encoding and language. The content hash of a meta is the digest of its
envelope's canonical CBOR form.

* `Envelope`: payload and description.
* `Envelope.encode`: the canonical CBOR form, a map with the keys `0` to `4`.
* `Envelope.hash`: the digest of that form.
* `Envelope.dotrain?`, `Envelope.deployerBytecode`: the two kinds of envelopes.
-/

namespace RainMeta

/-- The kinds of payloads. -/
inductive Magic
  /-- The source text of a dotrain. -/
  | dotrain
  /-- The deployed bytecode of an expression deployer. -/
  | deployerBytecode
  deriving DecidableEq

/-- The number that marks the kind. -/
def Magic.number : Magic → Nat
  | .dotrain => 0xFFDAC2F2F37BE894
  | .deployerBytecode => 0xFFDB988A8CD04D32

/-- The kind with a number, if any. -/
def Magic.ofNumber? (n : Int) : Option Magic :=
  if n = (Magic.dotrain.number : Int) then some .dotrain
  else if n = (Magic.deployerBytecode.number : Int) then some .deployerBytecode
  else none

/-- The media types of payloads. -/
inductive ContentType
  | octetStream
  deriving DecidableEq

/-- The name of a media type. -/
def ContentType.name : ContentType → Text
  | .octetStream => "application/octet-stream"

/-- The media type with a name, if any. -/
def ContentType.ofName? (t : Text) : Option ContentType :=
  if t = ContentType.octetStream.name then some .octetStream else none

/-- The compressions of payloads. -/
inductive ContentEncoding
  | deflate
  deriving DecidableEq

/-- The name of a compression. -/
def ContentEncoding.name : ContentEncoding → Text
  | .deflate => "deflate"

/-- The compression with a name, if any. -/
def ContentEncoding.ofName? (t : Text) : Option ContentEncoding :=
  if t = ContentEncoding.deflate.name then some .deflate else none

/-- The languages of payloads. -/
inductive ContentLanguage
  | english
  deriving DecidableEq

/-- The name of a language. -/
def ContentLanguage.name : ContentLanguage → Text
  | .english => "en"

/-- The language with a name, if any. -/
def ContentLanguage.ofName? (t : Text) : Option ContentLanguage :=
  if t = ContentLanguage.english.name then some .english else none

/-- A payload and what it is. -/
structure Envelope where
  payload : Bytes
  magic : Magic
  contentType : ContentType := .octetStream
  contentEncoding : Option ContentEncoding := none
  contentLanguage : Option ContentLanguage := none
  deriving DecidableEq

namespace Envelope

/-- The fields by their numbers; absent fields are left out. -/
def fields (e : Envelope) : List (Nat × Cbor.Item) :=
  [(0, .bytes e.payload), (1, .int e.magic.number), (2, .text e.contentType.name)]
    ++ (e.contentEncoding.map fun x => (3, Cbor.Item.text x.name)).toList
    ++ (e.contentLanguage.map fun x => (4, Cbor.Item.text x.name)).toList

/-- The entries of a map that has these fields. -/
def entriesOf (fields : List (Nat × Cbor.Item)) : List (Cbor.Item × Cbor.Item) :=
  fields.map fun f => (.int f.1, f.2)

/-- The entries of the map that stands for the envelope. -/
def entries (e : Envelope) : List (Cbor.Item × Cbor.Item) :=
  entriesOf e.fields

/-- The map that stands for the envelope. -/
def toItem (e : Envelope) : Cbor.Item :=
  .map e.entries

/-- The canonical CBOR form. -/
def encode (e : Envelope) : Bytes :=
  e.toItem.encode

/-- The digest of the canonical form. -/
def hash (e : Envelope) : Bytes :=
  keccak256 e.encode

/-- The envelope of a dotrain's text; a text with surrogates has none. -/
def dotrain? (text : Text) : Except EncodeError Envelope :=
  (Utf8.encode text).map fun payload => { payload, magic := .dotrain }

/-- The envelope of a deployer's deployed bytecode. -/
def deployerBytecode (deployed : Bytes) : Envelope :=
  { payload := deployed, magic := .deployerBytecode }

end Envelope

end RainMeta
