import RainMeta.Cbor.Quoted
import RainMeta.Cbor.Reader
import RainMeta.Envelope

/-!
# Reading envelopes

* `Envelope.decode`: the envelope that the first CBOR item of a byte string describes.
* `EnvelopeError`: why there is none.

The payload may be anything that can stand for bytes: a byte string, a list of small
numbers, the keys of a map, or a number, which stands for so many zeros. What objects of the
library stand for, in the payload or elsewhere, is up to the library.
-/

namespace RainMeta

/-- The fields of an envelope that name something. -/
inductive EnvelopeField
  | magic | contentType | contentEncoding | contentLanguage
  deriving DecidableEq

/-- The name of the field's type. -/
def EnvelopeField.name : EnvelopeField → Text
  | .magic => "KnownMagic"
  | .contentType => "ContentType"
  | .contentEncoding => "ContentEncoding"
  | .contentLanguage => "ContentLanguage"

/-- Why an item does not stand for bytes. -/
inductive PayloadError
  /-- A negative number of zeros. -/
  | negativeCount
  /-- A number in the list is no byte. -/
  | outOfRange
  /-- The list holds something else than numbers. -/
  | notInteger (kind : Text)
  /-- A text. -/
  | text
  /-- Something that stands for no bytes at all. -/
  | notBytes (kind : Text)
  deriving DecidableEq

/-- The words for it. -/
def PayloadError.message : PayloadError → Text
  | .negativeCount => "negative count"
  | .outOfRange => "bytes must be in range(0, 256)"
  | .notInteger kind => "'" ++ kind ++ "' object cannot be interpreted as an integer"
  | .text => "string argument without an encoding"
  | .notBytes kind => "cannot convert '" ++ kind ++ "' object to bytes"

/-- Why bytes describe no envelope. -/
inductive EnvelopeError
  /-- They do not begin with a CBOR item. -/
  | notCbor
  /-- The item is no map. -/
  | notMap
  /-- The map lacks a field. -/
  | missing (field : Nat)
  /-- The payload stands for no bytes. -/
  | payload (cause : PayloadError)
  /-- A field names nothing that is known; `shown` is its value. -/
  | unknown (field : EnvelopeField) (shown : Text)
  /-- The number in a field is too long to be shown. -/
  | digits (cause : DigitLimit)
  /-- The payload is a number of zeros beyond every machine size. -/
  | countOverflow
  /-- The payload is a number of zeros that does not fit into memory. -/
  | outOfMemory
  /-- An object of the library does not fit into a field. -/
  | object (cause : Cbor.Misfit)
  /-- The stack does not suffice to show the value of a field. -/
  | tooDeep
  deriving DecidableEq

/-- The words for it. -/
def EnvelopeError.message : EnvelopeError → Text
  | .notCbor => "ENVELOPE_CBOR_INVALID"
  | .notMap => "ENVELOPE_NOT_A_MAP"
  | .missing n => "ENVELOPE_FIELDS_INVALID:" ++ Text.ofNat n
  | .payload cause => "ENVELOPE_FIELDS_INVALID:" ++ cause.message
  | .unknown field shown =>
    "ENVELOPE_FIELDS_INVALID:" ++ shown ++ " is not a valid " ++ field.name
  | .digits cause => "ENVELOPE_FIELDS_INVALID:" ++ cause.message
  | .countOverflow => []
  | .outOfMemory => []
  | .object (.refused words) => "ENVELOPE_FIELDS_INVALID:" ++ words
  | .object .escaped => []
  | .tooDeep => []

namespace Envelope

variable [Platform]

/-! ### Payloads -/

/-- Zeros in the number that `i` says. -/
def zeros (i : Int) : Except EnvelopeError Bytes :=
  if 0x7FFFFFFFFFFFFFDE < i || i < -0x8000000000000000 then .error .countOverflow
  else if i < 0 then .error (.payload .negativeCount)
  else if Platform.memory < i then .error .outOfMemory
  else .ok (List.replicate i.toNat 0)

/-- The byte that an item of a list stands for. -/
def byteOf (fixed : Bool) (item : Cbor.Item) : Except EnvelopeError UInt8 :=
  match item with
  | .int i => if 0 ≤ i && i < 256 then .ok i.toNat.toUInt8 else .error (.payload .outOfRange)
  | .bool b => .ok (if b then 1 else 0)
  | item => .error (.payload (.notInteger (item.kind fixed)))

/-- The bytes that an item stands for. -/
def payloadOf : Cbor.Item → Except EnvelopeError Bytes
  | .bytes b => .ok b
  | .int i => zeros i
  | .bool b => .ok (List.replicate (if b then 1 else 0) 0)
  | .list items => items.mapM (byteOf false)
  | .map entries => entries.mapM fun e => byteOf true e.1
  | .simple n => .ok [n.toUInt8]
  | .text _ => .error (.payload .text)
  | item => .error (.payload (.notBytes (item.kind false)))

/-! ### The other fields -/

/-- The error for a value that names nothing known. -/
def unknownValue (field : EnvelopeField) (item : Cbor.Item) : EnvelopeError :=
  if Platform.shows item then
    match item.quoted false with
    | .ok shown => .unknown field shown
    | .error cause => .digits cause
  else .tooDeep

/-- The kind of the payload that an item names. -/
def magicOf (item : Cbor.Item) : Except EnvelopeError Magic :=
  match item with
  | .int i => match Magic.ofNumber? i with
    | some m => .ok m
    | none => .error (unknownValue .magic item)
  | _ => .error (unknownValue .magic item)

/-- What an item names among things that have names. -/
def namedBy {α : Type} (field : EnvelopeField) (ofName? : Text → Option α) (item : Cbor.Item) :
    Except EnvelopeError α :=
  match item with
  | .text t => match ofName? t with
    | some x => .ok x
    | none => .error (unknownValue field item)
  | _ => .error (unknownValue field item)

/-- The same for a field that may be missing or null. -/
def optionallyNamedBy {α : Type} (field : EnvelopeField) (ofName? : Text → Option α) :
    Option Cbor.Item → Except EnvelopeError (Option α)
  | none => .ok none
  | some .null => .ok none
  | some item => (namedBy field ofName? item).map some

/-! ### Maps -/

/-- The value of a field, if it is there. Objects are taken for what they are worth. -/
def optional (n : Nat) (entries : List (Cbor.Item × Cbor.Item)) :
    Except EnvelopeError (Option Cbor.Item) :=
  match Cbor.field? n entries with
  | some item =>
    if item.hasObject then ((Platform.cbor.worth n item).map some).mapError .object
    else .ok (some item)
  | none => .ok none

/-- The value of a field that has to be there. -/
def required (n : Nat) (entries : List (Cbor.Item × Cbor.Item)) :
    Except EnvelopeError Cbor.Item := do
  match ← optional n entries with
  | some item => return item
  | none => throw (.missing n)

/-- The payload in the entries of a map. -/
def payloadIn (entries : List (Cbor.Item × Cbor.Item)) : Except EnvelopeError Bytes := do
  payloadOf (← required 0 entries)

/-- The kind of the payload in the entries of a map. -/
def magicIn (entries : List (Cbor.Item × Cbor.Item)) : Except EnvelopeError Magic := do
  magicOf (← required 1 entries)

/-- The content type in the entries of a map. -/
def contentTypeIn (entries : List (Cbor.Item × Cbor.Item)) :
    Except EnvelopeError ContentType := do
  namedBy .contentType ContentType.ofName? (← required 2 entries)

/-- The content encoding in the entries of a map. -/
def contentEncodingIn (entries : List (Cbor.Item × Cbor.Item)) :
    Except EnvelopeError (Option ContentEncoding) := do
  optionallyNamedBy .contentEncoding ContentEncoding.ofName? (← optional 3 entries)

/-- The content language in the entries of a map. -/
def contentLanguageIn (entries : List (Cbor.Item × Cbor.Item)) :
    Except EnvelopeError (Option ContentLanguage) := do
  optionallyNamedBy .contentLanguage ContentLanguage.ofName? (← optional 4 entries)

/-- The envelope that the entries of a map describe; the fields are looked at one by one. -/
def ofEntries (entries : List (Cbor.Item × Cbor.Item)) : Except EnvelopeError Envelope := do
  let payload ← payloadIn entries
  let magic ← magicIn entries
  let contentType ← contentTypeIn entries
  let contentEncoding ← contentEncodingIn entries
  let contentLanguage ← contentLanguageIn entries
  return { payload, magic, contentType, contentEncoding, contentLanguage }

/-- The envelope at the start of a byte string; what follows it does not matter. -/
def decode (b : Bytes) : Except EnvelopeError Envelope :=
  match Cbor.read? b with
  | none => .error .notCbor
  | some (.map entries, _) => ofEntries entries
  | some _ => .error .notMap

end Envelope

end RainMeta
