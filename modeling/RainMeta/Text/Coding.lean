import RainMeta.Text

/-!
# What can go wrong between texts and bytes

* `DecodeError`: the first place where bytes do not spell a text, in which encoding, which
  bytes, and why.
* `EncodeError`: why a text cannot be encoded: surrogates in it, or more bytes than fit.
-/

namespace RainMeta

/-- The encodings of text that documents come in. -/
inductive Encoding
  | utf8 | utf16le | utf16be | utf32le | utf32be
  deriving DecidableEq

/-- The name of an encoding. -/
def Encoding.name : Encoding → Text
  | .utf8 => "utf-8"
  | .utf16le => "utf-16-le"
  | .utf16be => "utf-16-be"
  | .utf32le => "utf-32-le"
  | .utf32be => "utf-32-be"

/-- Why bytes do not spell a text. -/
inductive DecodeReason
  /-- No code point starts with this byte. -/
  | invalidStart
  /-- A code point has begun, and the next byte cannot go on with it. -/
  | invalidContinuation
  /-- The bytes end inside a code point. -/
  | unexpectedEnd
  /-- The bytes end inside a unit of two or four bytes. -/
  | truncated
  /-- A four-byte unit exceeds the last code point. -/
  | outOfRange
  deriving DecidableEq

/-- The words for a reason. -/
def DecodeReason.text : DecodeReason → Text
  | .invalidStart => "invalid start byte"
  | .invalidContinuation => "invalid continuation byte"
  | .unexpectedEnd => "unexpected end of data"
  | .truncated => "truncated data"
  | .outOfRange => "code point not in range(0x110000)"

/-- The first place where bytes do not spell a text: the offending bytes `bytes` from
position `start` on. -/
structure DecodeError where
  encoding : Encoding := .utf8
  start : Nat
  bytes : Bytes
  reason : DecodeReason
  deriving DecidableEq

/-- A single byte is shown, several are given by the positions of the first and last. -/
def DecodeError.message (e : DecodeError) : Text :=
  let place : Text := match e.bytes with
    | [b] => "byte 0x" ++ Text.hexPadded 2 b.toNat ++ " in position " ++ Text.ofNat e.start
    | bs =>
      "bytes in position " ++ Text.ofNat e.start ++ "-" ++ Text.ofNat (e.start + bs.length - 1)
  "'" ++ e.encoding.name ++ "' codec can't decode " ++ place ++ ": " ++ e.reason.text

/-- Why a text cannot be encoded. -/
inductive EncodeError
  /-- The surrogates `run` stand in it from position `start` on; no others stand before. -/
  | surrogates (start : Nat) (run : Text)
  /-- It has more bytes than a byte string can hold. -/
  | tooLong
  deriving DecidableEq

/-- A single surrogate is shown, several are given by the positions of the first and
last. -/
def EncodeError.message : EncodeError → Text
  | .surrogates start run =>
    let place : Text := match run with
      | [c] => "character '\\u" ++ Text.hexPadded 4 c.val ++ "' in position " ++ Text.ofNat start
      | cs => "characters in position " ++ Text.ofNat start ++ "-"
          ++ Text.ofNat (start + cs.length - 1)
    "'utf-8' codec can't encode " ++ place ++ ": surrogates not allowed"
  | .tooLong => []

end RainMeta
