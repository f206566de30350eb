import RainMeta.Text.Quoted

/-!
# Byte strings as hexadecimal digits

* `Hex.decode`: the bytes that digits spell, with or without `0x` in front. Nothing but
  digits is skipped.
* `Hex.encode`: the digits of bytes, in lower case.
* `Hex.decodeInStages`: decoding with a test, a reader and a search that do not know of each other.
* `HexError`: why a text spells no bytes.
-/

namespace RainMeta

/-- Why a text spells no bytes. -/
inductive HexError
  /-- It is no text but a value of another kind. -/
  | notText (kind : Text)
  /-- The number of digits is odd. -/
  | oddLength (digits : Nat)
  /-- A code point is no digit. -/
  | invalid (c : CodePoint)
  deriving DecidableEq

/-- The words for it. -/
def HexError.message : HexError → Text
  | .notText kind => "expected hex string, got " ++ kind
  | .oddLength n => "odd-length hex string (" ++ Text.ofNat n ++ " digits)"
  | .invalid c => "invalid hex character " ++ Text.quoted [c]

namespace Hex

/-- The text without `0x` or `0X` in front. -/
def body : Text → Text
  | c :: d :: rest =>
    if c.val = 48 && (d.val = 120 || d.val = 88) then rest else c :: d :: rest
  | t => t

/-- The bytes that pairs of digits spell. -/
def ofPairs (out : Bytes) : Text → Bytes
  | c :: d :: rest => ofPairs ((c.hexValue * 16 + d.hexValue).toUInt8 :: out) rest
  | _ => out.reverse

/-- The bytes that digits spell. The length is looked at first, then the first code point
that is no digit. -/
def decode (t : Text) : Except HexError Bytes :=
  let digits := body t
  if digits.length % 2 = 1 then .error (.oddLength digits.length)
  else match digits.find? fun c => !c.isHexDigit with
    | some c => .error (.invalid c)
    | none => .ok (ofPairs [] digits)

/-- The digit with a value below sixteen. -/
def digit (n : Nat) : CodePoint :=
  if n < 10 then .ofNat (48 + n) else .ofNat (87 + n)

/-- The two digits of a byte. -/
def digitsOf (b : UInt8) : Text :=
  [digit (b.toNat / 16), digit (b.toNat % 16)]

/-- The digits of bytes, after `0x` if asked for. -/
def encode (b : Bytes) (marked : Bool := true) : Text :=
  (if marked then ("0x" : Text) else []) ++ b.flatMap digitsOf

/-! ### Decoding in stages -/

/-- All digits, in both cases. -/
def alphabet : Text :=
  "0123456789abcdefABCDEF"

/-- How decoding ends without bytes. -/
inductive StageFault
  /-- The text is refused. -/
  | refused (cause : HexError)
  /-- Digits are not let through, and there is none to blame. -/
  | blameless
  /-- Digits are let through that cannot be read. -/
  | unreadable
  deriving DecidableEq

/-- The blanks that are skipped between pairs of digits. -/
def isSkipped (c : CodePoint) : Bool :=
  c.isIn '\t' '\r' || c.val = 32

/-- The bytes of pairs of digits, with blanks around pairs skipped. -/
def readPairs : Text → Option Bytes
  | [] => some []
  | [c] => if isSkipped c then some [] else none
  | c :: d :: rest =>
    if isSkipped c then readPairs (d :: rest)
    else if c.isHexDigit && d.isHexDigit then
      (readPairs rest).map ((c.hexValue * 16 + d.hexValue).toUInt8 :: ·)
    else none

/-- Decoding stage by stage: the length, the ranges of digits, and then the pairs or the list of
digits. -/
def decodeInStages (t : Text) : Except StageFault Bytes :=
  let digits := body t
  if digits.length % 2 = 1 then .error (.refused (.oddLength digits.length))
  else if digits.all CodePoint.isHexDigit then
    match readPairs digits with
    | some b => .ok b
    | none => .error .unreadable
  else match digits.find? fun c => !alphabet.contains c with
    | some c => .error (.refused (.invalid c))
    | none => .error .blameless

end Hex

end RainMeta
