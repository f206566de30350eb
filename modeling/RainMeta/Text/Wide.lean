import RainMeta.Text.Coding

/-!
# Wide encodings

UTF-16 and UTF-32 in either byte order. Surrogates that do not pair stay as they are.

* `Utf16.decode`, `Utf32.decode`: the text that bytes spell from a given position on.
-/

namespace RainMeta

/-- The order of the bytes in a unit. -/
inductive ByteOrder
  | little | big
  deriving DecidableEq

/-- The number that bytes spell in a byte order. -/
def ByteOrder.value (order : ByteOrder) (bytes : Bytes) : Nat :=
  let digits := match order with
    | .little => bytes.reverse
    | .big => bytes
  digits.foldl (fun n b => n * 256 + b.toNat) 0

/-! ### UTF-16 -/

/-- The encoding of two-byte units. -/
def Encoding.utf16 : ByteOrder → Encoding
  | .little => .utf16le
  | .big => .utf16be

/-- The encoding of four-byte units. -/
def Encoding.utf32 : ByteOrder → Encoding
  | .little => .utf32le
  | .big => .utf32be

namespace Utf16

/-- Puts a unit after a text whose last code point comes first: a low surrogate joins a
high one right before it. The flag says whether that high one is still free. -/
def push (out : Text) (free : Bool) (unit : Nat) : Text × Bool :=
  match out with
  | high :: before =>
    if free && 0xDC00 ≤ unit && unit < 0xE000 then
      (.ofNat (0x10000 + (high.val - 0xD800) * 0x400 + (unit - 0xDC00)) :: before, false)
    else (.ofNat unit :: out, 0xD800 ≤ unit && unit < 0xDC00)
  | [] => ([.ofNat unit], 0xD800 ≤ unit && unit < 0xDC00)

/-- Reads two-byte units from position `pos` on. -/
def decodeFrom (order : ByteOrder) (pos : Nat) (out : Text) (free : Bool) :
    Bytes → Except DecodeError Text
  | [] => .ok out.reverse
  | [b] => .error { encoding := .utf16 order, start := pos, bytes := [b], reason := .truncated }
  | b₀ :: b₁ :: rest =>
    let (out, free) := push out free (order.value [b₀, b₁])
    decodeFrom order (pos + 2) out free rest

/-- The text that two-byte units spell; `pos` is the position of the first byte. -/
def decode (order : ByteOrder) (pos : Nat) (b : Bytes) : Except DecodeError Text :=
  decodeFrom order pos [] false b

end Utf16

/-! ### UTF-32 -/

namespace Utf32

/-- Reads four-byte units from position `pos` on. -/
def decodeFrom (order : ByteOrder) (pos : Nat) (out : Text) : Bytes → Except DecodeError Text
  | [] => .ok out.reverse
  | b₀ :: b₁ :: b₂ :: b₃ :: rest =>
    let n := order.value [b₀, b₁, b₂, b₃]
    if n < 0x110000 then decodeFrom order (pos + 4) (.ofNat n :: out) rest
    else .error
      { encoding := .utf32 order, start := pos, bytes := [b₀, b₁, b₂, b₃], reason := .outOfRange }
  | bytes => .error { encoding := .utf32 order, start := pos, bytes, reason := .truncated }

/-- The text that four-byte units spell; `pos` is the position of the first byte. -/
def decode (order : ByteOrder) (pos : Nat) (b : Bytes) : Except DecodeError Text :=
  decodeFrom order pos [] b

end Utf32

end RainMeta
