import RainMeta.Text.Coding

/-!
# UTF-8

Writing and reading UTF-8, and the two relaxations that files need: names of files may hold
bytes that are not UTF-8 (each such byte reads as a surrogate of its own, and is written back
as that byte), and documents may be read with surrogates in three-byte form.

* `Utf8.encode`: the bytes of a text; fails at the first run of surrogates, and for a text
  with more bytes than a byte string can hold.
* `Utf8.decode`: the text that bytes spell; fails at the first malformed place, with the
  longest beginning of a code point that stands there.
* `Utf8.encodeEscaped`, `Utf8.decodeEscaped`: the same for names of files.
-/

namespace RainMeta.Utf8

/-! ### Writing -/

/-- The bytes of one code point; a surrogate gets the three-byte form. -/
def encodeOne (c : CodePoint) : Bytes :=
  let n := c.val
  if n < 0x80 then [n.toUInt8]
  else if n < 0x800 then [(0xC0 + n / 64).toUInt8, (0x80 + n % 64).toUInt8]
  else if n < 0x10000 then
    [(0xE0 + n / 4096).toUInt8, (0x80 + n / 64 % 64).toUInt8, (0x80 + n % 64).toUInt8]
  else
    [(0xF0 + n / 262144).toUInt8, (0x80 + n / 4096 % 64).toUInt8, (0x80 + n / 64 % 64).toUInt8,
      (0x80 + n % 64).toUInt8]

/-- The first code point that is refused, with the surrogates that follow it. -/
def refused? (refuse : CodePoint → Bool) (pos : Nat) : Text → Option EncodeError
  | [] => none
  | c :: t =>
    if refuse c then some (.surrogates pos (c :: t.takeWhile CodePoint.isSurrogate))
    else refused? refuse (pos + 1) t

/-- The bytes of a text without surrogates, unless they are too many. -/
def encode (t : Text) : Except EncodeError Bytes :=
  match refused? CodePoint.isSurrogate 0 t with
  | some e => .error e
  | none =>
    let b := t.flatMap encodeOne
    if Bytes.longest < b.length then .error .tooLong else .ok b

/-- The bytes of one code point of a name, an escaped byte being that byte. -/
def encodeOneEscaped (c : CodePoint) : Bytes :=
  if c.isEscapedByte then [(c.val - 0xDC00).toUInt8] else encodeOne c

/-- The bytes of a name; surrogates other than escaped bytes are refused. -/
def encodeEscaped (t : Text) : Except EncodeError Bytes :=
  match refused? (fun c => c.isSurrogate && !c.isEscapedByte) 0 t with
  | some e => .error e
  | none => .ok (t.flatMap encodeOneEscaped)

/-! ### Reading -/

/-- A code point of which some bytes have been read. -/
structure Pending where
  /-- The bytes read, the last one first. -/
  seen : Bytes
  /-- How many bytes follow. -/
  need : Nat
  /-- The least byte that may come next. -/
  lo : UInt8
  /-- The greatest byte that may come next. -/
  hi : UInt8
  /-- The bits read. -/
  value : Nat

/-- What a byte does. -/
inductive Progress
  /-- It completes a code point. -/
  | complete (c : CodePoint)
  /-- More bytes have to follow. -/
  | pending (p : Pending)
  /-- It cannot stand here. -/
  | refused

/-- What a byte does at the start of a code point. The second byte of a longer form is
bounded so that every code point has one form only, and so that surrogates are left out
unless they are asked for. -/
def first (surrogates : Bool) (b : UInt8) : Progress :=
  let n := b.toNat
  if n < 0x80 then .complete (.ofNat n)
  else if n < 0xC2 then .refused
  else if n < 0xE0 then .pending ⟨[b], 1, 0x80, 0xBF, n - 0xC0⟩
  else if n = 0xE0 then .pending ⟨[b], 2, 0xA0, 0xBF, 0⟩
  else if n = 0xED && !surrogates then .pending ⟨[b], 2, 0x80, 0x9F, 0xD⟩
  else if n < 0xF0 then .pending ⟨[b], 2, 0x80, 0xBF, n - 0xE0⟩
  else if n = 0xF0 then .pending ⟨[b], 3, 0x90, 0xBF, 0⟩
  else if n < 0xF4 then .pending ⟨[b], 3, 0x80, 0xBF, n - 0xF0⟩
  else if n = 0xF4 then .pending ⟨[b], 3, 0x80, 0x8F, 4⟩
  else .refused

/-- What a byte does inside a code point. -/
def Pending.next (p : Pending) (b : UInt8) : Progress :=
  if p.lo ≤ b && b ≤ p.hi then
    let value := p.value * 64 + (b.toNat - 0x80)
    if p.need ≤ 1 then .complete (.ofNat value)
    else .pending ⟨b :: p.seen, p.need - 1, 0x80, 0xBF, value⟩
  else .refused

/-- The error for a code point that is not completed. The beginning of a surrogate counts
as malformed from its second byte on. -/
def Pending.error (p : Pending) (pos : Nat) (reason : DecodeReason) : DecodeError :=
  match p.seen with
  | [second, lead] =>
    if lead = 0xED && 0xA0 ≤ second then
      { start := pos - 2, bytes := [lead], reason := .invalidContinuation }
    else { start := pos - 2, bytes := [lead, second], reason }
  | seen => { start := pos - seen.length, bytes := seen.reverse, reason }

/-- Reads on at position `pos` inside the code point `state`, if any, after the text `out`,
whose last code point comes first. -/
def decodeFrom (surrogates : Bool) (pos : Nat) (state : Option Pending) (out : Text) :
    Bytes → Except DecodeError Text
  | [] => match state with
    | none => .ok out.reverse
    | some p => .error (p.error pos .unexpectedEnd)
  | b :: rest => match state with
    | none => match first surrogates b with
      | .complete c => decodeFrom surrogates (pos + 1) none (c :: out) rest
      | .pending p => decodeFrom surrogates (pos + 1) (some p) out rest
      | .refused => .error { start := pos, bytes := [b], reason := .invalidStart }
    | some p => match p.next b with
      | .complete c => decodeFrom surrogates (pos + 1) none (c :: out) rest
      | .pending q => decodeFrom surrogates (pos + 1) (some q) out rest
      | .refused => .error (p.error pos .invalidContinuation)

/-- The text that bytes spell. -/
def decode (b : Bytes) : Except DecodeError Text :=
  decodeFrom false 0 none [] b

/-- The text that bytes spell, surrogates in three-byte form included. -/
def decodeWithSurrogates (b : Bytes) : Except DecodeError Text :=
  decodeFrom true 0 none [] b

/-- Reads a name: bytes that belong to no code point become surrogates of their own. -/
def decodeEscapedFrom (state : Option Pending) (out : Text) : Bytes → Text
  | [] => match state with
    | none => out.reverse
    | some p => (p.seen.map CodePoint.ofEscapedByte ++ out).reverse
  | b :: rest =>
    let afresh (out : Text) : Option Pending × Text := match first false b with
      | .complete c => (none, c :: out)
      | .pending p => (some p, out)
      | .refused => (none, CodePoint.ofEscapedByte b :: out)
    let (nextState, nextOut) := match state with
      | none => afresh out
      | some p => match p.next b with
        | .complete c => (none, c :: out)
        | .pending q => (some q, out)
        | .refused => afresh (p.seen.map CodePoint.ofEscapedByte ++ out)
    decodeEscapedFrom nextState nextOut rest

/-- The text of a name, with a surrogate for each byte that is not UTF-8. -/
def decodeEscaped (b : Bytes) : Text :=
  decodeEscapedFrom none [] b

end RainMeta.Utf8
