import RainMeta.Text

/-!
# Keccak-256

The sponge with a rate of 136 bytes and a digest of 32 bytes, with the padding that came
before the one of the standard.

* `Keccak.permute`: the 24 rounds on 25 lanes of 64 bits.
* `keccak256`: the digest of a byte string.
-/

namespace RainMeta

namespace Keccak

/-- The 25 lanes of the state; lane `x + 5 y` stands in column `x` of row `y`. -/
abbrev Lanes := Vector UInt64 25

/-- Rotation to the left. -/
def rotate (w : UInt64) (n : Nat) : UInt64 :=
  if n % 64 = 0 then w else (w <<< (n % 64).toUInt64) ||| (w >>> (64 - n % 64).toUInt64)

/-- By how much each lane is rotated. -/
def rotations : Vector Nat 25 :=
  #v[0, 1, 62, 28, 27, 36, 44, 6, 55, 20, 3, 10, 43, 25, 39, 41, 45, 15, 21, 8, 18, 2, 61, 56, 14]

/-- The constants that are mixed into lane `0`, one for each round. -/
def roundConstants : List UInt64 :=
  [0x0000000000000001, 0x0000000000008082, 0x800000000000808A, 0x8000000080008000,
   0x000000000000808B, 0x0000000080000001, 0x8000000080008081, 0x8000000000008009,
   0x000000000000008A, 0x0000000000000088, 0x0000000080008009, 0x000000008000000A,
   0x000000008000808B, 0x800000000000008B, 0x8000000000008089, 0x8000000000008003,
   0x8000000000008002, 0x8000000000000080, 0x000000000000800A, 0x800000008000000A,
   0x8000000080008081, 0x8000000000008080, 0x0000000080000001, 0x8000000080008008]

/-- The lane in column `x` of row `y`, both taken modulo five. -/
def lane (a : Lanes) (x y : Nat) : UInt64 :=
  a.get ⟨x % 5 + 5 * (y % 5), by omega⟩

/-- Every lane is mixed with the parities of two neighbouring columns. -/
def theta (a : Lanes) : Lanes :=
  let parity : Vector UInt64 5 := Vector.ofFn fun x =>
    lane a x 0 ^^^ lane a x 1 ^^^ lane a x 2 ^^^ lane a x 3 ^^^ lane a x 4
  let mix : Vector UInt64 5 := Vector.ofFn fun x =>
    parity.get ⟨(x.val + 4) % 5, by omega⟩ ^^^ rotate (parity.get ⟨(x.val + 1) % 5, by omega⟩) 1
  Vector.ofFn fun i => a[i] ^^^ mix.get ⟨i.val % 5, by omega⟩

/-- Every lane is rotated and moves: column `y` of row `2 x + 3 y` receives column `x` of
row `y`. -/
def rhoPi (a : Lanes) : Lanes :=
  Vector.ofFn fun i =>
    let x := i.val % 5
    let y := i.val / 5
    let source : Fin 25 := ⟨(x + 3 * y) % 5 + 5 * x, by omega⟩
    rotate (a.get source) (rotations.get source)

/-- Every lane is mixed with the next two of its row. -/
def chi (a : Lanes) : Lanes :=
  Vector.ofFn fun i =>
    let x := i.val % 5
    let y := i.val / 5
    a[i] ^^^ ((lane a (x + 1) y ^^^ 0xFFFFFFFFFFFFFFFF) &&& lane a (x + 2) y)

/-- One round. -/
def round (a : Lanes) (constant : UInt64) : Lanes :=
  let b := chi (rhoPi (theta a))
  b.set 0 (b[0] ^^^ constant)

/-- All rounds. -/
def permute (a : Lanes) : Lanes :=
  roundConstants.foldl round a

/-- The lane that eight bytes spell, the least significant one first. -/
def laneOfBytes (b : Bytes) : UInt64 :=
  b.foldr (fun byte acc => (acc <<< 8) ||| byte.toUInt64) 0

/-- The bytes of a lane, the least significant one first. -/
def bytesOfLane (w : UInt64) : Bytes :=
  (List.range 8).map fun i => (w >>> (8 * i).toUInt64).toUInt8

/-- Mixes a block into the first lanes. -/
def absorb (a : Lanes) (block : Bytes) : Lanes :=
  permute (Vector.ofFn fun i => a[i] ^^^ laneOfBytes ((block.drop (8 * i.val)).take 8))

/-- The number of bytes that are absorbed at a time. -/
def rate : Nat := 136

/-- The bytes, padded up to a multiple of the rate: the padding starts with the bit `1` and
ends with the bit `1`. -/
def pad (b : Bytes) : Bytes :=
  let gap := rate - b.length % rate
  if gap = 1 then b ++ [0x81] else b ++ 0x01 :: List.replicate (gap - 2) 0 ++ [0x80]

/-- Absorbs `count` blocks. -/
def absorbBlocks (a : Lanes) (b : Bytes) : Nat → Lanes
  | 0 => a
  | count + 1 => absorbBlocks (absorb a (b.take rate)) (b.drop rate) count

/-- The digest that the state holds. -/
def squeeze (a : Lanes) : Bytes :=
  bytesOfLane a[0] ++ bytesOfLane a[1] ++ bytesOfLane a[2] ++ bytesOfLane a[3]

end Keccak

/-- The Keccak-256 digest of a byte string. -/
def keccak256 (b : Bytes) : Bytes :=
  let padded := Keccak.pad b
  Keccak.squeeze (Keccak.absorbBlocks (Vector.replicate 25 0) padded (padded.length / Keccak.rate))

/-- A digest has 32 bytes. -/
theorem length_keccak256 (b : Bytes) : (keccak256 b).length = 32 := by
  simp [keccak256, Keccak.squeeze, Keccak.bytesOfLane]

end RainMeta
