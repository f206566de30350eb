/-!
# Binary floating point numbers

The double precision numbers, in exact arithmetic on natural numbers: every operation takes
the exact result and rounds once, to nearest, ties to the even neighbour.

* `Binary64`: the 64 bits of a number; `Binary64.parts` takes a finite one apart.
* `Binary64.ofRatio`, `Binary64.ofDecimal`: the number nearest to a ratio, to a decimal.
* `Binary64.add`, `Binary64.mul`: rounded sum and product.
* `Binary64.toInt?`: the integer that a number is, if it is one.
-/

namespace RainMeta

/-- A double precision number, given by its bits. -/
structure Binary64 where
  bits : UInt64
  deriving DecidableEq

namespace Binary64

/-! ### Taking apart -/

/-- The number whose only bit is the sign bit. -/
def signBit : Nat := 0x8000000000000000

/-- The bit above those of the fraction, which is not written down. -/
def hiddenBit : Nat := 0x10000000000000

/-- Whether the sign bit is set. -/
def isNegative (x : Binary64) : Bool :=
  signBit ≤ x.bits.toNat

/-- The bits without the sign. -/
def magnitude (x : Binary64) : Nat :=
  x.bits.toNat % signBit

/-- The magnitude of the infinities; what is above is not a number. -/
def infiniteMagnitude : Nat := 2047 * hiddenBit

/-- Not a number. -/
def isNaN (x : Binary64) : Bool :=
  infiniteMagnitude < x.magnitude

/-- One of the two infinities. -/
def isInfinite (x : Binary64) : Bool :=
  x.magnitude = infiniteMagnitude

/-- The factors `m` and `e` of the absolute value `m · 2 ^ e` of a finite number. -/
def parts (x : Binary64) : Nat × Int :=
  let biased : Nat := x.magnitude / hiddenBit
  let fraction : Nat := x.magnitude % hiddenBit
  if biased = 0 then (fraction, -1074) else (fraction + hiddenBit, (biased : Int) - 1075)

/-! ### Putting together -/

/-- The number with a sign and a magnitude. -/
def ofMagnitude (negative : Bool) (magnitude : Nat) : Binary64 :=
  ⟨((if negative then signBit else 0) + magnitude).toUInt64⟩

/-- Zero. -/
def zero : Binary64 := ofMagnitude false 0

/-- Not a number. -/
def nan : Binary64 := ofMagnitude false (infiniteMagnitude + hiddenBit / 2)

/-- An infinity. -/
def infinity (negative : Bool) : Binary64 := ofMagnitude negative infiniteMagnitude

/-- The quotient of two numbers, rounded to nearest, a tie to the even neighbour. -/
def roundedDiv (num den : Nat) : Nat :=
  let q := num / den
  let twice := 2 * (num % den)
  if twice < den then q else if den < twice then q + 1 else q + q % 2

/-- The numerator and denominator of `num / den / 2 ^ e`. -/
def scaledBy (num den : Nat) (e : Int) : Nat × Nat :=
  if 0 ≤ e then (num, den <<< e.toNat) else (num <<< (-e).toNat, den)

/-- The number nearest to `num / den`, with a sign. -/
def ofRatio (negative : Bool) (num den : Nat) : Binary64 :=
  if num = 0 || den = 0 then ofMagnitude negative 0
  else
    -- with this exponent the quotient lies between 2 ^ 52 and 2 ^ 54, or is subnormal
    let guess := max (-1074) ((num.log2 : Int) - den.log2 - 53)
    let (n, d) := scaledBy num den guess
    let e := if n / d < 2 * hiddenBit then guess else guess + 1
    let (n, d) := scaledBy num den e
    let magnitude := (e + 1074).toNat * hiddenBit + roundedDiv n d
    ofMagnitude negative (min magnitude infiniteMagnitude)

/-- The number nearest to `digits · 10 ^ exponent`, with a sign. -/
def ofDecimal (negative : Bool) (digits : Nat) (exponent : Int) : Binary64 :=
  if digits = 0 then ofMagnitude negative 0
  else if 400 < exponent then infinity negative
  else if exponent + digits.log2 + 1 < -400 then ofMagnitude negative 0
  else if 0 ≤ exponent then ofRatio negative (digits * Nat.pow 10 exponent.toNat) 1
  else ofRatio negative digits (Nat.pow 10 (-exponent).toNat)

/-- The number nearest to `m · 2 ^ e`, with a sign. -/
def ofDyadic (negative : Bool) (m : Nat) (e : Int) : Binary64 :=
  if 0 ≤ e then ofRatio negative (m <<< e.toNat) 1 else ofRatio negative m (1 <<< (-e).toNat)

/-- The number nearest to an integer; `none` if it is too large for every finite number. -/
def ofInt? (i : Int) : Option Binary64 :=
  let x := ofRatio (i < 0) i.natAbs 1
  if x.isInfinite then none else some x

/-! ### Arithmetic -/

/-- The number with the opposite sign. -/
def neg (x : Binary64) : Binary64 :=
  ofMagnitude (!x.isNegative) x.magnitude

/-- The exact value of a finite number as an integer multiple of `2 ^ -1074`. -/
def units (x : Binary64) : Int :=
  let (m, e) := x.parts
  let n : Int := (m <<< (e + 1074).toNat : Nat)
  if x.isNegative then -n else n

/-- The rounded sum. -/
def add (x y : Binary64) : Binary64 :=
  if x.isNaN || y.isNaN then nan
  else if x.isInfinite then
    if y.isInfinite && x.isNegative != y.isNegative then nan else x
  else if y.isInfinite then y
  else
    let sum := x.units + y.units
    if sum = 0 then ofMagnitude (x.isNegative && y.isNegative) 0
    else ofDyadic (sum < 0) sum.natAbs (-1074)

/-- The rounded product. -/
def mul (x y : Binary64) : Binary64 :=
  let negative := x.isNegative != y.isNegative
  if x.isNaN || y.isNaN then nan
  else if x.isInfinite || y.isInfinite then
    if x.magnitude = 0 || y.magnitude = 0 then nan else infinity negative
  else
    let (m, e) := x.parts
    let (n, f) := y.parts
    ofDyadic negative (m * n) (e + f)

/-- The number of units in one: two to the power of 1074. -/
def unitsInOne : Int := (1 <<< 1074 : Nat)

/-- The integer that a finite number is, if it is one. -/
def toInt? (x : Binary64) : Option Int :=
  if x.isNaN || x.isInfinite then none
  else if x.units % unitsInOne = 0 then some (x.units / unitsInOne) else none

/-- Equality of values: zeros of both signs are equal, and what is not a number differs
from everything. -/
def sameValue (x y : Binary64) : Bool :=
  !x.isNaN && !y.isNaN && (x.bits == y.bits || (x.magnitude == 0 && y.magnitude == 0))

/-! ### Shorter formats -/

/-- Widens a number with `width` bits of fraction and `ew` bits of exponent. -/
def widen (ew width : Nat) (bits : Nat) : Binary64 :=
  let negative := (bits >>> (ew + width)) % 2 = 1
  let biased := (bits >>> width) % (1 <<< ew)
  let fraction := bits % (1 <<< width)
  let least : Int := 2 - (1 <<< (ew - 1) : Nat) - width
  if biased + 1 = 1 <<< ew then
    if fraction = 0 then infinity negative else nan
  else if biased = 0 then ofDyadic negative fraction least
  else ofDyadic negative (fraction + (1 <<< width)) (least + biased - 1)

/-- A half precision number. -/
def ofBinary16 (bits : Nat) : Binary64 := widen 5 10 bits

/-- A single precision number. -/
def ofBinary32 (bits : Nat) : Binary64 := widen 8 23 bits

end Binary64

end RainMeta
