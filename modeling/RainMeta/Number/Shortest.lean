import RainMeta.Number.Binary64
import RainMeta.Text

/-!
# The shortest decimal that reads back

A floating point number is shown with the fewest digits that still round to it; of several
such decimals, with the nearest one.

* `Binary64.shortest`: these digits and their exponent.
* `Binary64.text`: the number as it is written: positional for exponents from `-4` up to
  `15`, else in scientific notation.
-/

namespace RainMeta.Binary64

/-- The real numbers that round to a given number, as numerators over `den`: the number
itself, and the two ends, which belong to it if `closed` holds. -/
structure Neighbourhood where
  den : Nat
  low : Nat
  value : Nat
  high : Nat
  closed : Bool

/-- The neighbourhood of a finite number. Below a power of two the next number is half as
far away as above. -/
def neighbourhood (x : Binary64) : Neighbourhood :=
  let (m, e) := x.parts
  let below := if m = hiddenBit && -1074 < e then 1 else 2
  let unit := 1 <<< (e - 2).toNat
  { den := 1 <<< (2 - e).toNat
    low := (4 * m - below) * unit
    value := 4 * m * unit
    high := (4 * m + 2) * unit
    closed := m % 2 = 0 }

/-- Whether `digits · 10 ^ p` lies in the neighbourhood. -/
def Neighbourhood.holds (r : Neighbourhood) (digits : Nat) (p : Int) : Bool :=
  let point := digits * Nat.pow 10 p.toNat * r.den
  let scale := Nat.pow 10 (-p).toNat
  if r.closed then r.low * scale ≤ point && point ≤ r.high * scale
  else r.low * scale < point && point < r.high * scale

/-- The digits of the decimal nearest to the value among the two neighbours on the grid of
multiples of `10 ^ p`, if one of them lies in the neighbourhood; a tie goes to the even one. -/
def Neighbourhood.onGrid? (r : Neighbourhood) (p : Int) : Option Nat :=
  let num := r.value * Nat.pow 10 (-p).toNat
  let den := r.den * Nat.pow 10 p.toNat
  let d := num / den
  match r.holds d p, r.holds (d + 1) p with
  | true, true => some (roundedDiv num den)
  | true, false => some d
  | false, true => some (d + 1)
  | false, false => none

/-- The exponent of the first digit of the value. -/
def Neighbourhood.leading (r : Neighbourhood) : Int :=
  if r.den ≤ r.value then ((Nat.toDigits 10 (r.value / r.den)).length : Int) - 1
  else -((Nat.toDigits 10 ((r.den - 1) / r.value)).length : Int)

/-- Drops zeros at the end of a number of at most `fuel` digits and counts them in the
exponent. -/
def dropZeros (digits : Nat) (p : Int) : Nat → Nat × Int
  | 0 => (digits, p)
  | fuel + 1 =>
    if digits % 10 = 0 then dropZeros (digits / 10) (p + 1) fuel else (digits, p)

/-- Digits and exponent of the shortest decimal that rounds to a finite number other than
zero, the nearest one of that length. -/
def shortest (x : Binary64) : Nat × Int :=
  let r := x.neighbourhood
  let top := r.leading
  let grids : List Int := (List.range 17).map fun (n : Nat) => top - n
  match grids.findSome? fun p => (r.onGrid? p).map fun d => (d, p) with
  | some (d, p) => dropZeros d p 17
  | none => (0, 0)

/-- Digits written with a point or with an exponent. -/
def layout (digits : Text) (p : Int) : Text :=
  -- the value is 0.digits · 10 ^ point
  let point := (digits.length : Int) + p
  if -4 < point && point ≤ 16 then
    if point ≤ 0 then "0." ++ List.replicate (-point).toNat (CodePoint.ofChar '0') ++ digits
    else if p < 0 then digits.take point.toNat ++ "." ++ digits.drop point.toNat
    else digits ++ List.replicate p.toNat (CodePoint.ofChar '0') ++ ".0"
  else
    let exponent := point - 1
    let tail : Text := if digits.length = 1 then [] else "." ++ digits.drop 1
    digits.take 1 ++ tail ++ "e" ++ (if exponent < 0 then "-" else "+")
      ++ Text.ofNatPadded 10 2 exponent.natAbs

/-- The number as it is written. -/
def text (x : Binary64) : Text :=
  if x.isNaN then "nan"
  else
    let sign : Text := if x.isNegative then "-" else []
    if x.isInfinite then sign ++ "inf"
    else if x.magnitude = 0 then sign ++ "0.0"
    else
      let (digits, p) := x.shortest
      sign ++ layout (Text.ofNat digits) p

end RainMeta.Binary64
