import RainMeta.Number.Binary64
import RainMeta.Text.Blank
import RainMeta.Text.Decimal
import RainMeta.Yaml.Error

/-!
# Numbers in YAML scalars

* `readInteger`: an integer in decimal, or after a mark in another base, or in groups of base
  sixty. Low lines between digits do not count.
* `readFloat`: a floating point number in the same spirit.
-/

namespace RainMeta.Yaml

/-- The text without low lines. -/
def withoutLowLines (t : Text) : Text :=
  t.filter fun c => c.val ≠ 95

/-- Splits off one sign; the flag says whether it is a minus. -/
def splitSign (t : Text) : Bool × Text :=
  match t with
  | c :: rest =>
    if c.val = 45 then (true, rest) else if c.val = 43 then (false, rest) else (false, t)
  | [] => (false, [])

/-- An integer with its sign. -/
def signed (negative : Bool) (n : Nat) : Int :=
  if negative then -(n : Int) else n

/-! ### Integers -/

/-- Whether a code point is a digit of a base up to sixteen. -/
def isDigitOf (base : Nat) (c : CodePoint) : Bool :=
  c.isHexDigit && c.hexValue < base

/-- The letters that mark a base. -/
def baseLetter (base : Nat) : String :=
  match base with
  | 2 => "bB"
  | 8 => "oO"
  | 16 => "xX"
  | _ => ""

/-- The digits after the mark of a base, if it is there. -/
def withoutBaseMark (base : Nat) (t : Text) : Text :=
  match t with
  | c :: d :: rest => if c.val = 48 && d.isOneOf (baseLetter base) then rest else t
  | _ => t

/-- The blanks that may stand around a number. The controls that separate fields are none. -/
def isNumberBlank (c : CodePoint) : Bool :=
  c.isBlank && !(0x1C ≤ c.val && c.val ≤ 0x1F)

/-- An integer in a base, with blanks around it, a sign, and the mark of the base where it has
one. -/
def integerIn (base : Nat) (text : Text) : Except ValueDefect Int :=
  let (negative, body) := splitSign (text.latinDigits.trimBy isNumberBlank)
  let body := withoutBaseMark base body
  let digits := body.takeWhile (isDigitOf base)
  if base = 10 && DigitLimit.greatest < digits.length then .error (.digits ⟨some digits.length⟩)
  else if digits.isEmpty || digits.length < body.length then .error (.integer base text)
  else .ok (signed negative (Text.readNat base digits))

/-- An integer: after its sign `0b` and `0x` mark the bases two and sixteen and any other zero
the base eight; colons separate groups of base sixty. -/
def readInteger (t : Text) : Except ValueDefect Int := do
  let t := withoutLowLines t
  if t.isEmpty then throw .noDigits
  let (negative, t) := splitSign t
  let n ←
    if t.isEmpty then throw .noDigits
    else if t.startsWith "0b" then integerIn 2 (t.drop 2)
    else if t.startsWith "0x" then integerIn 16 (t.drop 2)
    else if t.startsWith "0" then integerIn 8 t
    else if t.contains (CodePoint.ofChar ':') then do
      let groups ← (t.splitOn (CodePoint.ofChar ':')).mapM (integerIn 10)
      pure (groups.foldl (fun n d => 60 * n + d) 0)
    else integerIn 10 t
  return if negative then -n else n

/-! ### Floating point numbers -/

/-- A decimal floating point number without blanks around it, after its sign. -/
def decimalFloat? (negative : Bool) (t : Text) : Option Binary64 :=
  let whole := t.takeWhile CodePoint.isDigit
  let rest : Text := t.drop whole.length
  let places := if rest.startsWith "." then (rest.drop 1).takeWhile CodePoint.isDigit else []
  let rest := if rest.startsWith "." then rest.drop (1 + places.length) else rest
  let number (exponent : Int) : Option Binary64 :=
    let digits := whole ++ places
    if digits.isEmpty then none
    else some (.ofDecimal negative (Text.readNat 10 digits) (exponent - places.length))
  match rest with
  | [] => number 0
  | e :: rest =>
    let (minus, digits) := splitSign rest
    if e.isOneOf "eE" && !digits.isEmpty && digits.all CodePoint.isDigit then
      number (signed minus (Text.readNat 10 digits))
    else none

/-- A floating point number with blanks around it and a sign, or the word for one that is not
finite. -/
def floatIn (text : Text) : Except ValueDefect Binary64 :=
  let (negative, body) := splitSign (text.latinDigits.trimBy isNumberBlank)
  let word := body.toLower
  if word = "inf" || word = "infinity" then .ok (.infinity negative)
  else if word = "nan" then .ok .nan
  else match decimalFloat? negative body with
    | some x => .ok x
    | none => .error (.float text)

/-- The sum of groups of base sixty, the least one first; `base` is the worth of the first. -/
def sumSixties (sum : Binary64) (base : Int) : List Binary64 → Except ValueDefect Binary64
  | [] => .ok sum
  | d :: rest =>
    match Binary64.ofInt? base with
    | none => .error .floatOverflow
    | some b => sumSixties (sum.add (d.mul b)) (base * 60) rest

/-- A floating point number: after its sign a word for one that is not finite, groups of base
sixty, or a decimal number. -/
def readFloat (t : Text) : Except ValueDefect Binary64 := do
  let t := (withoutLowLines t).toLower
  if t.isEmpty then throw .noDigits
  let (negative, t) := splitSign t
  let x ←
    if t = ".inf" then pure (.infinity false)
    else if t = ".nan" then return .nan
    else if t.contains (CodePoint.ofChar ':') then do
      let groups ← (t.splitOn (CodePoint.ofChar ':')).mapM floatIn
      sumSixties .zero 1 groups.reverse
    else floatIn t
  return if negative then x.neg else x

end RainMeta.Yaml
