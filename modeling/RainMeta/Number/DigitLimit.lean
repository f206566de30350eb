import RainMeta.Text

/-!
# The limit on decimal digits

Integers are unbounded, but neither read nor shown in decimal beyond 4300 digits.

* `DigitLimit`: the error for a longer one.
* `Text.ofInt?`: the digits of an integer within the limit.
-/

namespace RainMeta

/-- An integer of more than 4300 digits; their number is known when it was being read. -/
structure DigitLimit where
  digits : Option Nat
  deriving DecidableEq

namespace DigitLimit

/-- The greatest number of digits. -/
def greatest : Nat := 4300

/-- The words for it. -/
def message (e : DigitLimit) : Text :=
  let found : Text := match e.digits with
    | none => []
    | some n => ": value has " ++ Text.ofNat n ++ " digits"
  "Exceeds the limit (4300 digits) for integer string conversion" ++ found
    ++ "; use sys.set_int_max_str_digits() to increase the limit"

end DigitLimit

/-- The decimal digits of an integer, if they are not too many. -/
def Text.ofInt? (i : Int) : Except DigitLimit Text :=
  if i.natAbs < Nat.pow 10 DigitLimit.greatest then .ok (Text.ofInt i) else .error ⟨none⟩

end RainMeta
