import RainMeta.Calendar
import RainMeta.Number.DigitLimit
import RainMeta.Text.Quoted

/-!
# Styles and errors of YAML documents

* `Yaml.KeyStyle`: how the keys of mappings are read.
* `Yaml.Error`: why a stream spells no document.
* `Yaml.ValueDefect`: why a scalar has no value of the type that its tag names.
-/

namespace RainMeta.Yaml

/-- How the keys of mappings are read. -/
inductive KeyStyle
  /-- A scalar is the text that is written. -/
  | asWritten
  /-- A key is its value. -/
  | byValue
  deriving DecidableEq

/-- Why a scalar has no value. -/
inductive ValueDefect
  /-- An escape names no code point. -/
  | codePoint
  /-- An escape names a number that is too large for any machine. -/
  | codePointOverflow
  /-- An integer has too many digits. -/
  | digits (cause : DigitLimit)
  /-- A text is no integer in a base. -/
  | integer (base : Nat) (text : Text)
  /-- A text is no floating point number. -/
  | float (text : Text)
  /-- A sexagesimal number is too large. -/
  | floatOverflow
  /-- A text is no truth value. -/
  | truth (text : Text)
  /-- A number has no digits at all. -/
  | noDigits
  /-- A text is no date or moment. -/
  | timestamp
  /-- The numbers of a date or moment are out of range. -/
  | calendar (cause : CalendarError)
  /-- A scalar stands for a mapping. -/
  | entries
  deriving DecidableEq

/-- The words for it. -/
def ValueDefect.message : ValueDefect → Text
  | .codePoint => "chr() arg not in range(0x110000)"
  | .codePointOverflow => []
  | .digits cause => cause.message
  | .integer base text =>
    "invalid literal for int() with base " ++ Text.ofNat base ++ ": " ++ text.quoted
  | .float text => "could not convert string to float: " ++ text.quoted
  | .floatOverflow => []
  | .truth text => text.quoted
  | .noDigits => "string index out of range"
  | .timestamp => "'NoneType' object has no attribute 'groupdict'"
  | .calendar cause => cause.message
  | .entries => "not enough values to unpack (expected 2, got 1)"

/-- Why a stream spells no document. -/
inductive Error
  /-- It breaks the rules of the language. -/
  | malformed
  /-- A value is of a kind that cannot stand where it does. -/
  | kind (message : Text)
  /-- A scalar has no value. -/
  | value (defect : ValueDefect)
  /-- Collections are nested too deeply. -/
  | tooDeep
  deriving DecidableEq

end RainMeta.Yaml
