import RainMeta.Text.Printable

/-!
# Quoted texts and byte strings

Messages show texts and byte strings between quotes, on one line, with everything that does
not show by itself written as an escape.

* `Text.quoted`: a text between single quotes, or between double quotes if it holds a
  single quote and no double quote.
* `Bytes.quoted`: the same for byte strings, after the letter `b`.
-/

namespace RainMeta

/-- The single quote. -/
def singleQuote : CodePoint := .ofNat 39

/-- The double quote. -/
def doubleQuote : CodePoint := .ofNat 34

/-- The quote to put around: the single one, unless only that one occurs inside. -/
def quoteFor (single double : Bool) : CodePoint :=
  if single && !double then doubleQuote else singleQuote

/-- How a code point is written between quotes `quote`. -/
def CodePoint.escaped (quote c : CodePoint) : Text :=
  if c = quote || c.val = 92 then [.ofNat 92, c]
  else if c.val = 9 then "\\t"
  else if c.val = 10 then "\\n"
  else if c.val = 13 then "\\r"
  else if c.isPrintable then [c]
  else if c.val < 0x100 then "\\x" ++ Text.hexPadded 2 c.val
  else if c.val < 0x10000 then "\\u" ++ Text.hexPadded 4 c.val
  else "\\U" ++ Text.hexPadded 8 c.val

/-- The text between quotes. -/
def Text.quoted (t : Text) : Text :=
  let quote := quoteFor (t.contains singleQuote) (t.contains doubleQuote)
  [quote] ++ t.flatMap (CodePoint.escaped quote) ++ [quote]

/-- How a byte is written between quotes `quote`. -/
def escapedByte (quote : CodePoint) (b : UInt8) : Text :=
  if b.toNat < 0x7F then CodePoint.escaped quote (.ofNat b.toNat)
  else "\\x" ++ Text.hexPadded 2 b.toNat

/-- The byte string between quotes. -/
def Bytes.quoted (b : Bytes) : Text :=
  let quote := quoteFor (b.contains 39) (b.contains 34)
  "b" ++ [quote] ++ b.flatMap (escapedByte quote) ++ [quote]

end RainMeta
