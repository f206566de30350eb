import RainMeta.Text

/-!
# Blank code points

* `CodePoint.isBlank`: the code points that count as white space: the separators, the line
  and paragraph ends, and the controls that separate fields.
* `Text.strip`: a text without the blanks on both sides.
-/

namespace RainMeta

/-- White space: every character with a directional class of separator or white space, and
every space separator. -/
def CodePoint.isBlank (c : CodePoint) : Bool :=
  let n := c.val
  (9 ≤ n && n ≤ 13) || (0x1C ≤ n && n ≤ 0x20) || n == 0x85 || n == 0xA0 || n == 0x1680
    || (0x2000 ≤ n && n ≤ 0x200A) || n == 0x2028 || n == 0x2029 || n == 0x202F || n == 0x205F
    || n == 0x3000

/-- The text without the blanks on both sides. -/
def Text.strip (t : Text) : Text :=
  t.trimBy CodePoint.isBlank

end RainMeta
