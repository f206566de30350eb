import RainMeta.Text

/-!
# Places in a YAML stream

* `Yaml.Cursor`: what is left of a stream, and the line and column where it starts.
* `Cursor.peek`, `Cursor.advance`, `Cursor.spanWhile`: looking ahead and moving on.
* `Cursor.lineBreak`: the line break at a place, and the place after it.
-/

namespace RainMeta.Yaml

/-! ### Classes of code points -/

/-- The code points that end a line. -/
def isBreak (c : CodePoint) : Bool :=
  c.val == 10 || c.val == 13 || c.val == 0x85 || c.val == 0x2028 || c.val == 0x2029

/-- A space or a tab. -/
def isSpace (c : CodePoint) : Bool :=
  c.val == 32 || c.val == 9

/-- Letters and digits of names, the hyphen and the low line. -/
def isNameChar (c : CodePoint) : Bool :=
  c.isDigit || c.isLatinLetter || c.isOneOf "-_"

/-- The code points that a stream may hold. -/
def isAllowed (c : CodePoint) : Bool :=
  let n := c.val
  n == 9 || n == 10 || n == 13 || (0x20 ≤ n && n ≤ 0x7E) || n == 0x85 || (0xA0 ≤ n && n ≤ 0xD7FF)
    || (0xE000 ≤ n && n ≤ 0xFFFD) || 0x10000 ≤ n

/-! ### Cursors -/

/-- What is left of a stream, with the number of code points, lines and columns before it. -/
structure Cursor where
  rest : Text
  index : Nat := 0
  line : Nat := 0
  column : Nat := 0

namespace Cursor

/-- The code point `n` places ahead. -/
def peek? (c : Cursor) (n : Nat := 0) : Option CodePoint :=
  c.rest[n]?

/-- Whether nothing is left. -/
def atEnd (c : Cursor) : Bool :=
  c.rest.isEmpty

/-- Whether a character stands here. -/
def at? (c : Cursor) (x : Char) : Bool :=
  match c.rest with
  | [] => false
  | d :: _ => d.val == x.toNat

/-- Whether the code point `n` places ahead is of a class. -/
def is (c : Cursor) (p : CodePoint → Bool) (n : Nat := 0) : Bool :=
  (c.peek? n).any p

/-- Whether the stream ends `n` places ahead or has a space, a tab or a line break there. -/
def blankAt (c : Cursor) (n : Nat := 0) : Bool :=
  (c.peek? n).all fun x => isSpace x || isBreak x

/-- Whether the stream ends here or has a line break. -/
def atLineEnd (c : Cursor) : Bool :=
  c.peek?.all isBreak

/-- Whether the stream ends here or has a space or a line break; a tab will not do. -/
def atSpaceOrLineEnd (c : Cursor) : Bool :=
  c.peek?.all fun x => x.val == 32 || isBreak x

/-- The place after the next code point. A byte order mark takes no column. -/
def next (c : Cursor) : Cursor :=
  match c.rest with
  | [] => c
  | x :: rest =>
    let returns := x.val == 13 && !(rest.head?.any fun y => y.val == 10)
    if (isBreak x && x.val ≠ 13) || returns then
      { rest, index := c.index + 1, line := c.line + 1, column := 0 }
    else if x.val = 0xFEFF then { c with rest, index := c.index + 1 }
    else { c with rest, index := c.index + 1, column := c.column + 1 }

/-- The place after the next `n` code points. -/
def advance (c : Cursor) : Nat → Cursor
  | 0 => c
  | n + 1 => c.next.advance n

/-- The code points of a class that stand here, and the place after them. -/
def spanWhile (c : Cursor) (p : CodePoint → Bool) : Text × Cursor :=
  let taken := c.rest.takeWhile p
  (taken, c.advance taken.length)

/-- The place after the code points of a class that stand here. -/
def skipWhile (c : Cursor) (p : CodePoint → Bool) : Cursor :=
  (c.spanWhile p).2

/-- The place after the spaces. -/
def skipSpaces (c : Cursor) : Cursor :=
  c.skipWhile fun x => x.val == 32

/-- The place at the end of the line, after a comment if one stands here. -/
def skipComment (c : Cursor) : Cursor :=
  if c.at? '#' then c.skipWhile fun x => !isBreak x else c

/-- The line break that stands here and the place after it; a separator of lines or paragraphs
stands for itself, all other breaks for a line feed. -/
def lineBreak (c : Cursor) : Text × Cursor :=
  match c.rest with
  | x :: rest =>
    if x.val = 0x2028 || x.val = 0x2029 then ([x], c.next)
    else if x.val = 13 && rest.head?.any (fun y => y.val == 10) then ([.ofNat 10], c.advance 2)
    else if isBreak x then ([.ofNat 10], c.next)
    else ([], c)
  | [] => ([], c)

/-- Whether the marks of a document's start or end stand here, with a blank after them. -/
def atDocumentMark (c : Cursor) : Bool :=
  (c.rest.startsWith "---" || c.rest.startsWith "...") && c.blankAt 3

end Cursor

end RainMeta.Yaml
