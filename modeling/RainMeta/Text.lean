/-!
# Text

Texts are lists of code points, the surrogates included: an escape in a document or an
undecodable byte in a file name puts a lone surrogate into a text, and it has to survive
until the text is encoded.

* `CodePoint`, `Text`: code points and their sequences. String literals coerce to texts.
* `Bytes`: byte strings.
* `Text.join`, `Text.splitOn`, `Text.replace…`: the cutting and gluing that messages and
  readers need.
* `Text.ofNat`, `Text.hexDigits`: digits of numbers.
-/

namespace RainMeta

/-- A code point: any number below `0x110000`, surrogates included. -/
structure CodePoint where
  val : Nat
  isLt : val < 0x110000
  deriving DecidableEq

namespace CodePoint

/-- The code point of a character. -/
def ofChar (c : Char) : CodePoint :=
  ⟨c.toNat, by
    have := c.valid
    simp only [UInt32.isValidChar, Nat.isValidChar, Char.toNat] at *
    omega⟩

instance : Coe Char CodePoint := ⟨ofChar⟩

instance : Inhabited CodePoint := ⟨ofChar ' '⟩

/-- The code point numbered `n`; beyond the last one, the replacement character. -/
def ofNat (n : Nat) : CodePoint :=
  if h : n < 0x110000 then ⟨n, h⟩ else ⟨0xFFFD, by decide⟩

theorem ofNat_val (c : CodePoint) : ofNat c.val = c := by
  simp [ofNat, c.isLt]

theorem val_ofNat {n : Nat} (h : n < 0x110000) : (ofNat n).val = n := by
  simp [ofNat, h]

/-- Surrogates are code points that no encoding of text can carry. -/
def isSurrogate (c : CodePoint) : Bool :=
  0xD800 ≤ c.val && c.val < 0xE000

/-- The surrogates that stand for single undecodable bytes `0x80` to `0xFF`. -/
def isEscapedByte (c : CodePoint) : Bool :=
  0xDC80 ≤ c.val && c.val < 0xDD00

/-- The surrogate that stands for an undecodable byte. -/
def ofEscapedByte (b : UInt8) : CodePoint :=
  ofNat (0xDC00 + b.toNat)

/-- Whether the code point lies in the range of characters `lo` to `hi`. -/
def isIn (lo hi : Char) (c : CodePoint) : Bool :=
  lo.toNat ≤ c.val && c.val ≤ hi.toNat

/-- A decimal digit `0` to `9`. -/
def isDigit (c : CodePoint) : Bool :=
  c.isIn '0' '9'

/-- A hexadecimal digit in either case. -/
def isHexDigit (c : CodePoint) : Bool :=
  c.isIn '0' '9' || c.isIn 'a' 'f' || c.isIn 'A' 'F'

/-- A letter `a` to `z` or `A` to `Z`. -/
def isLatinLetter (c : CodePoint) : Bool :=
  c.isIn 'a' 'z' || c.isIn 'A' 'Z'

/-- The value of a hexadecimal digit; `0` for any other code point. -/
def hexValue (c : CodePoint) : Nat :=
  if c.isIn '0' '9' then c.val - 48
  else if c.isIn 'a' 'f' then c.val - 87
  else if c.isIn 'A' 'F' then c.val - 55
  else 0

/-- Small letters for the capitals `A` to `Z`; any other code point stays. -/
def toLower (c : CodePoint) : CodePoint :=
  if c.isIn 'A' 'Z' then ofNat (c.val + 32) else c

/-- Whether the code point is one of the characters of a string. -/
def isOneOf (s : String) (c : CodePoint) : Bool :=
  s.toList.any fun d => d.toNat == c.val

end CodePoint

/-- A text is a sequence of code points. -/
abbrev Text := List CodePoint

/-- A byte string. -/
abbrev Bytes := List UInt8

/-- The greatest number of bytes of a byte string: what a signed word of 64 bits can count. -/
def Bytes.longest : Nat := 0x7FFFFFFFFFFFFFFF

namespace Text

/-- The text of a string. -/
def ofString (s : String) : Text :=
  s.toList.map CodePoint.ofChar

instance : Coe String Text := ⟨ofString⟩

/-- Order by code points, a proper beginning first. -/
def le : Text → Text → Bool
  | [], _ => true
  | _ :: _, [] => false
  | c :: t, d :: u => c.val < d.val || (c.val == d.val && le t u)

/-- The texts one after another, with `mark` between neighbours. -/
def join (mark : Text) (parts : List Text) : Text :=
  (parts.intersperse mark).flatten

/-- The pieces of a text between the places where `mark` stands: one more than there are
marks. -/
def splitOn (mark : CodePoint) (t : Text) : List Text :=
  t.foldr (fun c pieces =>
    if c = mark then [] :: pieces
    else match pieces with
      | [] => [[c]]
      | p :: ps => (c :: p) :: ps) [[]]

/-- Cuts a text at the first place where `mark` stands. -/
def cutAt (mark : Text) : Text → Option (Text × Text)
  | [] => if mark.isEmpty then some ([], []) else none
  | c :: t =>
    if mark.isPrefixOf (c :: t) then some ([], (c :: t).drop mark.length)
    else (cutAt mark t).map fun (before, after) => (c :: before, after)

/-- Whether the text begins with the characters of a string. -/
def startsWith (t : Text) (s : String) : Bool :=
  (ofString s).isPrefixOf t

/-- The text without what surrounds it on both sides, as `drop` says. -/
def trimBy (drop : CodePoint → Bool) (t : Text) : Text :=
  ((t.dropWhile drop).reverse.dropWhile drop).reverse

/-- The decimal digits of a number. -/
def ofNat (n : Nat) : Text :=
  (Nat.toDigits 10 n).map CodePoint.ofChar

/-- The decimal digits of an integer, with a minus sign if it is negative. -/
def ofInt : Int → Text
  | .ofNat n => ofNat n
  | .negSucc n => CodePoint.ofChar '-' :: ofNat (n + 1)

/-- The digits of a number in a base up to sixteen, filled up with zeros to a width. -/
def ofNatPadded (base width n : Nat) : Text :=
  let digits := (Nat.toDigits base n).map CodePoint.ofChar
  List.replicate (width - digits.length) (CodePoint.ofChar '0') ++ digits

/-- Lower-case hexadecimal digits, filled up with zeros to a width. -/
def hexPadded (width n : Nat) : Text :=
  ofNatPadded 16 width n

/-- The number that decimal digits spell, read from the left after `acc`. -/
def readNat (base : Nat) (t : Text) : Nat :=
  t.foldl (fun acc c => acc * base + c.hexValue) 0

/-- Line ends written as a carriage return, alone or before a line feed, become line
feeds. -/
def unifyLineEnds (t : Text) : Text :=
  go [] t
where
  /-- The rest of the text after `out`, the last line end first. -/
  go (out : Text) : Text → Text
    | [] => out.reverse
    | c :: rest =>
      if c.val = 13 then
        match rest with
        | [] => go (.ofNat 10 :: out) []
        | d :: rest =>
          if d.val = 10 then go out (d :: rest) else go (.ofNat 10 :: out) (d :: rest)
      else go (c :: out) rest

/-- The text without one line feed at its end, unless it is nothing else. -/
def withoutLineFeed (t : Text) : Text :=
  match t.reverse with
  | c :: rest => if c.val = 10 && !rest.isEmpty then rest.reverse else t
  | [] => t

/-- Small letters for the capitals `A` to `Z`. -/
def toLower (t : Text) : Text :=
  t.map CodePoint.toLower

/-- The last place where `mark` stands, counted from the start. -/
def lastIndexOf? (mark : CodePoint) (t : Text) : Option Nat :=
  (t.reverse.idxOf? mark).map fun i => t.length - 1 - i

end Text

end RainMeta
