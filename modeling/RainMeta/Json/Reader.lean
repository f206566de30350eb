import RainMeta.Document
import RainMeta.Number.DigitLimit
import RainMeta.Platform
import RainMeta.Text.Utf8
import RainMeta.Text.Wide

/-!
# Reading JSON

The grammar is the usual one, with `NaN` and the infinities as further numbers and lone
surrogates allowed as escapes. Of the values of a repeated key the last one counts, in the
place of the first.

* `Json.readAs`: what stands at a place, made into values or into anything else that has parts
  of the same sorts.
* `Json.read`: the value that a text spells.
* `Json.readBytes`: the value that bytes spell, in whichever encoding they are.
* `Json.SyntaxError`: the first place where a text leaves the grammar.
-/

namespace RainMeta.Json

/-! ### Errors -/

/-- In which way a text leaves the grammar. -/
inductive Problem
  | byteOrderMark | value | propertyName | colon | comma | controlCharacter | unterminated
  | escape | unicodeEscape | extraData
  deriving DecidableEq

/-- The words for it. -/
def Problem.text : Problem → Text
  | .byteOrderMark => "Unexpected UTF-8 BOM (decode using utf-8-sig)"
  | .value => "Expecting value"
  | .propertyName => "Expecting property name enclosed in double quotes"
  | .colon => "Expecting ':' delimiter"
  | .comma => "Expecting ',' delimiter"
  | .controlCharacter => "Invalid control character at"
  | .unterminated => "Unterminated string starting at"
  | .escape => "Invalid \\escape"
  | .unicodeEscape => "Invalid \\uXXXX escape"
  | .extraData => "Extra data"

/-- The first place where a text leaves the grammar; lines and columns count from one. -/
structure SyntaxError where
  problem : Problem
  position : Nat
  line : Nat
  column : Nat
  deriving DecidableEq

/-- The words for it. -/
def SyntaxError.message (e : SyntaxError) : Text :=
  e.problem.text ++ ": line " ++ Text.ofNat e.line ++ " column " ++ Text.ofNat e.column
    ++ " (char " ++ Text.ofNat e.position ++ ")"

/-- Why a text or bytes spell no value. -/
inductive Error
  /-- They leave the grammar. -/
  | malformed (cause : SyntaxError)
  /-- The bytes spell no text. -/
  | encoding (cause : DecodeError)
  /-- An integer has too many digits. -/
  | digits (cause : DigitLimit)
  /-- Lists and objects are nested too deeply. -/
  | tooDeep
  deriving DecidableEq

/-- A problem and its position, or one of the limits. -/
inductive Fault
  | problem (p : Problem) (position : Nat)
  | digits (cause : DigitLimit)
  | tooDeep

/-- The error with line and column of its place in the whole text. -/
def Fault.inText (t : Text) : Fault → Error
  | .problem p position =>
    let before := t.take position
    let lineBreak (c : CodePoint) : Bool := c.val == 10
    .malformed
      { problem := p, position
        line := before.countP lineBreak + 1
        column := (before.reverse.takeWhile fun c => !lineBreak c).length + 1 }
  | .digits cause => .digits cause
  | .tooDeep => .tooDeep

/-! ### Places in a text -/

/-- What is left of a text, and the position where it starts. -/
structure Place where
  position : Nat
  rest : Text

namespace Place

/-- The place after `n` code points. -/
def skip (p : Place) (n : Nat) : Place :=
  { position := p.position + n, rest := p.rest.drop n }

/-- The place after the blanks. -/
def skipBlanks (p : Place) : Place :=
  p.skip (p.rest.takeWhile fun c => c.val == 32 || c.val == 9 || c.val == 10 || c.val == 13).length

/-- Whether a character stands here. -/
def at? (p : Place) (c : Char) : Bool :=
  match p.rest with
  | [] => false
  | d :: _ => d.val == c.toNat

/-- Whether a double quote stands here. -/
def atQuote (p : Place) : Bool :=
  match p.rest with
  | [] => false
  | d :: _ => d.val == 34

end Place

/-! ### Strings -/

/-- The number that four hexadecimal digits spell, if there are four. -/
def fourDigits? (t : Text) : Option Nat :=
  let digits := t.take 4
  if digits.length = 4 && digits.all CodePoint.isHexDigit then some (Text.readNat 16 digits)
  else none

/-- The low surrogate of an escape, with more text after it, if one stands here. -/
def lowSurrogate? (t : Text) : Option Nat :=
  match t with
  | b :: u :: rest =>
    if b.val = 92 && u.val = 117 && 5 ≤ (rest.take 5).length then
      (fourDigits? rest).filter fun n => 0xDC00 ≤ n && n < 0xE000
    else none
  | _ => none

/-- What a code point after a backslash stands for. -/
def simpleEscape? (c : CodePoint) : Option CodePoint :=
  if c.val = 34 || c.val = 92 || c.val = 47 then some c
  else if c.val = 98 then some (.ofNat 8)
  else if c.val = 102 then some (.ofNat 12)
  else if c.val = 110 then some (.ofNat 10)
  else if c.val = 114 then some (.ofNat 13)
  else if c.val = 116 then some (.ofNat 9)
  else none

/-- Reads on inside a string that was opened at `start`, after the code points `out`, the
last one first. Every step takes a code point, so `fuel` counts them. -/
def readString (start : Nat) (out : Text) : Nat → Place → Except Fault (Text × Place)
  | 0, _ => .error (.problem .unterminated start)
  | fuel + 1, p =>
    match p.rest with
    | [] => .error (.problem .unterminated start)
    | c :: rest =>
      if c.val = 34 then .ok (out.reverse, p.skip 1)
      else if c.val < 32 then .error (.problem .controlCharacter p.position)
      else if c.val ≠ 92 then
        readString start (c :: out) fuel { position := p.position + 1, rest }
      else match rest with
        | [] => .error (.problem .unterminated start)
        | e :: after =>
          if e.val = 117 then
            if (after.take 5).length < 5 then .error (.problem .unicodeEscape (p.position + 1))
            else match fourDigits? after with
              | none => .error (.problem .unicodeEscape (p.position + 1))
              | some n =>
                let low := if 0xD800 ≤ n && n < 0xDC00 then lowSurrogate? (after.drop 4) else none
                match low with
                | some m =>
                  let joined := 0x10000 + (n - 0xD800) * 0x400 + (m - 0xDC00)
                  readString start (.ofNat joined :: out) fuel (p.skip 12)
                | none => readString start (.ofNat n :: out) fuel (p.skip 6)
          else match simpleEscape? e with
            | some d => readString start (d :: out) fuel (p.skip 2)
            | none => .error (.problem .escape p.position)

/-! ### Numbers -/

/-- The digits at the start of a text. -/
def leadingDigits (t : Text) : Text :=
  t.takeWhile CodePoint.isDigit

/-- The parts of a number. -/
structure Numeral where
  negative : Bool
  whole : Text
  fraction : Text := []
  /-- The sign of the exponent and its digits. -/
  exponent : Option (Bool × Text) := none
  /-- How many code points the number takes. -/
  length : Nat

/-- The exponent at the start of a text, with its length; it needs a digit. -/
def exponentAt? (t : Text) : Option (Bool × Text × Nat) :=
  match t with
  | e :: rest =>
    if e.val = 101 || e.val = 69 then
      let (signed, negative) := match rest with
        | s :: _ => (s.val == 43 || s.val == 45, s.val == 45)
        | [] => (false, false)
      let digits := leadingDigits (if signed then rest.drop 1 else rest)
      if digits.isEmpty then none
      else some (negative, digits, digits.length + (if signed then 2 else 1))
    else none
  | [] => none

/-- The number at the start of a text: no zeros in front, and a digit on both sides of the
point. -/
def numeralAt? (t : Text) : Option Numeral :=
  let negative := match t with
    | c :: _ => c.val == 45
    | [] => false
  let sign := if negative then 1 else 0
  let digits := leadingDigits (t.drop sign)
  let whole := if digits.head?.any (fun c => c.val == 48) then digits.take 1 else digits
  if whole.isEmpty then none
  else
    let afterWhole := t.drop (sign + whole.length)
    let fraction := match afterWhole with
      | dot :: rest => if dot.val = 46 then leadingDigits rest else []
      | [] => []
    let pointed := if fraction.isEmpty then 0 else fraction.length + 1
    let length := sign + whole.length + pointed
    match exponentAt? (afterWhole.drop pointed) with
    | none => some { negative, whole, fraction, length }
    | some (down, exponent, taken) =>
      some
        { negative, whole, fraction, exponent := some (down, exponent), length := length + taken }

/-- The value of a number: an integer if it has neither fraction nor exponent. -/
def Numeral.value (n : Numeral) : Except Fault Value :=
  if n.fraction.isEmpty && n.exponent.isNone then
    if DigitLimit.greatest < n.whole.length then .error (.digits ⟨some n.whole.length⟩)
    else
      let i : Int := Text.readNat 10 n.whole
      .ok (.int (if n.negative then -i else i))
  else
    let digits := Text.readNat 10 (n.whole ++ n.fraction)
    let shift : Int := match n.exponent with
      | none => 0
      | some (down, e) => if down then -(Text.readNat 10 e : Int) else Text.readNat 10 e
    .ok (.float (Binary64.ofDecimal n.negative digits (shift - n.fraction.length)))

/-! ### Values -/

/-- The words that stand for values. -/
def words : List (Text × Value) :=
  [("null", .null), ("true", .bool true), ("false", .bool false), ("NaN", .float .nan),
   ("Infinity", .float (.infinity false)), ("-Infinity", .float (.infinity true))]

/-- A word or a number. -/
def readSimple (p : Place) : Except Fault (Value × Place) :=
  match words.find? fun w => w.1.isPrefixOf p.rest with
  | some (word, v) => .ok (v, p.skip word.length)
  | none => match numeralAt? p.rest with
    | some n => n.value.map fun v => (v, p.skip n.length)
    | none => .error (.problem .value p.position)

/-- The items of a list after its bracket, the list not being empty. -/
def readItems {α : Type} (read : Place → Except Fault (α × Place)) (out : List α) :
    Nat → Place → Except Fault (List α × Place)
  | 0, p => .error (.problem .value p.position)
  | fuel + 1, p => do
    let (v, p) ← read p
    let p := p.skipBlanks
    if p.at? ']' then return ((v :: out).reverse, p.skip 1)
    else if p.at? ',' then readItems read (v :: out) fuel (p.skip 1).skipBlanks
    else throw (.problem .comma p.position)

/-- The entries of an object after its brace, the object not being empty; the last one comes
first. -/
def readEntries {α : Type} (read : Place → Except Fault (α × Place)) (out : List (Text × α)) :
    Nat → Place → Except Fault (List (Text × α) × Place)
  | 0, p => .error (.problem .propertyName p.position)
  | fuel + 1, p => do
    if !p.atQuote then throw (.problem .propertyName p.position)
    let (key, p) ← readString p.position [] p.rest.length (p.skip 1)
    let p := p.skipBlanks
    if !p.at? ':' then throw (.problem .colon p.position)
    let (v, p) ← read (p.skip 1).skipBlanks
    let p := p.skipBlanks
    if p.at? '}' then return (((key, v) :: out).reverse, p.skip 1)
    else if p.at? ',' then readEntries read ((key, v) :: out) fuel (p.skip 1).skipBlanks
    else throw (.problem .comma p.position)

/-- The object with these entries: keys keep their first place, and later values win. -/
def objectOf (entries : List (Text × Value)) : Value :=
  let add (known : List (Value × Value)) (e : Text × Value) : List (Value × Value) :=
    Value.setKey (.text e.1) e.2 known
  .mapping (entries.foldl add [])

/-- What is made of words and numbers, of strings, of the items of a list and of the entries of
an object, all of them in the order of the text. -/
structure Making (α : Type) where
  simple : Value → α
  text : Text → α
  list : List α → α
  object : List (Text × α) → α

/-- Values are made of them. -/
def values : Making Value :=
  { simple := id, text := .text, list := .list, object := objectOf }

/-- What is made of what stands at a place, nested less than `depth` deep. -/
def readAs {α : Type} (m : Making α) : Nat → Place → Except Fault (α × Place)
  | 0, p =>
    if p.at? '{' || p.at? '[' then .error .tooDeep
    else if p.atQuote then
      (readString p.position [] p.rest.length (p.skip 1)).map fun (t, p) => (m.text t, p)
    else (readSimple p).map fun (v, p) => (m.simple v, p)
  | depth + 1, p =>
    if p.atQuote then
      (readString p.position [] p.rest.length (p.skip 1)).map fun (t, p) => (m.text t, p)
    else if p.at? '{' then
      let q := (p.skip 1).skipBlanks
      if q.at? '}' then .ok (m.object [], q.skip 1)
      else (readEntries (readAs m depth) [] (q.rest.length + 1) q).map fun (entries, p) =>
        (m.object entries, p)
    else if p.at? '[' then
      let q := (p.skip 1).skipBlanks
      if q.at? ']' then .ok (m.list [], q.skip 1)
      else (readItems (readAs m depth) [] (q.rest.length + 1) q).map fun (items, p) =>
        (m.list items, p)
    else (readSimple p).map fun (v, p) => (m.simple v, p)

/-- The number of brackets and braces that open in a text. -/
def brackets (t : Text) : Nat :=
  t.countP fun c => c.val == 91 || c.val == 123

/-- What is made of a whole text, apart from a byte order mark, nested at most `depth` deep. -/
def readWholeAs {α : Type} (m : Making α) (depth : Nat) (t : Text) : Except Fault α := do
  let (v, p) ← readAs m depth (Place.skipBlanks { position := 0, rest := t })
  let p := p.skipBlanks
  if p.rest.isEmpty then return v else throw (.problem .extraData p.position)

variable [Platform]

/-- The same, if the stack suffices for it. A safe number of brackets is never too much for it.
All that is nested opens a bracket, so that the brackets are depth enough. -/
def readIf {α : Type} (fits : Bool) (m : Making α) (t : Text) : Except Fault α :=
  if brackets t ≤ Platform.depth || fits then readWholeAs m (brackets t) t
  else .error .tooDeep

/-- The value that a text spells. -/
def read (t : Text) : Except Error Value :=
  let whole := readIf (Platform.readsText t) values t
  let result : Except Fault Value := match t with
    | c :: _ => if c.val = 0xFEFF then .error (.problem .byteOrderMark 0) else whole
    | [] => whole
  result.mapError (Fault.inText t)

/-! ### Bytes -/

/-- The text that bytes spell. A byte order mark tells the encoding; without one, zeros among
the first bytes do. -/
def decodeDetected (b : Bytes) : Except DecodeError Text :=
  match b with
  | 0x00 :: 0x00 :: 0xFE :: 0xFF :: rest => Utf32.decode .big 4 rest
  | 0xFF :: 0xFE :: 0x00 :: 0x00 :: rest => Utf32.decode .little 4 rest
  | 0xFE :: 0xFF :: rest => Utf16.decode .big 2 rest
  | 0xFF :: 0xFE :: rest => Utf16.decode .little 2 rest
  | 0xEF :: 0xBB :: 0xBF :: rest => Utf8.decodeWithSurrogates rest
  | b₀ :: b₁ :: b₂ :: b₃ :: _ =>
    if b₀ = 0 then
      if b₁ ≠ 0 then Utf16.decode .big 0 b else Utf32.decode .big 0 b
    else if b₁ = 0 then
      if b₂ ≠ 0 || b₃ ≠ 0 then Utf16.decode .little 0 b else Utf32.decode .little 0 b
    else Utf8.decodeWithSurrogates b
  | [b₀, b₁] =>
    if b₀ = 0 then Utf16.decode .big 0 b
    else if b₁ = 0 then Utf16.decode .little 0 b
    else Utf8.decodeWithSurrogates b
  | _ => Utf8.decodeWithSurrogates b

/-- What is made of what bytes spell. -/
def readBytesAs {α : Type} (m : Making α) (b : Bytes) : Except Error α :=
  match decodeDetected b with
  | .error cause => .error (.encoding cause)
  | .ok t => (readIf (Platform.readsBytes b) m t).mapError (Fault.inText t)

/-- The value that bytes spell. -/
def readBytes (b : Bytes) : Except Error Value :=
  readBytesAs values b

end RainMeta.Json
