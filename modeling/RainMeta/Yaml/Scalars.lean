import RainMeta.Text.Utf8
import RainMeta.Yaml.Token

/-!
# Scalars, names and tags in a stream

How the parts of a YAML stream that carry text are read. Each reader starts at a cursor and
gives what it read and the cursor after it.

* `readPlain`, `readQuoted`, `readBlock`: the three styles of scalars.
* `readName`, `readTag`, `readDirective`: anchors, tags and directives.
-/

namespace RainMeta.Yaml

/-- The stream leaves the language. -/
def malformed {α : Type} : Except Error α := .error .malformed

/-- Goes on if a condition holds. -/
def expect (condition : Bool) : Except Error Unit :=
  if condition then .ok () else malformed

/-! ### Plain scalars -/

/-- The number of code points of a plain scalar that stand at the start of a text, up to a
blank, to a colon before a blank, and inside brackets also to an indicator. -/
def plainRun (flow : Bool) : Text → Nat
  | [] => 0
  | c :: rest =>
    let blankNext := match rest with
      | [] => true
      | d :: _ => isSpace d || isBreak d || (flow && d.isOneOf ",[]\x7b\x7d")
    if isSpace c || isBreak c || (c.val == 58 && blankNext) || (flow && c.isOneOf ",?[]\x7b\x7d")
    then 0
    else plainRun flow rest + 1

/-- The line breaks that stand here, with spaces between them, and the place after them; nothing
if a document mark follows one of them. Every break takes a code point, so `fuel` counts
them. -/
def plainBreaks (out : Text) : Nat → Cursor → Option (Text × Cursor)
  | 0, c => some (out, c)
  | fuel + 1, c =>
    let c := c.skipSpaces
    if c.is isBreak then
      let (br, c) := c.lineBreak
      if c.atDocumentMark then none else plainBreaks (out ++ br) fuel c
    else some (out, c)

/-- What joins the lines of a scalar: a single line feed becomes a space, further breaks
stay. -/
def folded (first breaks : Text) : Text :=
  if first ≠ [.ofNat 10] then first ++ breaks
  else if breaks.isEmpty then [.ofNat 32]
  else breaks

/-- What joins two runs of a plain scalar: spaces, or folded line breaks; nothing if the scalar
ends here. The flag says that a line has ended. -/
def plainGap (c : Cursor) : Option Text × Bool × Cursor :=
  let (spaces, c) := c.spanWhile fun x => x.val == 32
  if c.is isBreak then
    let (first, c) := c.lineBreak
    if c.atDocumentMark then (none, true, c)
    else match plainBreaks [] (c.rest.length + 1) c with
      | none => (none, true, c)
      | some (breaks, c) => (some (folded first breaks), true, c)
  else if spaces.isEmpty then (none, false, c)
  else (some spaces, false, c)

/-- Reads on in a plain scalar after the text `out` and a gap. Lines have to stand right of
`indent`, except inside brackets. The flag says whether a line has ended after the last run. -/
def readPlainFrom (flow : Bool) (indent : Int) (out gap : Text) (ended : Bool) :
    Nat → Cursor → Text × Bool × Cursor
  | 0, c => (out, ended, c)
  | fuel + 1, c =>
    let run := if c.at? '#' then 0 else plainRun flow c.rest
    if run = 0 then (out, ended, c)
    else
      let out := out ++ gap ++ c.rest.take run
      let (gap, lineEnded, c) := plainGap (c.advance run)
      match gap with
      | none => (out, lineEnded, c)
      | some gap =>
        if c.at? '#' || (!flow && (c.column : Int) < indent + 1) then (out, lineEnded, c)
        else readPlainFrom flow indent out gap lineEnded fuel c

/-- A plain scalar, and whether a line has ended after it. -/
def readPlain (flow : Bool) (indent : Int) (c : Cursor) : Text × Bool × Cursor :=
  readPlainFrom flow indent [] [] false (c.rest.length + 1) c

/-! ### Quoted scalars -/

/-- What a code point after a backslash stands for. -/
def escapes : List (Char × Nat) :=
  [('0', 0), ('a', 7), ('b', 8), ('t', 9), ('\t', 9), ('n', 10), ('v', 11), ('f', 12), ('r', 13),
   ('e', 27), (' ', 32), ('"', 34), ('\\', 92), ('/', 47), ('N', 0x85), ('_', 0xA0), ('L', 0x2028),
   ('P', 0x2029)]

/-- How many digits follow a code point after a backslash. -/
def numericEscapes : List (Char × Nat) :=
  [('x', 2), ('u', 4), ('U', 8)]

/-- What a table has for a code point. -/
def tableValue? (table : List (Char × Nat)) (c : CodePoint) : Option Nat :=
  (table.find? fun e => e.1.toNat == c.val).map Prod.snd

/-- The code point that hexadecimal digits name. -/
def codePointOf (digits : Text) : Except Error CodePoint :=
  let n := Text.readNat 16 digits
  if n < 0x110000 then .ok (.ofNat n)
  else if n < 0x80000000 then .error (.value .codePoint)
  else .error (.value .codePointOverflow)

/-- The line breaks inside a quoted scalar; document marks may not follow them. -/
def quotedBreaks (out : Text) : Nat → Cursor → Except Error (Text × Cursor)
  | 0, c => .ok (out, c)
  | fuel + 1, c =>
    if c.atDocumentMark then malformed
    else
      let c := c.skipWhile isSpace
      if c.is isBreak then
        let (br, c) := c.lineBreak
        quotedBreaks (out ++ br) fuel c
      else .ok (out, c)

/-- An escape, after its backslash. -/
def readEscape (c : Cursor) : Except Error (Text × Cursor) :=
  match c.peek? with
  | none => malformed
  | some x =>
    match tableValue? escapes x with
    | some n => .ok ([.ofNat n], c.next)
    | none => match tableValue? numericEscapes x with
      | some width => do
        let c := c.next
        let digits := c.rest.take width
        expect (digits.length = width && digits.all CodePoint.isHexDigit)
        return ([← codePointOf digits], c.advance width)
      | none =>
        if isBreak x then
          let (_, c) := c.lineBreak
          quotedBreaks [] (c.rest.length + 1) c
        else malformed

/-- Spaces inside a quoted scalar: they stay, unless a line ends after them. -/
def readQuotedSpaces (c : Cursor) : Except Error (Text × Cursor) :=
  let (spaces, c) := c.spanWhile isSpace
  if c.atEnd then malformed
  else if c.is isBreak then do
    let (first, c) := c.lineBreak
    let (breaks, c) ← quotedBreaks [] (c.rest.length + 1) c
    return (folded first breaks, c)
  else .ok (spaces, c)

/-- Reads on in a quoted scalar up to its end; the pieces read so far are in `out`, the last one
first. -/
def readQuotedFrom (double : Bool) (out : List Text) : Nat → Cursor → Except Error (Text × Cursor)
  | 0, _ => malformed
  | fuel + 1, c =>
    let plain (x : CodePoint) : Bool :=
      !(x.isOneOf "'\"\\" || isSpace x || isBreak x)
    let (run, c) := c.spanWhile plain
    let out := run :: out
    if double then
      if c.is fun x => x.val == 34 then .ok (out.reverse.flatten, c.next)
      else if c.is fun x => x.val == 39 then readQuotedFrom double ([.ofNat 39] :: out) fuel c.next
      else if c.is fun x => x.val == 92 then do
        let (piece, c) ← readEscape c.next
        readQuotedFrom double (piece :: out) fuel c
      else do
        let (piece, c) ← readQuotedSpaces c
        readQuotedFrom double (piece :: out) fuel c
    else
      if c.is fun x => x.val == 39 then
        if c.next.is fun x => x.val == 39 then
          readQuotedFrom double ([.ofNat 39] :: out) fuel (c.advance 2)
        else .ok (out.reverse.flatten, c.next)
      else if c.is fun x => x.isOneOf "\"\\" then
        readQuotedFrom double (c.rest.take 1 :: out) fuel c.next
      else do
        let (piece, c) ← readQuotedSpaces c
        readQuotedFrom double (piece :: out) fuel c

/-- A scalar between quotes. -/
def readQuoted (double : Bool) (c : Cursor) : Except Error (Text × Cursor) :=
  readQuotedFrom double [] (c.rest.length + 1) c.next

/-! ### Block scalars -/

/-- What happens to the line breaks at the end of a block scalar. -/
inductive Chomping
  | strip | clip | keep
  deriving DecidableEq

/-- The chomping that an indicator asks for. -/
def chomping? (c : Cursor) : Option Chomping :=
  if c.at? '+' then some .keep else if c.at? '-' then some .strip else none

/-- The indentation that an indicator asks for; zero is none. -/
def increment? (c : Cursor) : Except Error (Option Nat) :=
  match c.peek? with
  | some x =>
    if x.isDigit then if x.val = 48 then malformed else .ok (some (x.val - 48)) else .ok none
  | none => .ok none

/-- The indicators of a block scalar, in either order. -/
def readIndicators (c : Cursor) : Except Error ((Chomping × Option Nat) × Cursor) := do
  let (chomping, increment, c) ← match chomping? c with
    | some chomping => do
      match ← increment? c.next with
      | some n => pure (chomping, some n, c.advance 2)
      | none => pure (chomping, none, c.next)
    | none => do
      match ← increment? c with
      | some n => match chomping? c.next with
        | some chomping => pure (chomping, some n, c.advance 2)
        | none => pure (Chomping.clip, some n, c.next)
      | none => pure (Chomping.clip, none, c)
  expect c.atSpaceOrLineEnd
  return ((chomping, increment), c)

/-- The rest of a line that may hold a comment, and the line break. -/
def skipLineRest (c : Cursor) : Except Error Cursor := do
  let c := c.skipSpaces.skipComment
  expect c.atLineEnd
  return c.lineBreak.2

/-- The place after at most `indent` columns of spaces. -/
def skipIndent (indent : Nat) (c : Cursor) : Cursor :=
  let spaces := (c.rest.takeWhile fun x => x.val == 32).length
  c.advance (min spaces (indent - c.column))

/-- The line breaks at the start of a block scalar, and the deepest indentation among them. -/
def leadingBreaks (out : Text) (deepest : Nat) : Nat → Cursor → Text × Nat × Cursor
  | 0, c => (out, deepest, c)
  | fuel + 1, c =>
    let c := c.skipSpaces
    let deepest := max deepest c.column
    if c.is isBreak then
      let (br, c) := c.lineBreak
      leadingBreaks (out ++ br) deepest fuel c
    else (out, deepest, c)

/-- The line breaks between lines of a block scalar, at most `indent` columns of spaces after
each. -/
def blockBreaks (indent : Nat) (out : Text) : Nat → Cursor → Text × Cursor
  | 0, c => (out, c)
  | fuel + 1, c =>
    let c := skipIndent indent c
    if c.is isBreak then
      let (br, c) := c.lineBreak
      blockBreaks indent (out ++ br) fuel c
    else (out, c)

/-- Reads the lines of a block scalar, each after breaks. The result holds the text, the last
line break and the breaks after it. -/
def blockLines (fold : Bool) (indent : Nat) (out : List Text) (breaks : Text) :
    Nat → Cursor → List Text × Text × Text × Cursor
  | 0, c => (out, [], breaks, c)
  | fuel + 1, c =>
    let starts (c : Cursor) : Bool := c.column == indent && !c.atEnd
    if starts c then
      let spaced := c.is isSpace
      let (line, c) := c.spanWhile fun x => !isBreak x
      let (br, c) := c.lineBreak
      let out := line :: breaks :: out
      let (breaks, c) := blockBreaks indent [] (c.rest.length + 1) c
      if starts c then
        let joint : Text :=
          if fold && br == [.ofNat 10] && !spaced && !c.is isSpace then
            if breaks.isEmpty then [.ofNat 32] else []
          else br
        blockLines fold indent (joint :: out) breaks fuel c
      else (out, br, breaks, c)
    else (out, [], breaks, c)

/-- A block scalar inside a collection with an indentation; `fold` joins its lines. -/
def readBlock (fold : Bool) (indent : Int) (c : Cursor) : Except Error (Text × Cursor) := do
  let ((chomping, increment), c) ← readIndicators c.next
  let c ← skipLineRest c
  let least := (max 1 (indent + 1)).toNat
  let (column, breaks, c) := match increment with
    | none =>
      let (breaks, deepest, c) := leadingBreaks [] 0 (c.rest.length + 1) c
      (max least deepest, breaks, c)
    | some n =>
      let column := least + n - 1
      let (breaks, c) := blockBreaks column [] (c.rest.length + 1) c
      (column, breaks, c)
  let (pieces, br, breaks, c) := blockLines fold column [] breaks (c.rest.length + 1) c
  let text := pieces.reverse.flatten
  let tail : Text := match chomping with
    | .strip => []
    | .clip => br
    | .keep => br ++ breaks
  return (text ++ tail, c)

/-! ### Names, tags and directives -/

/-- The name of an anchor or of a reference to one, after its indicator. -/
def readName (c : Cursor) : Except Error (Text × Cursor) := do
  let (name, c) := c.next.spanWhile isNameChar
  expect (!name.isEmpty && (c.blankAt || c.is fun x => x.isOneOf "?:,]\x7d%@`"))
  return (name, c)

/-- Bytes that are written with percent signs. -/
def readPercentBytes (out : Bytes) : Nat → Cursor → Except Error (Bytes × Cursor)
  | 0, c => .ok (out.reverse, c)
  | fuel + 1, c =>
    if c.at? '%' then do
      let digits := c.next.rest.take 2
      expect (digits.length = 2 && digits.all CodePoint.isHexDigit)
      readPercentBytes ((Text.readNat 16 digits).toUInt8 :: out) fuel (c.advance 3)
    else .ok (out.reverse, c)

/-- The code points of tags. -/
def isTagChar (c : CodePoint) : Bool :=
  c.isDigit || c.isLatinLetter || c.isOneOf "-;/?:@&=+$,_.!~*'()[]"

/-- Reads on in a tag after the text `out`. -/
def readTagTextFrom (out : Text) : Nat → Cursor → Except Error (Text × Cursor)
  | 0, c => .ok (out, c)
  | fuel + 1, c => do
    let (run, c) := c.spanWhile isTagChar
    if c.at? '%' then
      let (bytes, c) ← readPercentBytes [] (c.rest.length + 1) c
      match Utf8.decode bytes with
      | .ok t => readTagTextFrom (out ++ run ++ t) fuel c
      | .error _ => malformed
    else return (out ++ run, c)

/-- The text of a tag. At least one code point or escape has to stand here. -/
def readTagText (c : Cursor) : Except Error (Text × Cursor) := do
  expect (c.is fun x => isTagChar x || x.val == 37)
  readTagTextFrom [] (c.rest.length + 1) c

/-- The handle of a tag: an exclamation mark, or a name between two of them. -/
def readHandle (c : Cursor) : Except Error (Text × Cursor) := do
  expect (c.at? '!')
  if c.next.is fun x => x.val == 32 then return ([.ofNat 33], c.next)
  let (name, after) := c.next.spanWhile isNameChar
  expect (after.at? '!')
  return ([.ofNat 33] ++ name ++ [.ofNat 33], after.next)

/-- A tag: between angle brackets, on its own, or after a handle. -/
def readTag (c : Cursor) : Except Error ((Option Text × Text) × Cursor) := do
  let (tag, c) ←
    if c.next.at? '<' then do
      let (suffix, c) ← readTagText (c.advance 2)
      expect (c.at? '>')
      pure ((none, suffix), c.next)
    else if c.blankAt 1 then pure ((none, [CodePoint.ofNat 33]), c.next)
    else do
      let ahead := c.next.rest.takeWhile fun x => !(x.val == 32 || isBreak x)
      if ahead.contains (.ofNat 33) then
        let (handle, c) ← readHandle c
        let (suffix, c) ← readTagText c
        pure ((some handle, suffix), c)
      else
        let (suffix, c) ← readTagText c.next
        pure ((some [CodePoint.ofNat 33], suffix), c)
  expect c.atSpaceOrLineEnd
  return (tag, c)

/-- A number in a version. -/
def readVersionNumber (c : Cursor) : Except Error (Nat × Cursor) := do
  let (digits, c) := c.spanWhile CodePoint.isDigit
  expect (!digits.isEmpty)
  if DigitLimit.greatest < digits.length then
    throw (.value (.digits ⟨some digits.length⟩))
  return (Text.readNat 10 digits, c)

/-- A directive line. -/
def readDirective (c : Cursor) : Except Error (Directive × Cursor) := do
  let (name, c) := c.next.spanWhile isNameChar
  expect (!name.isEmpty && c.atSpaceOrLineEnd)
  if name = "YAML" then
    let (major, c) ← readVersionNumber c.skipSpaces
    expect (c.at? '.')
    let (minor, c) ← readVersionNumber c.next
    expect c.atSpaceOrLineEnd
    return (.version major minor, ← skipLineRest c)
  else if name = "TAG" then
    let (handle, c) ← readHandle c.skipSpaces
    expect (c.at? ' ')
    let (stem, c) ← readTagText c.skipSpaces
    expect c.atSpaceOrLineEnd
    return (.handle handle stem, ← skipLineRest c)
  else return (.other, ← skipLineRest (c.skipWhile fun x => !isBreak x))

end RainMeta.Yaml
