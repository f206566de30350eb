import RainMeta.Yaml.Scalars

/-!
# From streams to tokens

A YAML stream is cut into tokens from left to right, but the token that marks a key stands
before the key, and a plain text turns out to be a key only when a colon follows it. So the
lexer remembers for each bracket that is open, and for the text outside brackets, where a key
may have started; a colon puts the token there.

* `Lexer`: the state of the lexer. Indentation opens and closes block collections.
* `Lexer.next`: one step, which takes at least one code point or ends the stream.
* `tokens`: the tokens of a text. The last one is the end of the stream, or says why there is
  none.
-/

namespace RainMeta.Yaml

/-- A place where a key may have started. -/
structure KeyPlace where
  /-- The number of tokens before it. -/
  token : Nat
  /-- Whether nothing but a key may stand there. -/
  required : Bool
  index : Nat
  line : Nat
  column : Nat

/-- The state of the lexer. -/
structure Lexer where
  cursor : Cursor
  /-- The tokens so far, the last one first. -/
  tokens : List Token := []
  /-- The column of the innermost block collection; `-1` outside of all. -/
  indent : Int := -1
  /-- The columns of the collections around it, the innermost first. -/
  indents : List Int := []
  /-- Whether a key may start here. -/
  allowKey : Bool := true
  /-- The place where a key may have started inside the innermost bracket. -/
  key : Option KeyPlace := none
  /-- The same for each level around it, one less than there are levels. -/
  outerKeys : List (Option KeyPlace) := []

namespace Lexer

/-! ### Small steps -/

/-- Whether a bracket is open. -/
def inFlow (l : Lexer) : Bool := !l.outerKeys.isEmpty

/-- Adds a token at the end. -/
def emit (l : Lexer) (t : Token) : Lexer :=
  { l with tokens := t :: l.tokens }

/-- The tokens before the one numbered `place`, the last one first. -/
def before (l : Lexer) (place : Nat) : List Token :=
  l.tokens.drop (l.tokens.length - place)

/-- Adds a token before the one numbered `place`. -/
def insert (l : Lexer) (place : Nat) (t : Token) : Lexer :=
  { l with tokens := l.tokens.take (l.tokens.length - place) ++ t :: l.before place }

/-- Moves on by some code points and adds a token. -/
def take (l : Lexer) (n : Nat) (t : Token) : Lexer :=
  { l.emit t with cursor := l.cursor.advance n }

/-- The column of the next token. -/
def column (l : Lexer) : Int := l.cursor.column

/-- Passes over spaces, comments and line breaks. Outside brackets a key may start on a new
line. -/
def skipBlanks : Nat → Lexer → Lexer
  | 0, l => l
  | fuel + 1, l =>
    let c := l.cursor.skipSpaces.skipComment
    if c.is isBreak then
      skipBlanks fuel { l with cursor := c.lineBreak.2, allowKey := l.allowKey || !l.inFlow }
    else { l with cursor := c }

/-- Passes over a byte order mark that opens the stream. -/
def skipMark (l : Lexer) : Lexer :=
  if l.cursor.index = 0 && l.cursor.is (fun c => c.val == 0xFEFF) then
    { l with cursor := l.cursor.next }
  else l

/-- A key ends on the line where it starts, at most 1024 code points later; a place that is out
of reach is forgotten. -/
def refreshed (l : Lexer) : Option KeyPlace → Except Error (Option KeyPlace)
  | none => .ok none
  | some k =>
    if k.line ≠ l.cursor.line || k.index + 1024 < l.cursor.index then
      if k.required then malformed else .ok none
    else .ok (some k)

/-- Forgets the places that are out of reach. -/
def dropStale (l : Lexer) : Except Error Lexer := do
  return { l with key := ← l.refreshed l.key, outerKeys := ← l.outerKeys.mapM l.refreshed }

/-- Forgets the innermost place, where no key has started. -/
def forgetKey (l : Lexer) : Except Error Lexer :=
  if l.key.any KeyPlace.required then malformed else .ok { l with key := none }

/-- Remembers that a key may start here. -/
def rememberKey (l : Lexer) : Except Error Lexer := do
  if l.allowKey then
    let l ← l.forgetKey
    return { l with key := some {
      token := l.tokens.length
      required := !l.inFlow && l.indent == l.column
      index := l.cursor.index
      line := l.cursor.line
      column := l.cursor.column } }
  else return l

/-- Closes the block collections that stand right of a column, among those with the columns
`indents` around the innermost. -/
def closeFrom (column : Int) (l : Lexer) : List Int → Lexer
  | [] => l
  | i :: indents =>
    if column < l.indent then
      closeFrom column { l.emit .blockEnd with indent := i, indents } indents
    else l

/-- Closes the block collections that stand right of a column; brackets keep all open. -/
def close (l : Lexer) (column : Int) : Lexer :=
  if l.inFlow then l else closeFrom column l l.indents

/-- Opens a block collection at a column, if it stands right of the one that is open. Its token
goes before the token numbered `place`. -/
def openAt (l : Lexer) (column : Int) (place : Nat) (t : Token) : Lexer :=
  if l.indent < column then
    { l.insert place t with indent := column, indents := l.indent :: l.indents }
  else l

/-- Opens a block collection here, outside brackets. A key has to be allowed here. -/
def openHere (l : Lexer) (t : Token) : Except Error Lexer := do
  if l.inFlow then return l
  expect l.allowKey
  return l.openAt l.column l.tokens.length t

/-! ### Tokens -/

/-- The end of a document's part: all block collections end, and no key may start. -/
def endPart (l : Lexer) : Except Error Lexer := do
  let l ← (l.close (-1)).forgetKey
  return { l with allowKey := false }

/-- An opening bracket, which may itself start a key. -/
def openBracket (l : Lexer) (t : Token) : Except Error Lexer := do
  let l ← l.rememberKey
  return { l.take 1 t with allowKey := true, key := none, outerKeys := l.key :: l.outerKeys }

/-- A closing bracket. One that nothing has opened never fits. -/
def closeBracket (l : Lexer) (t : Token) : Except Error Lexer := do
  let l ← l.forgetKey
  match l.outerKeys with
  | [] => malformed
  | k :: outerKeys => return { l.take 1 t with allowKey := false, key := k, outerKeys }

/-- A comma inside brackets. -/
def flowComma (l : Lexer) : Except Error Lexer := do
  let l ← l.forgetKey
  return { l.take 1 .flowEntry with allowKey := true }

/-- A hyphen before an item. -/
def hyphen (l : Lexer) : Except Error Lexer := do
  let l ← (← l.openHere .blockSequenceStart).forgetKey
  return { l.take 1 .blockEntry with allowKey := true }

/-- A question mark before a key. -/
def questionMark (l : Lexer) : Except Error Lexer := do
  let l ← (← l.openHere .blockMappingStart).forgetKey
  return { l.take 1 .key with allowKey := !l.inFlow }

/-- A colon before a value: what stands at the place that is remembered is a key. -/
def colon (l : Lexer) : Except Error Lexer := do
  match l.key with
  | some k =>
    let l := { l.insert k.token .key with key := none, allowKey := false }
    let l := if l.inFlow then l else l.openAt k.column k.token .blockMappingStart
    return l.take 1 .value
  | none =>
    let l ← l.openHere .blockMappingStart
    return { l.take 1 .value with allowKey := !l.inFlow }

/-- A token that may start a key, given by what `read` finds here. -/
def readWith {α : Type} (l : Lexer) (read : Cursor → Except Error (α × Cursor)) (t : α → Token) :
    Except Error Lexer := do
  let l ← l.rememberKey
  let (a, cursor) ← read l.cursor
  return { l.emit (t a) with cursor, allowKey := false }

/-- A block scalar. -/
def blockScalar (l : Lexer) (fold : Bool) : Except Error Lexer := do
  let l ← l.forgetKey
  let (text, cursor) ← readBlock fold l.indent l.cursor
  return { l.emit (.scalar false text) with cursor, allowKey := true }

/-- A plain scalar; where a line has ended after it, a key may start. -/
def plainScalar (l : Lexer) : Except Error Lexer := do
  let l ← l.rememberKey
  let (text, lineEnded, cursor) := readPlain l.inFlow l.indent l.cursor
  return { l.emit (.scalar true text) with cursor, allowKey := lineEnded }

/-- Whether a plain scalar may start here: with anything but an indicator, or with a hyphen, and
outside brackets a question mark or a colon, that no blank follows. -/
def startsPlain (l : Lexer) : Bool :=
  let c := l.cursor
  !(c.blankAt || c.is fun x => x.isOneOf "-?:,[]\x7b\x7d#&*!|>'\"%@`")
    || !c.blankAt 1 && (c.at? '-' || (!l.inFlow && (c.at? '?' || c.at? ':')))

/-- Reads the next token. -/
def readToken (l : Lexer) (c : CodePoint) : Except Error Lexer := do
  let atMark := l.cursor.column = 0 && l.cursor.atDocumentMark
  let blankNext := l.cursor.blankAt 1
  let is (x : Char) : Bool := c.val == x.toNat
  if is '%' && l.cursor.column = 0 then
    let l ← l.endPart
    let (d, cursor) ← readDirective l.cursor
    return { l.emit (.directive d) with cursor }
  else if is '-' && atMark then return (← l.endPart).take 3 .documentStart
  else if is '.' && atMark then return (← l.endPart).take 3 .documentEnd
  else if is '[' then l.openBracket .flowSequenceStart
  else if c.val = 0x7B then l.openBracket .flowMappingStart
  else if is ']' then l.closeBracket .flowSequenceEnd
  else if c.val = 0x7D then l.closeBracket .flowMappingEnd
  else if is ',' then l.flowComma
  else if is '-' && blankNext then l.hyphen
  else if is '?' && (l.inFlow || blankNext) then l.questionMark
  else if is ':' && (l.inFlow || blankNext) then l.colon
  else if is '*' then l.readWith readName .reference
  else if is '&' then l.readWith readName .anchor
  else if is '!' then l.readWith readTag fun (handle, suffix) => .tag handle suffix
  else if is '|' && !l.inFlow then l.blockScalar false
  else if is '>' && !l.inFlow then l.blockScalar true
  else if c.val = 39 then l.readWith (readQuoted false) (.scalar false)
  else if c.val = 34 then l.readWith (readQuoted true) (.scalar false)
  else if l.startsPlain then l.plainScalar
  else malformed

/-- One step: passes over blanks, closes what the indentation closes, and reads a token. -/
def next (l : Lexer) : Except Error Lexer := do
  let l := skipBlanks (l.cursor.rest.length + 1) l.skipMark
  let l := (← l.dropStale).close l.column
  match l.cursor.peek? with
  | none => return (← l.endPart).emit .streamEnd
  | some c => l.readToken c

/-- The number of tokens that are certain. A token that may start a key is held back until it is
known whether it does, and with it all that follow. -/
def certain (l : Lexer) : Nat :=
  let inReach (k : KeyPlace) : Bool :=
    k.line == l.cursor.line && l.cursor.index ≤ k.index + 1024
  let places := (l.key :: l.outerKeys).reduceOption.filter inReach
  places.foldl (fun count k => min count k.token) l.tokens.length

/-- All tokens from a state on, the last one first. Every step but the last takes a code point, so
`fuel` counts them. Where the stream leaves the language, the tokens that are held back are never
seen. -/
def run : Nat → Lexer → List Token
  | 0, l => l.tokens
  | fuel + 1, l =>
    match l.next with
    | .error e => .broken e :: l.before l.certain
    | .ok l =>
      match l.tokens with
      | .streamEnd :: _ => l.tokens
      | _ => run fuel l

end Lexer

/-- The tokens of a text. -/
def tokens (t : Text) : List Token :=
  if t.all isAllowed then (Lexer.run (t.length + 2) { cursor := { rest := t } }).reverse
  else [.broken .malformed]

end RainMeta.Yaml
