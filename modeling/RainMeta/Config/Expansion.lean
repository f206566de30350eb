import RainMeta.Document.Quoted
import RainMeta.Platform
import RainMeta.Text.Blank

/-!
# Expansion of variables

A text may refer to variables of the environment: `${name}` stands for the variable's value,
and `${name:-default}` for the default if the variable is not set or blank. A reference
without a default to such a variable is an error.

* `Segment`, `Segment.split`: a text is read as plain code points and references.
* `Expansion.expandText`, `Expansion.expand`: the references are replaced, once, in a text or
  in every text value of a document.
-/

namespace RainMeta

/-! ### References -/

/-- A part of a text: a code point that stands for itself, or a reference, given by what stands
between its braces. -/
inductive Segment
  | plain (c : CodePoint)
  | reference (body : Text)
  deriving DecidableEq

namespace Segment

/-- The reference at the start of a text, and the text after it: a dollar sign, an opening
brace, and something up to the next closing brace. -/
def referenceAt? : Text → Option (Text × Text)
  | dollar :: brace :: rest =>
    if dollar.val = 36 && brace.val = 123 then
      let body := rest.takeWhile fun c => c.val ≠ 125
      match rest.dropWhile fun c => c.val ≠ 125 with
      | _ :: after => if body.isEmpty then none else some (body, after)
      | [] => none
    else none
  | _ => none

theorem length_lt_of_referenceAt? {t body after : Text} (h : referenceAt? t = some (body, after)) :
    after.length < t.length := by
  unfold referenceAt? at h
  split at h
  · next dollar brace rest =>
    split at h
    · split at h
      · next c tail hd =>
        dsimp only at h
        split at h
        · simp at h
        · simp only [Option.some.injEq, Prod.mk.injEq] at h
          have hl : (rest.dropWhile fun c => c.val ≠ 125).length ≤ rest.length :=
            (List.dropWhile_suffix _).length_le
          rw [hd, h.2] at hl
          simp only [List.length_cons] at hl ⊢
          omega
      · simp at h
    · simp at h
  · simp at h

/-- The segments of a text, from left to right. -/
def split (t : Text) : List Segment :=
  match t with
  | [] => []
  | c :: rest => match _h : referenceAt? (c :: rest) with
    | some (body, after) => .reference body :: split after
    | none => .plain c :: split rest
termination_by t.length
decreasing_by
  · exact length_lt_of_referenceAt? _h
  · simp

end Segment

/-! ### Replacement -/

/-- Why a document cannot be expanded. -/
inductive ExpansionError
  /-- A reference without a default to a variable that is not set or blank. -/
  | missing (reference : Text)
  /-- The name of a variable has surrogates. -/
  | unencodable (cause : EncodeError)
  /-- A key is an integer of too many digits. -/
  | digits (cause : DigitLimit)
  /-- The document is nested too deeply. -/
  | tooDeep
  deriving DecidableEq

namespace Expansion

/-- The mark between a name and its default. -/
def defaultMark : Text := ":-"

/-- What a reference stands for. -/
def resolve (env : Environment) (body : Text) : Except ExpansionError Text :=
  match Text.cutAt defaultMark body with
  | some (name, default) => do
    let value ← (env.value name).mapError .unencodable
    return if value.strip.isEmpty then default else value
  | none => do
    let value ← (env.value body).mapError .unencodable
    if value.strip.isEmpty then throw (.missing body)
    return value

/-- What a segment stands for. -/
def resolveSegment (env : Environment) : Segment → Except ExpansionError Text
  | .plain c => .ok [c]
  | .reference body => resolve env body

/-- The text with its references replaced. What replaces them is not looked at again. -/
def expandText (env : Environment) (t : Text) : Except ExpansionError Text := do
  return ((← (Segment.split t).mapM (resolveSegment env))).flatten

mutual

/-- The document with the references in its text values replaced. Keys become texts but are not
expanded. -/
def expandWhole (env : Environment) : Value → Except ExpansionError Value
  | .text t => (expandText env t).map .text
  | .list items => (expandItems env items).map .list
  | .mapping entries => (expandEntries env [] entries).map .mapping
  | v => .ok v

/-- The same for each item of a list. -/
def expandItems (env : Environment) : List Value → Except ExpansionError (List Value)
  | [] => .ok []
  | v :: rest => do
    let first ← expandWhole env v
    return first :: (← expandItems env rest)

/-- The same for the entries of a mapping, after the entries `done`. Keys that become the same
text keep the first place and the last value. -/
def expandEntries (env : Environment) (done : List (Value × Value)) :
    List (Value × Value) → Except ExpansionError (List (Value × Value))
  | [] => .ok done
  | (k, v) :: rest => do
    let key ← k.plain.mapError .digits
    let value ← expandWhole env v
    expandEntries env (Value.setKey (.text key) value done) rest

end

/-- Whether the stack suffices to expand a document. A safe depth is never too much for it. -/
def fits [Platform] (env : Environment) (v : Value) : Bool :=
  v.isWithin Platform.depth || Platform.expands env v

/-- The document with the references in its text values replaced, if the stack suffices. -/
def expand [Platform] (env : Environment) (v : Value) : Except ExpansionError Value :=
  if fits env v then expandWhole env v else .error .tooDeep

end Expansion

end RainMeta
