import Mathlib.Algebra.Group.Int.Defs
import RainMeta.Platform.Usual
import RainMeta.Proofs.Envelope.RoundTrip

/-!
# Bytes that are no envelope

Bytes that do not describe an envelope are refused, and the words about it begin with a mark of
their own (`RainMeta.EnvelopeError.IsReported`). That is so for everything that can be wrong with
the form of a document: what it is made of, the fields that it lacks, the values that name nothing.

There are three gaps.

* A payload may be a number, which stands for so many zeros, and the number may be more than there
  can be zeros. Making them then fails for want of room (`RainMeta.Envelope.NoRoom`). Nothing that
  comes after the payload is looked at by then, so the rest of the document does not matter.
* A field may hold an object of the library for CBOR, and using that object in the place of a plain
  item may fail in a way of its own. That comes to light only if the fields before it are in order.
* A value that names nothing is shown in the words about it, and the stack may not suffice for that,
  though it did for reading the value (both in `RainMeta.Envelope.Fails`).

`RainMeta.Envelope.decode_unreported_iff` says that nothing else escapes. All other errors are
those of readers that report what is wrong. That is a property closed under putting readers one
after another, so that only what escapes from a single field has to be found.
-/

namespace RainMeta

/-- **An error is reported** as one about envelopes. -/
def EnvelopeError.IsReported (e : EnvelopeError) : Prop :=
  ("ENVELOPE_" : Text) <+: e.message

/-- The errors without words are those for want of room, of memory or of stack, and those of broken
objects. -/
theorem EnvelopeError.isReported_iff (e : EnvelopeError) : e.IsReported ↔
    e ≠ .countOverflow ∧ e ≠ .outOfMemory ∧ e ≠ .tooDeep ∧ e ≠ .object .escaped := by
  have hcbor : ("ENVELOPE_" : Text) <+: "ENVELOPE_CBOR_INVALID" := by decide
  have hmap : ("ENVELOPE_" : Text) <+: "ENVELOPE_NOT_A_MAP" := by decide
  have hfields : ("ENVELOPE_" : Text) <+: "ENVELOPE_FIELDS_INVALID:" := by decide
  have hwordless : ¬("ENVELOPE_" : Text) <+: [] := by decide
  cases e with
  | notCbor => exact iff_of_true hcbor (by simp)
  | notMap => exact iff_of_true hmap (by simp)
  | missing n => exact iff_of_true (hfields.trans (List.prefix_append _ _)) (by simp)
  | payload cause => exact iff_of_true (hfields.trans (List.prefix_append _ _)) (by simp)
  | unknown field shown =>
    refine iff_of_true ?_ (by simp)
    simp only [IsReported, message, List.append_assoc]
    exact hfields.trans (List.prefix_append _ _)
  | digits cause => exact iff_of_true (hfields.trans (List.prefix_append _ _)) (by simp)
  | countOverflow => exact iff_of_false hwordless (by simp)
  | outOfMemory => exact iff_of_false hwordless (by simp)
  | tooDeep => exact iff_of_false hwordless (by simp)
  | object cause =>
    cases cause with
    | refused words => exact iff_of_true (hfields.trans (List.prefix_append _ _)) (by simp)
    | escaped => exact iff_of_false hwordless (by simp)

namespace Envelope

/-! ### Readers that report what is wrong -/

section Reports

variable {α β : Type} {x : Except EnvelopeError α} {f : α → Except EnvelopeError β}
  {e : EnvelopeError}

/-- **An error escapes** from a reader, without being reported. -/
def Unreported (x : Except EnvelopeError α) (e : EnvelopeError) : Prop :=
  x = .error e ∧ ¬e.IsReported

/-- **A reader reports** every error that it comes to. -/
def Reports (x : Except EnvelopeError α) : Prop :=
  ∀ e, x = .error e → e.IsReported

theorem reports_ok (a : α) : Reports (.ok a : Except EnvelopeError α) := by
  rintro e ⟨⟩

theorem reports_error (h : e.IsReported) : Reports (.error e : Except EnvelopeError α) := by
  rintro _ ⟨⟩
  exact h

/-- Nothing escapes from a reader that reports. -/
theorem Reports.not_unreported (hx : Reports x) : ¬Unreported x e :=
  fun h => h.2 (hx e h.1)

theorem reports_mapM {g : β → Except EnvelopeError α} (hg : ∀ b, Reports (g b)) (l : List β) :
    Reports (l.mapM g) := by
  induction l with
  | nil => exact reports_ok []
  | cons b l ih =>
    intro e h
    rw [List.mapM_cons] at h
    rcases hb : g b with cause | a
    · rw [hb] at h
      exact hg b e (by rw [hb]; cases h; rfl)
    rcases hl : l.mapM g with cause | as
    · rw [hb, hl] at h
      exact ih e (by rw [hl]; cases h; rfl)
    · rw [hb, hl] at h
      cases h

/-- An error escapes from the first reader, or from what follows if there is an answer. -/
theorem unreported_bind_iff {P : Prop} (hf : ∀ a, Unreported (f a) e ↔ P) :
    Unreported (x >>= f) e ↔ Unreported x e ∨ x.isOk ∧ P := by
  rcases x with cause | a
  · have herror : (Except.error cause : Except EnvelopeError α) >>= f = .error cause := rfl
    rw [herror]
    simp [Unreported, Except.isOk, Except.toBool]
  · have hok : (Except.ok a : Except EnvelopeError α) >>= f = f a := rfl
    rw [hok, hf]
    simp [Unreported, Except.isOk, Except.toBool]

/-- Objects that break are not reported, and those that are refused are. -/
theorem unreported_object_iff {cause : Cbor.Misfit} :
    Unreported (.error (.object cause) : Except EnvelopeError α) e ↔
      cause = .escaped ∧ e = .object .escaped := by
  rw [Unreported, Except.error.injEq]
  constructor
  · rintro ⟨rfl, h⟩
    simpa [EnvelopeError.isReported_iff] using h
  · rintro ⟨rfl, rfl⟩
    exact ⟨rfl, by simp [EnvelopeError.isReported_iff]⟩

end Reports

/-! ### What items name -/

section Names

variable [Platform] {α : Type} {x : Except EnvelopeError α} {e : EnvelopeError}

/-- **A value that names nothing** is reported, unless the stack does not suffice to show it. -/
theorem unreported_iff_of_unknownValue {field : EnvelopeField} {item : Cbor.Item}
    (h : (∃ a, x = .ok a) ∨ x = .error (unknownValue field item)) :
    Unreported x e ↔ x.isOk = false ∧ Platform.shows item = false ∧ e = .tooDeep := by
  obtain ⟨a, rfl⟩ | rfl := h
  · exact iff_of_false (reports_ok a).not_unreported (by simp [Except.isOk, Except.toBool])
  have hfails : (.error (unknownValue field item) : Except EnvelopeError α).isOk = false := rfl
  rw [Unreported, Except.error.injEq, and_iff_right hfails]
  cases hshows : Platform.shows item with
  | false =>
    have hdeep : unknownValue field item = .tooDeep := by simp [unknownValue, hshows]
    rw [hdeep, and_iff_right rfl]
    constructor
    · rintro ⟨rfl, -⟩
      rfl
    · rintro rfl
      exact ⟨rfl, by simp [EnvelopeError.isReported_iff]⟩
  | true =>
    have hreported : (unknownValue field item).IsReported := by
      rw [EnvelopeError.isReported_iff, unknownValue, if_pos hshows]
      split <;> simp
    refine iff_of_false ?_ (by simp)
    rintro ⟨rfl, h⟩
    exact h hreported

theorem magicOf_cases (item : Cbor.Item) :
    (∃ m, magicOf item = .ok m) ∨ magicOf item = .error (unknownValue .magic item) := by
  unfold magicOf
  split
  · split
    · exact .inl ⟨_, rfl⟩
    · exact .inr rfl
  · exact .inr rfl

theorem namedBy_cases (field : EnvelopeField) (ofName? : Text → Option α) (item : Cbor.Item) :
    (∃ a, namedBy field ofName? item = .ok a) ∨
      namedBy field ofName? item = .error (unknownValue field item) := by
  unfold namedBy
  split
  · split
    · exact .inl ⟨_, rfl⟩
    · exact .inr rfl
  · exact .inr rfl

theorem optionallyNamedBy_cases (field : EnvelopeField) (ofName? : Text → Option α)
    (item : Cbor.Item) : (∃ a, optionallyNamedBy field ofName? (some item) = .ok a) ∨
      optionallyNamedBy field ofName? (some item) = .error (unknownValue field item) := by
  unfold optionallyNamedBy
  split
  · exact .inl ⟨_, rfl⟩
  · exact .inl ⟨_, rfl⟩
  · next item' _ h =>
    obtain rfl := Option.some.inj h
    rcases namedBy_cases field ofName? item with ⟨a, ha⟩ | hunknown
    · exact .inl ⟨some a, by rw [ha]; rfl⟩
    · exact .inr (by rw [hunknown]; rfl)

end Names

theorem reports_byteOf (fixed : Bool) (item : Cbor.Item) : Reports (byteOf fixed item) := by
  unfold byteOf
  split
  · split
    · exact reports_ok _
    · exact reports_error ((EnvelopeError.isReported_iff _).mpr (by simp))
  · exact reports_ok _
  · exact reports_error ((EnvelopeError.isReported_iff _).mpr (by simp))

/-! ### The payload -/

section Payload

variable [Platform]

/-- **There is no room for so many zeros**, and how that shows. -/
inductive NoRoom (i : Int) : EnvelopeError → Prop
  /-- No byte string is so long, or the number is beyond what a signed word can count. -/
  | beyondWords (h : i < -2 ^ 63 ∨ 2 ^ 63 - 34 < i) : NoRoom i .countOverflow
  /-- The memory does not suffice. -/
  | beyondMemory (hlow : Platform.memory < i) (hhigh : i ≤ 2 ^ 63 - 34) : NoRoom i .outOfMemory

theorem zeros_unreported_iff (i : Int) (e : EnvelopeError) :
    Unreported (zeros i) e ↔ NoRoom i e := by
  by_cases hwords : i < -2 ^ 63 ∨ 2 ^ 63 - 34 < i
  · have hz : zeros i = .error .countOverflow := by
      rw [zeros, if_pos (by simp; omega)]
    rw [hz]
    constructor
    · rintro ⟨⟨⟩, -⟩
      exact .beyondWords hwords
    · rintro (_ | ⟨hlow, hhigh⟩)
      · exact ⟨rfl, by simp [EnvelopeError.isReported_iff]⟩
      · omega
  have hword : ¬(decide (0x7FFFFFFFFFFFFFDE < i) || decide (i < -0x8000000000000000)) = true := by
    simp
    omega
  by_cases hmemory : Platform.memory < i
  · have hz : zeros i = .error .outOfMemory := by
      rw [zeros, if_neg hword, if_neg (by omega), if_pos hmemory]
    rw [hz]
    constructor
    · rintro ⟨⟨⟩, -⟩
      exact .beyondMemory hmemory (by omega)
    · rintro (h | _)
      · exact absurd h hwords
      · exact ⟨rfl, by simp [EnvelopeError.isReported_iff]⟩
  -- there is room for the zeros, or a negative number of them is reported
  · have hreports : Reports (zeros i) := by
      rw [zeros, if_neg hword]
      split
      · exact reports_error ((EnvelopeError.isReported_iff _).mpr (by simp))
      · exact reports_ok _
    refine iff_of_false hreports.not_unreported ?_
    rintro (h | ⟨hlow, -⟩)
    · exact hwords h
    · exact hmemory hlow

/-- **Of all items only a number** stands for a payload that there is no room for. -/
theorem payloadOf_unreported_iff (item : Cbor.Item) (e : EnvelopeError) :
    Unreported (payloadOf item) e ↔ ∃ i, item = .int i ∧ NoRoom i e := by
  have hother : Reports (payloadOf item) → (∀ i, item ≠ .int i) →
      (Unreported (payloadOf item) e ↔ ∃ i, item = .int i ∧ NoRoom i e) :=
    fun hreports hne => iff_of_false hreports.not_unreported fun ⟨i, hi, _⟩ => hne i hi
  have hkind : ∀ cause, (EnvelopeError.payload cause).IsReported := fun cause =>
    (EnvelopeError.isReported_iff _).mpr (by simp)
  cases item with
  | int i =>
    rw [payloadOf, zeros_unreported_iff]
    simp
  | bool b =>
    refine hother ?_ (by simp)
    cases b with
    | false => exact reports_ok _
    | true => exact reports_ok _
  | list items => exact hother (reports_mapM (reports_byteOf false) items) (by simp)
  | map entries =>
    refine hother ?_ (by simp)
    rw [payloadOf]
    exact reports_mapM (fun entry => reports_byteOf true entry.1) entries
  | bytes b => exact hother (reports_ok b) (by simp)
  | simple n => exact hother (reports_ok _) (by simp)
  | text t => exact hother (reports_error (hkind _)) (by simp)
  | tagged tag item => exact hother (reports_error (hkind _)) (by simp)
  | null => exact hother (reports_error (hkind _)) (by simp)
  | undefined => exact hother (reports_error (hkind _)) (by simp)
  | float x => exact hother (reports_error (hkind _)) (by simp)
  | stop => exact hother (reports_error (hkind _)) (by simp)
  | object n => exact hother (reports_error (hkind _)) (by simp)

end Payload

/-! ### The fields -/

section Fields

variable [Platform] (entries : List (Cbor.Item × Cbor.Item))

/-- Whether an item names something in a field. The payload has no names. -/
def names : Nat → Cbor.Item → Bool
  | 1, item => (magicOf item).isOk
  | 2, item => (namedBy .contentType ContentType.ofName? item).isOk
  | 3, item => (optionallyNamedBy .contentEncoding ContentEncoding.ofName? (some item)).isOk
  | 4, item => (optionallyNamedBy .contentLanguage ContentLanguage.ofName? (some item)).isOk
  | _, _ => true

/-- **A field fails** in a way that is not reported. -/
inductive Fails (n : Nat) : EnvelopeError → Prop
  /-- An object stands in its value, and using that fails in a way of its own. -/
  | object {item : Cbor.Item} (hitem : Cbor.field? n entries = some item) (hobject : item.hasObject)
      (hworth : Platform.cbor.worth n item = .error .escaped) : Fails n (.object .escaped)
  /-- Its value names nothing, and the stack does not suffice to show it. -/
  | shown {item : Cbor.Item} (hitem : optional n entries = .ok (some item))
      (hnames : names n item = false) (hshows : Platform.shows item = false) : Fails n .tooDeep

/-- Whether a field is in order. -/
def isInOrder : Nat → Bool
  | 0 => (payloadIn entries).isOk
  | 1 => (magicIn entries).isOk
  | 2 => (contentTypeIn entries).isOk
  | 3 => (contentEncodingIn entries).isOk
  | _ => (contentLanguageIn entries).isOk

/-- **What escapes from the entries of a map.** -/
inductive Escapes : EnvelopeError → Prop
  /-- The payload is a number of zeros that there is no room for. -/
  | zeros {i : Int} {e : EnvelopeError} (hpayload : optional 0 entries = .ok (some (.int i)))
      (hroom : NoRoom i e) : Escapes e
  /-- A field fails, and all fields before it are in order. -/
  | field {n : Nat} {e : EnvelopeError} (hn : n < 5) (hbefore : ∀ m < n, isInOrder entries m)
      (hfails : Fails entries n e) : Escapes e

variable {entries} {e : EnvelopeError}

/-- Only an object escapes where the value of a field is looked up. -/
theorem optional_unreported_iff (n : Nat) : Unreported (optional n entries) e ↔
    (∃ item, Cbor.field? n entries = some item ∧ item.hasObject ∧
      Platform.cbor.worth n item = .error .escaped) ∧ e = .object .escaped := by
  rcases hf : Cbor.field? n entries with _ | item
  · have hlook : optional n entries = .ok none := by rw [optional, hf]
    rw [hlook]
    exact iff_of_false (reports_ok _).not_unreported (by simp)
  have hlook : optional n entries = if item.hasObject then
      ((Platform.cbor.worth n item).map some).mapError .object else .ok (some item) := by
    rw [optional, hf]
  simp only [hlook, Option.some.injEq, exists_eq_left']
  by_cases hobject : item.hasObject
  · rw [if_pos hobject]
    rcases hworth : Platform.cbor.worth n item with cause | plain
    · refine unreported_object_iff.trans ?_
      rw [Except.error.injEq, and_iff_right hobject]
    · exact iff_of_false (reports_ok _).not_unreported (by simp)
  · rw [if_neg hobject]
    exact iff_of_false (reports_ok _).not_unreported (by simp [hobject])

/-- **A field fails** where its value is looked up, or where it is found to name nothing. -/
theorem fails_iff (n : Nat) : Fails entries n e ↔ Unreported (optional n entries) e ∨
    ∃ item, optional n entries = .ok (some item) ∧ names n item = false ∧
      Platform.shows item = false ∧ e = .tooDeep := by
  rw [optional_unreported_iff]
  constructor
  · rintro (⟨hitem, hobject, hworth⟩ | ⟨hitem, hnames, hshows⟩)
    · exact .inl ⟨⟨_, hitem, hobject, hworth⟩, rfl⟩
    · exact .inr ⟨_, hitem, hnames, hshows, rfl⟩
  · rintro (⟨⟨item, hitem, hobject, hworth⟩, rfl⟩ | ⟨item, hitem, hnames, hshows, rfl⟩)
    · exact .object hitem hobject hworth
    · exact .shown hitem hnames hshows

/-- What escapes from a field that may be missing. -/
theorem optional_bind_unreported_iff {α : Type} {n : Nat}
    {f : Option Cbor.Item → Except EnvelopeError α} (hnone : Reports (f none))
    (hf : ∀ item, Unreported (f (some item)) e ↔
      names n item = false ∧ Platform.shows item = false ∧ e = .tooDeep) :
    Unreported (optional n entries >>= f) e ↔ Fails entries n e := by
  rw [fails_iff]
  rcases optional n entries with cause | _ | item
  · simp [Unreported, bind, Except.bind]
  · exact iff_of_false hnone.not_unreported (by simp [(reports_ok _).not_unreported])
  · refine (hf item).trans ?_
    simp [(reports_ok (some item)).not_unreported]

theorem required_eq_ok_iff {n : Nat} {item : Cbor.Item} :
    required n entries = .ok item ↔ optional n entries = .ok (some item) := by
  rw [required]
  rcases optional n entries with cause | _ | found
  · simp [bind, Except.bind]
  · simp [bind, Except.bind, throw, throwThe, MonadExceptOf.throw]
  · simp [bind, Except.bind, pure, Except.pure]

/-- What escapes from a field that has to be there. -/
theorem required_bind_unreported_iff {α : Type} {n : Nat} {f : Cbor.Item → Except EnvelopeError α}
    (hf : ∀ item, Unreported (f item) e ↔
      names n item = false ∧ Platform.shows item = false ∧ e = .tooDeep) :
    Unreported (required n entries >>= f) e ↔ Fails entries n e := by
  have hmissing : Reports (.error (.missing n) : Except EnvelopeError α) :=
    reports_error ((EnvelopeError.isReported_iff _).mpr (by simp))
  rw [required, bind_assoc]
  refine optional_bind_unreported_iff hmissing fun item => ?_
  exact hf item

theorem payloadIn_unreported_iff : Unreported (payloadIn entries) e ↔
    (∃ i, optional 0 entries = .ok (some (.int i)) ∧ NoRoom i e) ∨ Fails entries 0 e := by
  have hfails : Fails entries 0 e ↔ Unreported (required 0 entries >>= Except.ok) e :=
    (required_bind_unreported_iff fun item =>
      iff_of_false (reports_ok item).not_unreported (by simp [names])).symm
  rw [hfails, payloadIn]
  rcases hr : required 0 entries with cause | item
  · have hnone : ∀ i : Int, optional 0 entries ≠ .ok (some (.int i)) := fun i h => by
      rw [required_eq_ok_iff.mpr h] at hr
      cases hr
    simp [hnone, bind, Except.bind, Unreported]
  · have hsome : ∀ i : Int, optional 0 entries = .ok (some (.int i)) ↔ item = .int i := fun i => by
      rw [← required_eq_ok_iff, hr, Except.ok.injEq]
    have hitem : ¬Unreported (Except.ok item >>= Except.ok) e := (reports_ok item).not_unreported
    simp only [hsome, hitem, or_false]
    exact payloadOf_unreported_iff item e

variable (entries e) in
/-- A field from `n` on fails, and all fields between are in order. -/
def FailsFrom (n : Nat) : Prop :=
  ∃ k, n ≤ k ∧ k < 5 ∧ (∀ m, n ≤ m → m < k → isInOrder entries m) ∧ Fails entries k e

theorem failsFrom_iff {n : Nat} (hn : n < 5) : FailsFrom entries e n ↔
    Fails entries n e ∨ isInOrder entries n ∧ FailsFrom entries e (n + 1) := by
  constructor
  · rintro ⟨k, hnk, hk, hbefore, hfails⟩
    rcases Nat.eq_or_lt_of_le hnk with rfl | hlt
    · exact .inl hfails
    · exact .inr ⟨hbefore n (Nat.le_refl n) hlt, k, hlt, hk, fun m hm => hbefore m (by omega),
        hfails⟩
  · rintro (hfails | ⟨horder, k, hnk, hk, hbefore, hfails⟩)
    · exact ⟨n, Nat.le_refl n, hn, by omega, hfails⟩
    · refine ⟨k, by omega, hk, fun m hm hmk => ?_, hfails⟩
      rcases Nat.eq_or_lt_of_le hm with rfl | hlt
      · exact horder
      · exact hbefore m hlt hmk

/-- One field more: what escapes is how it fails, or if it is in order what escapes from the fields
after it. -/
theorem unreported_field_iff {α β : Type} {n : Nat} (hn : n < 5) {x : Except EnvelopeError α}
    {f : α → Except EnvelopeError β} (horder : x.isOk = isInOrder entries n)
    (hx : Unreported x e ↔ Fails entries n e)
    (hf : ∀ a, Unreported (f a) e ↔ FailsFrom entries e (n + 1)) :
    Unreported (x >>= f) e ↔ FailsFrom entries e n := by
  rw [unreported_bind_iff hf, hx, horder, failsFrom_iff hn]

/-- **What escapes from the fields** escapes from the first of them that is not in order. -/
theorem ofEntries_unreported_iff : Unreported (ofEntries entries) e ↔ Escapes entries e := by
  have hlast : ¬FailsFrom entries e 5 := by
    rintro ⟨k, hlow, hhigh, -⟩
    omega
  have hrest : ∀ payload, Unreported (do
      let magic ← magicIn entries
      let contentType ← contentTypeIn entries
      let contentEncoding ← contentEncodingIn entries
      let contentLanguage ← contentLanguageIn entries
      return { payload, magic, contentType, contentEncoding, contentLanguage : Envelope }) e ↔
        FailsFrom entries e 1 := by
    intro payload
    refine unreported_field_iff (by omega) rfl (required_bind_unreported_iff fun item =>
      unreported_iff_of_unknownValue (magicOf_cases item)) fun magic => ?_
    refine unreported_field_iff (by omega) rfl (required_bind_unreported_iff fun item =>
      unreported_iff_of_unknownValue (namedBy_cases _ _ item)) fun contentType => ?_
    refine unreported_field_iff (by omega) rfl (optional_bind_unreported_iff (reports_ok _)
      fun item => unreported_iff_of_unknownValue (optionallyNamedBy_cases _ _ item))
      fun contentEncoding => ?_
    exact unreported_field_iff (by omega) rfl (optional_bind_unreported_iff (reports_ok _)
      fun item => unreported_iff_of_unknownValue (optionallyNamedBy_cases _ _ item))
      fun contentLanguage => iff_of_false (reports_ok _).not_unreported hlast
  have hfield : FailsFrom entries e 0 → Escapes entries e :=
    fun ⟨n, _, hn, hbefore, hfails⟩ => .field hn (fun m => hbefore m (Nat.zero_le m)) hfails
  rw [ofEntries, unreported_bind_iff hrest, payloadIn_unreported_iff]
  constructor
  · rintro ((⟨i, hpayload, hroom⟩ | hfails) | ⟨horder, hfails⟩)
    · exact .zeros hpayload hroom
    · exact hfield ((failsFrom_iff (by omega)).mpr (.inl hfails))
    · exact hfield ((failsFrom_iff (by omega)).mpr (.inr ⟨horder, hfails⟩))
  · rintro (⟨hpayload, hroom⟩ | ⟨hn, hbefore, hfails⟩)
    · exact .inl (.inl ⟨_, hpayload, hroom⟩)
    · have hfrom : FailsFrom entries e 0 := ⟨_, Nat.zero_le _, hn, fun m _ => hbefore m, hfails⟩
      rcases (failsFrom_iff (by omega)).mp hfrom with hfails | hrest
      · exact .inl (.inr hfails)
      · exact .inr hrest

/-! ### Documents -/

/-- **Which errors escape**: those of a document that is a map, where the payload is a number of
zeros that there is no room for, or where the first field that is not in order fails as an object in
it breaks, or as the stack does not suffice to show its value. No others do. -/
theorem decode_unreported_iff (b : Bytes) (e : EnvelopeError) :
    decode b = .error e ∧ ¬e.IsReported ↔
      ∃ entries rest, Cbor.read? b = some (.map entries, rest) ∧ Escapes entries e := by
  rcases hr : Cbor.read? b with _ | ⟨item, rest⟩
  · have hnot : decode b = .error .notCbor := by rw [decode, hr]
    rw [hnot]
    refine iff_of_false (Reports.not_unreported (reports_error ?_)) (by simp)
    exact (EnvelopeError.isReported_iff _).mpr (by simp)
  by_cases hmap : ∃ entries, item = .map entries
  · obtain ⟨entries, rfl⟩ := hmap
    have hof : decode b = ofEntries entries := by rw [decode, hr]
    rw [hof]
    exact ofEntries_unreported_iff.trans (by simp)
  · have hnot : decode b = .error .notMap := by
      unfold decode
      split
      · next h => simp [hr] at h
      · next h =>
        rw [hr] at h
        exact absurd ⟨_, (Prod.mk.inj (Option.some.inj h)).1⟩ hmap
      · rfl
    rw [hnot]
    refine iff_of_false (Reports.not_unreported (reports_error ?_)) ?_
    · exact (EnvelopeError.isReported_iff _).mpr (by simp)
    · rintro ⟨entries, _, h, -⟩
      exact hmap ⟨entries, (Prod.mk.inj (Option.some.inj h)).1⟩

end Fields

/-- A map with nothing but a payload of `2 ^ 63` zeros. -/
def endlessDocument : Bytes :=
  [0xA1, 0x00, 0x1B, 0x80, 0x00, 0x00, 0x00, 0x00, 0x00, 0x00, 0x00]

/-- **A document that is refused without a report.** -/
theorem decode_endlessDocument :
    ∃ e, decode endlessDocument = .error e ∧ ¬e.IsReported := by
  let entries : List (Cbor.Item × Cbor.Item) := [(.int (0 : Nat), .int (2 ^ 63 : Nat))]
  have hform : endlessDocument = (Cbor.Item.map entries).encode ++ [] := by decide
  have hreadable : ∀ depth, ∀ entry ∈ entries,
      entry.1.Readable (depth + 1) ∧ entry.2.Readable (depth + 1) := by
    intro depth
    rw [List.forall_mem_singleton]
    exact ⟨Cbor.readable_int depth (by decide), Cbor.readable_int depth (by decide)⟩
  have hread : Cbor.read? endlessDocument = some (.map entries, []) := by
    rw [hform, Cbor.read?_map (by decide) hreadable]
    rfl
  refine ⟨.countOverflow, ?_⟩
  rw [decode, hread]
  exact ofEntries_unreported_iff.mpr (.zeros rfl (.beyondWords (by omega)))

end Envelope

end RainMeta
