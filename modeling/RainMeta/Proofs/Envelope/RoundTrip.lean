import RainMeta.Envelope.Reader
import RainMeta.Proofs.Cbor.RoundTrip

/-!
# Reading back an envelope

An envelope is read back from its canonical form, and what follows the form does not matter
(`RainMeta.Envelope.decode_encode_append`). The only condition is the one of CBOR itself: the
length of the payload has to fit into 64 bits.

The map of an envelope has its keys in ascending order and no key twice, so the entries that
the reader sets one after another are the entries that were written
(`RainMeta.Envelope.setAll_entries`), and the look-up of each key finds the field that was put
there. There are no tags in it, so the library has no say.

The envelope of a text is `RainMeta.Envelope.ofText`; a store makes it of every text that can be
encoded (`RainMeta.Envelope.dotrain?_of_isOk`).
-/

namespace RainMeta

/-! ### Names and numbers of fields -/

theorem Magic.number_lt (m : Magic) : m.number < 2 ^ 64 := by
  cases m <;> decide

theorem Magic.ofNumber?_number (m : Magic) : Magic.ofNumber? m.number = some m := by
  cases m <;> decide

theorem ContentType.ofName?_name (x : ContentType) : ContentType.ofName? x.name = some x := by
  cases x
  rfl

theorem ContentEncoding.ofName?_name (x : ContentEncoding) :
    ContentEncoding.ofName? x.name = some x := by
  cases x
  rfl

theorem ContentLanguage.ofName?_name (x : ContentLanguage) :
    ContentLanguage.ofName? x.name = some x := by
  cases x
  rfl

namespace Envelope

open Cbor (Item)

/-! ### Fields from their names -/

section Names

variable [Platform]

theorem magicOf_number (m : Magic) : magicOf (.int m.number) = .ok m := by
  simp [magicOf, Magic.ofNumber?_number]

theorem namedBy_name {α : Type} (field : EnvelopeField) {ofName? : Text → Option α}
    {name : Text} {x : α} (h : ofName? name = some x) :
    namedBy field ofName? (.text name) = .ok x := by
  simp [namedBy, h]

theorem optionallyNamedBy_name {α : Type} (field : EnvelopeField) {ofName? : Text → Option α}
    {name : α → Text} (h : ∀ x, ofName? (name x) = some x) (x : Option α) :
    optionallyNamedBy field ofName? (x.map fun x => .text (name x)) = .ok x := by
  cases x with
  | none => rfl
  | some x => simp [optionallyNamedBy, namedBy_name field (h x), Except.map]

end Names

/-! ### The entries -/

theorem toItem_eq (e : Envelope) : e.toItem = .map e.entries := rfl

theorem length_entries_le (e : Envelope) : e.entries.length ≤ 5 := by
  rcases e with ⟨p, m, t, enc, lang⟩
  cases enc <;> cases lang <;> simp [entries, entriesOf, fields]

section Reading

variable [Platform]

/-- **No key stands twice**, so setting the entries one after another keeps them all. -/
theorem setAll_entries (e : Envelope) : Cbor.setAll [] e.entries = e.entries := by
  rcases e with ⟨p, m, t, enc, lang⟩
  cases enc <;> cases lang <;>
    simp [entries, entriesOf, fields, Cbor.setAll, Cbor.setKey, Item.sameKey, Item.number?,
      Value.Number.same]

/-! ### Reading the entries -/

/-- The names in envelopes are short and have no surrogates. -/
theorem readable_name (depth : Nat) {t : Text}
    (h : t ∈ [ContentType.octetStream.name, ContentEncoding.deflate.name,
      ContentLanguage.english.name]) : (Item.text t).Readable (depth + 1) := by
  simp only [List.mem_cons, List.not_mem_nil, or_false] at h
  rcases h with rfl | rfl | rfl
  · exact Cbor.readable_text depth (by decide) (by decide)
  · exact Cbor.readable_text depth (by decide) (by decide)
  · exact Cbor.readable_text depth (by decide) (by decide)

theorem readable_entries (depth : Nat) {e : Envelope} (h : e.payload.length < 2 ^ 64) :
    ∀ entry ∈ e.entries, entry.1.Readable (depth + 1) ∧ entry.2.Readable (depth + 1) := by
  have hkey : ∀ n : Nat, n < 5 → (Item.int n).Readable (depth + 1) := fun n hn =>
    Cbor.readable_int depth (by omega)
  rcases e with ⟨p, m, t, enc, lang⟩
  intro entry hentry
  obtain ⟨field, hfield, rfl⟩ := List.mem_map.mp hentry
  simp only [fields, List.mem_append, List.mem_cons, List.not_mem_nil, or_false,
    Option.mem_toList, Option.map_eq_some_iff] at hfield
  rcases hfield with ((rfl | rfl | rfl) | ⟨x, -, rfl⟩) | ⟨x, -, rfl⟩
  · exact ⟨hkey 0 (by omega), Cbor.readable_bytes depth h⟩
  · exact ⟨hkey 1 (by omega), Cbor.readable_int depth m.number_lt⟩
  · cases t
    exact ⟨hkey 2 (by omega), readable_name depth (by simp)⟩
  · cases x
    exact ⟨hkey 3 (by omega), readable_name depth (by simp)⟩
  · cases x
    exact ⟨hkey 4 (by omega), readable_name depth (by simp)⟩

/-! ### Reading the fields -/

/-- What is found under the five keys. -/
theorem field?_entries (e : Envelope) :
    Cbor.field? 0 e.entries = some (.bytes e.payload) ∧
      Cbor.field? 1 e.entries = some (.int e.magic.number) ∧
      Cbor.field? 2 e.entries = some (.text e.contentType.name) ∧
      Cbor.field? 3 e.entries = e.contentEncoding.map (fun x => .text x.name) ∧
      Cbor.field? 4 e.entries = e.contentLanguage.map (fun x => .text x.name) := by
  rcases e with ⟨p, m, t, enc, lang⟩
  cases enc <;> cases lang <;>
    simp [entries, entriesOf, fields, Cbor.field?, Item.sameKey, Item.number?, Value.Number.same]

theorem optional_of_field? {n : Nat} {entries : List (Item × Item)} {item : Option Item}
    (h : Cbor.field? n entries = item) (hplain : ∀ i ∈ item, i.hasObject = false) :
    optional n entries = .ok item := by
  rw [optional, h]
  cases item with
  | none => rfl
  | some item => exact if_neg (by rw [hplain item rfl]; exact Bool.false_ne_true)

theorem required_of_field? {n : Nat} {entries : List (Item × Item)} {item : Item}
    (h : Cbor.field? n entries = some item) (hplain : item.hasObject = false) :
    required n entries = .ok item := by
  rw [required, optional_of_field? h (by rintro _ ⟨⟩; exact hplain)]
  rfl

/-- **The fields that the entries describe** are those of the envelope. -/
theorem ofEntries_entries (e : Envelope) : ofEntries e.entries = .ok e := by
  obtain ⟨h₀, h₁, h₂, h₃, h₄⟩ := e.field?_entries
  have h₀ := required_of_field? (n := 0) h₀ rfl
  have h₁ := required_of_field? (n := 1) h₁ rfl
  have h₂ := required_of_field? (n := 2) h₂ rfl
  have named : ∀ {α : Type} (x : Option α) (name : α → Text),
      ∀ i ∈ x.map fun x => Item.text (name x), i.hasObject = false := by
    rintro α (_ | x) name i ⟨⟩
    rfl
  have h₃ := optional_of_field? (n := 3) h₃ (named _ _)
  have h₄ := optional_of_field? (n := 4) h₄ (named _ _)
  have hp : payloadOf (.bytes e.payload) = .ok e.payload := rfl
  have ht := namedBy_name .contentType (ContentType.ofName?_name e.contentType)
  have he := optionallyNamedBy_name .contentEncoding ContentEncoding.ofName?_name e.contentEncoding
  have hl := optionallyNamedBy_name .contentLanguage ContentLanguage.ofName?_name e.contentLanguage
  simp only [ofEntries, payloadIn, magicIn, contentTypeIn, contentEncodingIn, contentLanguageIn,
    h₀, h₁, h₂, h₃, h₄, hp, magicOf_number, ht, he, hl, bind, Except.bind, pure, Except.pure]

/-! ### The round trip -/

/-- **An envelope is read back from its canonical form**, whatever follows. -/
theorem decode_encode_append (e : Envelope) (h : e.payload.length < 2 ^ 64) (rest : Bytes) :
    decode (e.encode ++ rest) = .ok e := by
  have hl : e.entries.length < 2 ^ 64 := Nat.lt_of_le_of_lt e.length_entries_le (by decide)
  have hr : Cbor.read? (e.encode ++ rest) = some (.map e.entries, rest) := by
    rw [encode, toItem_eq, Cbor.read?_map hl (fun depth => readable_entries depth h),
      setAll_entries]
  rw [decode, hr]
  exact ofEntries_entries e

end Reading

/-! ### The envelope of a text -/

/-- The envelope of a text, whether or not it can be encoded. -/
def ofText (text : Text) : Envelope :=
  { payload := text.flatMap Utf8.encodeOne, magic := .dotrain }

theorem dotrain?_of_isOk {text : Text} (h : (Utf8.encode text).isOk) :
    dotrain? text = .ok (.ofText text) := by
  rcases hb : Utf8.encode text with _ | b
  · rw [hb] at h
    cases h
  · rw [dotrain?, hb, (Utf8.encode_eq_ok_iff.mp hb).2.1]
    rfl

theorem exists_error_of_not_isOk {text : Text} (h : ¬(Utf8.encode text).isOk) :
    ∃ cause, dotrain? text = .error cause := by
  rcases hb : Utf8.encode text with cause | b
  · exact ⟨cause, by rw [dotrain?, hb]; rfl⟩
  · rw [hb] at h
    exact absurd rfl h

/-- The envelopes of the empty text and of a letter have different digests. -/
theorem hash_ofText_nil_ne : (ofText []).hash ≠ (ofText ['a']).hash := by
  decide +kernel

end Envelope

end RainMeta
