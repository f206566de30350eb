import Mathlib.Data.List.Basic
import RainMeta.Platform.Usual
import RainMeta.Proofs.Cbor.Shortest
import RainMeta.Proofs.Envelope.RoundTrip
import RainMeta.Proofs.Text.Utf8.Reading

/-!
# Canonical documents

An envelope has one canonical document, and that is the one that is written: a canonical document
that is read as an envelope is that envelope's encoding
(`RainMeta.Envelope.canonicalDocument_iff`). So whoever writes canonical CBOR gets the hash of the
envelope as the digest of the document.

What a canonical document is, is said in bytes and without the writer
(`RainMeta.Envelope.CanonicalDocument`): a map of definite length with the keys `0` to `4`, each at
most once and in ascending order, every head the shortest one for its number.

## From bytes to fields

* The reader goes through a canonical document and gives back the fields whose writing it is
  (`RainMeta.Envelope.exists_fields`). A text whose bytes are no UTF-8 is where it may fail.
* As the keys ascend, no entry takes the place of another one
  (`RainMeta.Envelope.setAll_entriesOf`), and the fields can be recovered from the look-ups of the
  five keys (`RainMeta.Envelope.eq_filterMap_lookup`).
* The look-ups are what an envelope is made of, so the envelope knows them all
  (`RainMeta.Envelope.field?_of_ofEntries`).
-/

namespace RainMeta

/-! ### Names and numbers of fields -/

theorem Magic.eq_number_of_ofNumber? {i : Int} {m : Magic} (h : Magic.ofNumber? i = some m) :
    i = m.number := by
  unfold Magic.ofNumber? at h
  split_ifs at h with h₁ h₂
  · rw [← Option.some.inj h, h₁]
  · rw [← Option.some.inj h, h₂]

theorem ContentType.eq_name_of_ofName? {t : Text} {x : ContentType}
    (h : ContentType.ofName? t = some x) : t = x.name := by
  unfold ContentType.ofName? at h
  split_ifs at h with h₁
  rw [← Option.some.inj h, h₁]

theorem ContentEncoding.eq_name_of_ofName? {t : Text} {x : ContentEncoding}
    (h : ContentEncoding.ofName? t = some x) : t = x.name := by
  unfold ContentEncoding.ofName? at h
  split_ifs at h with h₁
  rw [← Option.some.inj h, h₁]

theorem ContentLanguage.eq_name_of_ofName? {t : Text} {x : ContentLanguage}
    (h : ContentLanguage.ofName? t = some x) : t = x.name := by
  unfold ContentLanguage.ofName? at h
  split_ifs at h with h₁
  rw [← Option.some.inj h, h₁]

namespace Envelope

open Cbor (Item ShortestHead)

/-! ### Documents -/

/-- **The bytes of a value under a key** in a canonical document: a byte string under `0`, an
unsigned number under `1`, and text under `2`, `3` and `4`. -/
inductive ValueForm : Nat → Bytes → Prop
  | payload {b hd : Bytes} (h : ShortestHead 2 b.length hd) : ValueForm 0 (hd ++ b)
  | magic {n : Nat} {hd : Bytes} (h : ShortestHead 0 n hd) : ValueForm 1 hd
  | name {k : Nat} {b hd : Bytes} (hk : k ∈ [2, 3, 4]) (h : ShortestHead 3 b.length hd) :
      ValueForm k (hd ++ b)

/-- **The bytes of entries** whose keys are the given numbers, in ascending order. -/
inductive EntriesForm : List Nat → Bytes → Prop
  | nil : EntriesForm [] []
  | cons {k : Nat} {keys : List Nat} {key value more : Bytes} (hk : ShortestHead 0 k key)
      (hv : ValueForm k value) (hlt : ∀ j ∈ keys, k < j) (hm : EntriesForm keys more) :
      EntriesForm (k :: keys) (key ++ value ++ more)

/-- **A canonical document**: the map of such entries, and nothing after it. -/
def CanonicalDocument (d : Bytes) : Prop :=
  ∃ keys hd body, ShortestHead 5 keys.length hd ∧ EntriesForm keys body ∧ d = hd ++ body

/-! ### Fields -/

/-- What stands under the keys of an envelope, the lengths and the number being such that a head
can say them. -/
inductive Fits : Nat → Item → Prop
  | payload {b : Bytes} (h : b.length < 2 ^ 64) : Fits 0 (.bytes b)
  | magic {n : Nat} (h : n < 2 ^ 64) : Fits 1 (.int n)
  | name {k : Nat} {t : Text} (hk : k ∈ [2, 3, 4])
      (h : (t.flatMap Utf8.encodeOne).length < 2 ^ 64) : Fits k (.text t)

theorem Fits.key_le {k : Nat} {item : Item} (h : Fits k item) : k ≤ 4 := by
  cases h with
  | payload h => omega
  | magic h => omega
  | name hk h =>
    simp only [List.mem_cons, List.not_mem_nil, or_false] at hk
    omega

theorem Fits.length_lt {k : Nat} {b : Bytes} (h : Fits k (.bytes b)) : b.length < 2 ^ 64 := by
  cases h with
  | payload h => exact h

theorem encode_int_nat {n : Nat} (h : n < 2 ^ 64) : (Item.int n).encode = Cbor.head 0 n := by
  simp [Item.encode, Cbor.encodeNat, show n < 0x10000000000000000 by omega]

/-- What fits is written as the bytes of a value. -/
theorem Fits.valueForm {k : Nat} {item : Item} (h : Fits k item) : ValueForm k item.encode := by
  cases h with
  | payload h => exact .payload (Cbor.shortestHead_iff.mpr ⟨h, rfl⟩)
  | magic h =>
    rw [encode_int_nat h]
    exact .magic (Cbor.shortestHead_iff.mpr ⟨h, rfl⟩)
  | name hk h => exact .name hk (Cbor.shortestHead_iff.mpr ⟨h, rfl⟩)

/-- Fields with ascending keys are written as the bytes of entries. -/
theorem entriesForm_of_fits {fields : List (Nat × Item)} (hf : ∀ f ∈ fields, Fits f.1 f.2)
    (hs : (fields.map Prod.fst).Pairwise (· < ·)) :
    EntriesForm (fields.map Prod.fst) (Cbor.encodeEntries (entriesOf fields)) := by
  induction fields with
  | nil => exact .nil
  | cons f fields ih =>
    obtain ⟨hlt, hs⟩ := List.pairwise_cons.mp hs
    have hff := hf f List.mem_cons_self
    have hk : f.1 < 2 ^ 64 := Nat.lt_of_le_of_lt hff.key_le (by decide)
    have hkey : ShortestHead 0 f.1 (Item.int f.1).encode :=
      Cbor.shortestHead_iff.mpr ⟨hk, encode_int_nat hk⟩
    exact .cons hkey hff.valueForm hlt (ih (fun g hg => hf g (List.mem_cons_of_mem _ hg)) hs)

/-! ### Reading a document -/

section Reading

variable [Platform]

/-- **A value is read as the item whose writing it is.** -/
theorem fits_of_readItem? {document : Bytes} {depth k : Nat} {value rest rest' : Bytes}
    {item : Item} (h : ValueForm k value)
    (hr : Cbor.readItem? document (depth + 1) (value ++ rest) = some (item, rest')) :
    rest' = rest ∧ item.encode = value ∧ Fits k item := by
  cases h with
  | payload h =>
    rename_i b hd
    obtain ⟨hl, rfl⟩ := Cbor.shortestHead_iff.mp h
    have hb := Cbor.readable_bytes depth hl document rest
    rw [Item.encode, hr, Option.some.injEq, Prod.mk.injEq] at hb
    obtain ⟨rfl, rfl⟩ := hb
    exact ⟨rfl, rfl, .payload hl⟩
  | magic h =>
    obtain ⟨hn, rfl⟩ := Cbor.shortestHead_iff.mp h
    have hb := Cbor.readable_int depth hn document rest
    rw [encode_int_nat hn, hr, Option.some.injEq, Prod.mk.injEq] at hb
    obtain ⟨rfl, rfl⟩ := hb
    exact ⟨rfl, encode_int_nat hn, .magic hn⟩
  | name hk h =>
    rename_i b hd
    obtain ⟨hl, rfl⟩ := Cbor.shortestHead_iff.mp h
    rw [Cbor.readItem?_text document depth hl, Option.map_eq_some_iff] at hr
    obtain ⟨t, ht, hr⟩ := hr
    rw [Prod.mk.injEq] at hr
    obtain ⟨rfl, rfl⟩ := hr
    obtain ⟨-, hbytes⟩ := Utf8.flatMap_encodeOne_of_decode (Cbor.decode_of_textOfChunks? ht)
    exact ⟨rfl, by rw [Item.encode, hbytes], .name hk (by rwa [hbytes])⟩

/-- **The reader goes through the entries** and sets the fields whose writing they are. -/
theorem exists_fields {document : Bytes} {depth : Nat} {keys : List Nat}
    {body rest rest' : Bytes} {out out' : List (Item × Item)} (h : EntriesForm keys body)
    (hr : Cbor.readEntries? (Cbor.readItem? document (depth + 1)) false out keys.length
      (body ++ rest) = some (out', rest')) :
    ∃ fields : List (Nat × Item), fields.map Prod.fst = keys ∧ (∀ f ∈ fields, Fits f.1 f.2) ∧
      Cbor.encodeEntries (entriesOf fields) = body ∧ out' = Cbor.setAll out (entriesOf fields) := by
  induction h generalizing out with
  | nil =>
    cases hr
    exact ⟨[], rfl, by simp, rfl, rfl⟩
  | @cons k keys key value more hk hv hlt hm ih =>
    obtain ⟨hkl, rfl⟩ := Cbor.shortestHead_iff.mp hk
    have hkey := Cbor.readable_int depth hkl document
    rw [encode_int_nat hkl] at hkey
    rw [List.length_cons, Cbor.readEntries?, List.append_assoc, List.append_assoc, hkey] at hr
    simp only [Bool.false_and, Bool.false_eq_true, if_false] at hr
    rcases hi : Cbor.readItem? document (depth + 1) (value ++ (more ++ rest)) with
      _ | ⟨item, rest''⟩
    · rw [hi] at hr
      cases hr
    rw [hi] at hr
    obtain ⟨rfl, rfl, hfit⟩ := fits_of_readItem? hv hi
    obtain ⟨fields, rfl, hfits, rfl, rfl⟩ := ih hr
    refine ⟨(k, item) :: fields, rfl, ?_, ?_, rfl⟩
    · rintro f (_ | ⟨_, hf⟩)
      · exact hfit
      · exact hfits f hf
    · simp [entriesOf, Cbor.encodeEntries, encode_int_nat hkl]

end Reading

/-! ### Ascending keys -/

section Keys

variable [Platform]

theorem sameKey_int (i j : Int) : (Item.int i).sameKey (.int j) = (i == j) := rfl

/-- A key that has not been set comes last. -/
theorem setKey_entriesOf {fields : List (Nat × Item)} {k : Nat} {item : Item}
    (h : k ∉ fields.map Prod.fst) :
    Cbor.setKey (.int k) item (entriesOf fields) = entriesOf (fields ++ [(k, item)]) := by
  induction fields with
  | nil => rfl
  | cons f fields ih =>
    rw [List.map_cons, List.mem_cons, not_or] at h
    have hne : ((f.1 : Int) == (k : Int)) = false := by
      rw [beq_eq_false_iff_ne]
      exact fun he => h.1 (Int.ofNat.inj he).symm
    have ih := ih h.2
    simp only [entriesOf] at ih
    simp [entriesOf, Cbor.setKey, sameKey_int, hne, ih]

/-- Fields with different keys all stay. -/
theorem setAll_entriesOf {done fields : List (Nat × Item)}
    (h : ((done ++ fields).map Prod.fst).Nodup) :
    Cbor.setAll (entriesOf done) (entriesOf fields) = entriesOf (done ++ fields) := by
  induction fields generalizing done with
  | nil => simp [entriesOf, Cbor.setAll]
  | cons f fields ih =>
    have hf : f.1 ∉ done.map Prod.fst := by
      rw [List.map_append, List.nodup_append] at h
      exact fun hm => h.2.2 _ hm _ List.mem_cons_self rfl
    have hcons : done ++ f :: fields = (done ++ [f]) ++ fields := by simp
    rw [hcons] at h ⊢
    rw [← ih h, ← setKey_entriesOf hf]
    rfl

/-- A look-up among entries with numbers as keys. -/
theorem field?_entriesOf (fields : List (Nat × Item)) (k : Nat) :
    Cbor.field? k (entriesOf fields) = (fields.find? fun f => f.1 = k).map Prod.snd := by
  have hp : (fun e : Item × Item => e.1.sameKey (.int k)) ∘ (fun f : Nat × Item =>
      ((Item.int f.1, f.2) : Item × Item)) = fun f => decide (f.1 = k) := by
    funext f
    rw [Function.comp_apply, sameKey_int, Bool.eq_iff_iff, beq_iff_eq, decide_eq_true_iff]
    exact Int.ofNat_inj
  rw [Cbor.field?, entriesOf, List.find?_map, hp, Option.map_map]
  rfl

end Keys

theorem mem_of_mem_cons_of_lt {j k : Nat} {ks : List Nat} (h : j ∈ k :: ks) (hlt : k < j) :
    j ∈ ks :=
  (List.mem_cons.mp h).resolve_left (Nat.ne_of_gt hlt)

/-- **Fields with ascending keys are known by their look-ups**: looking up all numbers that may
be keys, in ascending order, gives the fields back. -/
theorem eq_filterMap_find? {fields : List (Nat × Item)} (all : List Nat)
    (hall : all.Pairwise (· < ·)) (hs : (fields.map Prod.fst).Pairwise (· < ·))
    (hsub : ∀ f ∈ fields, f.1 ∈ all) :
    fields = all.filterMap fun k => fields.find? fun f => f.1 = k := by
  induction all generalizing fields with
  | nil =>
    cases fields with
    | nil => rfl
    | cons f fields => exact absurd (hsub f List.mem_cons_self) List.not_mem_nil
  | cons k all ih =>
    obtain ⟨hk, hall'⟩ := List.pairwise_cons.mp hall
    cases fields with
    | nil => simp
    | cons f fields =>
      obtain ⟨hf, hs'⟩ := List.pairwise_cons.mp hs
      have hlt : ∀ g ∈ fields, f.1 < g.1 := fun g hg => hf _ (List.mem_map_of_mem hg)
      have hsub' : ∀ g ∈ fields, g.1 ∈ k :: all := fun g hg => hsub g (List.mem_cons_of_mem _ hg)
      rcases List.mem_cons.mp (hsub f List.mem_cons_self) with rfl | hfa
      · -- the least key is there, and the other look-ups pass over it
        have hrest : fields = all.filterMap fun j => fields.find? fun g => g.1 = j :=
          ih hall' hs' fun g hg => mem_of_mem_cons_of_lt (hsub' g hg) (hlt g hg)
        have hpass : ∀ j ∈ all, (f :: fields).find? (fun g => g.1 = j) =
            fields.find? fun g => g.1 = j := fun j hj =>
          List.find?_cons_of_neg (by simpa using Nat.ne_of_lt (hk j hj))
        rw [List.filterMap_cons, List.find?_cons_of_pos (by simp), List.filterMap_congr hpass,
          ← hrest]
      · -- the least key is missing, so all keys are among the others
        have hkf : k < f.1 := hk _ hfa
        have hmem : ∀ g ∈ f :: fields, g.1 ∈ all := by
          rintro g (_ | ⟨_, hg⟩)
          · exact hfa
          · exact mem_of_mem_cons_of_lt (hsub' g hg) (hkf.trans (hlt g hg))
        have hnone : (f :: fields).find? (fun g => g.1 = k) = none :=
          List.find?_eq_none.mpr fun g hg => by simpa using Nat.ne_of_gt (hk _ (hmem g hg))
        rw [List.filterMap_cons, hnone]
        exact ih hall' hs hmem

/-! ### From the envelope back to the fields -/

/-- The parts of a computation that succeeds. -/
theorem exists_of_bind_eq_ok {ε α β : Type} {x : Except ε α} {f : α → Except ε β} {b : β}
    (h : x >>= f = .ok b) : ∃ a, x = .ok a ∧ f a = .ok b := by
  cases x with
  | error cause => cases h
  | ok a => exact ⟨a, rfl, h⟩

theorem Fits.hasObject_eq_false {k : Nat} {item : Item} (h : Fits k item) :
    item.hasObject = false := by
  cases h <;> rfl

section Fields

variable [Platform]

/-- A field that has to be there is the one that is found. -/
theorem eq_some_of_required {n : Nat} {entries : List (Item × Item)}
    {found : Option Item} {item : Item} (ho : optional n entries = .ok found)
    (h : required n entries = .ok item) : found = some item := by
  rw [required, ho] at h
  cases found with
  | none => cases h
  | some i => rw [Except.ok.inj h]

theorem eq_bytes_of_payloadOf {item : Item} {b : Bytes} (hf : Fits 0 item)
    (h : payloadOf item = .ok b) : item = .bytes b := by
  cases hf with
  | payload _ =>
    rw [payloadOf, Except.ok.injEq] at h
    rw [h]
  | name hk _ => simp at hk

theorem eq_int_of_magicOf {item : Item} {m : Magic} (h : magicOf item = .ok m) :
    item = .int m.number := by
  unfold magicOf at h
  split at h
  · split at h
    · next hm => rw [← Except.ok.inj h, Magic.eq_number_of_ofNumber? hm]
    · cases h
  · cases h

section Named

variable {α : Type} {field : EnvelopeField} {ofName? : Text → Option α} {name : α → Text}

theorem eq_text_of_namedBy (hn : ∀ t x, ofName? t = some x → t = name x) {item : Item} {x : α}
    (h : namedBy field ofName? item = .ok x) : item = .text (name x) := by
  unfold namedBy at h
  split at h
  · split at h
    · next ho => rw [← Except.ok.inj h, hn _ _ ho]
    · cases h
  · cases h

/-- A field that may be missing is the one that the envelope has; in a canonical document it is
never null. -/
theorem eq_map_of_optionallyNamedBy (hn : ∀ t x, ofName? t = some x → t = name x)
    {item : Option Item} {x : Option α} (hnull : item ≠ some .null)
    (h : optionallyNamedBy field ofName? item = .ok x) :
    item = x.map fun x => .text (name x) := by
  unfold optionallyNamedBy at h
  split at h
  · rw [← Except.ok.inj h]
    rfl
  · exact absurd rfl hnull
  · next item _ =>
    rcases hi : namedBy field ofName? item with _ | y
    · rw [hi] at h
      cases h
    · rw [hi] at h
      rw [← Except.ok.inj h, eq_text_of_namedBy hn hi]
      rfl

end Named

end Fields

theorem not_fits_null (k : Nat) : ¬Fits k .null := by
  rintro ⟨⟩

/-- **What is found under the five keys** of a map that describes an envelope. -/
theorem field?_of_ofEntries [Platform] {fields : List (Nat × Item)} {e : Envelope}
    (hf : ∀ f ∈ fields, Fits f.1 f.2) (h : ofEntries (entriesOf fields) = .ok e) :
    Cbor.field? 0 (entriesOf fields) = some (.bytes e.payload) ∧
      Cbor.field? 1 (entriesOf fields) = some (.int e.magic.number) ∧
      Cbor.field? 2 (entriesOf fields) = some (.text e.contentType.name) ∧
      Cbor.field? 3 (entriesOf fields) = e.contentEncoding.map (fun x => .text x.name) ∧
      Cbor.field? 4 (entriesOf fields) = e.contentLanguage.map (fun x => .text x.name) := by
  have fits : ∀ {k : Nat} {item : Item}, Cbor.field? k (entriesOf fields) = some item →
      Fits k item := by
    intro k item hk
    rw [field?_entriesOf, Option.map_eq_some_iff] at hk
    obtain ⟨f, hfind, rfl⟩ := hk
    have hkey : f.1 = k := by simpa using List.find?_some hfind
    exact hkey ▸ hf f (List.mem_of_find?_eq_some hfind)
  have plain : ∀ k : Nat, optional k (entriesOf fields) = .ok (Cbor.field? k (entriesOf fields)) :=
    fun k => optional_of_field? rfl fun i hi => (fits hi).hasObject_eq_false
  have hnull : ∀ k : Nat, Cbor.field? k (entriesOf fields) ≠ some .null :=
    fun k hk => not_fits_null k (fits hk)
  -- the fields are looked at one by one, and each of them has to be right
  unfold ofEntries at h
  obtain ⟨payload, hp, h⟩ := exists_of_bind_eq_ok h
  obtain ⟨magic, hm, h⟩ := exists_of_bind_eq_ok h
  obtain ⟨contentType, ht, h⟩ := exists_of_bind_eq_ok h
  obtain ⟨contentEncoding, he, h⟩ := exists_of_bind_eq_ok h
  obtain ⟨contentLanguage, hl, h⟩ := exists_of_bind_eq_ok h
  obtain ⟨item₀, h₀, hp⟩ := exists_of_bind_eq_ok hp
  obtain ⟨item₁, h₁, hm⟩ := exists_of_bind_eq_ok hm
  obtain ⟨item₂, h₂, ht⟩ := exists_of_bind_eq_ok ht
  obtain ⟨item₃, h₃, he⟩ := exists_of_bind_eq_ok he
  obtain ⟨item₄, h₄, hl⟩ := exists_of_bind_eq_ok hl
  rw [← Except.ok.inj h]
  have h₀ := eq_some_of_required (plain 0) h₀
  rw [← Except.ok.inj ((plain 3).symm.trans h₃)] at he
  rw [← Except.ok.inj ((plain 4).symm.trans h₄)] at hl
  refine ⟨?_, ?_, ?_, ?_, ?_⟩
  · rw [← eq_bytes_of_payloadOf (fits h₀) hp]
    exact h₀
  · rw [← eq_int_of_magicOf hm]
    exact eq_some_of_required (plain 1) h₁
  · rw [← eq_text_of_namedBy (fun _ _ => ContentType.eq_name_of_ofName?) ht]
    exact eq_some_of_required (plain 2) h₂
  · exact eq_map_of_optionallyNamedBy (fun _ _ => ContentEncoding.eq_name_of_ofName?) (hnull 3) he
  · exact eq_map_of_optionallyNamedBy (fun _ _ => ContentLanguage.eq_name_of_ofName?) (hnull 4) hl

/-- **The fields that describe an envelope** are its own. -/
theorem entriesOf_eq_entries [Platform] {fields : List (Nat × Item)} {e : Envelope}
    (hf : ∀ f ∈ fields, Fits f.1 f.2) (hs : (fields.map Prod.fst).Pairwise (· < ·))
    (h : ofEntries (entriesOf fields) = .ok e) :
    entriesOf fields = e.entries ∧ e.payload.length < 2 ^ 64 := by
  have hsub : ∀ f ∈ fields, f.1 ∈ [0, 1, 2, 3, 4] := fun f hm => by
    have := (hf f hm).key_le
    simp
    omega
  -- an entry is a key with what is found under it
  have hentry : ∀ k : Nat, (fields.find? fun f => f.1 = k).map (fun f => (Item.int f.1, f.2)) =
      (Cbor.field? k (entriesOf fields)).map (Prod.mk (Item.int k)) := by
    intro k
    rw [field?_entriesOf, Option.map_map]
    refine Option.map_congr fun f hfind => ?_
    have hkey : f.1 = k := by simpa using List.find?_some hfind
    rw [Function.comp_apply, hkey]
  obtain ⟨h₀, h₁, h₂, h₃, h₄⟩ := field?_of_ofEntries hf h
  have hfields := eq_filterMap_find? [0, 1, 2, 3, 4] (by decide) hs hsub
  have hlook : entriesOf fields = e.entries := by
    rw [entriesOf, hfields, List.map_filterMap, List.filterMap_congr fun k _ => hentry k]
    generalize entriesOf fields = found at h₀ h₁ h₂ h₃ h₄ ⊢
    rcases e with ⟨p, m, t, enc, lang⟩
    cases enc <;> cases lang <;> simp [entries, entriesOf, Envelope.fields, h₀, h₁, h₂, h₃, h₄]
  refine ⟨hlook, ?_⟩
  have hpayload : (Item.int 0, Item.bytes e.payload) ∈ entriesOf fields := by
    rw [hlook]
    exact List.mem_map.mpr ⟨(0, .bytes e.payload),
      List.mem_append_left _ (List.mem_append_left _ List.mem_cons_self), rfl⟩
  obtain ⟨f, hm, hf₀⟩ := List.mem_map.mp hpayload
  rw [Prod.mk.injEq] at hf₀
  have hfit := hf f hm
  rw [hf₀.2] at hfit
  exact hfit.length_lt

/-! ### Documents and envelopes -/

theorem EntriesForm.pairwise_keys {keys : List Nat} {body : Bytes} (h : EntriesForm keys body) :
    keys.Pairwise (· < ·) := by
  induction h with
  | nil => exact .nil
  | cons _ _ hlt _ ih => exact .cons hlt ih

/-- **A canonical document that is read** is the writing of the fields that are read. -/
theorem exists_fields_of_decode [Platform] {d : Bytes} {e : Envelope} (hd : CanonicalDocument d)
    (h : decode d = .ok e) :
    ∃ fields : List (Nat × Item), (∀ f ∈ fields, Fits f.1 f.2) ∧
      (fields.map Prod.fst).Pairwise (· < ·) ∧ d = (Item.map (entriesOf fields)).encode ∧
      ofEntries (entriesOf fields) = .ok e := by
  obtain ⟨keys, hd, body, hhead, hbody, rfl⟩ := hd
  obtain ⟨hl, rfl⟩ := Cbor.shortestHead_iff.mp hhead
  -- of the levels that the reader goes down, the map takes one and its entries the next
  rcases hread : Cbor.read? (Cbor.head 5 keys.length ++ body) with _ | x
  · rw [decode, hread] at h
    cases h
  obtain ⟨depth, hmap⟩ := Cbor.exists_read?_head_map hl hread
  rw [Option.map_eq_some_iff] at hmap
  obtain ⟨⟨entries, rest⟩, hr, rfl⟩ := hmap
  rw [decode, hread] at h
  rw [← List.append_nil body] at hr
  obtain ⟨fields, rfl, hfits, rfl, rfl⟩ := exists_fields hbody hr
  have hs := hbody.pairwise_keys
  have hset : Cbor.setAll [] (entriesOf fields) = entriesOf fields :=
    @setAll_entriesOf _ [] fields (hs.imp Nat.ne_of_lt)
  refine ⟨fields, hfits, hs, ?_, ?_⟩
  · simp [Item.encode, entriesOf]
  · rwa [hset] at h

theorem pairwise_keys_fields (e : Envelope) : (e.fields.map Prod.fst).Pairwise (· < ·) := by
  rcases e with ⟨p, m, t, enc, lang⟩
  cases enc <;> cases lang <;> simp [fields]

theorem fits_fields {e : Envelope} (h : e.payload.length < 2 ^ 64) :
    ∀ f ∈ e.fields, Fits f.1 f.2 := by
  rcases e with ⟨p, m, t, enc, lang⟩
  intro f hf
  simp only [fields, List.mem_append, List.mem_cons, List.not_mem_nil, or_false,
    Option.mem_toList, Option.map_eq_some_iff] at hf
  rcases hf with ((rfl | rfl | rfl) | ⟨x, -, rfl⟩) | ⟨x, -, rfl⟩
  · exact .payload h
  · exact .magic m.number_lt
  · cases t
    exact .name (by simp) (by decide)
  · cases x
    exact .name (by simp) (by decide)
  · cases x
    exact .name (by simp) (by decide)

/-- **What is written is canonical.** -/
theorem canonicalDocument_encode {e : Envelope} (h : e.payload.length < 2 ^ 64) :
    CanonicalDocument e.encode := by
  have hl : e.entries.length < 2 ^ 64 := Nat.lt_of_le_of_lt e.length_entries_le (by decide)
  have hform := entriesForm_of_fits (fits_fields h) e.pairwise_keys_fields
  refine ⟨_, Cbor.head 5 e.entries.length, _, ?_, hform,
    by rw [encode, toItem_eq, Item.encode, entries]⟩
  have hlength : (e.fields.map Prod.fst).length = e.entries.length := by
    rw [entries, entriesOf, List.length_map, List.length_map]
  rw [hlength]
  exact Cbor.shortestHead_iff.mpr ⟨hl, rfl⟩

/-- **The canonical documents of envelopes are what is written.** A canonical document is read as
an envelope exactly if it is the writing of that envelope, and the envelope can be written, that
is, a head can say the length of its payload. So the hash of an envelope is the digest of any
canonical document that is read as it. -/
theorem canonicalDocument_iff [Platform] (d : Bytes) (e : Envelope) :
    (CanonicalDocument d ∧ decode d = .ok e ↔ e.payload.length < 2 ^ 64 ∧ e.encode = d) ∧
      (CanonicalDocument d → decode d = .ok e → e.hash = keccak256 d) := by
  have written : CanonicalDocument d → decode d = .ok e →
      e.payload.length < 2 ^ 64 ∧ e.encode = d := by
    intro hd h
    obtain ⟨fields, hfits, hs, rfl, hof⟩ := exists_fields_of_decode hd h
    obtain ⟨hentries, hl⟩ := entriesOf_eq_entries hfits hs hof
    exact ⟨hl, by rw [hentries, encode, toItem_eq]⟩
  refine ⟨⟨fun h => written h.1 h.2, ?_⟩, fun hd h => ?_⟩
  · rintro ⟨hl, rfl⟩
    exact ⟨canonicalDocument_encode hl, by simpa using decode_encode_append e hl []⟩
  · rw [hash, (written hd h).2]

/-- The canonical document of a letter, byte by byte. -/
def letterDocument : Bytes :=
  [0xA3, 0x00, 0x41, 0x61, 0x01, 0x1B, 0xFF, 0xDA, 0xC2, 0xF2, 0xF3, 0x7B, 0xE8, 0x94, 0x02, 0x78,
    0x18, 0x61, 0x70, 0x70, 0x6C, 0x69, 0x63, 0x61, 0x74, 0x69, 0x6F, 0x6E, 0x2F, 0x6F, 0x63, 0x74,
    0x65, 0x74, 0x2D, 0x73, 0x74, 0x72, 0x65, 0x61, 0x6D]

theorem canonicalDocument_letterDocument : CanonicalDocument letterDocument := by
  have shortest : ∀ {major n : Nat} {b : Bytes}, n < 2 ^ 64 → b = Cbor.head major n →
      ShortestHead major n b := fun hn hb => Cbor.shortestHead_iff.mpr ⟨hn, hb⟩
  have hpayload : ValueForm 0 ([0x41] ++ [0x61]) := .payload (shortest (by decide) rfl)
  have hmagic : ValueForm 1 [0x1B, 0xFF, 0xDA, 0xC2, 0xF2, 0xF3, 0x7B, 0xE8, 0x94] :=
    .magic (n := Magic.dotrain.number) (shortest (by decide) rfl)
  have hname : ValueForm 2 ([0x78, 0x18] ++ letterDocument.drop 17) :=
    .name (by decide) (shortest (by decide) rfl)
  have hkey : ∀ k : Nat, k < 24 → ShortestHead 0 k [k.toUInt8] := fun k hk =>
    shortest (by omega) (by simp [Cbor.head, hk])
  have hentries := EntriesForm.cons (hkey 0 (by decide)) hpayload (by decide)
    (.cons (hkey 1 (by decide)) hmagic (by decide)
      (.cons (hkey 2 (by decide)) hname (by decide) .nil))
  exact ⟨[0, 1, 2], [0xA3], _, shortest (by decide) rfl, hentries, rfl⟩

/-- It is read as the envelope of the letter, so it is what is written for that envelope, and its
digest is the envelope's hash. -/
theorem encode_eq_letterDocument :
    CanonicalDocument letterDocument ∧ decode letterDocument = .ok (ofText ['a']) ∧
      (ofText ['a']).encode = letterDocument ∧ (ofText ['a']).hash = keccak256 letterDocument := by
  have hread : decode letterDocument = .ok (ofText ['a']) := by decide +kernel
  obtain ⟨hform, hhash⟩ := canonicalDocument_iff letterDocument (ofText ['a'])
  exact ⟨canonicalDocument_letterDocument, hread,
    (hform.mp ⟨canonicalDocument_letterDocument, hread⟩).2,
    hhash canonicalDocument_letterDocument hread⟩

end Envelope

end RainMeta
