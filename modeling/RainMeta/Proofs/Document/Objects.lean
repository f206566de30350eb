import Mathlib.Data.List.Nodup
import RainMeta.Schema
import RainMeta.Table

/-!
# JSON values

The values that JSON can spell (`RainMeta.Value.IsJson`): among all values these are the ones
without bytes, dates, pairs and sets in which every key is a text, and no key occurs twice. Their
objects are lists of fields (`RainMeta.Value.object`), and what is looked up in an object is what
stands in the list (`RainMeta.Value.fieldOf?_eq_some_iff`).
-/

namespace RainMeta

/-- What stands in a list after a key was set. -/
theorem Entries.mem_of_mem_set {κ ν : Type} [DecidableEq κ] {k : κ} {v : ν} {e : κ × ν}
    {entries : List (κ × ν)} (h : e ∈ set k v entries) : e = (k, v) ∨ e ∈ entries := by
  induction entries with
  | nil => exact Or.inl (List.mem_singleton.mp h)
  | cons e' rest ih =>
    rw [set] at h
    split at h
    · exact (List.mem_cons.mp h).imp_right (List.mem_cons_of_mem e')
    · rcases List.mem_cons.mp h with rfl | h
      · exact Or.inr List.mem_cons_self
      · exact (ih h).imp_right (List.mem_cons_of_mem e')

namespace Value

/-- The entries of an object with these fields. -/
def entriesOfFields (fields : List (Text × Value)) : List (Value × Value) :=
  fields.map fun f => (.text f.1, f.2)

@[simp] theorem entriesOfFields_nil : entriesOfFields [] = [] := rfl

@[simp] theorem entriesOfFields_cons (f : Text × Value) (rest : List (Text × Value)) :
    entriesOfFields (f :: rest) = (.text f.1, f.2) :: entriesOfFields rest := rfl

/-- **The object with these fields.** -/
def object (fields : List (Text × Value)) : Value :=
  .mapping (entriesOfFields fields)

/-- **A value that JSON can spell.** -/
inductive IsJson : Value → Prop
  | null : IsJson .null
  | bool (b : Bool) : IsJson (.bool b)
  | int (i : Int) : IsJson (.int i)
  | float (x : Binary64) : IsJson (.float x)
  | text (t : Text) : IsJson (.text t)
  | list {items : List Value} (each : ∀ v ∈ items, v.IsJson) : IsJson (.list items)
  | object {entries : List (Value × Value)} {fields : List (Text × Value)}
      (split : entries = entriesOfFields fields) (distinct : (fields.map Prod.fst).Nodup)
      (each : ∀ f ∈ fields, f.2.IsJson) : IsJson (.mapping entries)

/-- **An object that JSON can spell.** -/
def IsJsonObject (v : Value) : Prop :=
  v.IsJson ∧ ∃ entries, v = .mapping entries

theorem entriesOfFields_injective : Function.Injective entriesOfFields :=
  List.map_injective_iff.mpr fun f g h => by
    simp only [Prod.mk.injEq, Value.text.injEq] at h
    exact Prod.ext h.1 h.2

theorem IsJson.of_mem {items : List Value} (h : IsJson (.list items)) : ∀ v ∈ items, v.IsJson := by
  cases h with
  | list each => exact each

theorem IsJson.exists_fields {entries : List (Value × Value)} (h : IsJson (.mapping entries)) :
    ∃ fields, entries = entriesOfFields fields ∧ (fields.map Prod.fst).Nodup ∧
      ∀ f ∈ fields, f.2.IsJson := by
  cases h with
  | object split distinct each => exact ⟨_, split, distinct, each⟩

theorem isJson_object_iff {fields : List (Text × Value)} : (object fields).IsJson ↔
    (fields.map Prod.fst).Nodup ∧ ∀ f ∈ fields, f.2.IsJson := by
  constructor
  · intro h
    obtain ⟨fields', heq, hn, heach⟩ := h.exists_fields
    rw [entriesOfFields_injective heq]
    exact ⟨hn, heach⟩
  · rintro ⟨hn, heach⟩
    exact .object rfl hn heach

/-! ### Looking up fields -/

@[simp] theorem textEntries_entriesOfFields (fields : List (Text × Value)) :
    Schema.textEntries (entriesOfFields fields) = fields := by
  rw [Schema.textEntries, entriesOfFields, List.filterMap_map]
  exact List.filterMap_some

@[simp] theorem length_entriesOfFields (fields : List (Text × Value)) :
    (entriesOfFields fields).length = fields.length :=
  List.length_map _

section Lookup

variable {fields : List (Text × Value)} {k : Text} {v : Value}

theorem fieldOf?_entriesOfFields (k : Text) (fields : List (Text × Value)) :
    fieldOf? k (entriesOfFields fields) = Entries.find? k fields := by
  induction fields with
  | nil => rfl
  | cons f rest ih =>
    obtain ⟨k', v⟩ := f
    rw [Entries.find?, ← ih]
    by_cases h : k' = k
    · simp [fieldOf?, entriesOfFields, isText, h]
    · simp [fieldOf?, entriesOfFields, isText, h]

/-- **A field is found where it stands**, as no key occurs twice. -/
theorem fieldOf?_eq_some_iff (hn : (fields.map Prod.fst).Nodup) :
    fieldOf? k (entriesOfFields fields) = some v ↔ (k, v) ∈ fields := by
  rw [fieldOf?_entriesOfFields, Entries.find?_eq_some_iff hn]

theorem fieldOf?_eq_none_iff (hn : (fields.map Prod.fst).Nodup) :
    fieldOf? k (entriesOfFields fields) = none ↔ ∀ f ∈ fields, f.1 ≠ k := by
  rw [Option.eq_none_iff_forall_ne_some]
  simp only [ne_eq, fieldOf?_eq_some_iff hn]
  exact ⟨fun h f hf hk => h f.2 (hk ▸ hf), fun h v hv => h _ hv rfl⟩

/-- A field that is set keeps its place, or stands at the end. -/
theorem setKey_entriesOfFields (k : Text) (v : Value) (fields : List (Text × Value)) :
    setKey (.text k) v (entriesOfFields fields) = entriesOfFields (Entries.set k v fields) := by
  induction fields with
  | nil => rfl
  | cons f rest ih =>
    obtain ⟨k', w⟩ := f
    have hsame : sameKey (.text k') (.text k) = (k' == k) := rfl
    rw [entriesOfFields_cons, setKey, hsame, Entries.set]
    by_cases h : k' = k
    · simp [h]
    · rw [if_neg (by simpa using h), if_neg h, entriesOfFields_cons, ih]

/-- A field that is set is JSON if its value is. -/
theorem isJson_object_set (h : (object fields).IsJson) (hv : v.IsJson) (k : Text) :
    (object (Entries.set k v fields)).IsJson := by
  obtain ⟨hn, heach⟩ := isJson_object_iff.mp h
  refine isJson_object_iff.mpr ⟨Entries.nodup_keys_set k v fields hn, fun f hf => ?_⟩
  rcases Entries.mem_of_mem_set hf with rfl | hf
  · exact hv
  · exact heach f hf

end Lookup

end Value

end RainMeta
