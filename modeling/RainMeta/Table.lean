/-!
# Tables

A table binds keys to values and remembers the order in which the keys were first set.

* `Table.set`: sets a key; a key set again keeps its place.
* `Table.setNew`: sets a key that has no value yet.
* `Table.find?`, `Table.erase`, `Table.keys`, `Table.values`.
* The functions on plain lists of pairs, `Entries.set` and so on, are what tables are built
  from.

Each operation has a law that says what is found afterwards (`Table.find?_set`,
`Table.find?_setNew`, `Table.find?_erase`); `Table.keys_set` says in which order the keys stand.
-/

namespace RainMeta

/-! ### Lists of pairs -/

namespace Entries

variable {κ ν : Type} [DecidableEq κ]

/-- The value of the first pair with a key. -/
def find? (k : κ) : List (κ × ν) → Option ν
  | [] => none
  | (a, b) :: rest => if a = k then some b else find? k rest

/-- Gives a key a value: in its place if the key occurs, else at the end. -/
def set (k : κ) (v : ν) : List (κ × ν) → List (κ × ν)
  | [] => [(k, v)]
  | (a, b) :: rest => if a = k then (k, v) :: rest else (a, b) :: set k v rest

/-- The pairs with other keys. -/
def erase (k : κ) (entries : List (κ × ν)) : List (κ × ν) :=
  entries.filter fun e => e.1 ≠ k

theorem mem_keys_set (k x : κ) (v : ν) (entries : List (κ × ν)) :
    x ∈ (set k v entries).map Prod.fst ↔ x = k ∨ x ∈ entries.map Prod.fst := by
  induction entries with
  | nil => simp [set]
  | cons e rest ih =>
    obtain ⟨a, b⟩ := e
    by_cases h : a = k
    · subst h
      simp [set]
    · simp only [set, if_neg h, List.map_cons, List.mem_cons, ih]
      constructor
      · rintro (h | h | h) <;> simp [h]
      · rintro (h | h | h) <;> simp [h]

theorem nodup_keys_set (k : κ) (v : ν) (entries : List (κ × ν))
    (h : (entries.map Prod.fst).Nodup) : ((set k v entries).map Prod.fst).Nodup := by
  induction entries with
  | nil => simp [set]
  | cons e rest ih =>
    obtain ⟨a, b⟩ := e
    simp only [List.map_cons, List.nodup_cons] at h
    by_cases hk : a = k
    · subst hk
      simpa [set] using h
    · simp only [set, if_neg hk, List.map_cons, List.nodup_cons, mem_keys_set]
      exact ⟨fun hm => hm.elim hk h.1, ih h.2⟩

theorem nodup_keys_erase (k : κ) (entries : List (κ × ν))
    (h : (entries.map Prod.fst).Nodup) : ((erase k entries).map Prod.fst).Nodup :=
  List.Nodup.sublist (List.Sublist.map Prod.fst List.filter_sublist) h

/-- Only the pair of the key itself answers, the keys being distinct. -/
theorem find?_eq_some_iff {k : κ} {v : ν} {entries : List (κ × ν)}
    (h : (entries.map Prod.fst).Nodup) : find? k entries = some v ↔ (k, v) ∈ entries := by
  induction entries with
  | nil => simp [find?]
  | cons e rest ih =>
    obtain ⟨a, b⟩ := e
    rw [List.map_cons, List.nodup_cons] at h
    by_cases hk : a = k
    · subst hk
      have hm : (a, v) ∉ rest := fun hm => h.1 (List.mem_map.mpr ⟨(a, v), hm, rfl⟩)
      simp [find?, hm, eq_comm]
    · simp [find?, hk, ih h.2, Ne.symm hk]

theorem find?_set (k x : κ) (v : ν) (entries : List (κ × ν)) :
    find? x (set k v entries) = if x = k then some v else find? x entries := by
  induction entries with
  | nil => simp [set, find?, eq_comm]
  | cons e rest ih =>
    obtain ⟨a, b⟩ := e
    by_cases h : a = k
    · subst h
      by_cases hx : x = a
      · simp [set, find?, hx]
      · simp [set, find?, hx, Ne.symm hx]
    · by_cases ha : a = x
      · subst ha
        simp [set, find?, h]
      · simp [set, find?, h, ha, ih]

theorem erase_cons (k a : κ) (b : ν) (rest : List (κ × ν)) :
    erase k ((a, b) :: rest) = if a = k then erase k rest else (a, b) :: erase k rest := by
  by_cases h : a = k
  · simp [erase, h]
  · simp [erase, h]

theorem find?_erase (k x : κ) (entries : List (κ × ν)) :
    find? x (erase k entries) = if x = k then none else find? x entries := by
  induction entries with
  | nil => simp [erase, find?]
  | cons e rest ih =>
    obtain ⟨a, b⟩ := e
    rw [erase_cons]
    by_cases h : a = k
    · subst h
      rw [if_pos rfl, ih]
      by_cases hx : x = a
      · simp [hx]
      · simp [find?, hx, Ne.symm hx]
    · by_cases ha : a = x
      · subst ha
        simp [find?, h]
      · simp [find?, h, ha, ih]

theorem keys_set (k : κ) (v : ν) (entries : List (κ × ν)) :
    (set k v entries).map Prod.fst =
      if k ∈ entries.map Prod.fst then entries.map Prod.fst else entries.map Prod.fst ++ [k] := by
  induction entries with
  | nil => simp [set]
  | cons e rest ih =>
    obtain ⟨a, b⟩ := e
    by_cases h : a = k
    · simp [set, h]
    · simp only [set, if_neg h, List.map_cons, ih, List.mem_cons, Ne.symm h, false_or,
        List.cons_append]
      split <;> rfl

end Entries

/-! ### Tables -/

/-- Keys with their values, in the order in which the keys were first set. -/
structure Table (κ ν : Type) where
  entries : List (κ × ν)
  nodup_keys : (entries.map Prod.fst).Nodup

namespace Table

variable {κ ν : Type}

/-- The table without keys. -/
def empty : Table κ ν := ⟨[], by simp⟩

/-- The keys, in order. -/
def keys (t : Table κ ν) : List κ :=
  t.entries.map Prod.fst

/-- The values, in the order of their keys. -/
def values (t : Table κ ν) : List ν :=
  t.entries.map Prod.snd

/-- The number of keys. -/
def size (t : Table κ ν) : Nat :=
  t.entries.length

variable [DecidableEq κ]

/-- The value of a key. -/
def find? (t : Table κ ν) (k : κ) : Option ν :=
  Entries.find? k t.entries

/-- Whether the key has a value. -/
def contains (t : Table κ ν) (k : κ) : Bool :=
  (t.find? k).isSome

/-- Gives a key a value; a key that had one keeps its place. -/
def set (t : Table κ ν) (k : κ) (v : ν) : Table κ ν :=
  ⟨Entries.set k v t.entries, Entries.nodup_keys_set k v t.entries t.nodup_keys⟩

/-- Gives a key a value unless it has one. -/
def setNew (t : Table κ ν) (k : κ) (v : ν) : Table κ ν :=
  if t.contains k then t else t.set k v

/-- The table without a key. -/
def erase (t : Table κ ν) (k : κ) : Table κ ν :=
  ⟨Entries.erase k t.entries, Entries.nodup_keys_erase k t.entries t.nodup_keys⟩

/-! ### What is found -/

@[simp] theorem find?_set (t : Table κ ν) (k x : κ) (v : ν) :
    (t.set k v).find? x = if x = k then some v else t.find? x :=
  Entries.find?_set k x v t.entries

@[simp] theorem find?_erase (t : Table κ ν) (k x : κ) :
    (t.erase k).find? x = if x = k then none else t.find? x :=
  Entries.find?_erase k x t.entries

theorem contains_iff (t : Table κ ν) (k : κ) : t.contains k ↔ ∃ v, t.find? k = some v :=
  Option.isSome_iff_exists

/-- A new value is found where there was none; an old one stays. -/
@[simp] theorem find?_setNew (t : Table κ ν) (k x : κ) (v : ν) :
    (t.setNew k v).find? x = if x = k then some ((t.find? k).getD v) else t.find? x := by
  unfold setNew
  split
  · next h =>
    obtain ⟨w, hw⟩ := (t.contains_iff k).mp h
    by_cases hx : x = k
    · simp [hx, hw]
    · simp [hx]
  · next h =>
    rw [Table.contains, Option.not_isSome_iff_eq_none] at h
    simp [h]

/-- The values of a table are those that some key has. -/
theorem mem_values_iff (t : Table κ ν) (v : ν) : v ∈ t.values ↔ ∃ k, t.find? k = some v := by
  simp only [values, find?, List.mem_map, Entries.find?_eq_some_iff t.nodup_keys]
  constructor
  · rintro ⟨⟨k, w⟩, h, rfl⟩
    exact ⟨k, h⟩
  · rintro ⟨k, h⟩
    exact ⟨(k, v), h, rfl⟩

/-! ### Which keys there are -/

theorem mem_keys_iff (t : Table κ ν) (k : κ) : k ∈ t.keys ↔ ∃ v, t.find? k = some v := by
  simp only [keys, find?, List.mem_map, Entries.find?_eq_some_iff t.nodup_keys]
  constructor
  · rintro ⟨⟨k, v⟩, h, rfl⟩
    exact ⟨v, h⟩
  · rintro ⟨v, h⟩
    exact ⟨(k, v), h, rfl⟩

theorem keys_set (t : Table κ ν) (k : κ) (v : ν) :
    (t.set k v).keys = if k ∈ t.keys then t.keys else t.keys ++ [k] :=
  Entries.keys_set k v t.entries

end Table

end RainMeta
