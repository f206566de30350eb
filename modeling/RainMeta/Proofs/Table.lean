import Mathlib.Data.List.Induction
import RainMeta.Table

/-!
# Tables as records of what was set

A table that was filled by setting one key after another, from the table without keys, can be
read off the list of what was set: a key has the value that it was given last
(`RainMeta.Table.find?_setAll`), and the keys stand in the order in which they were given a
value first (`RainMeta.Table.keys_setAll`).
-/

namespace RainMeta

theorem eraseDups_concat {α : Type} [BEq α] [LawfulBEq α] [DecidableEq α] (l : List α) (a : α) :
    (l ++ [a]).eraseDups = if a ∈ l then l.eraseDups else l.eraseDups ++ [a] := by
  by_cases h : a ∈ l
  · simp [List.eraseDups_append, List.removeAll, h]
  · simp [List.eraseDups_append, List.removeAll, h, List.eraseDups_cons]

theorem nodup_eraseDups {α : Type} [BEq α] [LawfulBEq α] [DecidableEq α] (l : List α) :
    l.eraseDups.Nodup := by
  induction l using List.reverseRecOn with
  | nil => exact List.nodup_nil
  | append_singleton l a ih =>
    rw [eraseDups_concat]
    split
    · exact ih
    · next ha =>
      refine List.nodup_append.mpr ⟨ih, List.pairwise_singleton _ a, fun b hb b' hb' => ?_⟩
      rw [List.mem_singleton.mp hb']
      rintro rfl
      exact ha (List.mem_eraseDups.mp hb)

/-- Without repeats, the order of a list is all that is left to differ. -/
theorem perm_eraseDups {α : Type} [BEq α] [LawfulBEq α] [DecidableEq α] {l l' : List α}
    (h : l.Perm l') : l.eraseDups.Perm l'.eraseDups := by
  rw [List.perm_ext_iff_of_nodup (nodup_eraseDups l) (nodup_eraseDups l')]
  intro a
  rw [List.mem_eraseDups, List.mem_eraseDups, h.mem_iff]

namespace Table

variable {κ ν : Type} [DecidableEq κ]

/-- Several keys set one after another, from the table without keys. -/
def setAll (pairs : List (κ × ν)) : Table κ ν :=
  pairs.foldl (fun t e => t.set e.1 e.2) empty

/-- The last value of a key in a list of pairs. -/
def lastValue (k : κ) (pairs : List (κ × ν)) : Option ν :=
  (pairs.filter fun e => e.1 = k).getLast?.map Prod.snd

@[simp] theorem setAll_concat (pairs : List (κ × ν)) (e : κ × ν) :
    setAll (pairs ++ [e]) = (setAll pairs).set e.1 e.2 := by
  simp [setAll]

theorem lastValue_concat (k : κ) (pairs : List (κ × ν)) (e : κ × ν) :
    lastValue k (pairs ++ [e]) = if k = e.1 then some e.2 else lastValue k pairs := by
  by_cases h : e.1 = k
  · simp [lastValue, h]
  · simp [lastValue, h, Ne.symm h]

theorem lastValue_map {μ : Type} (f : ν → μ) (k : κ) (pairs : List (κ × ν)) :
    lastValue k (pairs.map fun e => (e.1, f e.2)) = (lastValue k pairs).map f := by
  simp only [lastValue, List.filter_map, List.getLast?_map, Option.map_map]
  rfl

theorem mem_of_lastValue {k : κ} {v : ν} {pairs : List (κ × ν)}
    (h : lastValue k pairs = some v) : (k, v) ∈ pairs := by
  obtain ⟨e, he, rfl⟩ := Option.map_eq_some_iff.mp h
  have hm := List.mem_filter.mp (List.mem_of_getLast? he)
  rw [← of_decide_eq_true hm.2]
  exact hm.1

/-- Read from its end, a list gives a key its first value. -/
theorem lastValue_reverse (k : κ) (pairs : List (κ × ν)) :
    lastValue k pairs.reverse = (pairs.find? fun e => e.1 = k).map Prod.snd := by
  rw [lastValue, List.filter_reverse, List.getLast?_reverse, List.head?_filter]

theorem exists_lastValue {k : κ} {pairs : List (κ × ν)} (h : k ∈ pairs.map Prod.fst) :
    ∃ v, lastValue k pairs = some v := by
  obtain ⟨e, he, hk⟩ := List.mem_map.mp h
  have hne : (pairs.filter fun e => e.1 = k) ≠ [] :=
    List.ne_nil_of_mem (List.mem_filter.mpr ⟨he, by simpa using hk⟩)
  exact ⟨_, by rw [lastValue, List.getLast?_eq_some_getLast hne]; rfl⟩

/-- **A key has the value that it was given last.** -/
theorem find?_setAll (pairs : List (κ × ν)) (k : κ) :
    (setAll pairs).find? k = lastValue k pairs := by
  induction pairs using List.reverseRecOn with
  | nil => rfl
  | append_singleton pairs e ih => rw [setAll_concat, find?_set, ih, lastValue_concat]

/-- **Keys stand in the order in which they were given a value first.** -/
theorem keys_setAll [BEq κ] [LawfulBEq κ] (pairs : List (κ × ν)) :
    (setAll pairs).keys = (pairs.map Prod.fst).eraseDups := by
  induction pairs using List.reverseRecOn with
  | nil => rfl
  | append_singleton pairs e ih =>
    rw [setAll_concat, keys_set, List.map_append, List.map_singleton, eraseDups_concat, ih]
    simp only [List.mem_eraseDups]

end Table

end RainMeta
