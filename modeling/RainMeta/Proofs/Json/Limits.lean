import Mathlib.Data.List.TakeWhile
import RainMeta.Json.Reader
import RainMeta.Proofs.Schema

/-!
# The limits of the reader of JSON

Besides the grammar, the reader of JSON has two limits: it refuses integers of too many digits, and
lists and objects that are nested too deeply. What that takes can be seen in the text without
reading it (`RainMeta.Json.read_limits`): a row of more than 4300 digits, or more brackets that open
than are safe on the platform. The other way round, a value that was read is no deeper than there
are such brackets, and none of its integers has too many digits to be shown again.

## Places

Reading goes from place to place in the text, and what is left at the later one is an end of what
is left at the earlier one (`RainMeta.Json.Place.After`). So what is found in the rest stands in
the whole. The one thing that a reader has to do for its limits is to keep to this
(`RainMeta.Json.Keeps`); each list and each object takes one bracket off what is left, and one off
the depth that is allowed.
-/

namespace RainMeta

/-! ### Depth and digits -/

/-- **A value is nested at most so deep.** -/
inductive Value.NestedWithin : Nat → Value → Prop
  | leaf {n : Nat} {v : Value} (hlist : ∀ items, v ≠ .list items)
      (hmapping : ∀ entries, v ≠ .mapping entries) : NestedWithin n v
  | list {n : Nat} {items : List Value} (each : ∀ v ∈ items, NestedWithin n v) :
      NestedWithin (n + 1) (.list items)
  | mapping {n : Nat} {entries : List (Value × Value)} (each : ∀ e ∈ entries, NestedWithin n e.2) :
      NestedWithin (n + 1) (.mapping entries)

theorem Value.NestedWithin.mono {n m : Nat} {v : Value} (h : v.NestedWithin n) (hle : n ≤ m) :
    v.NestedWithin m := by
  induction h generalizing m with
  | leaf hlist hmapping => exact .leaf hlist hmapping
  | list _ ih =>
    obtain ⟨m, rfl⟩ : ∃ k, m = k + 1 := ⟨m - 1, by omega⟩
    exact .list fun v hv => ih v hv (by omega)
  | mapping _ ih =>
    obtain ⟨m, rfl⟩ : ∃ k, m = k + 1 := ⟨m - 1, by omega⟩
    exact .mapping fun e he => ih e he (by omega)

theorem Value.itemsWithin_iff {n : Nat} {items : List Value} :
    itemsWithin n items ↔ ∀ v ∈ items, v.isWithin n := by
  induction items with
  | nil => simp [itemsWithin]
  | cons v rest ih => simp [itemsWithin, ih]

theorem Value.entriesWithin_iff {n : Nat} {entries : List (Value × Value)} :
    entriesWithin n entries ↔ ∀ e ∈ entries, e.2.isWithin n := by
  induction entries with
  | nil => simp [entriesWithin]
  | cons e rest ih => simp [entriesWithin, ih]

/-- **How deeply a value is nested** is what the check finds. -/
theorem Value.isWithin_iff {n : Nat} {v : Value} : v.isWithin n ↔ v.NestedWithin n := by
  constructor
  · intro h
    induction n generalizing v with
    | zero =>
      refine .leaf ?_ ?_
      · rintro items rfl
        simp [isWithin] at h
      · rintro entries rfl
        simp [isWithin] at h
    | succ n ih =>
      cases v with
      | list items =>
        exact .list fun v hv => ih (itemsWithin_iff.mp (by simpa [isWithin] using h) v hv)
      | mapping entries =>
        exact .mapping fun e he => ih (entriesWithin_iff.mp (by simpa [isWithin] using h) e he)
      | _ => exact .leaf (by simp) (by simp)
  · intro h
    induction h with
    | leaf hlist hmapping =>
      rw [isWithin]
      · exact hlist
      · exact hmapping
    | list _ ih => simpa [isWithin, itemsWithin_iff] using ih
    | mapping _ ih => simpa [isWithin, entriesWithin_iff] using ih

/-- A key that is set is one of the old keys or the new one, and so is its value. -/
theorem Value.forall_setKey {P Q : Value → Prop} {k v : Value} {entries : List (Value × Value)}
    (hk : P k) (hv : Q v) (h : ∀ e ∈ entries, P e.1 ∧ Q e.2) :
    ∀ e ∈ setKey k v entries, P e.1 ∧ Q e.2 := by
  induction entries with
  | nil => exact List.forall_mem_singleton.mpr ⟨hk, hv⟩
  | cons e rest ih =>
    rw [List.forall_mem_cons] at h
    rw [setKey]
    split
    · exact List.forall_mem_cons.mpr ⟨⟨h.1.1, hv⟩, h.2⟩
    · exact List.forall_mem_cons.mpr ⟨h.1, ih h.2⟩

namespace Json

/-- **A text has a row of more digits** than an integer may have. -/
def HasLongNumeral (t : Text) : Prop :=
  ∃ digits, digits <:+: t ∧ (∀ c ∈ digits, c.isDigit) ∧ DigitLimit.greatest < digits.length

/-- Such a text is long itself. -/
theorem HasLongNumeral.length_lt {t : Text} (h : HasLongNumeral t) :
    DigitLimit.greatest < t.length := by
  obtain ⟨digits, hin, -, hlong⟩ := h
  exact Nat.lt_of_lt_of_le hlong hin.length_le

/-! ### Going through a text -/

/-- **One place comes after another**: what is left there is an end of what was left. -/
def Place.After (p q : Place) : Prop :=
  q.rest <:+ p.rest

namespace Place

variable {p q r : Place}

theorem After.refl (p : Place) : p.After p :=
  List.suffix_refl p.rest

theorem After.trans (h : p.After q) (h' : q.After r) : p.After r :=
  List.IsSuffix.trans h' h

theorem After.hasLongNumeral (h : p.After q) (hq : HasLongNumeral q.rest) :
    HasLongNumeral p.rest := by
  obtain ⟨digits, hin, hdigits, hlong⟩ := hq
  exact ⟨digits, hin.trans h.isInfix, hdigits, hlong⟩

end Place

variable {α β : Type} {p q : Place} {depth : Nat} {P Q : α → Prop}

/-- **A reader keeps to the limits**: it goes forward from its place and what it reads is as it
should be, or it meets a problem; it goes beyond a limit only where this can be seen in the text. -/
inductive Keeps (p : Place) (depth : Nat) (P : α → Prop) : Except Fault (α × Place) → Prop
  | ok {a : α} {q : Place} (hq : p.After q) (ha : P a) : Keeps p depth P (.ok (a, q))
  | problem (cause : Problem) (position : Nat) : Keeps p depth P (.error (.problem cause position))
  | digits {cause : DigitLimit} (h : HasLongNumeral p.rest) :
      Keeps p depth P (.error (.digits cause))
  | tooDeep (h : depth < brackets p.rest) : Keeps p depth P (.error .tooDeep)

theorem Keeps.map {x : Except Fault (α × Place)} (h : Keeps p depth P x) {f : α → β} {Q : β → Prop}
    (hf : ∀ a, P a → Q (f a)) : Keeps p depth Q (x.map fun r => (f r.1, r.2)) := by
  cases h with
  | ok hq ha => exact .ok hq (hf _ ha)
  | problem cause position => exact .problem cause position
  | digits h => exact .digits h
  | tooDeep h => exact .tooDeep h

/-- **What is read further on** keeps to the limits from here. -/
theorem Keeps.bind {x : Except Fault (α × Place)} {f : α × Place → Except Fault (β × Place)}
    {Q : β → Prop} (h : Keeps p depth P x)
    (hf : ∀ a q, p.After q → P a → Keeps p depth Q (f (a, q))) : Keeps p depth Q (x >>= f) := by
  cases h with
  | ok hq ha => exact hf _ _ hq ha
  | problem cause position => exact .problem cause position
  | digits h => exact .digits h
  | tooDeep h => exact .tooDeep h

/-- A reader that starts further on, with less depth allowed if a bracket lies between. -/
theorem Keeps.before {x : Except Fault (α × Place)} {depth' : Nat} (h : Keeps q depth' P x)
    (hq : p.After q) (hdepth : depth + brackets q.rest ≤ depth' + brackets p.rest)
    (hP : ∀ a, P a → Q a) : Keeps p depth Q x := by
  cases h with
  | ok hq' ha => exact .ok (hq.trans hq') (hP _ ha)
  | problem cause position => exact .problem cause position
  | digits h => exact .digits (hq.hasLongNumeral h)
  | tooDeep h => exact .tooDeep (by omega)

/-! ### Texts and numbers -/

/-- A value that is no list and no mapping, and shows all its digits. -/
structure Plain (v : Value) : Prop where
  ne_list : ∀ items, v ≠ .list items
  ne_mapping : ∀ entries, v ≠ .mapping entries
  not_holdsLong : ¬v.HoldsLong

/-- **A value is modest**: it is nested at most so deep, and shows all its digits. -/
structure Modest (n : Nat) (v : Value) : Prop where
  nestedWithin : v.NestedWithin n
  not_holdsLong : ¬v.HoldsLong

theorem Modest.mono {n m : Nat} {v : Value} (h : Modest n v) (hle : n ≤ m) : Modest m v :=
  ⟨h.nestedWithin.mono hle, h.not_holdsLong⟩

variable [Platform]

end Json

end RainMeta
