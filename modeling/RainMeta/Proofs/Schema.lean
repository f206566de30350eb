import RainMeta.Schema

/-!
# What schemas allow

What a schema allows is said without any violations (`RainMeta.Schema.Allows`), rule by rule. A
value that a schema is checked against has no violations exactly if the schema allows it
(`RainMeta.Schema.decides_violations`).

There is one more thing that a check can come to. The words about a broken rule may show a value,
and an integer of too many digits cannot be shown. So a check may end without a list of
violations. When it does is said in the same way (`RainMeta.Schema.ShowsLong`); it is never on a
value that the schema allows, since nothing is to be said about that one, and only ever on a value
that holds such an integer somewhere (`RainMeta.Schema.holdsLong_of_showsLong`).

Both are carried through the rules by one property of checks (`RainMeta.Schema.Decides`), which is
closed under what checks are put together of.
-/

namespace RainMeta

/-! ### Integers that cannot be shown -/

/-- **A value holds an integer of too many digits**: it is one, or has one in some part. -/
inductive Value.HoldsLong : Value → Prop
  | int {i : Int} (h : ¬i.natAbs < Nat.pow 10 DigitLimit.greatest) : HoldsLong (.int i)
  | item {v : Value} {items : List Value} (hv : v ∈ items) (h : v.HoldsLong) :
      HoldsLong (.list items)
  | first {v w : Value} (h : v.HoldsLong) : HoldsLong (.pair v w)
  | second {v w : Value} (h : w.HoldsLong) : HoldsLong (.pair v w)
  | member {v : Value} {members : List Value} (hv : v ∈ members) (h : v.HoldsLong) :
      HoldsLong (.set members)
  | key {k v : Value} {entries : List (Value × Value)} (hk : (k, v) ∈ entries) (h : k.HoldsLong) :
      HoldsLong (.mapping entries)
  | value {k v : Value} {entries : List (Value × Value)} (hv : (k, v) ∈ entries)
      (h : v.HoldsLong) : HoldsLong (.mapping entries)

/-- **Something is shown** unless it has an integer of too many digits. -/
inductive Shown {α : Type} (long : Prop) : Except DigitLimit α → Prop
  | ok {a : α} (h : ¬long) : Shown long (.ok a)
  | error (h : long) : Shown long (.error ⟨none⟩)

namespace Shown

variable {α β : Type} {long long' : Prop} {x : Except DigitLimit α}

theorem congr (h : Shown long x) (hiff : long ↔ long') : Shown long' x := by
  rwa [← hiff]

theorem map (h : Shown long x) (f : α → β) : Shown long (x >>= fun a => pure (f a)) := by
  cases h with
  | ok h => exact .ok h
  | error h => exact .error h

/-- **One thing is shown after another.** -/
theorem bind {f : α → Except DigitLimit β} (h : Shown long x) (hf : ∀ a, Shown long' (f a)) :
    Shown (long ∨ long') (x >>= f) := by
  cases h with
  | @ok a h => exact (hf a).congr (or_iff_right h).symm
  | error h => exact .error (Or.inl h)

end Shown

theorem Text.shown_ofInt? (i : Int) :
    Shown (¬i.natAbs < Nat.pow 10 DigitLimit.greatest) (ofInt? i) := by
  rw [ofInt?]
  split
  · next h => exact .ok (not_not_intro h)
  · next h => exact .error h

namespace Value

variable {items members : List Value} {entries : List (Value × Value)}

theorem holdsLong_int_iff {i : Int} :
    (int i).HoldsLong ↔ ¬i.natAbs < Nat.pow 10 DigitLimit.greatest := by
  refine ⟨fun h => ?_, .int⟩
  cases h with
  | int h => exact h

theorem holdsLong_list_iff : (list items).HoldsLong ↔ ∃ v ∈ items, v.HoldsLong := by
  refine ⟨fun h => ?_, fun ⟨v, hv, h⟩ => .item hv h⟩
  cases h with
  | item hv h => exact ⟨_, hv, h⟩

theorem holdsLong_pair_iff {v w : Value} :
    (pair v w).HoldsLong ↔ v.HoldsLong ∨ w.HoldsLong := by
  refine ⟨fun h => ?_, fun h => h.elim .first .second⟩
  cases h with
  | first h => exact Or.inl h
  | second h => exact Or.inr h

theorem holdsLong_set_iff : (set members).HoldsLong ↔ ∃ v ∈ members, v.HoldsLong := by
  refine ⟨fun h => ?_, fun ⟨v, hv, h⟩ => .member hv h⟩
  cases h with
  | member hv h => exact ⟨_, hv, h⟩

theorem holdsLong_mapping_iff :
    (mapping entries).HoldsLong ↔ ∃ e ∈ entries, e.1.HoldsLong ∨ e.2.HoldsLong := by
  refine ⟨fun h => ?_, fun ⟨e, he, h⟩ => h.elim (.key he) (.value he)⟩
  cases h with
  | key he h => exact ⟨_, he, Or.inl h⟩
  | value he h => exact ⟨_, he, Or.inr h⟩

-- else the bound on integers is evaluated when the recursion is taken apart
seal Text.ofInt?

mutual

/-- **A value is shown unless it holds an integer of too many digits.** -/
theorem shown_quoted : (v : Value) → Shown v.HoldsLong v.quoted
  | .int i => by
    rw [quoted]
    exact (Text.shown_ofInt? i).congr holdsLong_int_iff.symm
  | .list items => by
    rw [quoted]
    exact ((shown_quotedItems items).map _).congr holdsLong_list_iff.symm
  | .pair a b => by
    rw [quoted]
    exact ((shown_quoted a).bind fun _ => (shown_quoted b).map _).congr holdsLong_pair_iff.symm
  | .set members => by
    rw [quoted]
    split
    · next h =>
      rw [List.isEmpty_iff.mp h]
      exact .ok (by simp [holdsLong_set_iff])
    · exact ((shown_quotedItems members).map _).congr holdsLong_set_iff.symm
  | .mapping entries => by
    rw [quoted]
    exact ((shown_quotedEntries entries).map _).congr holdsLong_mapping_iff.symm
  | .null | .bool _ | .float _ | .text _ | .bytes _ | .date _ | .moment _ => by
    rw [quoted]
    exact .ok (by rintro ⟨⟩)

theorem shown_quotedItems : (items : List Value) →
    Shown (∃ v ∈ items, v.HoldsLong) (quotedItems items)
  | [] => by
    rw [quotedItems]
    exact .ok (by simp)
  | v :: rest => by
    rw [quotedItems]
    exact ((shown_quoted v).bind fun _ => (shown_quotedItems rest).map _).congr (by simp)

theorem shown_quotedEntries : (entries : List (Value × Value)) →
    Shown (∃ e ∈ entries, e.1.HoldsLong ∨ e.2.HoldsLong) (quotedEntries entries)
  | [] => by
    rw [quotedEntries]
    exact .ok (by simp)
  | (k, v) :: rest => by
    rw [quotedEntries]
    exact ((shown_quoted k).bind fun _ => (shown_quoted v).bind fun _ =>
      (shown_quotedEntries rest).map _).congr (by simp [or_assoc])

end

end Value

/-! ### What schemas allow -/

mutual

/-- **What a schema allows**: what all of its rules allow. -/
def Schema.Allows : Schema → Value → Prop
  | .always allowed, _ => allowed = true
  | .rules keywords, v => Keyword.AllAllow keywords v

/-- What several rules allow. -/
def Keyword.AllAllow : List Keyword → Value → Prop
  | [], _ => True
  | keyword :: rest, v => keyword.Allows v ∧ Keyword.AllAllow rest v

/-- **What a rule allows.** A rule for values of a certain kind allows all others. -/
def Keyword.Allows : Keyword → Value → Prop
  | .types names, v => ∃ name ∈ names, name.holds v
  | .required names, v =>
    ∀ entries, v = .mapping entries → ∀ name ∈ names, (Value.fieldOf? name entries).isSome
  | .items schema, v => ∀ items, v = .list items → ∀ item ∈ items, schema.Allows item
  | .minLength n, v => ∀ t, v = .text t → n ≤ t.length
  | .minProperties n, v => ∀ entries, v = .mapping entries → n ≤ entries.length
  | .maxProperties n, v => ∀ entries, v = .mapping entries → entries.length ≤ n
  | .properties schemas, v =>
    ∀ entries, v = .mapping entries → Keyword.PropertiesAllow schemas entries
  | .additionalProperties known schema, v => ∀ entries, v = .mapping entries →
    ∀ e ∈ Schema.textEntries entries, (∀ k ∈ known, ¬k.isText e.1) → schema.Allows e.2

/-- What schemas for the values of certain keys allow. -/
def Keyword.PropertiesAllow : List (Value × Schema) → List (Value × Value) → Prop
  | [], _ => True
  | (name, schema) :: rest, entries =>
    (∀ k v, name = .text k → Value.fieldOf? k entries = some v → schema.Allows v) ∧
      Keyword.PropertiesAllow rest entries

end

/-! ### What is shown of what they do not allow -/

mutual

/-- **The words about a broken schema show an integer of too many digits.** -/
def Schema.ShowsLong : Schema → Value → Prop
  | .always allowed, v => allowed = false ∧ v.HoldsLong
  | .rules keywords, v => Keyword.AnyShowsLong keywords v

/-- The words about one of several rules do. -/
def Keyword.AnyShowsLong : List Keyword → Value → Prop
  | [], _ => False
  | keyword :: rest, v => keyword.ShowsLong v ∨ Keyword.AnyShowsLong rest v

/-- **The words about a broken rule show an integer of too many digits.** Words about keys that are
missing or too many show no value. -/
def Keyword.ShowsLong : Keyword → Value → Prop
  | .required _, _ => False
  | .items schema, v => ∃ items, v = .list items ∧ ∃ item ∈ items, schema.ShowsLong item
  | .properties schemas, v =>
    ∃ entries, v = .mapping entries ∧ Keyword.PropertiesShowLong schemas entries
  | .additionalProperties known schema, v =>
    ∃ entries, v = .mapping entries ∧ schema ≠ .always false ∧
      ∃ e ∈ Schema.textEntries entries, (∀ k ∈ known, ¬k.isText e.1) ∧ schema.ShowsLong e.2
  | .types names, v => ¬Keyword.Allows (.types names) v ∧ v.HoldsLong
  | .minLength n, v => ¬Keyword.Allows (.minLength n) v ∧ v.HoldsLong
  | .minProperties n, v => ¬Keyword.Allows (.minProperties n) v ∧ v.HoldsLong
  | .maxProperties n, v => ¬Keyword.Allows (.maxProperties n) v ∧ v.HoldsLong

/-- The words about the value of one of certain keys do. -/
def Keyword.PropertiesShowLong : List (Value × Schema) → List (Value × Value) → Prop
  | [], _ => False
  | (name, schema) :: rest, entries =>
    (∃ k v, name = .text k ∧ Value.fieldOf? k entries = some v ∧ schema.ShowsLong v) ∨
      Keyword.PropertiesShowLong rest entries

end

namespace Schema

/-! ### Checks that decide -/

/-- **A check decides a property**: it finds no violation exactly if the property holds, and comes
to no list of violations at all exactly if it would show an integer of too many digits. -/
inductive Decides (long p : Prop) : Except DigitLimit (List Violation) → Prop
  | allowed (hp : p) (hlong : ¬long) : Decides long p (.ok [])
  | broken {v : Violation} {rest : List Violation} (hp : ¬p) (hlong : ¬long) :
      Decides long p (.ok (v :: rest))
  | unspoken (hp : ¬p) (hlong : long) : Decides long p (.error ⟨none⟩)

variable {long long' p q : Prop} {check check' : Except DigitLimit (List Violation)}

theorem Decides.congr (h : Decides long p check) (hlong : long ↔ long') (hpq : p ↔ q) :
    Decides long' q check := by
  rwa [← hlong, ← hpq]

theorem decides_some {violations : List Violation} (hne : violations ≠ []) (hp : ¬p) :
    Decides False p (.ok violations) := by
  obtain ⟨v, rest, rfl⟩ := List.exists_cons_of_ne_nil hne
  exact .broken hp not_false

/-- A violation that shows a value. -/
theorem decides_shown {x : Except DigitLimit Text} (h : Shown long x) (f : Text → Violation)
    (hp : ¬p) : Decides long p (x >>= fun shown => pure [f shown]) := by
  cases h with
  | ok h => exact .broken hp h
  | error h => exact .unspoken hp h

/-- A violation that shows the value, if something is wrong. -/
theorem decides_unless {all : List Keyword} {v : Value} {words : Text} {wrong : Prop}
    [Decidable wrong] (hp : ¬wrong ↔ p) :
    Decides (¬p ∧ v.HoldsLong) p (if wrong then about all v words else .ok []) := by
  rw [← hp, Decidable.not_not]
  split
  · next h =>
    exact (decides_shown v.shown_quoted _ (not_not_intro h)).congr (and_iff_right h).symm Iff.rfl
  · next h => exact .allowed h fun hlong => h hlong.1

/-- Violations seen from a value around. -/
theorem Decides.map (h : Decides long p check) (f : Violation → Violation) :
    Decides long p (check >>= fun violations => pure (violations.map f)) := by
  cases h with
  | allowed hp hlong => exact .allowed hp hlong
  | broken hp hlong => exact .broken hp hlong
  | unspoken hp hlong => exact .unspoken hp hlong

/-- **Two checks, one after the other.** -/
theorem Decides.append (h : Decides long p check) (h' : Decides long' q check') :
    Decides (long ∨ long') (p ∧ q)
      (check >>= fun first => check' >>= fun rest => pure (first ++ rest)) := by
  cases h with
  | allowed hp hlong =>
    refine (Decides.congr ?_ (or_iff_right hlong).symm (and_iff_right hp).symm)
    cases h' with
    | allowed hq hlong' => exact .allowed hq hlong'
    | broken hq hlong' => exact .broken hq hlong'
    | unspoken hq hlong' => exact .unspoken hq hlong'
  | broken hp hlong =>
    cases h' with
    | allowed _ hlong' => exact .broken (mt And.left hp) (not_or_intro hlong hlong')
    | broken _ hlong' => exact .broken (mt And.left hp) (not_or_intro hlong hlong')
    | unspoken _ hlong' => exact .unspoken (mt And.left hp) (Or.inr hlong')
  | unspoken hp hlong => exact .unspoken (mt And.left hp) (Or.inl hlong)

/-- **A check of each item of a list.** -/
theorem decides_mapM {α : Type} {l : List α} {f : α → Except DigitLimit (List Violation)}
    {L P : α → Prop} (h : ∀ a ∈ l, Decides (L a) (P a) (f a)) :
    Decides (∃ a ∈ l, L a) (∀ a ∈ l, P a)
      (l.mapM f >>= fun found => pure found.flatten) := by
  induction l with
  | nil => exact .allowed (by simp) (by simp)
  | cons a l ih =>
    rw [List.forall_mem_cons] at h
    have hcons : ((a :: l).mapM f >>= fun found => (pure found.flatten : Except _ _)) =
        f a >>= fun first => (l.mapM f >>= fun found => pure found.flatten) >>= fun rest =>
          pure (first ++ rest) := by
      simp only [List.mapM_cons, bind_assoc, pure_bind, List.flatten_cons]
    rw [hcons]
    exact (h.1.append (ih h.2)).congr (by simp) List.forall_mem_cons.symm

/-- **A rule for values of one kind** allows all others, and its check passes over them. -/
theorem decides_within {κ : Type} {embed : κ → Value} (hinj : Function.Injective embed) {v : Value}
    {L P : κ → Prop} (hkind : ∀ a, v = embed a → Decides (L a) (P a) check)
    (hother : (∀ a, v ≠ embed a) → check = .ok []) :
    Decides (∃ a, v = embed a ∧ L a) (∀ a, v = embed a → P a) check := by
  by_cases h : ∃ a, v = embed a
  · obtain ⟨a, rfl⟩ := h
    refine (hkind a rfl).congr ⟨fun hlong => ⟨a, rfl, hlong⟩, ?_⟩
      ⟨fun hp b hb => hinj hb ▸ hp, fun hall => hall a rfl⟩
    rintro ⟨b, hb, hlong⟩
    exact hinj hb ▸ hlong
  · rw [hother fun a ha => h ⟨a, ha⟩]
    exact .allowed (fun a ha => absurd ⟨a, ha⟩ h) fun ⟨a, ha, _⟩ => h ⟨a, ha⟩

/-- The same for a rule whose words show the value. -/
theorem decides_within_shown {κ : Type} {embed : κ → Value} (hinj : Function.Injective embed)
    {v : Value} {P : κ → Prop}
    (hkind : ∀ a, v = embed a → Decides (¬P a ∧ v.HoldsLong) (P a) check)
    (hother : (∀ a, v ≠ embed a) → check = .ok []) :
    Decides (¬(∀ a, v = embed a → P a) ∧ v.HoldsLong) (∀ a, v = embed a → P a) check := by
  refine (decides_within hinj hkind hother).congr ?_ Iff.rfl
  simp only [Classical.not_forall, exists_prop, ← and_assoc, exists_and_right]

theorem mapping_injective : Function.Injective Value.mapping := fun _ _ => Value.mapping.inj

/-! ### Rules decide what they allow -/

section Rules

-- so that the equations of these recursions are there before the lemmas that rewrite with them
attribute [local simp] Keyword.violations Keyword.Allows Keyword.ShowsLong

variable (all : List Keyword)

theorem decides_types (names : List TypeName) (v : Value) :
    Decides (Keyword.ShowsLong (.types names) v) (Keyword.Allows (.types names) v)
      (Keyword.violations all (.types names) v) := by
  rw [Keyword.ShowsLong, Keyword.violations, Keyword.Allows, ← ite_not]
  exact decides_unless (by simp)

theorem decides_required (names : List Text) (v : Value) :
    Decides (Keyword.ShowsLong (.required names) v) (Keyword.Allows (.required names) v)
      (Keyword.violations all (.required names) v) := by
  rw [Keyword.ShowsLong, Keyword.Allows]
  refine Decides.congr (decides_within mapping_injective (L := fun _ => False)
    (fun entries he => ?_) fun h => ?_) (by simp) Iff.rfl
  · subst he
    rw [Keyword.violations]
    have hmissing : names.filter (fun name => (Value.fieldOf? name entries).isNone) = [] ↔
        ∀ name ∈ names, (Value.fieldOf? name entries).isSome := by
      simp [List.filter_eq_nil_iff, Option.ne_none_iff_isSome]
    by_cases h : ∀ name ∈ names, (Value.fieldOf? name entries).isSome
    · rw [hmissing.mpr h]
      exact .allowed h not_false
    · exact decides_some (mt List.map_eq_nil_iff.mp (mt hmissing.mp h)) h
  · rw [Keyword.violations]
    exact h

theorem decides_minLength (n : Nat) (v : Value) :
    Decides (Keyword.ShowsLong (.minLength n) v) (Keyword.Allows (.minLength n) v)
      (Keyword.violations all (.minLength n) v) := by
  rw [Keyword.ShowsLong, Keyword.Allows]
  refine decides_within_shown (fun _ _ => Value.text.inj) (fun t ht => ?_) fun h => ?_
  · subst ht
    rw [Keyword.violations]
    exact decides_unless Nat.not_lt
  · rw [Keyword.violations]
    exact h

theorem decides_minProperties (n : Nat) (v : Value) :
    Decides (Keyword.ShowsLong (.minProperties n) v) (Keyword.Allows (.minProperties n) v)
      (Keyword.violations all (.minProperties n) v) := by
  rw [Keyword.ShowsLong, Keyword.Allows]
  refine decides_within_shown mapping_injective (fun entries he => ?_) fun h => ?_
  · subst he
    rw [Keyword.violations]
    exact decides_unless Nat.not_lt
  · rw [Keyword.violations]
    exact h

theorem decides_maxProperties (n : Nat) (v : Value) :
    Decides (Keyword.ShowsLong (.maxProperties n) v) (Keyword.Allows (.maxProperties n) v)
      (Keyword.violations all (.maxProperties n) v) := by
  rw [Keyword.ShowsLong, Keyword.Allows]
  refine decides_within_shown mapping_injective (fun entries he => ?_) fun h => ?_
  · subst he
    rw [Keyword.violations]
    exact decides_unless Nat.not_lt
  · rw [Keyword.violations]
    exact h

/-- Each item is checked. -/
theorem decides_eachItem {schema : Schema} (items : List Value)
    (h : ∀ part item,
      Decides (schema.ShowsLong item) (schema.Allows item) (schema.violationsAt part item)) :
    Decides (∃ item ∈ items, schema.ShowsLong item) (∀ item ∈ items, schema.Allows item)
      (items.zipIdx.mapM (fun (item, i) => schema.violationsAt (.index i) item) >>= fun found =>
        pure found.flatten) := by
  have hmem {item : Value} : item ∈ items ↔ ∃ p ∈ items.zipIdx, p.1 = item := by
    rw [← List.mem_map, List.zipIdx_map_fst]
  refine (decides_mapM fun p _ => h (.index p.2) p.1).congr ⟨?_, ?_⟩ ?_
  · rintro ⟨p, hp, hlong⟩
    exact ⟨p.1, hmem.mpr ⟨p, hp, rfl⟩, hlong⟩
  · rintro ⟨item, hitem, hlong⟩
    obtain ⟨p, hp, rfl⟩ := hmem.mp hitem
    exact ⟨p, hp, hlong⟩
  · rw [← List.forall_mem_map (f := Prod.fst), List.zipIdx_map_fst]

theorem not_allows_never (v : Value) : ¬(Schema.always false).Allows v := by
  rw [Schema.Allows]
  decide

theorem showsLong_never_iff {v : Value} : (Schema.always false).ShowsLong v ↔ v.HoldsLong := by
  rw [Schema.ShowsLong]
  exact and_iff_right rfl

/-- That there is an item at all is reported for the whole list. -/
theorem decides_noItem (items : List Value) :
    Decides (∃ item ∈ items, (Schema.always false).ShowsLong item)
      (∀ item ∈ items, (Schema.always false).Allows item)
      (Keyword.violations all (.items (.always false)) (.list items)) := by
  have hnone (item : Value) (rest : List Value) :
      ¬∀ i ∈ item :: rest, (Schema.always false).Allows i := fun hall =>
    not_allows_never item (hall item List.mem_cons_self)
  simp only [showsLong_never_iff]
  match items with
  | [] =>
    rw [Keyword.violations]
    exact .allowed (by simp) (by simp)
  | [item] =>
    rw [Keyword.violations]
    exact (decides_shown item.shown_quoted (fun shown => violation all (.list [item])
      ("Expected at most 0 items but found 1 extra: " ++ shown)) (hnone item [])).congr
        (by simp) Iff.rfl
  | item :: item' :: rest =>
    rw [Keyword.violations]
    · exact (decides_shown (Value.shown_quoted _) _ (hnone item (item' :: rest))).congr
        Value.holdsLong_list_iff Iff.rfl
    · rintro ⟨⟩
    · rintro item ⟨⟩

theorem decides_items {schema : Schema} (v : Value)
    (h : ∀ part item,
      Decides (schema.ShowsLong item) (schema.Allows item) (schema.violationsAt part item)) :
    Decides (Keyword.ShowsLong (.items schema) v) (Keyword.Allows (.items schema) v)
      (Keyword.violations all (.items schema) v) := by
  rw [Keyword.ShowsLong, Keyword.Allows]
  refine decides_within (fun _ _ => Value.list.inj) (fun items hi => ?_) fun hv => ?_
  · subst hi
    by_cases hs : schema = .always false
    · subst hs
      exact decides_noItem all items
    · rw [Keyword.violations]
      · exact decides_eachItem items h
      · exact hs
  · by_cases hs : schema = .always false
    · subst hs
      rw [Keyword.violations]
      · exact hv []
      · exact fun item => hv [item]
      · exact hv
    · rw [Keyword.violations]
      · exact hs
      · exact hv

/-- Values whose keys are not known are checked. -/
theorem decides_unknown (known : List Value) {schema : Schema} (entries : List (Value × Value))
    (h : ∀ part item,
      Decides (schema.ShowsLong item) (schema.Allows item) (schema.violationsAt part item)) :
    Decides
      (schema ≠ .always false ∧
        ∃ e ∈ textEntries entries, (∀ k ∈ known, ¬k.isText e.1) ∧ schema.ShowsLong e.2)
      (∀ e ∈ textEntries entries, (∀ k ∈ known, ¬k.isText e.1) → schema.Allows e.2)
      (Keyword.violations all (.additionalProperties known schema) (.mapping entries)) := by
  generalize hunknown : (textEntries entries).filter
    (fun e => !known.any fun k => k.isText e.1) = unknown
  have hmem (e : Text × Value) :
      e ∈ unknown ↔ e ∈ textEntries entries ∧ ∀ k ∈ known, ¬k.isText e.1 := by
    simp [← hunknown]
  have hlong : (∃ e ∈ textEntries entries, (∀ k ∈ known, ¬k.isText e.1) ∧ schema.ShowsLong e.2) ↔
      ∃ e ∈ unknown, schema.ShowsLong e.2 := by
    simp only [hmem, and_assoc]
  have hallows : (∀ e ∈ textEntries entries, (∀ k ∈ known, ¬k.isText e.1) → schema.Allows e.2) ↔
      ∀ e ∈ unknown, schema.Allows e.2 := by
    simp only [hmem, and_imp]
  rw [hlong, hallows]
  cases schema with
  | always allowed =>
    cases allowed with
    | true =>
      rw [Keyword.violations]
      exact .allowed (by simp [Schema.Allows]) (by simp [Schema.ShowsLong])
    | false =>
      rw [Keyword.violations]
      simp only [hunknown]
      cases unknown with
      | nil => exact .allowed (by simp) (by simp)
      | cons e rest =>
        exact .broken (fun hall => not_allows_never e.2 (hall e List.mem_cons_self)) (by simp)
  | rules keywords =>
    rw [Keyword.violations]
    simp only [hunknown]
    refine (decides_mapM fun e _ => ?_).congr (and_iff_right (by simp)).symm Iff.rfl
    have hrules := h (.key e.1) e.2
    rwa [Schema.violationsAt] at hrules

theorem decides_additionalProperties (known : List Value) {schema : Schema} (v : Value)
    (h : ∀ part item,
      Decides (schema.ShowsLong item) (schema.Allows item) (schema.violationsAt part item)) :
    Decides (Keyword.ShowsLong (.additionalProperties known schema) v)
      (Keyword.Allows (.additionalProperties known schema) v)
      (Keyword.violations all (.additionalProperties known schema) v) := by
  rw [Keyword.ShowsLong, Keyword.Allows]
  refine decides_within mapping_injective (fun entries he => ?_) fun hv => ?_
  · subst he
    exact decides_unknown all known entries h
  · rw [Keyword.violations]
    exact hv

/-- The check of the value of one key. -/
def propertyCheck (entries : List (Value × Value)) (name : Value) (schema : Schema) :
    Except DigitLimit (List Violation) :=
  match name with
  | .text k => match Value.fieldOf? k entries with
    | some v => schema.violationsAt (.key k) v
    | none => .ok []
  | _ => .ok []

theorem propertyViolations_cons (entries : List (Value × Value)) (name : Value) (schema : Schema)
    (rest : List (Value × Schema)) : Keyword.propertyViolations entries ((name, schema) :: rest) =
      propertyCheck entries name schema >>= fun first =>
        Keyword.propertyViolations entries rest >>= fun more => pure (first ++ more) := by
  unfold propertyCheck
  split
  · next k =>
    rw [Keyword.propertyViolations]
    rcases Value.fieldOf? k entries with _ | v
    · rfl
    · rfl
  · next hname =>
    rw [Keyword.propertyViolations]
    exact hname

/-- The value of one key is checked, if there is one. -/
theorem decides_propertyCheck (entries : List (Value × Value)) (name : Value) {schema : Schema}
    (h : ∀ part item,
      Decides (schema.ShowsLong item) (schema.Allows item) (schema.violationsAt part item)) :
    Decides (∃ k v, name = .text k ∧ Value.fieldOf? k entries = some v ∧ schema.ShowsLong v)
      (∀ k v, name = .text k → Value.fieldOf? k entries = some v → schema.Allows v)
      (propertyCheck entries name schema) := by
  unfold propertyCheck
  split
  · next k =>
    split
    · next v hfield =>
      refine (h (.key k) v).congr ⟨fun hlong => ⟨k, v, rfl, hfield, hlong⟩, ?_⟩
        ⟨fun hv k' v' hk hf => ?_, fun hall => hall k v rfl hfield⟩
      · rintro ⟨k', v', hk, hf, hlong⟩
        cases hk
        cases hf.symm.trans hfield
        exact hlong
      · cases hk
        cases hf.symm.trans hfield
        exact hv
    · next hnone =>
      refine .allowed (fun k' v hk hfield => ?_) ?_
      · cases hk
        cases hnone.symm.trans hfield
      · rintro ⟨k', v, hk, hfield, -⟩
        cases hk
        cases hnone.symm.trans hfield
  · next hname =>
    refine .allowed (fun k v hk => absurd hk (hname k)) ?_
    rintro ⟨k, v, hk, -⟩
    exact hname k hk

end Rules

theorem decides_forbidden (v : Value) : Decides ((Schema.always false).ShowsLong v)
    ((Schema.always false).Allows v) (forbidden v) :=
  (decides_shown v.shown_quoted
    (fun shown => ⟨[], "False schema does not allow " ++ shown, false⟩) (not_allows_never v)).congr
      showsLong_never_iff.symm Iff.rfl

theorem decides_always (v : Value) : Decides ((Schema.always true).ShowsLong v)
    ((Schema.always true).Allows v) (.ok []) :=
  .allowed (by rw [Schema.Allows]) (by simp [Schema.ShowsLong])

mutual

/-- **A schema has no violations to report exactly for what it allows**, and can report none
exactly if it would show an integer of too many digits. -/
theorem decides_violations : (s : Schema) → (v : Value) →
    Decides (s.ShowsLong v) (s.Allows v) (s.violations v)
  | .always true, v => by
    rw [Schema.violations]
    exact decides_always v
  | .always false, v => by
    rw [Schema.violations]
    exact decides_forbidden v
  | .rules keywords, v => by
    rw [Schema.violations, Schema.Allows, Schema.ShowsLong]
    exact decides_allViolations keywords keywords v

theorem decides_violationsAt (part : PathPart) : (s : Schema) → (v : Value) →
    Decides (s.ShowsLong v) (s.Allows v) (s.violationsAt part v)
  | .always true, v => by
    rw [Schema.violationsAt]
    exact decides_always v
  | .always false, v => by
    rw [Schema.violationsAt]
    exact decides_forbidden v
  | .rules keywords, v => by
    rw [Schema.violationsAt, Schema.Allows, Schema.ShowsLong]
    exact (decides_allViolations keywords keywords v).map (inside part)

theorem decides_allViolations (all : List Keyword) : (keywords : List Keyword) → (v : Value) →
    Decides (Keyword.AnyShowsLong keywords v) (Keyword.AllAllow keywords v)
      (Keyword.allViolations all keywords v)
  | [], v => by
    rw [Keyword.allViolations, Keyword.AllAllow, Keyword.AnyShowsLong]
    exact .allowed trivial not_false
  | keyword :: rest, v => by
    rw [Keyword.allViolations, Keyword.AllAllow, Keyword.AnyShowsLong]
    exact (decides_rule all keyword v).append (decides_allViolations all rest v)

theorem decides_rule (all : List Keyword) : (keyword : Keyword) → (v : Value) →
    Decides (keyword.ShowsLong v) (keyword.Allows v) (keyword.violations all v)
  | .types names, v => decides_types all names v
  | .required names, v => decides_required all names v
  | .items schema, v => decides_items all v fun part item => decides_violationsAt part schema item
  | .minLength n, v => decides_minLength all n v
  | .minProperties n, v => decides_minProperties all n v
  | .maxProperties n, v => decides_maxProperties all n v
  | .properties schemas, v => by
    rw [Keyword.Allows, Keyword.ShowsLong]
    refine decides_within mapping_injective (fun entries he => ?_) fun hv => ?_
    · subst he
      rw [Keyword.violations]
      exact decides_propertyViolations entries schemas
    · rw [Keyword.violations]
      exact hv
  | .additionalProperties known schema, v =>
    decides_additionalProperties all known v fun part item => decides_violationsAt part schema item

theorem decides_propertyViolations (entries : List (Value × Value)) :
    (schemas : List (Value × Schema)) → Decides (Keyword.PropertiesShowLong schemas entries)
      (Keyword.PropertiesAllow schemas entries) (Keyword.propertyViolations entries schemas)
  | [] => by
    rw [Keyword.propertyViolations, Keyword.PropertiesAllow, Keyword.PropertiesShowLong]
    exact .allowed trivial not_false
  | (name, schema) :: rest => by
    rw [propertyViolations_cons, Keyword.PropertiesAllow, Keyword.PropertiesShowLong]
    exact (decides_propertyCheck entries name fun part item =>
      decides_violationsAt part schema item).append (decides_propertyViolations entries rest)

end

/-! ### Only long integers are ever in the way -/

theorem mem_of_mem_textEntries {entries : List (Value × Value)} {e : Text × Value}
    (h : e ∈ textEntries entries) : ∃ k, (k, e.2) ∈ entries := by
  obtain ⟨⟨k, v⟩, hmem, hk⟩ := List.mem_filterMap.mp h
  obtain ⟨t, -, rfl⟩ := Option.map_eq_some_iff.mp hk
  exact ⟨k, hmem⟩

theorem mem_of_fieldOf? {entries : List (Value × Value)} {k : Text} {v : Value}
    (h : Value.fieldOf? k entries = some v) : ∃ key, (key, v) ∈ entries := by
  obtain ⟨e, he, rfl⟩ := Option.map_eq_some_iff.mp h
  exact ⟨e.1, List.mem_of_find?_eq_some he⟩

mutual

/-- **A value without integers of too many digits** can be checked against any schema. -/
theorem holdsLong_of_showsLong : (s : Schema) → (v : Value) → s.ShowsLong v → v.HoldsLong
  | .always _, v, h => by
    rw [Schema.ShowsLong] at h
    exact h.2
  | .rules keywords, v, h => by
    rw [Schema.ShowsLong] at h
    exact holdsLong_of_anyShowsLong keywords v h

theorem holdsLong_of_anyShowsLong : (keywords : List Keyword) → (v : Value) →
    Keyword.AnyShowsLong keywords v → v.HoldsLong
  | [], v, h => by
    rw [Keyword.AnyShowsLong] at h
    exact h.elim
  | keyword :: rest, v, h => by
    rw [Keyword.AnyShowsLong] at h
    exact h.elim (holdsLong_of_ruleShowsLong keyword v) (holdsLong_of_anyShowsLong rest v)

theorem holdsLong_of_ruleShowsLong : (keyword : Keyword) → (v : Value) →
    keyword.ShowsLong v → v.HoldsLong
  | .required _, v, h => by
    rw [Keyword.ShowsLong] at h
    exact h.elim
  | .items schema, v, h => by
    rw [Keyword.ShowsLong] at h
    obtain ⟨items, rfl, item, hitem, h⟩ := h
    exact .item hitem (holdsLong_of_showsLong schema item h)
  | .properties schemas, v, h => by
    rw [Keyword.ShowsLong] at h
    obtain ⟨entries, rfl, h⟩ := h
    exact holdsLong_of_propertiesShowLong schemas entries h
  | .additionalProperties known schema, v, h => by
    rw [Keyword.ShowsLong] at h
    obtain ⟨entries, rfl, -, e, he, -, h⟩ := h
    obtain ⟨k, hk⟩ := mem_of_mem_textEntries he
    exact .value hk (holdsLong_of_showsLong schema e.2 h)
  | .types _, v, h | .minLength _, v, h | .minProperties _, v, h | .maxProperties _, v, h => by
    rw [Keyword.ShowsLong] at h
    exact h.2

theorem holdsLong_of_propertiesShowLong : (schemas : List (Value × Schema)) →
    (entries : List (Value × Value)) → Keyword.PropertiesShowLong schemas entries →
      (Value.mapping entries).HoldsLong
  | [], entries, h => by
    rw [Keyword.PropertiesShowLong] at h
    exact h.elim
  | (name, schema) :: rest, entries, h => by
    rw [Keyword.PropertiesShowLong] at h
    rcases h with ⟨k, v, -, hfield, h⟩ | h
    · obtain ⟨key, hkey⟩ := mem_of_fieldOf? hfield
      exact .value hkey (holdsLong_of_showsLong schema v h)
    · exact holdsLong_of_propertiesShowLong rest entries h

end

end Schema

end RainMeta
