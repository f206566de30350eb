import Mathlib.Data.Option.Basic
import RainMeta.Proofs.Document.Objects
import RainMeta.Proofs.GoesBy
import RainMeta.Proofs.Run.Steady
import RainMeta.Proofs.Table
import RainMeta.Proofs.Yaml.Plain

/-!
# Keys of mappings as they are written

Read as written, a mapping has the texts of its keys for keys, whatever tags these have: `0x10` and
`16` are two keys, though they are one number. This is said for plain trees. A relation tells which
value stands for such a tree (`RainMeta.Yaml.Node.Stands`); in it the dictionary of a mapping has
the texts of the keys in the order in which they are written first, and each of them has the value
of the last entry in which it is written.

The value of a plain tree goes by its scalars (`RainMeta.Yaml.Node.value_goesBy`): if all of them
have values, then there is a value that stands for the tree, and else the fault is that of the
first scalar without a value. What values scalars have is left open. Only a tree that is filled
later, which is a sequence, may have its faults met in another order.
-/

namespace RainMeta

theorem forall_of_forall₂ {α β : Type} {R : α → β → Prop} {P : β → Prop} {as : List α}
    {bs : List β} (h : List.Forall₂ R as bs) (hP : ∀ a b, R a b → P b) : ∀ b ∈ bs, P b := by
  induction h with
  | nil => exact List.forall_mem_nil _
  | cons hab _ ih => exact List.forall_mem_cons.mpr ⟨hP _ _ hab, ih⟩

theorem Table.lastValue_cons {κ ν : Type} [DecidableEq κ] (k : κ) (e : κ × ν) (l : List (κ × ν)) :
    lastValue k (e :: l) = (lastValue k l).or (if e.1 = k then some e.2 else none) := by
  by_cases h : e.1 = k
  · simp only [lastValue, List.filter_cons, h, decide_true, if_true, List.getLast?_cons]
    generalize (List.filter _ l).getLast? = last
    cases last with
    | none => rfl
    | some f => rfl
  · simp [lastValue, h]

/-- Entries that correspond one by one have corresponding last values. -/
theorem Table.rel_lastValue {κ μ ν : Type} [DecidableEq κ] {R : μ → ν → Prop}
    {l : List (κ × μ)} {l' : List (κ × ν)}
    (h : List.Forall₂ (fun e f => f.1 = e.1 ∧ R e.2 f.2) l l') (k : κ) :
    Option.Rel R (lastValue k l) (lastValue k l') := by
  induction h with
  | nil => exact .none
  | @cons e f l l' hef _ ih =>
    rw [lastValue_cons, lastValue_cons, hef.1]
    generalize lastValue k l = last at ih
    generalize lastValue k l' = last' at ih
    cases ih with
    | some hrest => exact .some hrest
    | none =>
      split
      · exact .some hef.2
      · exact .none

theorem Table.keys_of_forall₂ {κ μ ν : Type} {R : κ × μ → κ × ν → Prop} {l : List (κ × μ)}
    {l' : List (κ × ν)} (h : List.Forall₂ (fun e f => f.1 = e.1 ∧ R e f) l l') :
    l'.map Prod.fst = l.map Prod.fst := by
  induction h with
  | nil => rfl
  | cons hef _ ih => rw [List.map_cons, List.map_cons, hef.1, ih]

theorem Except.mapM_of_forall {ε α β : Type} {f : α → Except ε β} {g : α → β} {l : List α}
    (h : ∀ a ∈ l, f a = .ok (g a)) : l.mapM f = .ok (l.map g) := by
  rw [mapM_eq_ok_iff, List.forall₂_map_right_iff, List.forall₂_same]
  exact h

/-- **A value without parts**, as scalars have them: no list, and no mapping but the empty one. -/
structure Value.IsLeaf (v : Value) : Prop where
  ne_list : ∀ items, v ≠ .list items
  eq_nil : ∀ entries, v = .mapping entries → entries = []

namespace Yaml

/-- The value of a scalar that stands alone, given by its tag and its text. The empty text under
the tag of mappings is an empty mapping. -/
def loadScalar (valueOf : Tag → Text → Except Error Value) (s : Tag × Text) : Except Error Value :=
  match s.1 with
  | .mapping => if s.2.isEmpty then .ok (.mapping []) else .error (.value .entries)
  | .sequence | .set | .orderedMapping | .pairs => .error .malformed
  | tag => valueOf tag s.2

namespace Node

/-! ### Keys and members -/

/-- The text of a key: the one that is written, also behind a reference. -/
def keyText (root k : Node) : Text :=
  match k.target root with
  | scalar _ _ text => text
  | _ => []

/-- The entries of a mapping, under the texts of their keys. -/
def written (root : Node) (entries : List (Node × Node)) : List (Text × Node) :=
  entries.map fun e => (keyText root e.1, e.2)

/-- The node in the last entry with a key. -/
def lastMember (root : Node) (entries : List (Node × Node)) (k : Text) : Node :=
  (Table.lastValue k (written root entries)).getD blank

/-- A key that is written has the node in one of the entries. -/
theorem exists_lastMember {root : Node} {entries : List (Node × Node)} {k : Text}
    (h : k ∈ (written root entries).map Prod.fst) :
    ∃ e ∈ entries, lastMember root entries k = e.2 := by
  obtain ⟨n, hlast⟩ := Table.exists_lastValue h
  obtain ⟨e, he, heq⟩ := List.mem_map.mp (Table.mem_of_lastValue hlast)
  exact ⟨e, he, by rw [lastMember, hlast, Option.getD_some, (Prod.mk.inj heq).2]⟩

/-- The entries of a node under the texts of their keys. Only a mapping has some. -/
def members (root n : Node) : List (Text × Node) :=
  match n.target root with
  | mapping _ _ entries => written root entries
  | _ => []

/-- **A value stands for a tree** if the value of every scalar is there, with something else in
place of its texts, as `leaf` says; if sequences are lists; and if mappings are dictionaries. The
keys of a dictionary are the texts of the keys as they are written, in the order of their first
entries, and each has what stands for the node in its last entry. -/
inductive Stands (valueOf : Tag → Text → Except Error Value) (leaf : Text → Text → Prop)
    (root : Node) : Node → Value → Prop
  | text {anchor : Option Text} {tag : Tag} {text t u : Text}
      (h : loadScalar valueOf (tag, text) = .ok (.text t)) (hu : leaf t u) :
      Stands valueOf leaf root (scalar anchor tag text) (.text u)
  | other {anchor : Option Text} {tag : Tag} {text : Text} {v : Value}
      (h : loadScalar valueOf (tag, text) = .ok v) (hv : ∀ t, v ≠ .text t) :
      Stands valueOf leaf root (scalar anchor tag text) v
  | list {anchor : Option Text} {items : List Node} {values : List Value}
      (each : List.Forall₂ (Stands valueOf leaf root) items values) :
      Stands valueOf leaf root (sequence anchor .sequence items) (.list values)
  | dictionary {anchor : Option Text} {entries : List (Node × Node)} {fields : List (Text × Value)}
      (keys : fields.map Prod.fst = ((written root entries).map Prod.fst).eraseDups)
      (each : ∀ f ∈ fields, Stands valueOf leaf root (lastMember root entries f.1) f.2) :
      Stands valueOf leaf root (mapping anchor .mapping entries) (.object fields)
  | reference {name : Text} {n : Node} {v : Value} (h : root.named? name = some n)
      (hn : Stands valueOf leaf root n v) : Stands valueOf leaf root (reference name) v

variable {valueOf : Tag → Text → Except Error Value} {root n : Node} {around : List Enclosing}
  {scalars : List (Tag × Text)} {depth fuel : Nat}

/-! ### Entries -/

theorem isMerge_of_plainKey {e : Node × Node} (h : PlainKey root e.1) : isMerge root e = false := by
  obtain ⟨anchor, tag, text, htarget, htag⟩ := h
  simp [isMerge, targetTag, htarget, Node.tag, htag]

/-- Where no key takes over entries, a mapping has its own. -/
theorem flattened_of_plain {entries : List (Node × Node)}
    (h : ∀ e ∈ entries, PlainKey root e.1) (around : List Enclosing) (fuel : Nat)
    (merging : List Text) : flattened root around (fuel + 1) merging entries = .ok entries := by
  have hnone : ∀ takenFrom : Node → Except Error (List (Node × Node)),
      entries.mapM (takenBy root takenFrom) = .ok (entries.map fun _ => []) := fun takenFrom =>
    Except.mapM_of_forall fun e he => by rw [takenBy, isMerge_of_plainKey (h e he)]; rfl
  have hnil : (entries.map fun _ => ([] : List (Node × Node))).flatten = [] := by simp
  have hall : ownEntries root entries = entries :=
    List.filter_eq_self.mpr fun e he => by rw [isMerge_of_plainKey (h e he)]; rfl
  rw [flattened, hnone, hall]
  exact congrArg Except.ok (by rw [hnil, List.nil_append])

/-- A key and a value, if the value is there. -/
def readMember (root : Node) (value : Node → Except Error Value) (e : Node × Node) :
    Except Error (Text × Value) :=
  (value e.2).map (Prod.mk (keyText root e.1))

/-- **The entries of a mapping** are set under the texts of their keys, one after another. -/
theorem entriesAsWritten_of_plain {entries : List (Node × Node)}
    (h : ∀ e ∈ entries, PlainKey root e.1) (value : Node → Except Error Value) :
    entriesAsWritten root value entries = (entries.mapM (readMember root value)).map fun pairs =>
      Value.entriesOfFields (Table.setAll pairs).entries := by
  have hset : ∀ (entries : List (Node × Node)) (known : Table Text Value),
      (∀ e ∈ entries, PlainKey root e.1) →
      entries.foldlM (fun found e => do
          let key ← keyAsWritten root value e.1
          let v ← value e.2
          if key.isKey then return Value.setKey key v found
          else throw (.kind ("unhashable type: '" ++ key.kind ++ "'")))
            (Value.entriesOfFields known.entries) =
        (entries.mapM (readMember root value)).map fun pairs => Value.entriesOfFields
          (pairs.foldl (fun t e => t.set e.1 e.2) known).entries := by
    intro entries
    induction entries with
    | nil => exact fun known _ => rfl
    | cons e rest ih =>
      intro known h
      rw [List.forall_mem_cons] at h
      obtain ⟨anchor, tag, text, htarget, -⟩ := h.1
      have hkey : keyText root e.1 = text := by rw [keyText, htarget]
      rw [List.foldlM_cons, List.mapM_cons, readMember, hkey, keyAsWritten, htarget]
      rcases value e.2 with fault | v
      · rfl
      have hrest := ih (known.set text v) h.2
      simp only [Table.set, ← Value.setKey_entriesOfFields] at hrest
      refine Eq.trans hrest ?_
      rcases rest.mapM (readMember root value) with fault | pairs
      · rfl
      · rfl
  exact hset entries .empty h

/-! ### Values -/

theorem names_insideOf (n : Node) (pending : Bool) (around : List Enclosing) :
    (insideOf n pending around).map Enclosing.name =
      n.anchor?.toList ++ around.map Enclosing.name := by
  rw [insideOf, List.map_append]
  cases n.anchor? <;> rfl

/-- A reference that is not inside what it stands for has the value of that. -/
theorem value_reference {style : KeyStyle} {inside : Bool} {name : Text}
    (hname : root.named? name = some n) (hn : n.anchor? = some name)
    (haround : around.find? (fun a => a.name == name) = none) :
    value valueOf root style (fuel + 1) around inside (reference name) =
      value valueOf root style (fuel + 1) around inside n := by
  have htarget : (reference name).target root = n := by rw [target, hname]; rfl
  have hself : n.target root = n ∧ enclosing? around n = none := by
    cases n with
    | reference name' => cases hn
    | _ => exact ⟨rfl, rfl⟩
  rw [value, value, enclosing?, haround, htarget, hself.1, hself.2]

theorem value_scalar {anchor : Option Text} {tag : Tag} {text : Text} {inside : Bool} :
    value valueOf root .asWritten (fuel + 2) around inside (scalar anchor tag text) =
      loadScalar valueOf (tag, text) := by
  cases tag <;> rfl

theorem value_sequence {anchor : Option Text} {items : List Node} {inside : Bool} :
    value valueOf root .asWritten (fuel + 1) around inside (sequence anchor .sequence items) =
      (items.mapM (value valueOf root .asWritten fuel
        (insideOf (sequence anchor .sequence items) inside around) inside)).map .list := rfl

/-- A mapping with plain keys is read entry by entry, and what is read is set under their texts. -/
theorem value_mapping {anchor : Option Text} {entries : List (Node × Node)} {inside : Bool}
    (h : ∀ e ∈ entries, PlainKey root e.1) :
    value valueOf root .asWritten (fuel + 1) around inside (mapping anchor .mapping entries) =
      (entries.mapM (readMember root (value valueOf root .asWritten fuel
        (insideOf (mapping anchor .mapping entries) true around) true))).map fun pairs =>
          .object (Table.setAll pairs).entries := by
  change ((flattened root around (fuel + 1) _ entries).bind fun own =>
      (entriesAsWritten root (value valueOf root .asWritten fuel
          (insideOf (mapping anchor .mapping entries) true around) true) own).bind fun found =>
        .ok (Value.mapping found)) = _
  rw [flattened_of_plain h, Except.bind, entriesAsWritten_of_plain h]
  generalize entries.mapM (readMember root _) = pairs
  cases pairs with
  | error e => rfl
  | ok pairs => rfl

/-- What the entries of a mapping are read as, one by one. -/
def Members (root : Node) (P : Node → Value → Prop) (entries : List (Node × Node))
    (pairs : List (Text × Value)) : Prop :=
  List.Forall₂ (fun e f => f.1 = e.1 ∧ P e.2 f.2) (written root entries) pairs

/-- A field of the dictionary is read from the last entry with its key. -/
theorem Members.of_mem {P : Node → Value → Prop} {entries : List (Node × Node)}
    {pairs : List (Text × Value)} (h : Members root P entries pairs) {f : Text × Value}
    (hf : f ∈ (Table.setAll pairs).entries) : P (lastMember root entries f.1) f.2 := by
  have hfind : (Table.setAll pairs).find? f.1 = some f.2 :=
    (Entries.find?_eq_some_iff (Table.setAll pairs).nodup_keys).mpr hf
  rw [Table.find?_setAll] at hfind
  have hlast := Table.rel_lastValue h f.1
  rw [hfind] at hlast
  rw [lastMember]
  generalize Table.lastValue f.1 (written root entries) = last at hlast ⊢
  cases hlast with
  | some hmember => exact hmember

/-- The dictionary has the texts of the keys, in the order of their first entries. -/
theorem Members.keys {P : Node → Value → Prop} {entries : List (Node × Node)}
    {pairs : List (Text × Value)} (h : Members root P entries pairs) :
    (Table.setAll pairs).entries.map Prod.fst =
      ((written root entries).map Prod.fst).eraseDups := by
  exact (Table.keys_setAll pairs).trans (congrArg List.eraseDups (Table.keys_of_forall₂ h))

/-- What stands for a scalar is its value. -/
theorem goesBy_scalar {anchor : Option Text} {tag : Tag} {text : Text} :
    GoesBy (loadScalar valueOf) [(tag, text)] (Stands valueOf (· = ·) root (scalar anchor tag text))
      (loadScalar valueOf (tag, text)) := by
  refine (GoesBy.single (loadScalar valueOf) (tag, text)).imp fun v h => ?_
  by_cases htext : ∃ t, v = .text t
  · obtain ⟨t, rfl⟩ := htext
    exact .text h rfl
  · exact .other h (not_exists.mp htext)

theorem goesBy_readMember {value : Node → Except Error Value} {e : Node × Node}
    (h : GoesBy (loadScalar valueOf) scalars (Stands valueOf (· = ·) root e.2) (value e.2)) :
    GoesBy (loadScalar valueOf) scalars
      (fun f => f.1 = keyText root e.1 ∧ Stands valueOf (· = ·) root e.2 f.2)
      (readMember root value e) :=
  h.map fun _ hv => ⟨rfl, hv⟩

/-- **The value of a plain node** goes by its scalars, and stands for it. -/
theorem value_goesBy (hroot : root.names.Nodup) (h : Reads root depth n scalars)
    (hsub : n.anchored ⊆ root.anchored) (hbelow : Below root (around.map Enclosing.name) n)
    (hfuel : depth + 2 ≤ fuel) (inside : Bool) :
    GoesBy (loadScalar valueOf) scalars (Stands valueOf (· = ·) root n)
      (value valueOf root .asWritten fuel around inside n) := by
  induction h generalizing around fuel inside with
  | scalar =>
    obtain ⟨fuel, rfl⟩ : ∃ k, fuel = k + 2 := ⟨fuel - 2, by omega⟩
    rw [value_scalar]
    exact goesBy_scalar
  | @sequence depth anchor items scalars each ih =>
    obtain ⟨fuel, rfl⟩ : ∃ k, fuel = k + 1 := ⟨fuel - 1, by omega⟩
    rw [value_sequence]
    have hitems := GoesBy.mapM (List.forall₂_same.mpr fun part hpart => ih part hpart
      (anchored_item_subset hsub hpart)
      (names_insideOf _ inside around ▸ hbelow.part hroot hsub (exists_plain_item hpart))
      (by omega : depth + 2 ≤ fuel) inside)
    exact hitems.map fun values => .list
  | @mapping depth anchor entries scalars keys each ih =>
    obtain ⟨fuel, rfl⟩ : ∃ k, fuel = k + 1 := ⟨fuel - 1, by omega⟩
    rw [value_mapping keys]
    have hmembers := GoesBy.mapM (List.forall₂_same.mpr fun e he => goesBy_readMember (ih e he
      (anchored_value_subset hsub he)
      (names_insideOf _ true around ▸ hbelow.part hroot hsub (exists_plain_value he))
      (by omega : depth + 2 ≤ fuel) true))
    refine hmembers.map fun pairs hpairs => ?_
    have hpairs : Members root (Stands valueOf (· = ·) root) entries pairs :=
      List.forall₂_map_left_iff.mpr hpairs
    exact .dictionary hpairs.keys fun f hf => hpairs.of_mem hf
  | @reference depth name m scalars hname hm ih =>
    obtain ⟨hanchor, hsub⟩ := of_mem_anchored ((named?_eq_some_iff hroot).mp hname)
    have hbelow := hbelow.of_reference hname
    have hfresh := hbelow.not_mem hname ⟨_, hm⟩
    obtain ⟨fuel, rfl⟩ : ∃ k, fuel = k + 1 := ⟨fuel - 1, by omega⟩
    have hfind : around.find? (fun a => a.name == name) = none := by
      rw [List.find?_eq_none]
      intro a ha heq
      exact hfresh (List.mem_map.mpr ⟨a, ha, by simpa using heq⟩)
    rw [value_reference hname hanchor hfind]
    exact (ih hsub hbelow hfuel inside).imp fun v hv => .reference hname hv

/-! ### Trees -/

/-- **The value of a plain tree** stands for it, if all scalars have values. Unless the tree is
filled later, its value goes by the scalars. -/
theorem construct_of_reads (hroot : root.names.Nodup) (h : Reads root depth root scalars) :
    (isDeferred .asWritten root.tag = false → GoesBy (loadScalar valueOf) scalars
      (Stands valueOf (· = ·) root root) (construct valueOf root .asWritten)) ∧
    ((∀ s ∈ scalars, ∃ v, loadScalar valueOf s = .ok v) →
      ∃ v, construct valueOf root .asWritten = .ok v ∧ Stands valueOf (· = ·) root root v) := by
  obtain ⟨depth, h, hfuel⟩ := h.le_fuel hroot
  have hvalue : GoesBy (loadScalar valueOf) scalars (Stands valueOf (· = ·) root root)
      (value valueOf root .asWritten root.fuel [] false root) :=
    @value_goesBy valueOf root root [] _ _ _ hroot h (List.Subset.refl _) (below_nil root root)
      hfuel false
  rw [construct]
  generalize value valueOf root .asWritten root.fuel [] false root = result at hvalue
  refine ⟨fun hlater => ?_, fun hmade => ?_⟩
  · rw [hlater]
    cases hvalue with
    | ok hmade hv => exact .ok hmade hv
    | error hmade => exact .error hmade
  · obtain ⟨v, rfl, hv⟩ := hvalue.exists_ok hmade
    exact ⟨v, rfl, hv⟩

end Node

end Yaml

end RainMeta
