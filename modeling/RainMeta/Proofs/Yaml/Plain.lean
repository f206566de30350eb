import Mathlib.Data.List.Perm.Subperm
import RainMeta.Proofs.Yaml.Names
import RainMeta.Yaml.Value

/-!
# Plain trees

Trees of nodes that are read as they look (`RainMeta.Yaml.Node.Reads`): collections have the usual
tags, keys are scalars and take over nothing, and what stands behind references ends. Scalars may
be anything. They are listed in the order in which they are read, keys left out and references
followed.

## References

A reference inside the node that it stands for would have no value. That there is none in a plain
tree is an invariant about the names around a node: wherever one of them is given, the node in
question is nested less deeply than the node of that name (`RainMeta.Yaml.Node.Below`). Were a
reference to meet its own name, then there would be an infinite descent. The invariant needs that a
name belongs to one node (`RainMeta.Yaml.Node.nodup_names_of_read`).

It also tells how deep a plain tree can be. Going down, every name is passed at most once, and
between two names there are no more levels than the tree has by itself. So the fuel for a tree is
enough for it, if it is plain (`RainMeta.Yaml.Node.Reads.le_fuel`).
-/

namespace RainMeta.Yaml.Node

/-! ### Shapes -/

/-- **A key is plain** if it is a scalar, whatever its tag, that does not take over entries from
elsewhere. -/
def PlainKey (root k : Node) : Prop :=
  ∃ anchor tag text, k.target root = scalar anchor tag text ∧ tag ≠ .merge

/-- **A plain tree** and its scalars, with their tags, in the order in which they are read. The
collections are nested at most so deep, those behind references included; so no node stands behind a
reference inside itself. -/
inductive Reads (root : Node) : Nat → Node → List (Tag × Text) → Prop
  | scalar {depth : Nat} {anchor : Option Text} {tag : Tag} {text : Text} :
      Reads root depth (scalar anchor tag text) [(tag, text)]
  | sequence {depth : Nat} {anchor : Option Text} {items : List Node}
      {scalars : Node → List (Tag × Text)} (each : ∀ n ∈ items, Reads root depth n (scalars n)) :
      Reads root (depth + 1) (sequence anchor .sequence items) (items.flatMap scalars)
  | mapping {depth : Nat} {anchor : Option Text} {entries : List (Node × Node)}
      {scalars : Node × Node → List (Tag × Text)} (keys : ∀ e ∈ entries, PlainKey root e.1)
      (each : ∀ e ∈ entries, Reads root depth e.2 (scalars e)) :
      Reads root (depth + 1) (mapping anchor .mapping entries) (entries.flatMap scalars)
  | reference {depth : Nat} {name : Text} {n : Node} {scalars : List (Tag × Text)}
      (h : root.named? name = some n) (hn : Reads root depth n scalars) :
      Reads root depth (reference name) scalars

/-- **A tree is plain**, and nested at most so deep. -/
def Plain (root : Node) (depth : Nat) (n : Node) : Prop :=
  ∃ scalars, Reads root depth n scalars

variable {root n : Node} {names : List Text} {scalars : List (Tag × Text)} {depth : Nat}

theorem Reads.mono {depth' : Nat} (h : Reads root depth n scalars) (hle : depth ≤ depth') :
    Reads root depth' n scalars := by
  induction h generalizing depth' with
  | scalar => exact .scalar
  | sequence _ ih =>
    obtain ⟨m, rfl⟩ : ∃ m, depth' = m + 1 := ⟨depth' - 1, by omega⟩
    exact .sequence fun n hn => ih n hn (by omega)
  | mapping keys _ ih =>
    obtain ⟨m, rfl⟩ : ∃ m, depth' = m + 1 := ⟨depth' - 1, by omega⟩
    exact .mapping keys fun e he => ih e he (by omega)
  | reference h _ ih => exact .reference h (ih hle)

theorem plain_of_reference {name : Text} (h : Plain root depth (reference name))
    (hname : root.named? name = some n) : Plain root depth n := by
  obtain ⟨scalars, h⟩ := h
  cases h with
  | reference h hn =>
    rw [hname] at h
    cases h
    exact ⟨_, hn⟩

/-! ### Parts -/

theorem exists_plain_item {anchor : Option Text} {items : List Node} {part : Node}
    (hpart : part ∈ items) (depth : Nat)
    (h : Plain root depth (sequence anchor .sequence items)) :
    ∃ less < depth, Plain root less part := by
  obtain ⟨_, h⟩ := h
  cases h with
  | sequence each => exact ⟨_, Nat.lt_succ_self _, _, each part hpart⟩

theorem exists_plain_value {anchor : Option Text} {entries : List (Node × Node)}
    {e : Node × Node} (he : e ∈ entries) (depth : Nat)
    (h : Plain root depth (mapping anchor .mapping entries)) :
    ∃ less < depth, Plain root less e.2 := by
  obtain ⟨_, h⟩ := h
  cases h with
  | mapping _ each => exact ⟨_, Nat.lt_succ_self _, _, each e he⟩

theorem anchored_item_subset {anchor : Option Text} {tag : Tag} {items : List Node}
    (h : (sequence anchor tag items).anchored ⊆ root.anchored) (hn : n ∈ items) :
    n.anchored ⊆ root.anchored := by
  refine fun e he => h ?_
  rw [anchored_sequence]
  exact List.mem_append_right _ (List.mem_flatMap.mpr ⟨n, hn, he⟩)

theorem anchored_value_subset {anchor : Option Text} {tag : Tag} {entries : List (Node × Node)}
    (h : (mapping anchor tag entries).anchored ⊆ root.anchored) {e : Node × Node}
    (he : e ∈ entries) : e.2.anchored ⊆ root.anchored := by
  refine fun f hf => h ?_
  rw [anchored_mapping]
  exact List.mem_append_right _ (List.mem_flatMap.mpr ⟨e, he, List.mem_append_right _ hf⟩)

/-- A node that bears a name in a tree is the node of that name, if names are given once. -/
theorem named?_of_anchor? (hroot : root.names.Nodup) (hsub : n.anchored ⊆ root.anchored)
    {name : Text} (h : n.anchor? = some name) : root.named? name = some n :=
  (named?_eq_some_iff hroot).mpr (hsub (ownName_subset n (mem_ownName.mpr ⟨h, rfl⟩)))

/-! ### The names around a node -/

/-- **A node is below names** if it is nested less deeply than each node that bears one of them,
however deep that is. -/
def Below (root : Node) (names : List Text) (n : Node) : Prop :=
  ∀ name ∈ names, ∀ m, root.named? name = some m → ∀ depth, Plain root depth m →
    ∃ less < depth, Plain root less n

theorem below_nil (root n : Node) : Below root [] n := by
  intro name hname
  cases hname

/-- What is below a name is not the node of that name, or the depths of the node would descend
without end. -/
theorem Below.not_mem {name : Text} (h : Below root names n) (hname : root.named? name = some n)
    (hn : Plain root depth n) : name ∉ names := by
  intro hmem
  induction depth using Nat.strongRecOn with
  | ind depth ih =>
    obtain ⟨less, hless, hn'⟩ := h name hmem n hname depth hn
    exact ih less hless hn'

/-- What stands behind a reference is below the same names. -/
theorem Below.of_reference {name : Text} (h : Below root names (reference name))
    (hname : root.named? name = some n) : Below root names n := by
  intro a ha m hm depth hdepth
  obtain ⟨less, hless, hreference⟩ := h a ha m hm depth hdepth
  exact ⟨less, hless, plain_of_reference hreference hname⟩

/-- **A part of a node is below its name** and below those around it. -/
theorem Below.part (h : Below root names n) (hroot : root.names.Nodup)
    (hsub : n.anchored ⊆ root.anchored) {part : Node}
    (hpart : ∀ depth, Plain root depth n → ∃ less < depth, Plain root less part) :
    Below root (n.anchor?.toList ++ names) part := by
  intro name hmem m hm depth hdepth
  rcases List.mem_append.mp hmem with hown | hmem
  · -- the name belongs to this node alone
    rw [named?_of_anchor? hroot hsub (Option.mem_toList.mp hown)] at hm
    cases hm
    exact hpart depth hdepth
  · obtain ⟨less, hless, hn⟩ := h name hmem m hm depth hdepth
    obtain ⟨less', hless', hpart⟩ := hpart less hn
    exact ⟨less', by omega, hpart⟩

/-! ### How deep a plain tree is -/

theorem height_le_of_mem_items {items : List Node} (h : n ∈ items) :
    n.height ≤ itemsHeight items := by
  induction items with
  | nil => cases h
  | cons m rest ih =>
    rw [itemsHeight]
    rcases List.mem_cons.mp h with rfl | h
    · exact Nat.le_max_left _ _
    · exact Nat.le_trans (ih h) (Nat.le_max_right _ _)

theorem height_le_of_mem_entries {entries : List (Node × Node)} {e : Node × Node}
    (h : e ∈ entries) :
    e.1.height ≤ entriesHeight entries ∧ e.2.height ≤ entriesHeight entries := by
  induction entries with
  | nil => cases h
  | cons f rest ih =>
    obtain ⟨k, v⟩ := f
    rw [entriesHeight]
    rcases List.mem_cons.mp h with rfl | h
    · dsimp only
      omega
    · have := ih h
      omega

/-- What stands in a tree is no higher than the tree. -/
theorem height_le_of_mem_anchored {name : Text} (h : (name, n) ∈ root.anchored) :
    n.height ≤ root.height := by
  have own : ∀ {m : Node}, (name, n) ∈ m.ownName → n.height ≤ m.height := by
    intro m hown
    exact Nat.le_of_eq (congrArg height (mem_ownName.mp hown).2)
  induction root using Node.induction with
  | hscalar anchor tag text => exact own (anchored_scalar anchor tag text ▸ h)
  | hsequence anchor tag items ih =>
    rw [anchored_sequence, List.mem_append] at h
    rcases h with h | h
    · exact own h
    · obtain ⟨m, hm, h⟩ := List.mem_flatMap.mp h
      have hle := height_le_of_mem_items hm
      have hpart := ih m hm h
      rw [height]
      omega
  | hmapping anchor tag entries ih =>
    rw [anchored_mapping, List.mem_append] at h
    rcases h with h | h
    · exact own h
    · obtain ⟨e, he, h⟩ := List.mem_flatMap.mp h
      have hle := height_le_of_mem_entries he
      rw [height]
      rcases List.mem_append.mp h with h | h
      · have hpart := (ih e he).1 h
        omega
      · have hpart := (ih e he).2 h
        omega
  | hreference name => cases anchored_reference name ▸ h

/-- The names that are left for the parts of a node. -/
def namesLeft (root : Node) (names : List Text) (n : Node) : Nat :=
  root.names.length - (n.anchor?.toList ++ names).length

theorem namesLeft_le_of_append {part : Node} :
    namesLeft root (n.anchor?.toList ++ names) part ≤ namesLeft root names n := by
  simp only [namesLeft, List.length_append]
  omega

/-- The names around the parts of a plain node are different ones of the tree. -/
theorem Reads.names_inside (hroot : root.names.Nodup) (h : Reads root depth n scalars)
    (hsub : n.anchored ⊆ root.anchored) (hbelow : Below root names n) (hnodup : names.Nodup)
    (hnames : names ⊆ root.names) :
    (n.anchor?.toList ++ names).Nodup ∧ n.anchor?.toList ++ names ⊆ root.names := by
  rcases hanchor : n.anchor? with _ | name
  · exact ⟨hnodup, hnames⟩
  · have hname := named?_of_anchor? hroot hsub hanchor
    have hmem : name ∈ root.names := List.mem_map.mpr ⟨_, (named?_eq_some_iff hroot).mp hname, rfl⟩
    exact ⟨List.nodup_cons.mpr ⟨hbelow.not_mem hname ⟨_, h⟩, hnodup⟩,
      List.cons_subset.mpr ⟨hmem, hnames⟩⟩

/-- **A plain tree is no deeper** than its height, and again the height of the whole tree for each
name that is left. -/
theorem Reads.le_levels (hroot : root.names.Nodup) (h : Reads root depth n scalars)
    (hsub : n.anchored ⊆ root.anchored) (hbelow : Below root names n) (hnodup : names.Nodup)
    (hnames : names ⊆ root.names) :
    Reads root (namesLeft root names n * (root.height + 1) + n.height) n scalars := by
  induction h generalizing names with
  | scalar => exact .scalar
  | @sequence depth anchor items scalars each ih =>
    obtain ⟨hnodup, hnames⟩ := (Reads.sequence each).names_inside hroot hsub hbelow hnodup hnames
    rw [height]
    refine .sequence fun part hpart => (ih part hpart (anchored_item_subset hsub hpart)
      (hbelow.part hroot hsub (exists_plain_item hpart)) hnodup hnames).mono ?_
    exact Nat.add_le_add (Nat.mul_le_mul_right _ namesLeft_le_of_append)
      (height_le_of_mem_items hpart)
  | @mapping depth anchor entries scalars keys each ih =>
    obtain ⟨hnodup, hnames⟩ :=
      (Reads.mapping keys each).names_inside hroot hsub hbelow hnodup hnames
    rw [height]
    refine .mapping keys fun e he => (ih e he (anchored_value_subset hsub he)
      (hbelow.part hroot hsub (exists_plain_value he)) hnodup hnames).mono ?_
    exact Nat.add_le_add (Nat.mul_le_mul_right _ namesLeft_le_of_append)
      (height_le_of_mem_entries he).2
  | @reference depth name m scalars hname hm ih =>
    -- the name is one of those that are left, and is left no more inside its node
    have hmem := (named?_eq_some_iff hroot).mp hname
    obtain ⟨hanchor, hsub⟩ := of_mem_anchored hmem
    have hbelow := hbelow.of_reference hname
    obtain ⟨hnodup', hnames'⟩ := hm.names_inside hroot hsub hbelow hnodup hnames
    have hlength := (hnodup'.subperm hnames').length_le
    refine .reference hname ((ih hsub hbelow hnodup hnames).mono ?_)
    have hheight := height_le_of_mem_anchored hmem
    rw [hanchor] at hlength
    obtain ⟨left, hleft⟩ : ∃ left, root.names.length = names.length + (left + 1) :=
      ⟨root.names.length - names.length - 1, by simp at hlength; omega⟩
    have hm : namesLeft root names m = left := by simp [namesLeft, hanchor]; omega
    have hr : namesLeft root names (.reference name) = left + 1 := by
      simp [namesLeft, anchor?]
      omega
    rw [hm, hr, Nat.succ_mul]
    omega

/-- **The fuel for a tree is enough**, if it is plain. -/
theorem Reads.le_fuel (hroot : root.names.Nodup) (h : Reads root depth root scalars) :
    ∃ depth, Reads root depth root scalars ∧ depth + 2 ≤ root.fuel := by
  refine ⟨_, h.le_levels hroot (List.Subset.refl _) (below_nil root root) List.nodup_nil
    (List.nil_subset _), ?_⟩
  have hleft : namesLeft root [] root ≤ root.anchored.length := by
    simp only [namesLeft, names, List.length_map]
    omega
  have hlevels := Nat.mul_le_mul_right (root.height + 1) hleft
  have hlast := Nat.add_one_mul root.anchored.length (root.height + 1)
  rw [fuel]
  omega

end RainMeta.Yaml.Node
