import RainMeta.FileTree

/-!
# Bounds in a file tree

No directory has more entries than the tree has nodes, and only paths up to a certain length
can be listed. Both bound how long a walk through the directories of a tree can be.

* `Node.count`: the number of nodes.
* `FileTree.length_list_le`: a listing is no longer than the number of nodes.
* `Path.size`: a length of paths that grows with every name.
* `FileTree.size_le_of_list`: a path that can be listed is at most `4096` long.
-/

namespace RainMeta

/-! ### The number of entries -/

namespace Node

mutual

/-- The number of nodes, the node itself and all below it. -/
def count : Node → Nat
  | .file _ => 1
  | .link _ => 1
  | .directory entries => 1 + countEntries entries

/-- The number of nodes of all entries. -/
def countEntries : List (Bytes × Node) → Nat
  | [] => 0
  | (_, node) :: rest => node.count + countEntries rest

end

theorem one_le_count (node : Node) : 1 ≤ node.count := by
  cases node <;> simp [count]

theorem length_le_countEntries (entries : List (Bytes × Node)) :
    entries.length ≤ countEntries entries := by
  induction entries with
  | nil => simp [countEntries]
  | cons e rest ih =>
    have := one_le_count e.2
    simp only [countEntries, List.length_cons]
    omega

theorem count_le_of_named? {name : Bytes} {entries : List (Bytes × Node)} {node : Node}
    (h : named? name entries = some node) : node.count ≤ countEntries entries := by
  induction entries with
  | nil => simp [named?] at h
  | cons e rest ih =>
    simp only [named?, List.find?_cons] at h
    simp only [countEntries]
    split at h
    · simp only [Option.map_some, Option.some.injEq] at h
      subst h
      omega
    · have := ih h
      omega

theorem count_le_of_at? {location : Location} {root node : Node}
    (h : at? location root = some node) : node.count ≤ root.count := by
  induction location generalizing root with
  | nil =>
    simp only [at?, Option.some.injEq] at h
    subst h
    exact Nat.le_refl _
  | cons name rest ih =>
    cases root with
    | file _ => simp [at?] at h
    | link _ => simp [at?] at h
    | directory entries =>
      simp only [at?, Option.bind_eq_some_iff] at h
      obtain ⟨next, h₁, h₂⟩ := h
      have := ih h₂
      have := count_le_of_named? h₁
      simp only [count]
      omega

end Node

namespace FileTree

theorem count_le_of_find {t : FileTree} {path : Text} {node : Node} (h : t.find path = .ok node) :
    node.count ≤ t.root.count := by
  unfold find at h
  cases hs : t.spot path with
  | error e => simp [hs, bind, Except.bind] at h
  | ok s =>
    cases s with
    | vacant l => simp [hs, bind, Except.bind] at h
    | node l =>
      simp only [hs, bind, Except.bind] at h
      split at h
      · simp at h
      · next n hn =>
        simp only [Except.ok.injEq] at h
        exact h ▸ Node.count_le_of_at? hn

/-- A listing has no more entries than the tree has nodes. -/
theorem length_list_le {t : FileTree} {path : Text} {entries : List (Bytes × Node)}
    (h : t.list path = .ok entries) : entries.length ≤ t.root.count := by
  unfold list at h
  cases hf : t.find path with
  | error e => simp [hf, bind, Except.bind] at h
  | ok node =>
    cases node with
    | file _ => simp [hf, bind, Except.bind] at h
    | link _ => simp [hf, bind, Except.bind] at h
    | directory es =>
      simp only [hf, bind, Except.bind, Except.ok.injEq] at h
      subst h
      have h₁ := count_le_of_find hf
      have h₂ := Node.length_le_countEntries es
      simp only [Node.count] at h₁
      omega

end FileTree

/-! ### The length of paths -/

theorem Utf8.length_encodeOneEscaped_pos (c : CodePoint) : 1 ≤ (encodeOneEscaped c).length := by
  unfold encodeOneEscaped encodeOne
  split
  · simp
  · simp only
    split
    · simp
    · split
      · simp
      · split <;> simp

theorem Utf8.length_le_length_flatMap (t : Text) :
    t.length ≤ (t.flatMap encodeOneEscaped).length := by
  induction t with
  | nil => simp
  | cons c t ih =>
    have := length_encodeOneEscaped_pos c
    simp only [List.length_cons, List.flatMap_cons, List.length_append]
    omega

/-- A name has at least as many bytes as code points. -/
theorem Utf8.length_le_of_encodeEscaped {t : Text} {b : Bytes} (h : encodeEscaped t = .ok b) :
    t.length ≤ b.length := by
  unfold encodeEscaped at h
  split at h
  · simp at h
  · simp only [Except.ok.injEq] at h
    exact h ▸ length_le_length_flatMap t

namespace Path

/-- A length of paths: one for every name and one for every code point in it. -/
def size (p : Path) : Nat :=
  p.names.flatten.length + p.names.length

/-- An entry of a directory has a longer path. -/
theorem size_child (p : Path) (name : Text) : (p.child name).size = p.size + (name.length + 1) := by
  simp only [size, child, List.flatten_append, List.flatten_singleton, List.length_append,
    List.length_singleton]
  omega

theorem le_length_join (names : List Text) :
    names.flatten.length + names.length ≤ (Text.join [slash] names).length + 1 := by
  induction names with
  | nil => simp
  | cons n rest ih =>
    cases rest with
    | nil => simp [Text.join]
    | cons m rest =>
      simp only [Text.join, List.intersperse_cons_cons, List.flatten_cons, List.length_append,
        List.length_cons] at ih ⊢
      omega

/-- The written path is about as long as the path. -/
theorem size_le_length_text (p : Path) : p.size ≤ p.text.length + 1 := by
  have h := le_length_join p.names
  unfold text size
  split
  · next hn => simp [hn]
  · simp only [List.length_append]
    omega

end Path

/-- A path that can be listed is not too long. -/
theorem FileTree.size_le_of_list {t : FileTree} {p : Path} {entries : List (Bytes × Node)}
    (h : t.list p.text = .ok entries) : p.size ≤ 4096 := by
  have hp : ∃ b, pathBytes p.text = .ok b := by
    cases hb : pathBytes p.text with
    | ok b => exact ⟨b, rfl⟩
    | error e => simp [list, find, spot, hb, bind, Except.bind] at h
  obtain ⟨b, hb⟩ := hp
  unfold pathBytes at hb
  split at hb
  · simp at hb
  · next c hc =>
    split at hb
    · simp at hb
    · split at hb
      · simp at hb
      · next hl =>
        have h₁ := Utf8.length_le_of_encodeEscaped hc
        have h₂ := p.size_le_length_text
        simp only [longestPath] at hl
        omega

end RainMeta
