import RainMeta.Proofs.Yaml.Keys

/-!
# What missing values are due to

A tree may have no value because something in it has no value that should have one. Whatever the
tree looks like, that is due to a text in it that is read under the tag of a node
(`RainMeta.Yaml.Node.Blamed`): the text of a scalar under its own tag, or under the tag of a mapping
the text that stands in it under a value key. Nothing else is ever made of scalars, and the rest of
reading only puts together what is there, or finds the tree malformed.

So a predicate about computations is all that is needed (`RainMeta.Yaml.Node.Blames`). It is handed
on from the parts of a computation to the whole, also where nodes are begun and filled later
(`RainMeta.Yaml.Node.Filling.Blames`). For that it has to be known of the nodes that wait that they
are nodes of the tree.
-/

namespace RainMeta.Yaml.Node

/-! ### Nodes of a tree -/

/-- **A node of a tree**, possibly behind references. -/
inductive Part (root : Node) : Node → Prop
  | root : Part root root
  | item {anchor : Option Text} {tag : Tag} {items : List Node} {n : Node}
      (h : Part root (sequence anchor tag items)) (hn : n ∈ items) : Part root n
  | key {anchor : Option Text} {tag : Tag} {entries : List (Node × Node)} {e : Node × Node}
      (h : Part root (mapping anchor tag entries)) (he : e ∈ entries) : Part root e.1
  | member {anchor : Option Text} {tag : Tag} {entries : List (Node × Node)} {e : Node × Node}
      (h : Part root (mapping anchor tag entries)) (he : e ∈ entries) : Part root e.2
  | target {n : Node} (h : Part root n) : Part root (n.target root)

/-- **What a node spells as a scalar**: its text, or what a mapping has under a value key. -/
inductive Spells (root : Node) : Node → Text → Prop
  | scalar {anchor : Option Text} {tag : Tag} {text : Text} :
      Spells root (scalar anchor tag text) text
  | mapping {anchor : Option Text} {tag : Tag} {entries : List (Node × Node)} {e : Node × Node}
      {text : Text} (he : e ∈ entries) (hkey : e.1.targetTag root = .value)
      (h : Spells root (e.2.target root) text) : Spells root (mapping anchor tag entries) text

/-- **A text is to blame** for a missing value: some node of the tree spells it, and it has no value
under the tag of that node. -/
def Blamed (valueOf : Tag → Text → Except Error Value) (root : Node) (d : ValueDefect) : Prop :=
  ∃ n text, Part root n ∧ Spells root n text ∧
    loadScalar valueOf (n.tag, text) = .error (.value d)

variable {valueOf : Tag → Text → Except Error Value} {root : Node} {α β : Type}

/-! ### Computations -/

/-- **A computation blames** a text of the tree wherever a value is missing; its answers are as
said. -/
inductive Blames (valueOf : Tag → Text → Except Error Value) (root : Node) (P : α → Prop) :
    Except Error α → Prop
  | ok {a : α} (h : P a) : Blames valueOf root P (.ok a)
  | value {d : ValueDefect} (h : Blamed valueOf root d) : Blames valueOf root P (.error (.value d))
  | other {e : Error} (h : ∀ d, e ≠ .value d) : Blames valueOf root P (.error e)

namespace Blames

variable {P : α → Prop} {Q : β → Prop} {x : Except Error α}

theorem malformed : Blames valueOf root P (.error .malformed) :=
  .other (by rintro d ⟨⟩)

theorem kind (message : Text) : Blames valueOf root P (.error (.kind message)) :=
  .other (by rintro d ⟨⟩)

theorem tooDeep : Blames valueOf root P (.error .tooDeep) :=
  .other (by rintro d ⟨⟩)

theorem bind {f : α → Except Error β} (hx : Blames valueOf root P x)
    (hf : ∀ a, P a → Blames valueOf root Q (f a)) : Blames valueOf root Q (x >>= f) := by
  cases hx with
  | ok h => exact hf _ h
  | value h => exact .value h
  | other h => exact .other h

theorem mono {Q : α → Prop} (hx : Blames valueOf root P x) (hPQ : ∀ a, P a → Q a) :
    Blames valueOf root Q x := by
  cases hx with
  | ok h => exact .ok (hPQ _ h)
  | value h => exact .value h
  | other h => exact .other h

theorem map {f : α → β} (hx : Blames valueOf root P x) (hf : ∀ a, P a → Q (f a)) :
    Blames valueOf root Q (x.map f) := by
  cases hx with
  | ok h => exact .ok (hf _ h)
  | value h => exact .value h
  | other h => exact .other h

theorem mapM {f : β → Except Error α} {l : List β} (h : ∀ b ∈ l, Blames valueOf root P (f b)) :
    Blames valueOf root (fun as => ∀ a ∈ as, P a) (l.mapM f) := by
  induction l with
  | nil => exact .ok (List.forall_mem_nil _)
  | cons b rest ih =>
    rw [List.forall_mem_cons] at h
    rw [List.mapM_cons]
    exact h.1.bind fun a ha => (ih h.2).bind fun as has => .ok (List.forall_mem_cons.mpr ⟨ha, has⟩)

theorem foldlM {f : α → β → Except Error α} {l : List β} {a : α} (ha : P a)
    (h : ∀ a, P a → ∀ b ∈ l, Blames valueOf root P (f a b)) :
    Blames valueOf root P (l.foldlM f a) := by
  induction l generalizing a with
  | nil => exact .ok ha
  | cons b rest ih =>
    rw [List.foldlM_cons]
    exact (h a ha b List.mem_cons_self).bind fun a ha =>
      ih ha fun a ha b hb => h a ha b (List.mem_cons_of_mem _ hb)

end Blames

/-! ### Entries and scalars -/

/-- The nodes in the entries of a mapping are nodes of the tree. -/
def EntryParts (root : Node) (entries : List (Node × Node)) : Prop :=
  ∀ e ∈ entries, Part root e.1 ∧ Part root e.2

theorem Part.entries {anchor : Option Text} {tag : Tag} {entries : List (Node × Node)}
    (h : Part root (mapping anchor tag entries)) : EntryParts root entries :=
  fun _ he => ⟨h.key he, h.member he⟩

section Values

variable {style : KeyStyle} {read : Node → Except Error Value} {entries : List (Node × Node)}
  (hread : ∀ n, Part root n → Blames valueOf root (fun _ => True) (read n))

include hread

end Values

/-- **Going through a tree blames** a text of it, as long as nodes of the tree are waiting; and such
nodes are waiting after it. -/
def Filling.Blames (valueOf : Tag → Text → Except Error Value) (root : Node) (m : Filling α) :
    Prop :=
  ∀ p : Progress, (∀ n ∈ p.waiting, Part root n) →
    Node.Blames valueOf root (fun r : α × Progress => ∀ n ∈ r.2.waiting, Part root n) (m.run p)

namespace Filling.Blames

theorem pure (a : α) : Filling.Blames valueOf root (Pure.pure a) :=
  fun _ hp => .ok hp

theorem malformed : Filling.Blames valueOf root (throw .malformed : Filling α) :=
  fun _ _ => .malformed

theorem bind {m : Filling α} {f : α → Filling β} (hm : Filling.Blames valueOf root m)
    (hf : ∀ a, Filling.Blames valueOf root (f a)) : Filling.Blames valueOf root (m >>= f) :=
  fun p hp => (hm p hp).bind fun r hr => hf r.1 r.2 hr

theorem forM {f : β → Filling PUnit} {l : List β}
    (h : ∀ b ∈ l, Filling.Blames valueOf root (f b)) : Filling.Blames valueOf root (l.forM f) := by
  induction l with
  | nil => exact pure _
  | cons b rest ih =>
    rw [List.forall_mem_cons] at h
    exact h.1.bind fun _ => ih h.2

end Filling.Blames

section Filling

variable {style : KeyStyle}

end Filling

/-! ### Trees -/

end RainMeta.Yaml.Node
