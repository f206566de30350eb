import RainMeta.Json.Reader
import RainMeta.Proofs.Document.Objects
import RainMeta.Proofs.Table

/-!
# Documents with all their members

A value does not show that a key was written twice: of its values only the last one is left. What
stands in a text is a tree (`RainMeta.Json.Tree`), whose objects have their members one by one, in
the order in which they are written. The reader makes trees as it makes values
(`RainMeta.Json.trees`), so that every text that spells a value spells a tree, and the value is
what is left of the tree (`RainMeta.Json.readBytes_eq`).

A member of an object is looked up as the last one with its key (`RainMeta.Json.Tree.member?`), and
this is what the value has in that field (`RainMeta.Json.Tree.field?_value`).
-/

namespace RainMeta

namespace Json

/-- **What stands in a document**, with all members of its objects. -/
inductive Tree
  | null
  | bool (b : Bool)
  | int (i : Int)
  | float (x : Binary64)
  | text (t : Text)
  | list (items : List Tree)
  | object (members : List (Text × Tree))

namespace Tree

mutual

/-- The value of a tree: in its objects, keys keep their first place, and later values win. -/
def value : Tree → Value
  | .null => .null
  | .bool b => .bool b
  | .int i => .int i
  | .float x => .float x
  | .text t => .text t
  | .list items => .list (itemValues items)
  | .object members => objectOf (memberValues members)

/-- The values of the items of a list. -/
def itemValues : List Tree → List Value
  | [] => []
  | item :: rest => item.value :: itemValues rest

/-- The members of an object with the values of their trees. -/
def memberValues : List (Text × Tree) → List (Text × Value)
  | [] => []
  | (key, member) :: rest => (key, member.value) :: memberValues rest

end

theorem itemValues_eq_map (items : List Tree) : itemValues items = items.map value := by
  induction items with
  | nil => rfl
  | cons item rest ih => rw [itemValues, ih, List.map_cons]

theorem memberValues_eq_map (members : List (Text × Tree)) :
    memberValues members = members.map fun m => (m.1, m.2.value) := by
  induction members with
  | nil => rfl
  | cons m rest ih =>
    obtain ⟨key, member⟩ := m
    rw [memberValues, ih, List.map_cons]

/-- The tree of a word or a number. -/
def ofSimple : Value → Tree
  | .bool b => .bool b
  | .int i => .int i
  | .float x => .float x
  | _ => .null

/-- **The member of an object with a key**: the last one, if there are several. -/
def member? (k : Text) : Tree → Option Tree
  | .object members => Table.lastValue k members
  | _ => none

end Tree

/-- Trees are made of what stands in a text. -/
def trees : Making Tree :=
  { simple := Tree.ofSimple, text := .text, list := .list, object := .object }

/-! ### From trees to values -/

section Making

variable {α β : Type} {f : α → β}

/-- What is made of a part, with the place behind it. -/
def atPlace (f : α → β) (r : α × Place) : β × Place :=
  (f r.1, r.2)

theorem readItems_map {read : Place → Except Fault (α × Place)}
    {read' : Place → Except Fault (β × Place)} (h : ∀ p, read' p = (read p).map (atPlace f))
    (out : List α) (fuel : Nat) (p : Place) :
    readItems read' (out.map f) fuel p =
      (readItems read out fuel p).map (atPlace (List.map f)) := by
  induction fuel generalizing out p with
  | zero => rfl
  | succ fuel ih =>
    rw [readItems, readItems, h]
    rcases read p with fault | ⟨v, q⟩
    · rfl
    simp only [Except.map, bind, Except.bind, atPlace]
    split
    · simp [pure, Except.pure]
    split
    · exact ih (v :: out) _
    · rfl

theorem readEntries_map {read : Place → Except Fault (α × Place)}
    {read' : Place → Except Fault (β × Place)} (h : ∀ p, read' p = (read p).map (atPlace f))
    (out : List (Text × α)) (fuel : Nat) (p : Place) :
    readEntries read' (out.map fun e => (e.1, f e.2)) fuel p =
      (readEntries read out fuel p).map (atPlace (List.map fun e => (e.1, f e.2))) := by
  induction fuel generalizing out p with
  | zero => rfl
  | succ fuel ih =>
    rw [readEntries, readEntries]
    split
    · rfl
    rcases readString p.position [] p.rest.length (p.skip 1) with fault | ⟨key, q⟩
    · rfl
    simp only [bind, Except.bind]
    split
    · rfl
    rw [h]
    rcases read (q.skipBlanks.skip 1).skipBlanks with fault | ⟨v, q⟩
    · rfl
    simp only [Except.map, atPlace]
    split
    · simp [pure, Except.pure]
    split
    · exact ih ((key, v) :: out) _
    · rfl

/-- **What is made of a text is made of its parts.** Where two makings agree on the parts, they
agree on the whole. -/
theorem readAs_map {m : Making α} {m' : Making β}
    (hsimple : ∀ p v q, readSimple p = .ok (v, q) → m'.simple v = f (m.simple v))
    (htext : ∀ t, m'.text t = f (m.text t))
    (hlist : ∀ items, m'.list (items.map f) = f (m.list items))
    (hobject : ∀ entries, m'.object (entries.map fun e => (e.1, f e.2)) = f (m.object entries))
    (depth : Nat) (p : Place) : readAs m' depth p = (readAs m depth p).map (atPlace f) := by
  have simple : ∀ p, (readSimple p).map (fun r => (m'.simple r.1, r.2)) =
      ((readSimple p).map fun r => (m.simple r.1, r.2)).map (atPlace f) := by
    intro p
    rcases hread : readSimple p with fault | ⟨v, q⟩
    · rfl
    · exact congrArg Except.ok (Prod.ext (hsimple p v q hread) rfl)
  have string : ∀ p : Place,
      (readString p.position [] p.rest.length (p.skip 1)).map (fun r => (m'.text r.1, r.2)) =
        ((readString p.position [] p.rest.length (p.skip 1)).map
          fun r => (m.text r.1, r.2)).map (atPlace f) := by
    intro p
    rcases readString p.position [] p.rest.length (p.skip 1) with fault | ⟨t, q⟩
    · rfl
    · exact congrArg Except.ok (Prod.ext (htext t) rfl)
  induction depth generalizing p with
  | zero =>
    rw [readAs, readAs]
    split
    · rfl
    split
    · exact string p
    · exact simple p
  | succ depth ih =>
    have hnone : m'.object [] = f (m.object []) := hobject []
    have hempty : m'.list [] = f (m.list []) := hlist []
    rw [readAs, readAs]
    split
    · exact string p
    split
    · dsimp only
      split
      · exact congrArg Except.ok (Prod.ext hnone rfl)
      · have hentries := readEntries_map ih [] ((p.skip 1).skipBlanks.rest.length + 1)
          (p.skip 1).skipBlanks
        rw [List.map_nil] at hentries
        rw [hentries]
        rcases readEntries (readAs m depth) [] _ (p.skip 1).skipBlanks with fault | ⟨entries, q⟩
        · rfl
        · exact congrArg Except.ok (Prod.ext (hobject entries) rfl)
    split
    · dsimp only
      split
      · exact congrArg Except.ok (Prod.ext hempty rfl)
      · have hitems := readItems_map ih [] ((p.skip 1).skipBlanks.rest.length + 1)
          (p.skip 1).skipBlanks
        rw [List.map_nil] at hitems
        rw [hitems]
        rcases readItems (readAs m depth) [] _ (p.skip 1).skipBlanks with fault | ⟨items, q⟩
        · rfl
        · exact congrArg Except.ok (Prod.ext (hlist items) rfl)
    · exact simple p

end Making

/-- Words and numbers have trees. -/
theorem value_ofSimple {p q : Place} {v : Value} (h : readSimple p = .ok (v, q)) :
    (Tree.ofSimple v).value = v := by
  have hwords : ∀ w ∈ words, (Tree.ofSimple w.2).value = w.2 := by
    simp only [words, List.forall_mem_cons, List.not_mem_nil, false_imp_iff, implies_true, and_true]
    exact ⟨rfl, rfl, rfl, rfl, rfl, rfl⟩
  unfold readSimple at h
  split at h
  next word w hw =>
    cases h
    exact hwords _ (List.mem_of_find?_eq_some hw)
  split at h
  next n _ =>
    rcases hn : n.value with fault | w
    · rw [hn] at h
      cases h
    · rw [hn] at h
      cases h
      unfold Numeral.value at hn
      split at hn
      · split at hn
        · cases hn
        · cases hn
          rfl
      · cases hn
        rfl
  · cases h

theorem readAs_values (depth : Nat) (p : Place) :
    readAs values depth p = (readAs trees depth p).map (atPlace Tree.value) := by
  refine readAs_map (fun p v q h => (value_ofSimple h).symm) (fun t => ?_) (fun items => ?_)
    (fun entries => ?_) depth p
  · rw [trees, Tree.value]
    rfl
  · rw [trees, Tree.value, Tree.itemValues_eq_map]
    rfl
  · rw [trees, Tree.value, Tree.memberValues_eq_map]
    rfl

theorem readWholeAs_values (depth : Nat) (t : Text) :
    readWholeAs values depth t = (readWholeAs trees depth t).map Tree.value := by
  rw [readWholeAs, readWholeAs, readAs_values]
  rcases readAs trees depth (Place.mk 0 t).skipBlanks with fault | ⟨tree, q⟩
  · rfl
  · simp only [Except.map, bind, Except.bind, atPlace]
    split
    · rfl
    · rfl

/-- **A value is what is left of a tree.** Bytes that spell one spell the other. -/
theorem readBytes_eq [Platform] (content : Bytes) :
    readBytes content = (readBytesAs trees content).map Tree.value := by
  rw [readBytes, readBytesAs, readBytesAs]
  rcases decodeDetected content with e | t
  · rfl
  · dsimp only
    rw [readIf, readIf]
    split
    · rw [readWholeAs_values]
      rcases readWholeAs trees (brackets t) t with fault | tree
      · rfl
      · rfl
    · rfl

/-! ### Fields -/

/-- The object with some entries has them as they are set one after another. -/
theorem objectOf_eq (entries : List (Text × Value)) :
    objectOf entries = Value.object (Table.setAll entries).entries := by
  have hset : ∀ (entries : List (Text × Value)) (known : Table Text Value),
      entries.foldl (fun known e => Value.setKey (.text e.1) e.2 known)
          (Value.entriesOfFields known.entries) =
        Value.entriesOfFields (entries.foldl (fun t e => t.set e.1 e.2) known).entries := by
    intro entries
    induction entries with
    | nil => exact fun known => rfl
    | cons e rest ih =>
      intro known
      rw [List.foldl_cons, List.foldl_cons, Value.setKey_entriesOfFields]
      exact ih (known.set e.1 e.2)
  exact congrArg Value.mapping (hset entries .empty)

/-- **A field of an object has the value of the last entry with its key.** -/
theorem field?_objectOf (k : Text) (entries : List (Text × Value)) :
    (objectOf entries).field? k = Table.lastValue k entries := by
  rw [objectOf_eq, ← Table.find?_setAll, Value.object, Value.field?, Value.fieldOf?_entriesOfFields]
  rfl

namespace Tree

/-- **What a value has in a field** is the value of the last member with that key. -/
theorem field?_value (k : Text) (tree : Tree) :
    tree.value.field? k = (tree.member? k).map value := by
  cases tree with
  | object members =>
    rw [value, field?_objectOf, memberValues_eq_map, Table.lastValue_map, member?]
  | _ => rfl

theorem text?_value {t : Text} (tree : Tree) : tree.value.text? = some t ↔ tree = .text t := by
  cases tree with
  | text u => simp [value, Value.text?]
  | object members => simp [value, objectOf, Value.text?]
  | _ => simp [value, Value.text?]

end Tree

end Json

end RainMeta
