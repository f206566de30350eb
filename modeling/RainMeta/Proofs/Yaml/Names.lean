import Mathlib.Data.List.Perm.Basic
import RainMeta.Table
import RainMeta.Yaml.Node

/-!
# Names in a tree are given once

A reference stands for the node that bears its name, so it matters that there is only one. Reading
refuses a name that was given before, and the names given so far are part of its state. What has
to be seen is that they are exactly the names in the nodes that were read.

Nodes are put together of parts, and a part that was read is not yet in a tree while the next part
is read. So a reader is judged by what it adds to the names of the parts that are there already
(`RainMeta.Yaml.Node.Adds`): if these and what was given before make up the state, then so do the
names of what it returns. Readers that look only at tokens add nothing
(`RainMeta.Yaml.Node.Quiet`). Both are closed under what puts readers together, and a node follows
by induction on the depth that is left (`RainMeta.Yaml.Node.adds_node`).

The main result is `RainMeta.Yaml.Node.nodup_names_of_read`. It makes looking up a name the same as
finding a node that bears it (`RainMeta.Yaml.Node.named?_eq_some_iff`).
-/

namespace RainMeta.Yaml.Node

variable {α β : Type}

/-! ### Nodes that bear names -/

/-- **Induction on trees**: a property of the parts of each node is one of the node. -/
theorem induction {P : Node → Prop} (hscalar : ∀ anchor tag text, P (scalar anchor tag text))
    (hsequence : ∀ anchor tag items, (∀ n ∈ items, P n) → P (sequence anchor tag items))
    (hmapping : ∀ anchor tag entries, (∀ e ∈ entries, P e.1 ∧ P e.2) →
      P (mapping anchor tag entries))
    (hreference : ∀ name, P (reference name)) (n : Node) : P n :=
  match n with
  | scalar anchor tag text => hscalar anchor tag text
  | sequence anchor tag items => hsequence anchor tag items fun n hn =>
    have := List.sizeOf_lt_of_mem hn
    induction hscalar hsequence hmapping hreference n
  | mapping anchor tag entries => hmapping anchor tag entries fun e he =>
    have := List.sizeOf_lt_of_mem he
    have : sizeOf e = 1 + sizeOf e.1 + sizeOf e.2 := by cases e; rfl
    ⟨induction hscalar hsequence hmapping hreference e.1,
      induction hscalar hsequence hmapping hreference e.2⟩
  | reference name => hreference name
termination_by sizeOf n
decreasing_by all_goals simp_wf; omega

/-- The node with its name, if it bears one. -/
def ownName (n : Node) : List (Text × Node) :=
  n.anchor?.toList.map (·, n)

theorem anchored_scalar (anchor : Option Text) (tag : Tag) (text : Text) :
    (scalar anchor tag text).anchored = (scalar anchor tag text).ownName := by
  rw [anchored, ownName]

theorem anchored_reference (name : Text) : (reference name).anchored = [] := by
  rw [anchored, anchor?, Option.toList_none, List.map_nil]

theorem anchored_sequence (anchor : Option Text) (tag : Tag) (items : List Node) :
    (sequence anchor tag items).anchored =
      (sequence anchor tag items).ownName ++ items.flatMap anchored := by
  have hitems : ∀ items, anchoredItems items = items.flatMap anchored := by
    intro items
    induction items with
    | nil => rw [anchoredItems, List.flatMap_nil]
    | cons n rest ih => rw [anchoredItems, ih, List.flatMap_cons]
  rw [anchored, hitems, ownName]

/-- The nodes that bear a name in an entry of a mapping. -/
def anchoredOfEntry (e : Node × Node) : List (Text × Node) :=
  e.1.anchored ++ e.2.anchored

theorem anchored_mapping (anchor : Option Text) (tag : Tag) (entries : List (Node × Node)) :
    (mapping anchor tag entries).anchored =
      (mapping anchor tag entries).ownName ++ entries.flatMap anchoredOfEntry := by
  have hentries : ∀ entries, anchoredEntries entries = entries.flatMap anchoredOfEntry := by
    intro entries
    induction entries with
    | nil => rw [anchoredEntries, List.flatMap_nil]
    | cons e rest ih =>
      obtain ⟨k, v⟩ := e
      rw [anchoredEntries, ih, List.flatMap_cons, anchoredOfEntry]
  rw [anchored, hentries, ownName]

theorem mem_ownName {n m : Node} {name : Text} :
    (name, m) ∈ n.ownName ↔ n.anchor? = some name ∧ m = n := by
  rw [ownName]
  rcases n.anchor? with _ | name'
  · simp
  · simp [eq_comm]

theorem ownName_subset (n : Node) : n.ownName ⊆ n.anchored := by
  cases n with
  | scalar anchor tag text => rw [anchored_scalar]; exact List.Subset.refl _
  | sequence anchor tag items => rw [anchored_sequence]; exact List.subset_append_left _ _
  | mapping anchor tag entries => rw [anchored_mapping]; exact List.subset_append_left _ _
  | reference name => exact List.nil_subset _

/-- **What stands in a tree under a name** bears that name, and all of it stands in the tree. -/
theorem of_mem_anchored {root n : Node} {name : Text} (h : (name, n) ∈ root.anchored) :
    n.anchor? = some name ∧ n.anchored ⊆ root.anchored := by
  have own : ∀ {m : Node}, (name, n) ∈ m.ownName →
      n.anchor? = some name ∧ n.anchored ⊆ m.anchored := by
    intro m hown
    obtain ⟨hname, rfl⟩ := mem_ownName.mp hown
    exact ⟨hname, List.Subset.refl _⟩
  induction root using Node.induction with
  | hscalar anchor tag text => exact own (anchored_scalar anchor tag text ▸ h)
  | hsequence anchor tag items ih =>
    rw [anchored_sequence, List.mem_append] at h
    rcases h with h | h
    · exact own h
    · obtain ⟨m, hm, h⟩ := List.mem_flatMap.mp h
      obtain ⟨hname, hsub⟩ := ih m hm h
      refine ⟨hname, fun e he => ?_⟩
      rw [anchored_sequence]
      exact List.mem_append_right _ (List.mem_flatMap.mpr ⟨m, hm, hsub he⟩)
  | hmapping anchor tag entries ih =>
    rw [anchored_mapping, List.mem_append] at h
    rcases h with h | h
    · exact own h
    · obtain ⟨e, he, h⟩ := List.mem_flatMap.mp h
      obtain ⟨hname, hsub⟩ : n.anchor? = some name ∧ n.anchored ⊆ anchoredOfEntry e := by
        rcases List.mem_append.mp h with h | h
        · obtain ⟨hname, hsub⟩ := (ih e he).1 h
          exact ⟨hname, List.Subset.trans hsub (List.subset_append_left _ _)⟩
        · obtain ⟨hname, hsub⟩ := (ih e he).2 h
          exact ⟨hname, List.Subset.trans hsub (List.subset_append_right _ _)⟩
      refine ⟨hname, fun f hf => ?_⟩
      rw [anchored_mapping]
      exact List.mem_append_right _ (List.mem_flatMap.mpr ⟨e, he, hsub hf⟩)
  | hreference name => cases anchored_reference name ▸ h

/-- The names that are given in a tree. -/
def names (n : Node) : List Text :=
  n.anchored.map Prod.fst

theorem map_ownName (n : Node) : n.ownName.map Prod.fst = n.anchor?.toList := by
  rw [ownName, List.map_map]
  exact List.map_id _

@[simp]
theorem names_scalar (anchor : Option Text) (tag : Tag) (text : Text) :
    (scalar anchor tag text).names = anchor.toList := by
  rw [names, anchored_scalar, map_ownName, anchor?]

@[simp]
theorem names_reference (name : Text) : (reference name).names = [] := by
  rw [names, anchored_reference, List.map_nil]

@[simp]
theorem names_sequence (anchor : Option Text) (tag : Tag) (items : List Node) :
    (sequence anchor tag items).names = anchor.toList ++ items.flatMap names := by
  rw [names, anchored_sequence, List.map_append, map_ownName, anchor?, List.map_flatMap]
  rfl

/-- The names in an entry of a mapping. -/
def namesOfEntry (e : Node × Node) : List Text :=
  e.1.names ++ e.2.names

@[simp]
theorem names_mapping (anchor : Option Text) (tag : Tag) (entries : List (Node × Node)) :
    (mapping anchor tag entries).names = anchor.toList ++ entries.flatMap namesOfEntry := by
  have hentry : ∀ e, (anchoredOfEntry e).map Prod.fst = namesOfEntry e := fun e =>
    List.map_append
  rw [names, anchored_mapping, List.map_append, map_ownName, anchor?, List.map_flatMap]
  simp only [hentry]

@[simp]
theorem names_blank : blank.names = [] :=
  names_scalar none .null []

/-- **Looking up a name** is finding the node that bears it, if no name is given twice. -/
theorem named?_eq_some_iff {root n : Node} (h : root.names.Nodup) {name : Text} :
    root.named? name = some n ↔ (name, n) ∈ root.anchored := by
  have hfind : ∀ l : List (Text × Node),
      (l.find? fun e => e.1 == name).map Prod.snd = Entries.find? name l := by
    intro l
    induction l with
    | nil => rfl
    | cons e rest ih =>
      rw [Entries.find?, ← ih]
      by_cases he : e.1 = name
      · simp [he]
      · simp [he]
  rw [named?, hfind, Entries.find?_eq_some_iff h]

/-! ### Readers that give no names -/

/-- **A quiet reader** leaves the names as they are. -/
def Quiet (g : Grammar α) : Prop :=
  ∀ s a s', g.run s = .ok (a, s') → s'.names = s.names

theorem quiet_pure (a : α) : Quiet (pure a) := by
  rintro s b s' ⟨⟩
  rfl

theorem quiet_throw (e : Error) : Quiet (throw e : Grammar α) := by
  rintro s b s' ⟨⟩

theorem quiet_get : Quiet get := by
  rintro s b s' ⟨⟩
  rfl

theorem run_bind_eq_ok {g : Grammar α} {f : α → Grammar β} {s s' : Source} {b : β}
    (h : (g >>= f).run s = .ok (b, s')) :
    ∃ a t, g.run s = .ok (a, t) ∧ (f a).run t = .ok (b, s') := by
  rw [StateT.run_bind] at h
  rcases hg : g.run s with e | ⟨a, t⟩
  · rw [hg] at h
    cases h
  · rw [hg] at h
    exact ⟨a, t, rfl, h⟩

theorem Quiet.bind {g : Grammar α} {f : α → Grammar β} (hg : Quiet g) (hf : ∀ a, Quiet (f a)) :
    Quiet (g >>= f) := by
  intro s b s' h
  obtain ⟨a, t, hrun, hrest⟩ := run_bind_eq_ok h
  rw [hf a t b s' hrest, hg s a t hrun]

theorem quiet_skip : Quiet skip := by
  rintro s b s' ⟨⟩
  rfl

theorem quiet_refuse : Quiet (refuse : Grammar α) := by
  refine quiet_get.bind fun s => ?_
  split
  · exact quiet_throw _
  · exact quiet_throw _

theorem quiet_sees (p : Token → Bool) : Quiet (sees p) := by
  refine quiet_get.bind fun s => ?_
  split
  · exact quiet_throw _
  · exact quiet_pure _
  · exact quiet_pure _

theorem quiet_accept (t : Token) : Quiet (accept t) := by
  refine (quiet_sees _).bind fun b => ?_
  split
  · exact quiet_skip.bind fun _ => quiet_pure _
  · exact quiet_pure _

theorem quiet_demand (t : Token) : Quiet (demand t) := by
  refine (quiet_accept t).bind fun b => ?_
  split
  · exact quiet_pure _
  · exact quiet_refuse

theorem Quiet.repeated {step : Grammar (Option α)} (hstep : Quiet step) (fuel : Nat) :
    Quiet (repeated step fuel) := by
  induction fuel with
  | zero => exact quiet_pure _
  | succ fuel ih =>
    refine hstep.bind fun o => ?_
    split
    · exact ih.bind fun _ => quiet_pure _
    · exact quiet_pure _

theorem quiet_tagName (handles : List (Text × Text)) (handle : Option Text) (suffix : Text) :
    Quiet (tagName handles handle suffix) := by
  unfold tagName
  split
  · exact quiet_pure _
  · split
    · exact quiet_pure _
    · exact quiet_refuse

theorem quiet_anchorHere : Quiet anchorHere := by
  refine quiet_get.bind fun s => ?_
  split
  · exact quiet_skip.bind fun _ => quiet_pure _
  · exact quiet_pure _

theorem quiet_tagHere (handles : List (Text × Text)) : Quiet (tagHere handles) := by
  refine quiet_get.bind fun s => ?_
  split
  · exact quiet_skip.bind fun _ => (quiet_tagName _ _ _).bind fun _ => quiet_pure _
  · exact quiet_pure _

theorem quiet_properties (handles : List (Text × Text)) : Quiet (properties handles) := by
  refine quiet_anchorHere.bind fun anchor => ?_
  split
  · exact (quiet_tagHere handles).bind fun _ => quiet_pure _
  · refine (quiet_tagHere handles).bind fun tag => ?_
    split
    · exact quiet_anchorHere.bind fun _ => quiet_pure _
    · exact quiet_pure _

theorem quiet_directives (version : Bool) (handles : List (Text × Text)) (fuel : Nat) :
    Quiet (directives version handles fuel) := by
  induction fuel generalizing version handles with
  | zero => exact quiet_pure _
  | succ fuel ih =>
    rw [directives]
    refine quiet_get.bind fun s => ?_
    split
    · refine quiet_skip.bind fun _ => ?_
      split
      · split
        · exact (quiet_throw _).bind fun _ => ih _ _
        · exact ih _ _
      · split
        · exact (quiet_throw _).bind fun _ => ih _ _
        · exact ih _ _
      · exact ih _ _
    · exact quiet_pure _

theorem quiet_documentStart : Quiet documentStart := by
  refine (quiet_sees _).bind fun marked => ?_
  split
  · refine quiet_get.bind fun s => ?_
    exact (quiet_directives _ _ _).bind fun handles => (quiet_demand _).bind fun _ => quiet_pure _
  · exact quiet_pure _

/-! ### Readers that give names -/

/-- **What a reader adds.** Let the names that were given be those in `parts`, which were read
before, and others. Then afterwards they are the names in what it returns, and the same others. No
name is given twice. -/
def Adds (parts : List Text) (g : Grammar α) (f : α → List Text) : Prop :=
  ∀ s others a s', s.names.Nodup → s.names.Perm (parts ++ others) → g.run s = .ok (a, s') →
    s'.names.Nodup ∧ s'.names.Perm (f a ++ others)

section Adds

variable {parts : List Text} {g : Grammar α} {f : α → List Text}

theorem Quiet.adds (hg : Quiet g) (parts : List Text) : Adds parts g fun _ => parts := by
  intro s others a s' hnodup hperm hrun
  rw [hg s a s' hrun]
  exact ⟨hnodup, hperm⟩

theorem Adds.bind {h : α → Grammar β} {f' : β → List Text} (hg : Adds parts g f)
    (hh : ∀ a, Adds (f a) (h a) f') : Adds parts (g >>= h) f' := by
  intro s others b s' hnodup hperm hrun
  obtain ⟨a, t, hrun, hrest⟩ := run_bind_eq_ok hrun
  obtain ⟨hnodup, hperm⟩ := hg s others a t hnodup hperm hrun
  exact hh a t others b s' hnodup hperm hrest

/-- After a quiet reader the parts are the same. -/
theorem Quiet.bind_adds {h : α → Grammar β} {f' : β → List Text} (hg : Quiet g)
    (hh : ∀ a, Adds parts (h a) f') : Adds parts (g >>= h) f' :=
  (hg.adds parts).bind hh

theorem adds_pure {a : α} (h : parts.Perm (f a)) : Adds parts (pure a) f := by
  rintro s others b s' hnodup hperm ⟨⟩
  exact ⟨hnodup, hperm.trans (h.append_right others)⟩

theorem adds_throw (e : Error) : Adds parts (throw e : Grammar α) f := by
  rintro s others b s' - - ⟨⟩

theorem adds_refuse : Adds parts (refuse : Grammar α) f := by
  refine quiet_get.bind_adds fun s => ?_
  split
  · exact adds_throw _
  · exact adds_throw _

/-- **Parts that are there already** stay beside what a reader returns. -/
theorem Adds.beside (hg : Adds [] g f) (parts : List Text) :
    Adds parts g fun a => f a ++ parts := by
  intro s others a s' hnodup hperm hrun
  obtain ⟨hnodup, hperm⟩ := hg s (parts ++ others) a s' hnodup hperm hrun
  exact ⟨hnodup, by simpa using hperm⟩

/-- A name is given if it was not given before. -/
theorem adds_register (anchor : Option Text) (parts : List Text) :
    Adds parts (register anchor) fun _ => anchor.toList ++ parts := by
  rcases anchor with _ | name
  · exact adds_pure (List.Perm.refl parts)
  intro s others a s' hnodup hperm hrun
  obtain ⟨t, u, hget, hrest⟩ := run_bind_eq_ok hrun
  cases hget
  by_cases hmem : s.names.contains name
  · rw [if_pos hmem] at hrest
    cases hrest
  · rw [if_neg hmem] at hrest
    cases hrest
    refine ⟨List.nodup_cons.mpr ⟨by simpa using hmem, hnodup⟩, ?_⟩
    exact hperm.cons name

/-! ### Nodes -/

variable {node : Grammar Node} {child : Place → Grammar Node}

theorem adds_orBlank (hnode : Adds [] node names) (ends : List Token) :
    Adds [] (orBlank ends node) names := by
  refine (quiet_sees _).bind_adds fun b => ?_
  split
  · exact adds_pure (by simp)
  · exact hnode

theorem adds_keyAndValue (hnode : Adds [] node names) (ends : List Token) :
    Adds [] (keyAndValue ends node) namesOfEntry := by
  refine (adds_orBlank hnode _).bind fun k => (quiet_accept _).bind_adds fun b => ?_
  split
  · refine ((adds_orBlank hnode ends).beside k.names).bind fun v => adds_pure ?_
    exact List.perm_append_comm
  · exact adds_pure (by simp [namesOfEntry])

theorem adds_blockItem (hchild : ∀ place, Adds [] (child place) names) (ends : List Token) :
    Adds [] (blockItem ends child) fun o => o.toList.flatMap names := by
  refine (quiet_accept _).bind_adds fun b => ?_
  split
  · exact (adds_orBlank (hchild _) _).bind fun n => adds_pure (by simp)
  · exact adds_pure (by simp)

theorem adds_blockMember (hchild : ∀ place, Adds [] (child place) names) :
    Adds [] (blockMember child) fun o => o.toList.flatMap namesOfEntry := by
  refine (quiet_accept _).bind_adds fun b => ?_
  split
  · exact (adds_keyAndValue (hchild _) _).bind fun e => adds_pure (by simp)
  · exact adds_pure (by simp)

theorem adds_flowItem (hchild : ∀ place, Adds [] (child place) names) :
    Adds [] (flowItem child) names := by
  refine (quiet_accept _).bind_adds fun b => ?_
  split
  · exact (adds_keyAndValue (hchild _) _).bind fun e => adds_pure (by simp)
  · exact hchild _

theorem adds_flowMember (hchild : ∀ place, Adds [] (child place) names) :
    Adds [] (flowMember child) namesOfEntry := by
  refine (quiet_accept _).bind_adds fun b => ?_
  split
  · exact adds_keyAndValue (hchild _) _
  · exact (hchild _).bind fun n => adds_pure (by simp [namesOfEntry])

theorem adds_repeated {step : Grammar (Option α)}
    (hstep : Adds [] step fun o => o.toList.flatMap f) (fuel : Nat) :
    Adds [] (repeated step fuel) fun l => l.flatMap f := by
  induction fuel with
  | zero => exact adds_pure (by simp)
  | succ fuel ih =>
    rw [repeated]
    refine hstep.bind fun o => ?_
    split
    · next a =>
      refine (ih.beside _).bind fun l => adds_pure ?_
      simpa using List.perm_append_comm
    · exact adds_pure (by simp)

theorem adds_separated {item : Grammar α} (hitem : Adds [] item f) (close : Token) (fuel : Nat)
    (first : Bool) : Adds [] (separated close item fuel first) fun l => l.flatMap f := by
  induction fuel generalizing first with
  | zero => exact adds_refuse
  | succ fuel ih =>
    have further : Adds [] (do return (← item) :: (← separated close item fuel false))
        fun l => l.flatMap f := by
      refine hitem.bind fun a => ((ih false).beside (f a)).bind fun l => adds_pure ?_
      simpa using List.perm_append_comm
    rw [separated]
    refine (quiet_accept _).bind_adds fun b => ?_
    split
    · exact adds_pure (by simp)
    split
    · exact further
    · refine (quiet_demand _).bind_adds fun _ => (quiet_accept _).bind_adds fun b => ?_
      split
      · exact adds_pure (by simp)
      · exact further

/-- Items that are read behind the name of their sequence, and the end of it. -/
theorem adds_sequence {items : Grammar (List Node)} (hitems : Adds [] items (·.flatMap names))
    {close : Grammar Unit} (hclose : Quiet close) (anchor : Option Text) (tag : Tag) :
    Adds anchor.toList (do
      let l ← items
      close
      return sequence anchor tag l) names := by
  refine (hitems.beside anchor.toList).bind fun l => hclose.bind_adds fun _ => adds_pure ?_
  rw [names_sequence]
  exact List.perm_append_comm

/-- Entries that are read behind the name of their mapping, and the end of it. -/
theorem adds_mapping {entries : Grammar (List (Node × Node))}
    (hentries : Adds [] entries (·.flatMap namesOfEntry)) {close : Grammar Unit}
    (hclose : Quiet close) (anchor : Option Text) (tag : Tag) :
    Adds anchor.toList (do
      let l ← entries
      close
      return mapping anchor tag l) names := by
  refine (hentries.beside anchor.toList).bind fun l => hclose.bind_adds fun _ => adds_pure ?_
  rw [names_mapping]
  exact List.perm_append_comm

/-- Before the parts of a node are read its name is given. -/
theorem Adds.registered (hg : Adds parts g f) {anchor : Option Text} (h : anchor.toList = parts) :
    Adds [] (do register anchor; g) f := by
  refine (adds_register anchor []).bind fun _ => ?_
  rw [List.append_nil, h]
  exact hg

/-- **A node adds the names that are given in it.** -/
theorem adds_node (handles : List (Text × Text)) (depth : Nat) (place : Place) :
    Adds [] (Node.node handles depth place) names := by
  induction depth generalizing place with
  | zero => exact adds_throw _
  | succ depth ih =>
    rw [Node.node]
    refine quiet_get.bind_adds fun s => ?_
    split
    · -- a reference gives no name
      refine quiet_skip.bind_adds fun _ => quiet_get.bind_adds fun s => ?_
      split
      · exact adds_pure (by simp)
      · exact adds_throw _
    dsimp only
    refine (quiet_properties handles).bind_adds fun properties => ?_
    obtain ⟨anchor, tag⟩ := properties
    refine quiet_get.bind_adds fun s => quiet_get.bind_adds fun s' => ?_
    split
    · exact quiet_skip.bind_adds fun _ => (adds_pure (by simp)).registered rfl
    · exact quiet_skip.bind_adds fun _ => (adds_sequence (adds_separated (adds_flowItem ih) _ _ _)
        (quiet_pure ()) _ _).registered rfl
    · exact quiet_skip.bind_adds fun _ => (adds_mapping (adds_separated (adds_flowMember ih) _ _ _)
        (quiet_pure ()) _ _).registered rfl
    · exact adds_throw _
    · split
      · exact (adds_sequence (adds_repeated (adds_blockItem ih _) _) (quiet_pure ()) _ _).registered
          rfl
      split
      · exact quiet_skip.bind_adds fun _ => (adds_sequence (adds_repeated (adds_blockItem ih _) _)
          (quiet_demand _) _ _).registered rfl
      split
      · exact quiet_skip.bind_adds fun _ => (adds_mapping (adds_repeated (adds_blockMember ih) _)
          (quiet_demand _) _ _).registered rfl
      split
      · exact (adds_pure (by simp)).registered rfl
      · exact adds_refuse
    · exact adds_refuse

end Adds

/-! ### Documents -/

/-- **A document adds the names that are given in its tree.** -/
theorem adds_document (depth : Nat) :
    Adds [] (document depth) fun root => root.toList.flatMap names := by
  refine (quiet_sees _).bind_adds fun ended => ?_
  split
  · exact adds_pure (by simp)
  refine quiet_documentStart.bind_adds fun start => ?_
  obtain ⟨handles, marked⟩ := start
  have finish : ∀ root : Node, Adds root.names (do
      let count := (← get).tokens.length
      let _ ← repeated (do return if ← accept .documentEnd then some () else none) count
      demand .streamEnd
      return some root) fun root => root.toList.flatMap names := by
    intro root
    refine quiet_get.bind_adds fun s => ?_
    have hends : Quiet (do return if ← accept .documentEnd then some () else none) :=
      (quiet_accept _).bind fun _ => quiet_pure _
    refine (hends.repeated _).bind_adds fun _ => (quiet_demand _).bind_adds fun _ => ?_
    exact adds_pure (by simp)
  have blank : Adds [] (pure blank) names := adds_pure (by simp)
  have content := (adds_node handles depth .block).bind finish
  dsimp only
  split
  · refine (quiet_sees _).bind_adds fun ended => ?_
    split
    · exact blank.bind finish
    · exact content
  · exact content

/-- **No name is given twice** in a tree that was read. -/
theorem nodup_names_of_read {t : Text} {root : Node} (h : Node.read t = .ok (some root)) :
    root.names.Nodup := by
  rw [Node.read, ofTokens] at h
  rcases hrun : (document ((tokens t).length + 1)).run { tokens := tokens t } with e | ⟨o, s⟩
  · rw [hrun] at h
    cases h
  · rw [hrun] at h
    cases h
    obtain ⟨hnodup, hperm⟩ := adds_document _ _ [] _ _ List.nodup_nil (List.Perm.refl []) hrun
    simpa using hperm.nodup_iff.mp hnodup

end RainMeta.Yaml.Node
