import RainMeta.Proofs.Config.Loading

/-!
# Keys of configurations as they are written

What becomes of a plain tree of nodes when it is loaded as a configuration. If its scalars have
values, then so has the tree, and its value stands for it (`RainMeta.Yaml.Node.construct_of_reads`).
Expansion keeps the shape and the keys; so what comes out stands for the tree too, with every text
expanded. It goes by the texts of the value (`RainMeta.Yaml.Node.expandWhole_goesBy`): if there is
an error, it is that of the first text that cannot be expanded.

A configuration that is accepted has the deployers under the texts that are written
(`RainMeta.Config.keys_as_written`).
-/

namespace RainMeta

/-! ### Trees that load -/

namespace Yaml.Node

open Expansion

variable {valueOf : Tag → Text → Except Error Value} {env : Environment} {root n : Node}
  {v : Value} {depth : Nat}

/-- **A tree loads**: its collections have the usual tags, its keys are scalars and take over
nothing, and its other scalars have values without parts. The collections are nested at most so
deep, those behind references included; so no node stands behind a reference inside itself. -/
inductive Loads (valueOf : Tag → Text → Except Error Value) (root : Node) : Nat → Node → Prop
  | scalar {depth : Nat} {anchor : Option Text} {tag : Tag} {text : Text} {v : Value}
      (h : loadScalar valueOf (tag, text) = .ok v) (hv : v.IsLeaf) :
      Loads valueOf root depth (scalar anchor tag text)
  | sequence {depth : Nat} {anchor : Option Text} {items : List Node}
      (each : ∀ n ∈ items, Loads valueOf root depth n) :
      Loads valueOf root (depth + 1) (sequence anchor .sequence items)
  | mapping {depth : Nat} {anchor : Option Text} {entries : List (Node × Node)}
      (keys : ∀ e ∈ entries, PlainKey root e.1)
      (each : ∀ e ∈ entries, Loads valueOf root depth e.2) :
      Loads valueOf root (depth + 1) (mapping anchor .mapping entries)
  | reference {depth : Nat} {name : Text} {n : Node} (h : root.named? name = some n)
      (hn : Loads valueOf root depth n) : Loads valueOf root depth (reference name)

/-- A tree that loads is plain, and its scalars have values. -/
theorem Loads.exists_reads (h : Loads valueOf root depth n) :
    ∃ scalars, Reads root depth n scalars ∧ ∀ s ∈ scalars, ∃ v, loadScalar valueOf s = .ok v := by
  induction h with
  | @scalar depth anchor tag text v h _ =>
    exact ⟨[(tag, text)], .scalar, List.forall_mem_singleton.mpr ⟨v, h⟩⟩
  | sequence _ ih =>
    choose! scalars hreads hs using ih
    refine ⟨_, .sequence hreads, fun s h => ?_⟩
    obtain ⟨n, hn, hmem⟩ := List.mem_flatMap.mp h
    exact hs n hn s hmem
  | mapping keys _ ih =>
    choose! scalars hreads hs using ih
    refine ⟨_, .mapping keys hreads, fun s h => ?_⟩
    obtain ⟨e, he, hmem⟩ := List.mem_flatMap.mp h
    exact hs e he s hmem
  | reference hname _ ih =>
    obtain ⟨scalars, hreads, hs⟩ := ih
    exact ⟨scalars, .reference hname hreads, hs⟩

/-- **The value of a tree that loads** stands for it. -/
theorem Loads.exists_construct (hroot : root.names.Nodup) (h : Loads valueOf root depth root) :
    ∃ v, construct valueOf root .asWritten = .ok v ∧ Stands valueOf (· = ·) root root v := by
  obtain ⟨scalars, hreads, hs⟩ := h.exists_reads
  exact (construct_of_reads hroot hreads).2 hs

theorem Loads.isLeaf {anchor : Option Text} {tag : Tag} {text : Text}
    (h : Loads valueOf root depth (Node.scalar anchor tag text))
    (hv : loadScalar valueOf (tag, text) = .ok v) : v.IsLeaf := by
  cases h with
  | scalar hw hleaf =>
    obtain rfl := Except.ok.inj (hv.symm.trans hw)
    exact hleaf

/-- What stands behind a reference loads as well. -/
theorem Loads.target (h : Loads valueOf root depth n) :
    Loads valueOf root depth (n.target root) := by
  cases h with
  | scalar h hv => exact .scalar h hv
  | sequence each => exact .sequence each
  | mapping keys each => exact .mapping keys each
  | @reference _ name m hname hm =>
    have htarget : (Node.reference name).target root = m := by rw [Node.target, hname]; rfl
    exact htarget ▸ hm

/-! ### Expansion of what stands for a tree -/

/-- A value stands for a tree with all texts expanded. -/
abbrev StandsExpanded (valueOf : Tag → Text → Except Error Value) (env : Environment) :
    Node → Node → Value → Prop :=
  Stands valueOf fun t u => expandText env t = .ok u

theorem expands_scalar {anchor : Option Text} {tag : Tag} {text : Text}
    (hn : Loads valueOf root depth (scalar anchor tag text))
    (h : Stands valueOf (· = ·) root (scalar anchor tag text) v) :
    GoesBy (expandText env) v.texts (StandsExpanded valueOf env root (scalar anchor tag text))
      (expandWhole env v) := by
  cases h with
  | text h hu =>
    subst hu
    rw [expandWhole, Value.texts]
    exact (GoesBy.single (expandText env) _).map fun u hu => .text h hu
  | other h htext =>
    have hself : StandsExpanded valueOf env root (scalar anchor tag text) v := .other h htext
    have hleaf := hn.isLeaf h
    cases v with
    | text t => exact absurd rfl (htext t)
    | list items => exact absurd rfl (hleaf.ne_list items)
    | mapping entries =>
      obtain rfl := hleaf.eq_nil entries rfl
      rw [expandWhole]
      exact .ok rfl hself
    | _ =>
      rw [expandWhole]
      · exact .ok rfl hself
      all_goals simp

/-- The dictionary of a mapping keeps its keys. -/
theorem expands_dictionary {anchor : Option Text} {entries : List (Node × Node)}
    {fields : List (Text × Value)}
    (keys : fields.map Prod.fst = ((written root entries).map Prod.fst).eraseDups)
    (h : ∀ f ∈ fields, GoesBy (expandText env) f.2.texts
      (StandsExpanded valueOf env root (lastMember root entries f.1)) (expandWhole env f.2)) :
    GoesBy (expandText env) (Value.object fields).texts
      (StandsExpanded valueOf env root (mapping anchor .mapping entries))
      (expandWhole env (.object fields)) := by
  have hn : (fields.map Prod.fst).Nodup := keys ▸ nodup_eraseDups _
  have hfields : GoesBy (expandText env) (fields.flatMap fun f => f.2.texts)
      (List.Forall₂ (fun f g => g.1 = f.1 ∧
        StandsExpanded valueOf env root (lastMember root entries f.1) g.2) fields)
      (fields.mapM (expandField env)) :=
    GoesBy.mapM (List.forall₂_same.mpr fun f hf => (h f hf).map fun w hw => ⟨rfl, hw⟩)
  have hexpand : expandWhole env (.object fields) =
      (fields.mapM (expandField env)).map Value.object := by
    rw [Value.object, expandWhole, expandEntries_object hn]
    cases fields.mapM (expandField env) <;> rfl
  rw [Value.texts_object, hexpand]
  refine hfields.map fun fields' hfields' => ?_
  refine .dictionary ((Table.keys_of_forall₂ hfields').trans keys) ?_
  refine forall_of_forall₂ hfields' fun f g hfg => ?_
  rw [hfg.1]
  exact hfg.2

/-- **Expansion of what stands for a node** goes by its texts, and gives what stands for the node
with its texts expanded. -/
theorem expandWhole_goesBy (h : Loads valueOf root depth n)
    (hstands : Stands valueOf (· = ·) root n v) :
    GoesBy (expandText env) v.texts (StandsExpanded valueOf env root n) (expandWhole env v) := by
  induction h generalizing v with
  | @scalar depth anchor tag text w h hv =>
    have hn : Loads valueOf root depth (Node.scalar anchor tag text) := .scalar h hv
    exact expands_scalar hn hstands
  | sequence each ih =>
    cases hstands with
    | list hvalues =>
      rw [expandWhole, expandItems_eq_mapM, Value.texts_list]
      have hitems := (List.forall₂_and_left _ _).mpr ⟨fun part hpart w => @ih part hpart w, hvalues⟩
      exact (GoesBy.mapM (hitems.imp fun part w h => h.1 w h.2)).map fun _ => .list
  | @mapping depth anchor entries keys each ih =>
    cases hstands with
    | @dictionary _ _ fields hkeys hfields =>
      refine expands_dictionary hkeys fun f hf => ?_
      have hwritten : f.1 ∈ (written root entries).map Prod.fst := by
        rw [← List.mem_eraseDups, ← hkeys]
        exact List.mem_map_of_mem hf
      obtain ⟨e, he, hlast⟩ := exists_lastMember hwritten
      have hmember := hfields f hf
      rw [hlast] at hmember ⊢
      exact ih e he hmember
  | reference hname hm ih =>
    cases hstands with
    | reference hname' hm' =>
      obtain rfl := Option.some.inj (hname.symm.trans hname')
      exact (ih hm').imp fun _ => .reference hname

/-! ### Dictionaries -/

variable {leaf : Text → Text → Prop}

theorem anchor?_of_named? {name : Text} (h : root.named? name = some n) :
    n.anchor? = some name := by
  rw [named?, Option.map_eq_some_iff] at h
  obtain ⟨e, he, rfl⟩ := h
  obtain rfl : e.1 = name := by simpa using List.find?_some he
  exact (of_mem_anchored (List.mem_of_find?_eq_some he)).1

/-- What stands for a node stands for what is behind it, if that is a reference. -/
theorem stands_target (h : Stands valueOf leaf root n v) :
    Stands valueOf leaf root (n.target root) v ∧ ∀ name, n.target root ≠ reference name := by
  cases h with
  | text h hu => exact ⟨.text h hu, by rintro _ ⟨⟩⟩
  | other h hv => exact ⟨.other h hv, by rintro _ ⟨⟩⟩
  | list each => exact ⟨.list each, by rintro _ ⟨⟩⟩
  | dictionary keys each => exact ⟨.dictionary keys each, by rintro _ ⟨⟩⟩
  | @reference name m _ hname hm =>
    have htarget : (reference name).target root = m := by rw [target, hname]; rfl
    rw [htarget]
    refine ⟨hm, ?_⟩
    rintro name' rfl
    cases anchor?_of_named? hname

/-- **A dictionary has the members of a node**: their keys, in the order of their first entries,
each with what stands for its last node. -/
structure HasMembers (valueOf : Tag → Text → Except Error Value) (leaf : Text → Text → Prop)
    (root n : Node) (fields : List (Text × Value)) : Prop where
  keys : fields.map Prod.fst = ((members root n).map Prod.fst).eraseDups
  each : ∀ f ∈ fields, ∃ m, Table.lastValue f.1 (members root n) = some m ∧
    Stands valueOf leaf root m f.2

/-- The members of a tree that loads do so too. -/
theorem Loads.of_mem_members (h : Loads valueOf root depth n) {e : Text × Node}
    (he : e ∈ members root n) : ∃ depth, Loads valueOf root depth e.2 := by
  have htarget := h.target
  rw [members] at he
  split at he
  · next anchor tag entries hentries =>
    rw [hentries] at htarget
    obtain ⟨f, hf, rfl⟩ := List.mem_map.mp he
    cases htarget with
    | mapping _ each => exact ⟨_, each f hf⟩
  · cases he

/-- Where something other than a mapping stands for a node, it has no members. -/
theorem hasMembers_of_stands (hn : Loads valueOf root depth n)
    (h : Stands valueOf leaf root n v) :
    (∃ fields, v = .object fields ∧ HasMembers valueOf leaf root n fields) ∨
      (∀ entries, v ≠ .mapping entries) ∧ HasMembers valueOf leaf root n [] := by
  obtain ⟨h, hreference⟩ := stands_target h
  have htarget := hn.target
  have none : members root n = [] → HasMembers valueOf leaf root n [] := by
    intro hnil
    exact ⟨by rw [hnil]; rfl, List.forall_mem_nil _⟩
  rw [members] at none
  generalize hm : n.target root = m at h hreference none htarget
  cases h with
  | text h hu => exact .inr ⟨by rintro _ ⟨⟩, none rfl⟩
  | other h hv =>
    have hleaf := htarget.isLeaf h
    by_cases hmapping : ∃ entries, v = .mapping entries
    · obtain ⟨entries, rfl⟩ := hmapping
      obtain rfl := hleaf.eq_nil entries rfl
      exact .inl ⟨[], rfl, none rfl⟩
    · exact .inr ⟨not_exists.mp hmapping, none rfl⟩
  | list each => exact .inr ⟨by rintro _ ⟨⟩, none rfl⟩
  | reference hname _ => exact absurd rfl (hreference _)
  | @dictionary anchor entries fields keys each =>
    have hmembers : members root n = written root entries := by rw [members, hm]
    refine .inl ⟨fields, rfl, by rw [hmembers, keys], fun f hf => ?_⟩
    have hwritten : f.1 ∈ (written root entries).map Prod.fst := by
      rw [← List.mem_eraseDups, ← keys]
      exact List.mem_map_of_mem hf
    obtain ⟨part, hlast⟩ := Table.exists_lastValue hwritten
    have hpart := each f hf
    rw [lastMember, hlast] at hpart
    exact ⟨part, hmembers ▸ hlast, hpart⟩

end Yaml.Node

/-! ### Deployers -/

theorem Modelled.forall₂_of_all {α : Type} {rs : List (Modelled α)} {as : List α}
    (h : Modelled.all rs = .ok as) : List.Forall₂ (fun r a => r = .ok a) rs as := by
  induction rs generalizing as with
  | nil =>
    cases h
    exact .nil
  | cons r rest ih =>
    rcases r with errors | a
    · cases h
    rcases hrest : Modelled.all rest with errors | as'
    · simp [Modelled.all, hrest] at h
    · simp only [Modelled.all, hrest] at h
      cases h
      exact .cons rfl (ih hrest)

/-- An object is read under its keys. -/
theorem Model.keys_of_objectOf {α : Type} {look : Value → Modelled α}
    {fields : List (Text × Value)} {found : List (Text × α)}
    (h : objectOf look (.object fields) = .ok found) :
    found.map Prod.fst = fields.map Prod.fst := by
  have hall := Modelled.forall₂_of_all h
  rw [Grammar.entriesOf_entriesOfFields, List.forall₂_map_left_iff] at hall
  refine Table.keys_of_forall₂ (R := fun _ _ => True) (hall.imp fun f g hfg => ⟨?_, trivial⟩)
  rcases hlook : (look f.2).inside (shownKey f.1) with errors | a
  · rw [hlook] at hfg
    cases hfg
  · rw [hlook] at hfg
    cases hfg
    rfl

namespace Config

/-- The deployers of a configuration are read from one field. -/
theorem deployers_of_ofDocument {entries : List (Value × Value)} {c : Config}
    (h : ofDocument (.mapping entries) = .ok c) :
    Model.optional "deployers" [] (Model.objectOf DeployerConfig.ofDocument) entries =
      .ok c.deployers := by
  rw [ofDocument, Model.finish] at h
  generalize Model.optional "deployers" [] _ entries = deployers at h ⊢
  generalize Model.optional "include" [] _ entries = roots at h
  generalize Model.optional "subgraphs" [] _ entries = subgraphs at h
  generalize Model.optional "meta" [] _ entries = metas at h
  split at h
  · cases h
  split at h
  · rcases roots with errors | roots
    · cases h
    rcases subgraphs with errors | subgraphs
    · cases h
    rcases metas with errors | metas
    · cases h
    rcases deployers with errors | deployers
    · cases h
    · cases h
      rfl
  · cases h

/-- **The keys that are written** in the last entry for deployers, in the order of their first
entries. -/
def writtenDeployers (root : Yaml.Node) : List Text :=
  ((Table.lastValue ("deployers" : Text) (root.members root)).elim [] fun n =>
    (root.members n).map Prod.fst).eraseDups

open Yaml.Node in
/-- A document with the members of a tree has its deployers. -/
theorem keys_deployers_of_hasMembers {valueOf : Yaml.Tag → Text → Except Yaml.Error Value}
    {leaf : Text → Text → Prop} {root : Yaml.Node} {fields : List (Text × Value)} {c : Config}
    {depth : Nat} (hloads : Loads valueOf root depth root)
    (h : HasMembers valueOf leaf root root fields)
    (hc : ofDocument (.object fields) = .ok c) :
    c.deployers.map Prod.fst = writtenDeployers root := by
  have hn : (fields.map Prod.fst).Nodup := h.keys ▸ nodup_eraseDups _
  have hfield := deployers_of_ofDocument hc
  rw [Model.optional] at hfield
  rcases hd : Value.fieldOf? "deployers" (Value.entriesOfFields fields) with _ | d
  · rw [hd] at hfield
    -- then the key is not written
    have hlast : Table.lastValue ("deployers" : Text) (root.members root) = none := by
      rw [Option.eq_none_iff_forall_ne_some]
      intro n hlast
      have hkey : ("deployers" : Text) ∈ fields.map Prod.fst := by
        rw [h.keys, List.mem_eraseDups]
        exact List.mem_map.mpr ⟨_, Table.mem_of_lastValue hlast, rfl⟩
      obtain ⟨f, hf, hk⟩ := List.mem_map.mp hkey
      exact (Value.fieldOf?_eq_none_iff hn).mp hd f hf hk
    rw [writtenDeployers, hlast, ← Except.ok.inj hfield]
    rfl
  · rw [hd] at hfield
    obtain ⟨n, hlast, hstands⟩ := h.each _ ((Value.fieldOf?_eq_some_iff hn).mp hd)
    rw [writtenDeployers, hlast, Option.elim_some]
    dsimp only at hfield
    rcases hlook : Model.objectOf DeployerConfig.ofDocument d with errors | found
    · rw [hlook] at hfield
      cases hfield
    · rw [hlook] at hfield
      obtain rfl := Except.ok.inj hfield
      obtain ⟨_, hn⟩ := hloads.of_mem_members (Table.mem_of_lastValue hlast)
      rcases hasMembers_of_stands hn hstands with ⟨fields', rfl, hmembers⟩ | ⟨hmapping, -⟩
      · rw [Model.keys_of_objectOf hlook, hmembers.keys]
      · cases d with
        | mapping entries => exact absurd rfl (hmapping entries)
        | _ => cases hlook

open Yaml.Node (Loads Stands StandsExpanded HasMembers)

section Loading

variable [Platform] {tree : FileTree} {env : Environment} {r : Registry} {path : Path} {c : Config}

/-- **A configuration that is loaded** is read from the document with its variables expanded. An
empty document is an empty object. -/
theorem ofDocument_of_load {text : Text} {v : Value} (ht : readText tree path = .ok text)
    (hd : readDocument path text = .ok v) (h : load tree env r path = .ok c) :
    ∃ entries expanded config, (v = .mapping entries ∨ v = .null ∧ entries = []) ∧
      Expansion.expand env (.mapping entries) = .ok expanded ∧
      ofDocument expanded = .ok config ∧ c = config.resolved path.parent := by
  rcases load_cases_of_readDocument ht hd with ⟨entries, hfile⟩ | hproblem
  · rw [load_of_holdsMapping hfile, parse, expanded] at h
    obtain ⟨text', ht', hdocument⟩ := hfile
    obtain rfl := Except.ok.inj (ht.symm.trans ht')
    rw [hd, Except.ok.injEq, Except.ok.injEq] at hdocument
    rcases hexpand : Expansion.expand env (.mapping entries) with e | expanded
    · rw [hexpand] at h
      cases h
    rw [hexpand] at h
    change (checked tree r path.text expanded >>= _) = _ at h
    rcases hcheck : checked tree r path.text expanded with fault | _
    · rw [hcheck] at h
      cases h
    rw [hcheck] at h
    change ((ofDocument expanded).mapError _ >>= _) = _ at h
    rcases hconfig : ofDocument expanded with errors | config
    · rw [hconfig] at h
      cases h
    · rw [hconfig] at h
      cases h
      exact ⟨entries, expanded, config, hdocument, hexpand, hconfig, rfl⟩
  · rw [hproblem] at h
    cases h

/-! ### Documents -/

variable {loader : Yaml.Loader} {t : Text} {root : Yaml.Node} {depth : Nat}

omit [Platform] in
/-- What is made of a text that holds a tree. -/
theorem read_of_compose (hcompose : loader.compose t = .ok (some root)) :
    Yaml.read loader .asWritten t = if loader.completes .asWritten t then
      root.construct loader.valueOf .asWritten else .error .tooDeep := by
  rw [Yaml.read, hcompose]
  cases loader.completes .asWritten t <;> rfl

/-- The value of a tree that loads, expanded, if the stack suffices. -/
theorem expand_goesBy {env : Environment} {v : Value} (hfits : Expansion.fits env v)
    (h : Loads loader.valueOf root depth root) (hv : Stands loader.valueOf (· = ·) root root v) :
    GoesBy (Expansion.expandText env) v.texts (StandsExpanded loader.valueOf env root root)
      (Expansion.expand env v) := by
  rw [Expansion.expand, if_pos hfits]
  exact Yaml.Node.expandWhole_goesBy h hv

/-- What becomes of the value of a tree that loads has the members of the tree. An empty document
becomes an empty object. -/
theorem exists_members_of_expand {env : Environment} {v expanded : Value}
    {entries : List (Value × Value)} (h : Loads loader.valueOf root depth root)
    (hv : Stands loader.valueOf (· = ·) root root v)
    (hentries : v = .mapping entries ∨ v = .null ∧ entries = [])
    (hexpand : Expansion.expand env (.mapping entries) = .ok expanded) :
    ∃ leaf fields, expanded = .object fields ∧ HasMembers loader.valueOf leaf root root fields := by
  have hfits : Expansion.fits env (.mapping entries) := by
    rw [Expansion.expand] at hexpand
    split at hexpand
    · assumption
    · cases hexpand
  rcases hentries with rfl | ⟨rfl, rfl⟩
  · have hstands := (expand_goesBy hfits h hv).of_eq_ok hexpand
    obtain ⟨entries', rfl⟩ := exists_of_expand hexpand
    rcases Yaml.Node.hasMembers_of_stands h hstands with ⟨fields, hfields, hall⟩ | ⟨hmapping, -⟩
    · exact ⟨_, fields, hfields, hall⟩
    · exact absurd rfl (hmapping entries')
  · rcases Yaml.Node.hasMembers_of_stands h hv with ⟨fields, ⟨⟩, -⟩ | ⟨-, hnone⟩
    rw [Expansion.expand, if_pos hfits] at hexpand
    cases hexpand
    exact ⟨_, [], rfl, hnone⟩

/-- The deployers of a configuration in a text that holds a tree that loads. -/
theorem keys_deployers_of_load (hcompose : loader.compose t = .ok (some root))
    (hroot : root.names.Nodup) (h : Loads loader.valueOf root depth root)
    (hjson : isJson path = false)
    (ht : readText tree path = .ok t)
    (hyaml : Platform.yaml .asWritten t = Yaml.read loader .asWritten t)
    (hc : load tree env r path = .ok c) : c.deployers.map Prod.fst = writtenDeployers root := by
  obtain ⟨v, hv, hstands⟩ := h.exists_construct hroot
  have hread := read_of_compose hcompose
  rw [hv, ← hyaml] at hread
  rcases hcompletes : loader.completes .asWritten t with _ | _
  -- if the stack does not suffice, nothing is loaded
  · have hdocument : readDocument path t = .error (.crash .tooDeep) :=
      readDocument_eq_crash_iff.mpr (.depth hjson (by rw [hread, hcompletes]; rfl))
    cases hc.symm.trans (load_of_readDocument_error ht hdocument)
  · have hdocument : readDocument path t = .ok v := by
      rw [readDocument, if_neg (by simp [hjson]), hread, hcompletes]
      rfl
    obtain ⟨entries, expanded, config, hentries, hexpand, hconfig, rfl⟩ :=
      ofDocument_of_load ht hdocument hc
    obtain ⟨leaf, fields, rfl, hmembers⟩ := exists_members_of_expand h hstands hentries hexpand
    rw [← keys_deployers_of_hasMembers h hmembers hconfig, resolved, List.map_map]
    rfl

/-- **Keys of mappings stay as they are written**, on every platform and whatever the library makes
of texts and scalars. Let a text hold a tree that loads, in which a name belongs to one node.

* What is read is a value that stands for the tree, in which every mapping is a dictionary with the
  texts of its keys; or there is none as the stack does not suffice for the text.
* What that is expanded to stands for the tree too, with every text expanded, unless the stack does
  not suffice for it. If there is another error, it is that of the first text that cannot be
  expanded; without surrogates in the texts, it names the first reference that is unresolved.
* A configuration that is loaded from the text has the deployers under the texts of their keys. -/
theorem keys_as_written (hcompose : loader.compose t = .ok (some root))
    (hroot : root.names.Nodup) (h : Loads loader.valueOf root depth root) :
    (Yaml.read loader .asWritten t = .error .tooDeep ∧ loader.completes .asWritten t = false ∨
      ∃ v, Yaml.read loader .asWritten t = .ok v ∧ Stands loader.valueOf (· = ·) root root v ∧
        ∀ env, Expansion.fits env v = false ∧ Expansion.expand env v = .error .tooDeep ∨
          (∀ w, Expansion.expand env v = .ok w →
            StandsExpanded loader.valueOf env root root w) ∧
          (∀ e, Expansion.expand env v = .error e ↔
            v.texts.mapM (Expansion.expandText env) = .error e) ∧
          ((∀ t ∈ v.texts, t.Scalar) → ∀ e, Expansion.expand env v = .error e ↔
            ∃ body, e = .missing body ∧
              (Expansion.references v).find? (Expansion.Unresolved env ·) = some body)) ∧
    ∀ tree env r path c, isJson path = false → readText tree path = .ok t →
      Platform.yaml .asWritten t = Yaml.read loader .asWritten t →
      load tree env r path = .ok c → c.deployers.map Prod.fst = writtenDeployers root := by
  refine ⟨?_, fun tree env r path c hjson ht hyaml hc =>
    keys_deployers_of_load hcompose hroot h hjson ht hyaml hc⟩
  obtain ⟨v, hv, hstands⟩ := h.exists_construct hroot
  rw [read_of_compose hcompose, hv]
  rcases hcompletes : loader.completes .asWritten t with _ | _
  · exact .inl ⟨rfl, rfl⟩
  refine .inr ⟨v, rfl, hstands, fun env => ?_⟩
  rcases hfits : Expansion.fits env v with _ | _
  · exact .inl ⟨rfl, by rw [Expansion.expand, hfits]; rfl⟩
  have hexpand := expand_goesBy hfits h hstands
  refine .inr ⟨fun w hw => hexpand.of_eq_ok hw, hexpand.error_iff, fun hscalar e => ?_⟩
  rw [hexpand.error_iff]
  exact (Expansion.Exact.mapM fun t ht =>
    Expansion.exact_expandText env (hscalar t ht)).error e

end Loading

theorem compose_usual : Yaml.Loader.usual.compose = Yaml.Node.read := rfl

theorem completes_usual : Yaml.Loader.usual.completes = Yaml.fitsStack := rfl

/-- A scalar that is a text. -/
def textNode (t : Text) : Yaml.Node :=
  .scalar none .text t

/-- The text of a file with a deployer under two keys that are one number. One of them is written
again, as a number by its tag. -/
def deployersText : Text :=
  "\x7bdeployers: \x7b0x10: &d \x7bconstructionMeta: \x7bbinary: m\x7d, expressionDeployer: e, " ++
  "parser: p, store: s, interpreter: i\x7d, 16: *d, !!int 0x10: *d\x7d\x7d"

/-- The deployer as it is written. -/
def deployerTree : Yaml.Node :=
  .mapping (some "d") .mapping [
    (textNode "constructionMeta", .mapping none .mapping [(textNode "binary", textNode "m")]),
    (textNode "expressionDeployer", textNode "e"), (textNode "parser", textNode "p"),
    (textNode "store", textNode "s"), (textNode "interpreter", textNode "i")]

/-- The tree in the text. -/
def deployersTree : Yaml.Node :=
  .mapping none .mapping [(textNode "deployers", .mapping none .mapping [
    (.scalar none .int "0x10", deployerTree), (.scalar none .int "16", .reference "d"),
    (.scalar none .int "0x10", .reference "d")])]

/-- Its value. -/
def deployersValue : Value :=
  let deployer : Value := .object [("constructionMeta", .object [("binary", .text "m")]),
    ("expressionDeployer", .text "e"), ("parser", .text "p"), ("store", .text "s"),
    ("interpreter", .text "i")]
  .object [("deployers", .object [("0x10", deployer), ("16", deployer)])]

/-- The configuration in it. -/
def deployersConfig : Config :=
  let deployer : DeployerConfig :=
    { constructionMeta := .binary (Path.ofText "m")
      expressionDeployer := Path.ofText "e"
      parser := Path.ofText "p"
      store := Path.ofText "s"
      interpreter := Path.ofText "i" }
  { deployers := [("0x10", deployer), ("16", deployer)] }

theorem read_deployersText : Yaml.Node.read deployersText = .ok (some deployersTree) := by
  have htokens : Yaml.tokens deployersText = [.flowMappingStart,
      .key, .scalar true "deployers", .value, .flowMappingStart,
      .key, .scalar true "0x10", .value, .anchor "d", .flowMappingStart,
      .key, .scalar true "constructionMeta", .value, .flowMappingStart,
      .key, .scalar true "binary", .value, .scalar true "m", .flowMappingEnd, .flowEntry,
      .key, .scalar true "expressionDeployer", .value, .scalar true "e", .flowEntry,
      .key, .scalar true "parser", .value, .scalar true "p", .flowEntry,
      .key, .scalar true "store", .value, .scalar true "s", .flowEntry,
      .key, .scalar true "interpreter", .value, .scalar true "i", .flowMappingEnd, .flowEntry,
      .key, .scalar true "16", .value, .reference "d", .flowEntry,
      .key, .tag (some "!!") "int", .scalar true "0x10", .value, .reference "d", .flowMappingEnd,
      .flowMappingEnd, .streamEnd] := by decide +kernel
  rw [Yaml.Node.read, htokens]
  with_unfolding_all rfl

theorem loads_textNode (root : Yaml.Node) (depth : Nat) (t : Text) :
    Loads Yaml.Loader.usual.valueOf root depth (textNode t) :=
  .scalar rfl ⟨by rintro _ ⟨⟩, by rintro _ ⟨⟩⟩

theorem loads_deployersTree : Loads Yaml.Loader.usual.valueOf deployersTree 4 deployersTree := by
  have hkey : ∀ anchor tag text, tag ≠ .merge →
      Yaml.Node.PlainKey deployersTree (.scalar anchor tag text) :=
    fun anchor tag text htag => ⟨anchor, tag, text, rfl, htag⟩
  have hdeployer : Loads Yaml.Loader.usual.valueOf deployersTree 2 deployerTree := by
    refine .mapping ?_ ?_
    · simp only [List.forall_mem_cons, List.not_mem_nil, false_imp_iff, implies_true, and_true]
      refine ⟨?_, ?_, ?_, ?_, ?_⟩ <;> exact hkey _ _ _ (by decide)
    · simp only [List.forall_mem_cons, List.not_mem_nil, false_imp_iff, implies_true, and_true,
        loads_textNode]
      exact .mapping (List.forall_mem_singleton.mpr (hkey _ _ _ (by decide)))
        (List.forall_mem_singleton.mpr (loads_textNode _ 0 _))
  have hreference : Loads Yaml.Loader.usual.valueOf deployersTree 2 (.reference "d") :=
    .reference rfl hdeployer
  refine .mapping (List.forall_mem_singleton.mpr (hkey _ _ _ (by decide)))
    (List.forall_mem_singleton.mpr (.mapping ?_ ?_))
  · simp only [List.forall_mem_cons, List.not_mem_nil, false_imp_iff, implies_true, and_true]
    refine ⟨?_, ?_, ?_⟩ <;> exact hkey _ _ _ (by decide)
  · simp only [List.forall_mem_cons, List.not_mem_nil, false_imp_iff, implies_true, and_true]
    exact ⟨hdeployer, hreference, hreference⟩

/-- The file is accepted, and the keys that are one number stay two keys. -/
theorem keys_as_written_deployersText :
    Yaml.Node.read deployersText = .ok (some deployersTree) ∧ deployersTree.names.Nodup ∧
    Loads Yaml.Loader.usual.valueOf deployersTree 4 deployersTree ∧
    Yaml.read .usual .asWritten deployersText = .ok deployersValue ∧
    Stands Yaml.Loader.usual.valueOf (· = ·) deployersTree deployersTree deployersValue ∧
    StandsExpanded Yaml.Loader.usual.valueOf ⟨[]⟩ deployersTree deployersTree deployersValue ∧
    load (singleFile "c.yaml" deployersText) ⟨[]⟩ { source := .packaged } (Path.ofText "c.yaml") =
      .ok deployersConfig ∧
    deployersConfig.deployers.map Prod.fst = writtenDeployers deployersTree ∧
    writtenDeployers deployersTree = ["0x10", "16"] := by
  have hjson : isJson (Path.ofText "c.yaml") = false := by decide
  have hnames : deployersTree.names.Nodup := by decide
  have htext : readText (singleFile "c.yaml" deployersText) (Path.ofText "c.yaml") =
      .ok deployersText := by cbv
  have hcompletes : Yaml.Loader.usual.completes .asWritten deployersText = true := by
    decide +kernel
  have hcompose : Yaml.Loader.usual.compose deployersText = .ok (some deployersTree) := by
    rw [compose_usual, read_deployersText]
  have hvalue : Yaml.read .usual .asWritten deployersText = .ok deployersValue := by
    rw [read_of_compose hcompose, hcompletes]
    rfl
  have hexpand : Expansion.expand ⟨[]⟩ deployersValue = .ok deployersValue := by
    with_unfolding_all rfl
  have hfile : HoldsMapping (singleFile "c.yaml" deployersText) (Path.ofText "c.yaml") _ :=
    ⟨deployersText, htext, .inl (by
      rw [readDocument, if_neg (by decide)]
      exact congrArg (Except.mapError _) hvalue)⟩
  have hload : load (singleFile "c.yaml" deployersText) ⟨[]⟩ { source := .packaged }
      (Path.ofText "c.yaml") = .ok deployersConfig := by
    rw [load_of_holdsMapping hfile]
    decide +kernel
  obtain ⟨⟨-, hdeep⟩ | ⟨v, hv, hstands, hexpands⟩, hkeys⟩ :=
    keys_as_written hcompose hnames loads_deployersTree
  · cases hcompletes.symm.trans hdeep
  · obtain rfl := Except.ok.inj (hvalue.symm.trans hv)
    rcases hexpands ⟨[]⟩ with ⟨-, hdeep⟩ | ⟨hexpanded, -⟩
    · cases hexpand.symm.trans hdeep
    · exact ⟨read_deployersText, hnames, loads_deployersTree, hvalue, hstands,
        hexpanded _ hexpand, hload, hkeys _ _ _ _ _ hjson htext rfl hload, by decide⟩

/-! ### Two texts that come to nothing -/

/-- The text of a file with a reference to a variable that is not set. -/
def missingText : Text := "x: ${X}"

/-- The tree in it. -/
def missingTree : Yaml.Node :=
  .mapping none .mapping [(textNode "x", textNode "${X}")]

theorem read_missingText : Yaml.Node.read missingText = .ok (some missingTree) := by
  have htokens : Yaml.tokens missingText = [.blockMappingStart, .key, .scalar true "x", .value,
      .scalar true "${X}", .blockEnd, .streamEnd] := by decide +kernel
  rw [Yaml.Node.read, htokens]
  with_unfolding_all rfl

/-- Whether a node is lists inside each other, `n` of them, around a scalar that is left out. -/
def isTower : Nat → Yaml.Node → Bool
  | 0, .scalar none .null [] => true
  | n + 1, .sequence none .sequence [part] => isTower n part
  | _, _ => false

theorem loads_of_isTower {root part : Yaml.Node} {n : Nat} (h : isTower n part) :
    Loads Yaml.Loader.usual.valueOf root n part := by
  induction n, part using isTower.induct with
  | case1 => exact .scalar rfl ⟨by rintro _ ⟨⟩, by rintro _ ⟨⟩⟩
  | case2 n part ih => exact .sequence (List.forall_mem_singleton.mpr (ih h))
  | case3 n part hblank hlist =>
    rw [isTower.eq_3 n part hblank hlist] at h
    cases h

/-- Whether what is read is a mapping with lists inside each other under one key. -/
def isTallMapping (n : Nat) : Except Yaml.Error (Option Yaml.Node) → Bool
  | .ok (some (.mapping none .mapping [(.scalar none .text _, part)])) => isTower n part
  | _ => false

/-- The text of a file with so many lists inside each other that they use up the stack. -/
def towerText : Text := "x:\n" ++ (List.replicate 350 ("- " : Text)).flatten

/-- Its tokens. -/
def towerTokens : List Yaml.Token :=
  [.blockMappingStart, .key, .scalar true "x", .value, .blockEntry] ++
    (List.replicate 349 [.blockSequenceStart, .blockEntry]).flatten ++
    List.replicate 350 .blockEnd ++ [.streamEnd]

theorem tokens_towerText : Yaml.tokens towerText = towerTokens := by
  decide +kernel

theorem loads_towerText : ∃ root, Yaml.Loader.usual.compose towerText = .ok (some root) ∧
    root.names.Nodup ∧ Loads Yaml.Loader.usual.valueOf root 351 root := by
  have htall : isTallMapping 350 (Yaml.Node.read towerText) = true := by
    rw [Yaml.Node.read, tokens_towerText]
    decide +kernel
  rw [compose_usual]
  unfold isTallMapping at htall
  split at htall
  · next key part hread =>
    refine ⟨_, hread, Yaml.Node.nodup_names_of_read hread, ?_⟩
    exact .mapping (List.forall_mem_singleton.mpr ⟨_, _, _, rfl, by decide⟩)
      (List.forall_mem_singleton.mpr (loads_of_isTower htall))
  · cases htall

/-- **Loading a plain tree need not give a dictionary**: it ends where a variable is missing, and
where lists are nested so deeply that they use up the stack. -/
theorem expand_missingText :
    (Yaml.Loader.usual.compose missingText = .ok (some missingTree) ∧
      Loads Yaml.Loader.usual.valueOf missingTree 1 missingTree ∧
      ¬∃ v w, Yaml.read .usual .asWritten missingText = .ok v ∧
        Expansion.expand ⟨[]⟩ v = .ok w) ∧
    ∃ root, Yaml.Loader.usual.compose towerText = .ok (some root) ∧ root.names.Nodup ∧
      Loads Yaml.Loader.usual.valueOf root 351 root ∧
      Yaml.read .usual .asWritten towerText = .error .tooDeep := by
  have hcompose : Yaml.Loader.usual.compose missingText = .ok (some missingTree) := by
    rw [compose_usual, read_missingText]
  have hkey : Yaml.Node.PlainKey missingTree (textNode "x") := ⟨none, .text, "x", rfl, by decide⟩
  have hloads : Loads Yaml.Loader.usual.valueOf missingTree 1 missingTree :=
    .mapping (List.forall_mem_singleton.mpr hkey)
      (List.forall_mem_singleton.mpr (loads_textNode _ 0 _))
  have hcompletes : Yaml.Loader.usual.completes .asWritten missingText = true := by
    decide +kernel
  have hvalue : Yaml.read .usual .asWritten missingText = .ok (.object [("x", .text "${X}")]) := by
    rw [read_of_compose hcompose, hcompletes]
    rfl
  have hexpand : Expansion.expand ⟨[]⟩ (.object [("x", .text "${X}")]) =
      .error (.missing "X") := by
    with_unfolding_all rfl
  refine ⟨⟨hcompose, hloads, ?_⟩, ?_⟩
  · rintro ⟨v, w, hv, hw⟩
    obtain rfl := Except.ok.inj (hvalue.symm.trans hv)
    cases hexpand.symm.trans hw
  · obtain ⟨root, hcompose, hnames, hloads⟩ := loads_towerText
    have hstack : Yaml.Loader.usual.completes .asWritten towerText = false := by
      rw [completes_usual, Yaml.fitsStack, tokens_towerText]
      decide +kernel
    exact ⟨root, hcompose, hnames, hloads, by rw [read_of_compose hcompose, hstack]; rfl⟩

end Config

end RainMeta
