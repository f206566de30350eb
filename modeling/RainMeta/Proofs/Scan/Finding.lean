import Mathlib.Data.List.Nodup
import RainMeta.Proofs.FileTree.Names
import RainMeta.Proofs.Scan.Walking

/-!
# What a scan finds

A lenient scan finds the dotrains below its root, all of them and each once
(`RainMeta.Scan.scan_finds`). Which these are is said without a scan: a path leads below the root
if every directory on the way can be listed and has the next name among its entries
(`RainMeta.FileTree.LeadsBelow`), and what stands at its end is a dotrain if it is a file with the
right suffix that can be read and is a text (`RainMeta.Scan.Stands`).

## Soundness, completeness, uniqueness

What a directory contributes is said once, as an equivalence (`RainMeta.Scan.mem_survey_iff`): the
dotrains among its entries, and what its subdirectories contribute. That all that is found stands
below the root goes by induction on the walk; that nothing is left out goes by induction on the
names that lead to it. Nothing is found twice since different entries have different names, and
what is found below an entry has its path in front.

## Entries that are looked at in two ways

A scan takes the word of a listing for what an entry is, unless it is a link; then it asks for the
path with a slash put behind the directory. Only a dotrain is read by the path that is shown. The
three agree if the path leads anywhere at all (`RainMeta.Scan.exists_kindOfEntry_of_lists`).
-/

namespace RainMeta

/-- The path of what stands some names below. -/
def Path.below (p : Path) (names : List Text) : Path :=
  { p with names := p.names ++ names }

@[simp] theorem Path.below_nil (p : Path) : p.below [] = p := by
  simp [below]

theorem Path.below_cons (p : Path) (name : Text) (names : List Text) :
    p.below (name :: names) = (p.child name).below names := by
  simp [below, child]

theorem Path.child_eq_below (p : Path) (name : Text) : p.child name = p.below [name] :=
  rfl

theorem Path.below_injective (p : Path) : Function.Injective p.below := by
  intro names names' h
  simpa [below] using h

/-! ### Suffixes -/

theorem Text.lastIndexOf?_append {mark : CodePoint} (stem : Text) {rest : Text}
    (h : mark ∉ rest) : lastIndexOf? mark (stem ++ mark :: rest) = some stem.length := by
  have hfirst : (rest.reverse ++ mark :: stem.reverse).idxOf? mark = some rest.length := by
    rw [List.idxOf?_eq_some_iff]
    refine ⟨by simp, by simp, fun j hj => ?_⟩
    rw [List.getElem_append_left (by simpa using hj)]
    intro hmark
    exact h (List.mem_reverse.mp (hmark ▸ List.getElem_mem _))
  have hreverse : (stem ++ mark :: rest).reverse = rest.reverse ++ mark :: stem.reverse := by simp
  rw [lastIndexOf?, hreverse, hfirst]
  simp only [Option.map_some, List.length_append, List.length_cons, Option.some.injEq]
  omega

/-- **A name has the suffix of dotrains** if something stands before the suffix. -/
theorem Path.suffix_eq_iff {p : Path} :
    p.suffix = Scan.suffix ↔ ∃ stem, stem ≠ [] ∧ p.name = stem ++ Scan.suffix := by
  constructor
  · intro h
    unfold suffix at h
    rcases hi : p.name.lastIndexOf? dot with _ | i
    · simp only [hi] at h
      exact absurd h (by decide)
    · simp only [hi] at h
      split at h
      · next hrange =>
        rw [Bool.and_eq_true, decide_eq_true_eq, decide_eq_true_eq] at hrange
        refine ⟨p.name.take i, ?_, by rw [← h, List.take_append_drop]⟩
        rw [← List.length_pos_iff, List.length_take]
        omega
      · exact absurd h (by decide)
  · rintro ⟨stem, hstem, hname⟩
    have hlast : p.name.lastIndexOf? dot = some stem.length := by
      rw [hname]
      exact Text.lastIndexOf?_append stem (show dot ∉ Text.ofString "rain" by decide)
    have hlength : p.name.length = stem.length + 5 := by
      rw [hname, List.length_append]
      rfl
    have hpos := List.length_pos_iff.mpr hstem
    unfold suffix
    simp only [hlast]
    rw [if_pos (by simp [hpos, hlength]), hname, List.drop_left]

namespace FileTree

variable {t : FileTree} {path : Text}

/-! ### Paths that lead below a directory -/

/-- A directory can be listed, and one of its entries has the name. -/
def Lists (t : FileTree) (dir : Path) (name : Text) : Prop :=
  ∃ entries, t.list dir.text = .ok entries ∧ ∃ e ∈ entries, Utf8.decodeEscaped e.1 = name

theorem lists_of_mem_map {dir : Path} {name : Text} {entries : List (Bytes × Node)}
    (h : t.list dir.text = .ok entries)
    (hname : name ∈ entries.map fun e => Utf8.decodeEscaped e.1) : t.Lists dir name := by
  obtain ⟨e, he, rfl⟩ := List.mem_map.mp hname
  exact ⟨entries, h, e, he, rfl⟩

/-- **Names lead below a root** if there are any, and before each of them stands the path of a
directory that can be listed and has an entry of this name; below the root, what stands at that
path is a directory, links followed. -/
def LeadsBelow (t : FileTree) (root : Path) (names : List Text) : Prop :=
  names ≠ [] ∧ ∀ above name rest, names = above ++ name :: rest →
    t.Lists (root.below above) name ∧
      (above ≠ [] → t.kindOf (root.below above).text = .ok .directory)

/-- The first name leads to an entry of the root, and the others below this entry. -/
theorem leadsBelow_cons {root : Path} {name : Text} {names : List Text} :
    t.LeadsBelow root (name :: names) ↔ t.Lists root name ∧
      (names ≠ [] → t.kindOf (root.child name).text = .ok .directory ∧
        t.LeadsBelow (root.child name) names) := by
  constructor
  · rintro ⟨-, h⟩
    refine ⟨by simpa using (h [] name names rfl).1,
      fun hne => ⟨?_, hne, fun above next rest hsplit => ?_⟩⟩
    · obtain ⟨next, rest, rfl⟩ := List.exists_cons_of_ne_nil hne
      exact (h [name] next rest rfl).2 (List.cons_ne_nil name [])
    · have hnext := h (name :: above) next rest (by rw [hsplit, List.cons_append])
      rw [Path.below_cons] at hnext
      exact ⟨hnext.1, fun _ => hnext.2 (List.cons_ne_nil name above)⟩
  · rintro ⟨hfirst, hbelow⟩
    refine ⟨List.cons_ne_nil name names, fun above next rest hsplit => ?_⟩
    rcases above with _ | ⟨first, above⟩
    · obtain ⟨rfl, rfl⟩ := List.cons_eq_cons.mp hsplit
      exact ⟨by simpa using hfirst, fun h => absurd rfl h⟩
    · obtain ⟨rfl, rfl⟩ := List.cons_eq_cons.mp hsplit
      obtain ⟨hkind, -, h⟩ := hbelow (by simp)
      rw [Path.below_cons]
      obtain ⟨hlists, hdir⟩ := h above next rest rfl
      refine ⟨hlists, fun _ => ?_⟩
      rcases above with _ | ⟨second, above⟩
      · simpa using hkind
      · exact hdir (List.cons_ne_nil second above)

/-- What a node is that is no link. -/
def kindOfNode : Node → FileKind
  | .directory _ => .directory
  | _ => .file

theorem kindOf_eq_ok_iff {kind : FileKind} :
    t.kindOf path = .ok kind ↔ ∃ node, t.find path = .ok node ∧ kindOfNode node = kind := by
  unfold kindOf
  rcases t.find path with cause | content | target | entries <;>
    simp [bind, Except.bind, kindOfNode]

theorem kindOf_of_list {entries : List (Bytes × Node)} (h : t.list path = .ok entries) :
    t.kindOf path = .ok .directory :=
  kindOf_eq_ok_iff.mpr ⟨_, list_eq_ok_iff.mp h, rfl⟩

theorem kindOf_of_readFile {content : Bytes} (h : t.readFile path = .ok content) :
    t.kindOf path = .ok .file := by
  rcases hf : t.find path with cause | found | target | entries
  · simp [readFile, hf, bind, Except.bind] at h
  · exact kindOf_eq_ok_iff.mpr ⟨_, hf, rfl⟩
  · simp [readFile, hf, bind, Except.bind] at h
  · simp [readFile, hf, bind, Except.bind] at h

end FileTree

namespace Scan

variable {t : FileTree} {dir : Path} {entries : List Entry} {file : DotrainFile}

/-! ### What one directory contributes -/

/-- **A dotrain stands in a tree** where a file can be read, links followed, whose suffix is that
of dotrains and whose bytes are those of the text. -/
structure Stands (t : FileTree) (file : DotrainFile) : Prop where
  kindOf_eq : t.kindOf file.path.text = .ok .file
  suffix_eq : file.path.suffix = suffix
  exists_content : ∃ content,
    t.readFile file.path.text = .ok content ∧ Utf8.encode file.text = .ok content

theorem dotrainAt_eq_ok_iff {path : Path} : dotrainAt t path = .ok file ↔
    file.path = path ∧ ∃ content,
      t.readFile path.text = .ok content ∧ Utf8.decode content = .ok file.text := by
  obtain ⟨p, text⟩ := file
  rw [dotrainAt]
  rcases hr : t.readFile path.text with cause | content
  · simp
  dsimp only [dotrainOf]
  rcases hd : Utf8.decode content with e | found
  · refine iff_of_false (by rintro ⟨⟩) ?_
    rintro ⟨-, _, ⟨⟩, hdecode⟩
    rw [hd] at hdecode
    cases hdecode
  · constructor
    · rintro ⟨⟩
      exact ⟨rfl, content, rfl, hd⟩
    · rintro ⟨rfl, _, ⟨⟩, hdecode⟩
      rw [hd] at hdecode
      cases hdecode
      rfl

/-- A text is read where its bytes stand. -/
theorem exists_encode_of_dotrainAt (ht : t.Sound) {path : Path}
    (h : dotrainAt t path = .ok file) : file.path = path ∧ ∃ content,
      t.readFile path.text = .ok content ∧ Utf8.encode file.text = .ok content := by
  obtain ⟨hpath, content, hread, hdecode⟩ := dotrainAt_eq_ok_iff.mp h
  exact ⟨hpath, content, hread, Utf8.encode_of_decode hdecode (ht.length_le_of_readFile hread)⟩

theorem Stands.dotrainAt_eq (h : Stands t file) : dotrainAt t file.path = .ok file := by
  obtain ⟨content, hread, hencode⟩ := h.exists_content
  exact dotrainAt_eq_ok_iff.mpr ⟨rfl, content, hread, Utf8.decode_of_encode hencode⟩

theorem value_surveyEntry_eq_dotrain_iff {e : Entry} :
    (surveyEntry t dir e).value = .dotrain file ↔ kindOfEntry t dir e = .ok (some .file) ∧
      (dir.child e.name).suffix = suffix ∧ dotrainAt t (dir.child e.name) = .ok file := by
  unfold surveyEntry
  rcases kindOfEntry t dir e with cause | _ | _ | _
  · simp
  · simp [surveyKind]
  · by_cases hs : (dir.child e.name).suffix = suffix
    · rcases hd : dotrainAt t (dir.child e.name) with fault | found <;> simp [surveyKind, hs, hd]
    · simp [surveyKind, hs]
  · simp [surveyKind]

theorem value_surveyEntry_eq_subdirectory_iff {e : Entry} :
    (surveyEntry t dir e).value = .subdirectory ↔
      kindOfEntry t dir e = .ok (some .directory) := by
  unfold surveyEntry
  rcases kindOfEntry t dir e with cause | _ | _ | _
  · simp
  · simp [surveyKind]
  · by_cases hs : (dir.child e.name).suffix = suffix
    · rcases hd : dotrainAt t (dir.child e.name) with fault | found <;> simp [surveyKind, hs, hd]
    · simp [surveyKind, hs]
  · simp [surveyKind]

theorem mem_subdirectories_iff {p : Path} :
    p ∈ subdirectories dir entries (foundIn t dir entries) ↔
      ∃ e ∈ entries, p = dir.child e.name ∧ kindOfEntry t dir e = .ok (some .directory) := by
  simp only [← value_surveyEntry_eq_subdirectory_iff]
  induction entries with
  | nil => simp [subdirectories]
  | cons e entries ih =>
    rw [List.exists_mem_cons_iff, ← ih, foundIn, List.map_cons, ← foundIn]
    rcases (surveyEntry t dir e).value with found | _ | _ <;> simp [subdirectories]

/-- The subdirectories of a directory are entries of it, in their order. -/
theorem subdirectories_sublist (dir : Path) (entries : List Entry) (found : List Found) :
    (subdirectories dir entries found).Sublist (entries.map fun e => dir.child e.name) := by
  induction entries generalizing found with
  | nil => simp [subdirectories]
  | cons e entries ih =>
    rcases found with _ | ⟨f, found⟩
    · simp [subdirectories]
    · cases f with
      | subdirectory => exact (ih found).cons_cons _
      | dotrain _ => exact (ih found).cons _
      | nothing => exact (ih found).cons _

/-- The dotrains of a directory are entries of it, in their order. -/
theorem dotrains_sublist (t : FileTree) (dir : Path) (entries : List Entry) :
    (((foundIn t dir entries).filterMap Found.dotrain?).map DotrainFile.path).Sublist
      (entries.map fun e => dir.child e.name) := by
  induction entries with
  | nil => simp [foundIn]
  | cons e entries ih =>
    rw [foundIn, List.map_cons, ← foundIn, List.filterMap_cons]
    rcases hv : (surveyEntry t dir e).value with file | _ | _
    · obtain ⟨-, -, hfile⟩ := value_surveyEntry_eq_dotrain_iff.mp hv
      simpa [Found.dotrain?, (dotrainAt_eq_ok_iff.mp hfile).1] using ih
    · exact ih.cons _
    · exact ih.cons _

theorem lists_of_mem_entriesOf (h : entriesOf t dir = .ok entries) {e : Entry}
    (he : e ∈ entries) : t.Lists dir e.name := by
  obtain ⟨listed, hlist, hperm⟩ := exists_list_of_entriesOf h
  obtain ⟨l, hl, rfl⟩ := List.mem_map.mp (hperm.mem_iff.mp he)
  exact ⟨listed, hlist, l, hl, rfl⟩

/-- **A scan knows what an entry is**, if its path leads anywhere. -/
theorem exists_kindOfEntry_of_lists (ht : t.Sound) (hw : t.WellNamed) (hdir : dir.Named)
    (h : entriesOf t dir = .ok entries) {name : Text} (hname : t.Lists dir name)
    {kind : FileKind} (hkind : t.kindOf (dir.child name).text = .ok kind) :
    ∃ e ∈ entries, e.name = name ∧ kindOfEntry t dir e = .ok (some kind) := by
  obtain ⟨listed, hlist, l, hl, rfl⟩ := hname
  obtain ⟨listed', hlist', hperm⟩ := exists_list_of_entriesOf h
  obtain rfl : listed = listed' := Except.ok.inj (hlist.symm.trans hlist')
  refine ⟨⟨_, l.2⟩, hperm.mem_iff.mpr (List.mem_map_of_mem hl), rfl, ?_⟩
  obtain ⟨node, hfind, rfl⟩ := FileTree.kindOf_eq_ok_iff.mp hkind
  obtain ⟨hslash, hentry⟩ := FileTree.find_child ht hw hdir hlist hl hfind
  unfold kindOfEntry
  -- only for a link does the scan ask, by the path with the slash
  rcases hl2 : l.2 with content | target | below
  · rw [hentry (by simp [hl2]), hl2]
    rfl
  · simp only [FileTree.kindOf_eq_ok_iff.mpr ⟨node, hslash, rfl⟩]
  · rw [hentry (by simp [hl2]), hl2]
    rfl

/-- Something is found only below a directory. -/
theorem kindOf_of_mem_survey (h : file ∈ (survey t dir).value) :
    t.kindOf dir.text = .ok .directory := by
  rcases he : entriesOf t dir with cause | entries
  · simp [survey_of_error he] at h
  · obtain ⟨listed, hlist, -⟩ := exists_list_of_entriesOf he
    exact FileTree.kindOf_of_list hlist

/-- **What a directory contributes** are the dotrains among its entries, and what is found below
those entries that are directories. -/
theorem mem_survey_iff (ht : t.Sound) (hw : t.WellNamed) (hdir : dir.Named) :
    file ∈ (survey t dir).value ↔ ∃ name, t.Lists dir name ∧
      (file.path = dir.child name ∧ Stands t file ∨
        t.kindOf (dir.child name).text = .ok .directory ∧
          file ∈ (survey t (dir.child name)).value) := by
  rcases h : entriesOf t dir with cause | entries
  · have hnone : ∀ name, ¬t.Lists dir name := by
      rintro name ⟨listed, hlist, -⟩
      simp [entriesOf, hlist, Except.map] at h
    simp [survey_of_error h, hnone]
  rw [survey_of_ok h, List.mem_append, List.mem_filterMap, List.mem_flatMap]
  constructor
  · rintro (⟨found, hfound, hdotrain⟩ | ⟨sub, hsub, hfile⟩)
    · obtain ⟨e, he, rfl⟩ := List.mem_map.mp hfound
      have hvalue : (surveyEntry t dir e).value = .dotrain file := by
        rcases hv : (surveyEntry t dir e).value with found | _ | _ <;>
          simp_all [Found.dotrain?]
      obtain ⟨-, hsuffix, hread⟩ := value_surveyEntry_eq_dotrain_iff.mp hvalue
      obtain ⟨hpath, content, hcontent, htext⟩ := exists_encode_of_dotrainAt ht hread
      rw [← hpath] at hsuffix hcontent
      exact ⟨e.name, lists_of_mem_entriesOf h he, Or.inl ⟨hpath,
        FileTree.kindOf_of_readFile hcontent, hsuffix, content, hcontent, htext⟩⟩
    · obtain ⟨e, he, rfl, -⟩ := mem_subdirectories_iff.mp hsub
      exact ⟨e.name, lists_of_mem_entriesOf h he, Or.inr ⟨kindOf_of_mem_survey hfile, hfile⟩⟩
  · rintro ⟨name, hname, ⟨hpath, hstands⟩ | ⟨hkind, hfile⟩⟩
    · obtain ⟨e, he, rfl, hentry⟩ :=
        exists_kindOfEntry_of_lists ht hw hdir h hname (hpath ▸ hstands.kindOf_eq)
      refine Or.inl ⟨_, List.mem_map_of_mem he, ?_⟩
      have hread := hstands.dotrainAt_eq
      have hsuffix := hstands.suffix_eq
      rw [hpath] at hread hsuffix
      rw [value_surveyEntry_eq_dotrain_iff.mpr ⟨hentry, hsuffix, hread⟩]
      rfl
    · obtain ⟨e, he, rfl, hentry⟩ := exists_kindOfEntry_of_lists ht hw hdir h hname hkind
      exact Or.inr ⟨_, mem_subdirectories_iff.mpr ⟨e, he, rfl, hentry⟩, hfile⟩

/-! ### What is found below a root -/

/-- An entry that is listed has a name. -/
theorem named_of_lists (hw : t.WellNamed) (hdir : dir.Named) {name : Text}
    (h : t.Lists dir name) : (dir.child name).Named := by
  obtain ⟨listed, hlist, l, hl, rfl⟩ := h
  have hname := (Node.WellNamedEntries.of_mem (hw.of_list hlist).2 hl).1
  refine hdir.child fun hnil => hname.ne_nil ?_
  have hbytes := Utf8.flatMap_encodeOneEscaped_decodeEscaped l.1
  rw [hnil] at hbytes
  exact hbytes.symm

/-- **Soundness**, by induction on the walk. -/
theorem exists_below_of_mem_survey (ht : t.Sound) (hw : t.WellNamed) (hdir : dir.Named)
    (h : file ∈ (survey t dir).value) :
    ∃ names, file.path = dir.below names ∧ t.LeadsBelow dir names ∧ Stands t file := by
  induction dir using survey.induct (t := t) with
  | case1 dir cause he => simp [survey_of_error he] at h
  | case2 dir entries he found ih =>
    obtain ⟨name, hlists, ⟨hpath, hstands⟩ | ⟨hkind, hfile⟩⟩ := (mem_survey_iff ht hw hdir).mp h
    · refine ⟨[name], ?_, FileTree.leadsBelow_cons.mpr ⟨hlists, fun hne => absurd rfl hne⟩, hstands⟩
      rw [hpath, Path.below_cons, Path.below_nil]
    · obtain ⟨e, hmem, rfl, hentry⟩ := exists_kindOfEntry_of_lists ht hw hdir he hlists hkind
      have hsub : dir.child e.name ∈ subdirectories dir entries found :=
        mem_subdirectories_iff.mpr ⟨e, hmem, rfl, hentry⟩
      obtain ⟨names, hpath, hleads, hstands⟩ :=
        ih _ hsub (named_of_lists hw hdir hlists) hfile
      exact ⟨e.name :: names, by rw [hpath, Path.below_cons],
        FileTree.leadsBelow_cons.mpr ⟨hlists, fun _ => ⟨hkind, hleads⟩⟩, hstands⟩

/-- **Completeness**, by induction on the names. -/
theorem mem_survey_of_leadsBelow (ht : t.Sound) (hw : t.WellNamed) {names : List Text}
    (hdir : dir.Named) (hpath : file.path = dir.below names) (hleads : t.LeadsBelow dir names)
    (hstands : Stands t file) : file ∈ (survey t dir).value := by
  induction names generalizing dir with
  | nil => exact absurd rfl hleads.1
  | cons name names ih =>
    obtain ⟨hlists, hbelow⟩ := FileTree.leadsBelow_cons.mp hleads
    rw [Path.below_cons] at hpath
    refine (mem_survey_iff ht hw hdir).mpr ⟨name, hlists, ?_⟩
    rcases names with _ | ⟨next, names⟩
    · exact Or.inl ⟨by simpa using hpath, hstands⟩
    · obtain ⟨hkind, hleads⟩ := hbelow (List.cons_ne_nil next names)
      exact Or.inr ⟨hkind, ih (named_of_lists hw hdir hlists) hpath hleads⟩

/-- Entries of one directory have different paths. -/
theorem nodup_children (hw : t.WellNamed) (h : entriesOf t dir = .ok entries) :
    (entries.map fun e => dir.child e.name).Nodup := by
  obtain ⟨listed, hlist, hperm⟩ := exists_list_of_entriesOf h
  have hnames : (listed.map fun l => Utf8.decodeEscaped l.1).Nodup := by
    have hnodup := (hw.of_list hlist).1.map Utf8.decodeEscaped_injective
    rwa [List.map_map] at hnodup
  have hinj : Function.Injective dir.child := fun name name' heq => by
    simpa [Path.child_eq_below] using dir.below_injective heq
  have hpaths := hnames.map hinj
  rw [List.map_map] at hpaths
  rw [(hperm.map _).nodup_iff, List.map_map]
  exact hpaths

/-- **Uniqueness.** Different entries have different paths, and what is found below an entry has the
path of this entry in front. -/
theorem nodup_survey (ht : t.Sound) (hw : t.WellNamed) (hdir : dir.Named) :
    ((survey t dir).value.map DotrainFile.path).Nodup := by
  induction dir using survey.induct (t := t) with
  | case1 dir cause he => simp [survey_of_error he]
  | case2 dir entries he found ih =>
    have hchildren := nodup_children hw he
    have hsubs := hchildren.sublist (subdirectories_sublist dir entries found)
    -- what is found below a subdirectory
    have hbelow : ∀ sub ∈ subdirectories dir entries found, sub.Named ∧
        ∀ p ∈ (survey t sub).value.map DotrainFile.path, ∃ name names,
          sub = dir.child name ∧ p = dir.below (name :: names) ∧ names ≠ [] := by
      intro sub hsub
      obtain ⟨e, hmem, rfl, -⟩ := mem_subdirectories_iff.mp hsub
      have hnamed := named_of_lists hw hdir (lists_of_mem_entriesOf he hmem)
      refine ⟨hnamed, fun p hp => ?_⟩
      obtain ⟨file, hfile, rfl⟩ := List.mem_map.mp hp
      obtain ⟨names, hpath, hleads, -⟩ := exists_below_of_mem_survey ht hw hnamed hfile
      exact ⟨e.name, names, rfl, by rw [hpath, Path.below_cons], hleads.1⟩
    rw [survey_of_ok he, List.map_append, List.map_flatMap, List.nodup_append]
    refine ⟨hchildren.sublist (dotrains_sublist t dir entries), ?_, ?_⟩
    -- below two subdirectories, the first names differ
    · refine List.nodup_flatMap.mpr ⟨fun sub hsub => ih sub hsub (hbelow sub hsub).1, ?_⟩
      refine hsubs.imp_of_mem fun {sub sub'} hsub hsub' hne p hp hp' => hne ?_
      obtain ⟨name, names, rfl, rfl, -⟩ := (hbelow sub hsub).2 p hp
      obtain ⟨name', names', rfl, hpath, -⟩ := (hbelow sub' hsub').2 _ hp'
      rw [(List.cons_eq_cons.mp (dir.below_injective hpath)).1]
    -- a dotrain of the directory has one name, and one below a subdirectory has more
    · intro p hp p' hp' heq
      obtain ⟨e, -, rfl⟩ := List.mem_map.mp ((dotrains_sublist t dir entries).subset hp)
      obtain ⟨sub, hsub, hp'⟩ := List.mem_flatMap.mp hp'
      obtain ⟨name, names, -, rfl, hne⟩ := (hbelow sub hsub).2 p' hp'
      exact hne (List.cons_eq_cons.mp (dir.below_injective heq)).2.symm

/-! ### What a lenient scan finds -/

/-- **A scan finds the dotrains below its root**, all of them and each once. A lenient scan of a
path that can be used ends with a list, and on it are those files to which names lead below the
root, whose suffix is that of dotrains and whose bytes are a text; the name of such a file has more
than its suffix. No path is on the list twice. -/
theorem scan_finds {t : FileTree} (ht : t.Sound) (hw : t.WellNamed) (root : Text)
    (hroot : (Path.ofText root).Usable) :
    ∃ files, (scan t .lenient (.ofText root)).outcome = .ok files ∧
      (∀ file, file ∈ files ↔ ∃ names, file.path = (Path.ofText root).below names ∧
        t.LeadsBelow (.ofText root) names ∧ Stands t file) ∧
      (∀ file ∈ files, ∃ stem, stem ≠ [] ∧ file.path.name = stem ++ suffix) ∧
      (files.map DotrainFile.path).Nodup := by
  have hnamed := Path.named_ofText root
  obtain ⟨failures, hfailures⟩ := exists_failures_of_usable ht hroot
  refine ⟨(survey t (.ofText root)).value, ?_, fun file => ⟨?_, ?_⟩, fun file hfile => ?_,
    nodup_survey ht hw hnamed⟩
  · rw [(follows_scan t .lenient _).outcome_eq, Policy.verdict_lenient hfailures]
  · exact exists_below_of_mem_survey ht hw hnamed
  · rintro ⟨names, hpath, hleads, hstands⟩
    exact mem_survey_of_leadsBelow ht hw hnamed hpath hleads hstands
  · obtain ⟨names, -, -, hstands⟩ := exists_below_of_mem_survey ht hw hnamed hfile
    exact Path.suffix_eq_iff.mp hstands.suffix_eq

/-- A directory with a link to the one above and one to a dotrain there. -/
def linkedBelow : List (Bytes × Node) := [
  (plainName "up", .link (plainName "..")),
  (plainName "y.rain", .link (plainName "../x.rain"))]

/-- The directory above, with a file that is named like a suffix. -/
def linkedAbove : List (Bytes × Node) := [
  (plainName "x.rain", .file [120]),
  (plainName ".rain", .file [121]),
  (plainName "d", .directory linkedBelow)]

/-- The tree of the two. -/
def linkedTree : FileTree where
  root := .directory linkedAbove
  workingDirectory := []

theorem stands_linkedTree {names : List Text} (hsuffix : (Path.mk .relative names).suffix = suffix)
    (hread : linkedTree.readFile (Path.mk .relative names).text = .ok [120]) :
    Stands linkedTree ⟨⟨.relative, names⟩, "x"⟩ :=
  ⟨FileTree.kindOf_of_readFile hread, hsuffix, [120], hread, by rfl⟩

/-- A dotrain is found along every way that leads to it, and a name that is only a suffix is
none. -/
theorem scan_finds_linkedTree : linkedTree.Sound ∧ linkedTree.WellNamed ∧
    (Path.ofText ".").Usable ∧
    ∃ files, (scan linkedTree .lenient (.ofText ".")).outcome = .ok files ∧
      ⟨⟨.relative, ["d", "y.rain"]⟩, "x"⟩ ∈ files ∧
      ⟨⟨.relative, ["d", "up", "x.rain"]⟩, "x"⟩ ∈ files ∧
      ∀ text, ⟨⟨.relative, [".rain"]⟩, text⟩ ∉ files := by
  have hsound : linkedTree.Sound := by
    simp only [FileTree.Sound, linkedTree, linkedAbove, linkedBelow, Node.Sound, Node.SoundEntries]
    decide
  have hnamed : linkedTree.WellNamed := by
    simp only [FileTree.WellNamed, linkedTree, linkedAbove, linkedBelow, Node.WellNamed,
      Node.WellNamedEntries]
    decide
  have husable : (Path.ofText ".").Usable := by decide
  obtain ⟨files, hscan, hmem, hname, -⟩ := scan_finds hsound hnamed "." husable
  have hroot : linkedTree.list (Path.ofText ".").text = .ok linkedAbove := by cbv
  have hd : linkedTree.list (Path.mk .relative ["d"]).text = .ok linkedBelow := by cbv
  have hup : linkedTree.list (Path.mk .relative ["d", "up"]).text = .ok linkedAbove := by cbv
  have hfirst : linkedTree.Lists (.ofText ".") "d" :=
    FileTree.lists_of_mem_map hroot (by decide)
  refine ⟨hsound, hnamed, husable, files, hscan, ?_, ?_, fun text hfile => ?_⟩
  · refine (hmem _).mpr ⟨["d", "y.rain"], rfl, ?_, stands_linkedTree (by decide) (by cbv)⟩
    have hlast : linkedTree.Lists ((Path.ofText ".").child "d") "y.rain" :=
      FileTree.lists_of_mem_map hd (by decide)
    exact FileTree.leadsBelow_cons.mpr ⟨hfirst, fun _ => ⟨FileTree.kindOf_of_list hd,
      FileTree.leadsBelow_cons.mpr ⟨hlast, fun h => absurd rfl h⟩⟩⟩
  · refine (hmem _).mpr ⟨["d", "up", "x.rain"], rfl, ?_, stands_linkedTree (by decide) (by cbv)⟩
    have hnext : linkedTree.Lists ((Path.ofText ".").child "d") "up" :=
      FileTree.lists_of_mem_map hd (by decide)
    have hlast : linkedTree.Lists (((Path.ofText ".").child "d").child "up") "x.rain" :=
      FileTree.lists_of_mem_map hup (by decide)
    exact FileTree.leadsBelow_cons.mpr ⟨hfirst, fun _ => ⟨FileTree.kindOf_of_list hd,
      FileTree.leadsBelow_cons.mpr ⟨hnext, fun _ => ⟨FileTree.kindOf_of_list hup,
        FileTree.leadsBelow_cons.mpr ⟨hlast, fun h => absurd rfl h⟩⟩⟩⟩⟩
  · obtain ⟨stem, hstem, hrain⟩ := hname _ hfile
    have := List.append_cancel_right (show [] ++ suffix = stem ++ suffix from hrain)
    exact hstem this.symm

end Scan

end RainMeta
