import RainMeta.Config.Load
import RainMeta.Proofs.Build.Contents

/-!
# When a lenient build returns

A lenient build skips every failure, so it returns unless something crashes. What that takes is
said exactly (`RainMeta.Build.lenient_returns_iff`): it needs a root or a meta whose path holds a
NUL character or a surrogate that stands for no byte, or a deployer whose assembly comes to such a
path or to an artifact whose document has too many digits in an integer or is nested too deeply
(`RainMeta.Deployer.Ruins`). What the scan finds below a root never crashes a build, whatever the
names and the contents are, links included.

## From accesses to builds

A stage crashes if what concerns one of its items does, as the lenient stages are tolerant
(`RainMeta.Run.crashes_mapM_iff`). What concerns an item crashes if an access fails for good, which
is a matter of the path alone (`RainMeta.FileTree.fatal_find_iff`). The scan goes to paths of its
own making; these can be used if the root can (`RainMeta.Scan.crashes_scanFrom_iff`).
-/

namespace RainMeta

open Run

/-! ### The scan -/

namespace Scan

/-- An entry of a directory that can be used is looked at without crashing. -/
theorem not_fatal_kindOfEntry (t : FileTree) {dir : Path} {e : Entry} (hdir : dir.Usable)
    (hname : Text.Usable e.name) : ¬FileTree.Fatal (kindOfEntry t dir e) := by
  have hpath : Text.Usable (dir.text ++ "/" ++ e.name) :=
    Text.usable_append.mpr ⟨Text.usable_append.mpr ⟨hdir, by decide⟩, hname⟩
  have hkind := (FileTree.fatal_kindOf_iff t _).not.mpr (Classical.not_not.mpr hpath)
  unfold kindOfEntry
  split
  · exact FileTree.not_fatal_ok _
  · exact FileTree.not_fatal_ok _
  · split
    · exact FileTree.not_fatal_ok _
    · exact FileTree.not_fatal_ok _
    · next cause _ hcause =>
      rw [hcause] at hkind
      rintro ⟨e, ⟨⟩, he⟩
      exact hkind ⟨_, rfl, he⟩

theorem not_crashes_contribution (t : FileTree) (policy : Policy) {path : Path}
    (h : path.Usable) (kind : Option FileKind) :
    ¬(contribution t policy path kind).Crashes := by
  unfold contribution
  split
  · exact not_crashes_pure _
  · split
    · rw [crashes_map_iff, crashes_skipping_iff, crashes_readDotrain_iff, Classical.not_not]
      exact h
    · exact not_crashes_pure _
  · exact not_crashes_pure _

theorem not_crashes_inspect (t : FileTree) (policy : Policy) {dir : Path} {e : Entry}
    (hdir : dir.Usable) (hname : Text.Usable e.name) : ¬(inspect t policy dir e).Crashes := by
  have hchild := (Path.usable_child_iff dir e.name).mpr ⟨hdir, hname⟩
  rw [inspect_eq, Steady.crashes_bind_iff_of_not (fun kind => steady_contribution t policy _ _)
    fun kind => not_crashes_contribution t policy hchild _, crashes_skipping_iff,
    crashes_access_iff]
  exact not_fatal_kindOfEntry t hdir hname

theorem crashes_refuse_iff (policy : Policy) (dir : Path) (cause : AccessError) :
    (refuse policy dir cause).Crashes ↔ ∀ c, cause ≠ .os c := by
  refine (Steady.crashes_bind_iff_of_not (fun _ => (quiet_pure ()).steady)
    fun _ => not_crashes_pure ()).trans ?_
  rw [crashes_skipping_iff, crashes_access_iff, FileTree.fatal_error_iff]

theorem exists_of_mem_subdirectories {dir p : Path} {entries : List Entry} {found : List Found}
    (h : p ∈ subdirectories dir entries found) : ∃ e ∈ entries, p = dir.child e.name := by
  induction entries generalizing found with
  | nil => simp [subdirectories] at h
  | cons e entries ih =>
    rcases found with _ | ⟨f, found⟩
    · simp [subdirectories] at h
    have below : p ∈ subdirectories dir entries found →
        ∃ e' ∈ e :: entries, p = dir.child e'.name :=
      fun h => by
        obtain ⟨e', he', rfl⟩ := ih h
        exact ⟨e', List.mem_cons_of_mem e he', rfl⟩
    cases f with
    | subdirectory =>
      rcases List.mem_cons.mp h with rfl | h
      · exact ⟨e, List.mem_cons_self, rfl⟩
      · exact below h
    | dotrain _ => exact below h
    | nothing => exact below h

/-- A directory that cannot be listed fails for good if its path cannot be used. -/
theorem fatal_entriesOf_iff (t : FileTree) (dir : Path) :
    FileTree.Fatal (entriesOf t dir) ↔ ¬dir.Usable := by
  rw [Path.Usable, ← FileTree.fatal_list_iff t]
  exact FileTree.fatal_bind_iff fun entries => FileTree.not_fatal_ok _

/-- The entries of a directory are those of its listing, in another order. -/
theorem exists_list_of_entriesOf {t : FileTree} {dir : Path} {entries : List Entry}
    (h : entriesOf t dir = .ok entries) : ∃ listed, t.list dir.text = .ok listed ∧
      entries.Perm (listed.map fun l => ⟨Utf8.decodeEscaped l.1, l.2⟩) := by
  rcases hl : t.list dir.text with cause | listed
  · simp [entriesOf, hl, Except.map] at h
  · simp only [entriesOf, hl, Except.map, Except.ok.injEq] at h
    exact ⟨listed, rfl, h ▸ List.mergeSort_perm _ _⟩

/-- In a sound tree the names of entries can be used. -/
theorem usable_of_entriesOf {t : FileTree} (ht : t.Sound) {dir : Path} {entries : List Entry}
    (h : entriesOf t dir = .ok entries) : ∀ e ∈ entries, Text.Usable e.name := by
  obtain ⟨listed, hlist, hperm⟩ := exists_list_of_entriesOf h
  intro e he
  obtain ⟨l, hmem, rfl⟩ := List.mem_map.mp (hperm.mem_iff.mp he)
  exact ht.usable_of_list hlist l hmem

/-- **A scan crashes** exactly if a directory that is yet to be visited has a path that cannot be
used. What it finds on its way does not matter. -/
theorem crashes_scanFrom_iff {t : FileTree} (ht : t.Sound) (pending : List Path) :
    (scanFrom t .lenient pending).Crashes ↔ ∃ dir ∈ pending, ¬dir.Usable := by
  induction pending using scanFrom.induct (t := t) with
  | case1 =>
    rw [scanFrom]
    simp [not_crashes_pure]
  | case2 dir rest cause h ih =>
    have hdir := fatal_entriesOf_iff t dir
    rw [h, FileTree.fatal_error_iff] at hdir
    rw [scanFrom_of_error h, (corresponds_refuse dir cause).tolerant.crashes_bind_iff
      (fun _ => steady_scanFrom t .lenient rest) fun _ => ih, crashes_refuse_iff, hdir]
    simp only [List.mem_cons, exists_eq_or_imp]
  | case3 dir rest entries h ih =>
    have hdir : dir.Usable := by
      rw [← Classical.not_not (a := dir.Usable), ← fatal_entriesOf_iff t, h]
      exact FileTree.not_fatal_ok entries
    have hnames := usable_of_entriesOf ht h
    -- the subdirectories can be used, so only the rest can crash
    have hrest : ∀ found, (scanFrom t .lenient (subdirectories dir entries found ++ rest)
        >>= fun more => pure (found.filterMap Found.dotrain? ++ more)).Crashes ↔
          ∃ dir ∈ rest, ¬dir.Usable := by
      intro found
      rw [Steady.crashes_bind_iff_of_not (fun more => (quiet_pure _).steady)
        fun more => not_crashes_pure _, ih found]
      simp only [List.mem_append, or_and_right, exists_or]
      refine or_iff_right ?_
      rintro ⟨sub, hsub, hn⟩
      obtain ⟨e, he, rfl⟩ := exists_of_mem_subdirectories hsub
      exact hn ((Path.usable_child_iff dir e.name).mpr ⟨hdir, hnames e he⟩)
    have hinspect : ¬(entries.mapM (inspect t .lenient dir)).Crashes := by
      rw [crashes_mapM_iff (steady_inspect t .lenient dir)
        fun e => (corresponds_inspect t dir e).tolerant]
      rintro ⟨e, he, hc⟩
      exact not_crashes_inspect t .lenient hdir (hnames e he) hc
    have htolerant := (Corresponds.mapM (corresponds_inspect t dir) entries).tolerant
    rw [scanFrom_of_ok h, htolerant.crashes_bind_iff (fun found =>
      (steady_scanFrom t .lenient _).bind fun more => (quiet_pure _).steady) hrest]
    simp only [List.mem_cons, exists_eq_or_imp, hinspect, false_or, hdir, not_true_eq_false]

/-- **The scan of several roots crashes** exactly if one of them has a path that cannot be
used. -/
theorem crashes_scanAll_iff {t : FileTree} (ht : t.Sound) (roots : List Path) :
    (scanAll t .lenient roots).Crashes ↔ ∃ root ∈ roots, ¬root.Usable := by
  refine (Steady.crashes_bind_iff_of_not (fun _ => (quiet_pure _).steady)
    fun _ => not_crashes_pure _).trans ?_
  rw [crashes_mapM_iff (steady_scan t .lenient) fun root => (corresponds_scan t root).tolerant]
  simp only [Run.Crashes, outcome_scan]
  refine exists_congr fun root => and_congr_right fun _ => (crashes_scanFrom_iff ht [root]).trans ?_
  simp

end Scan

/-! ### Metas -/

namespace MetaFile

/-- **Loading metas crashes** exactly if one of them has a path that cannot be used. -/
theorem crashes_loadAll_iff (t : FileTree) (entries : List MetaEntry) :
    (loadAll t .lenient entries).Crashes ↔ ∃ entry ∈ entries, ¬entry.path.Usable := by
  have hend : ∀ loaded, ¬(finishLoading loaded).Crashes := by
    rintro loaded ⟨cause, ⟨⟩⟩
  rw [loadAll_eq, Steady.crashes_bind_iff_of_not steady_finishLoading hend,
    crashes_mapM_iff (steady_load t .lenient) fun entry => (corresponds_load t entry).tolerant]
  simp only [load, crashes_skipping_iff, Run.crashes_map_iff, crashes_read_iff]

end MetaFile

/-! ### Deployers -/

namespace Deployer

/-- **Assembling deployers crashes** exactly if one of them ruins the build. -/
theorem crashes_assembleAll_iff [Platform] (t : FileTree)
    (deployers : List (Text × DeployerConfig)) :
    (assembleAll t .lenient deployers).Crashes ↔ ∃ d ∈ deployers, Ruins t d.2 := by
  rw [assembleAll_eq, Steady.crashes_bind_iff_of_not (fun _ => (quiet_pure _).steady)
    fun _ => not_crashes_pure _, crashes_mapM_iff (steady_tryAssemble t .lenient)
    fun d => (corresponds_skipping (quiet_assemble t d.1 d.2) _ _).tolerant]
  simp only [tryAssemble, crashes_skipping_iff, (crashesIff_assemble t _ _).iff]

end Deployer

/-! ### Builds -/

namespace Build

section Builds

variable [Platform]

/-- **Gathering crashes** exactly if one of the stages does. -/
theorem crashesIff_gather {t : FileTree} (ht : t.Sound) (c : Config) :
    CrashesIff (gather t .lenient c) ((∃ root ∈ c.roots, ¬root.Usable) ∨
      (∃ entry ∈ c.metas, ¬entry.path.Usable) ∨ ∃ d ∈ c.deployers, Deployer.Ruins t d.2) := by
  have hscan : CrashesIff (Scan.scanAll t .lenient c.roots) _ :=
    ⟨Scan.steady_scanAll t .lenient c.roots, Scan.crashes_scanAll_iff ht c.roots⟩
  have hload : CrashesIff (MetaFile.loadAll t .lenient c.metas) _ :=
    ⟨MetaFile.steady_loadAll t .lenient c.metas, MetaFile.crashes_loadAll_iff t c.metas⟩
  have hassemble : CrashesIff (Deployer.assembleAll t .lenient c.deployers) _ :=
    ⟨Deployer.steady_assembleAll t .lenient c.deployers,
      Deployer.crashes_assembleAll_iff t c.deployers⟩
  have hstart : CrashesIff (record (.buildStarted .lenient c.roots.length c.metas.length
      c.deployers.length)) False :=
    ⟨(quiet_record rfl).steady, iff_false_intro (not_crashes_record _)⟩
  have hgather := hstart.bind_of_tolerant (tolerant_record _) fun _ =>
    hscan.bind_of_tolerant (Scan.corresponds_scanAll t c.roots).tolerant fun files =>
    hload.bind_of_tolerant (MetaFile.corresponds_loadAll t c.metas).tolerant fun metas =>
    hassemble.bind_of_tolerant (Deployer.corresponds_assembleAll t c.deployers).tolerant
      fun records => (⟨(quiet_pure _).steady, iff_false_intro (not_crashes_pure _)⟩ :
        CrashesIff (pure (Gathered.mk files metas records)) False)
  simp only [false_or, or_false] at hgather
  exact hgather

/-- The texts of dotrains in a sound tree can be encoded. -/
theorem Gathers.isOk_encode {t : FileTree} (ht : t.Sound) {policy : Policy} {c : Config}
    {g : Gathered} (hg : Gathers t policy c g) :
    ∀ b ∈ bindings g.files, (Utf8.encode b.2).isOk := by
  rintro ⟨uri, text⟩ hb
  obtain ⟨file, hfile, -, rfl⟩ := mem_bindings_iff.mp hb
  obtain ⟨content, hread, hdecode⟩ := hg.faithful file hfile
  rw [Utf8.encode_of_decode hdecode (ht.length_le_of_readFile hread)]
  rfl

/-- In a sound tree only gathering can keep a lenient build from returning. -/
theorem lenient_returns_iff_gather {t : FileTree} (ht : t.Sound) (c : Config) :
    (∃ s report, (build t .lenient c).result.1 = .ok (s, report)) ↔
      ¬(gather t .lenient c).Crashes := by
  constructor
  · rintro ⟨s, report, h⟩ ⟨cause, hc⟩
    rcases hg : runFrom (gather t .lenient c) [] with ⟨y, j⟩
    obtain rfl : y = .error (.crash cause) := by rw [← hc, outcome, result_eq, hg]
    rw [result_build_of_error hg] at h
    cases h
  · intro hn
    obtain ⟨g, hg⟩ := (corresponds_gather t c).tolerant.returns_or_crashes.resolve_right hn
    obtain ⟨j, hj⟩ := exists_runFrom_of_outcome hg
    exact exists_build_of_gather hj ((gathers_of_runFrom hj).isOk_encode ht)

/-- **When a lenient build returns.** In a sound tree a lenient build never ends with a failure,
and it comes to a store and a report if and only if no root and no meta has a path that cannot be
used, and no deployer ruins the build. The store is then made of what each root, each meta and
each deployer gives on its own, so one that fails leaves out nothing but itself. -/
theorem lenient_returns_iff (t : FileTree) (ht : t.Sound) (c : Config) :
    (∀ cause, (build t .lenient c).result.1 ≠ .error (.failure cause)) ∧
    ((∃ s report, (build t .lenient c).result.1 = .ok (s, report)) ↔
      (∀ root ∈ c.roots, root.Usable) ∧ (∀ entry ∈ c.metas, entry.path.Usable) ∧
        ∀ d ∈ c.deployers, ¬Deployer.Ruins t d.2) ∧
    ∀ s report, (build t .lenient c).result.1 = .ok (s, report) → ∃ found,
      List.Forall₂ (fun root files => (Scan.scan t .lenient root).result.1 = .ok files)
        c.roots found ∧
      s = Store.run (operations c
        { files := found.flatten
          metas := c.metas.filterMap (MetaFile.loaded? t)
          records := c.deployers.filterMap fun d => Deployer.assembled? t d.1 d.2 }) := by
  refine ⟨lenient_ne_failure t c, ?_, fun s report h => ?_⟩
  · rw [lenient_returns_iff_gather ht, (crashesIff_gather ht c).iff]
    simp only [not_or, not_exists, not_and, Classical.not_not]
  · obtain ⟨⟨files, metas, records⟩, hg, rfl, -⟩ := exists_gathers_of_build h
    obtain ⟨found, hfound, hfiles⟩ := Scan.exists_found_of_scanAll hg.files
    obtain rfl : files = found.flatten := hfiles
    obtain rfl : metas = _ := hg.metas
    obtain rfl : records = _ := hg.records
    exact ⟨found, hfound, rfl⟩

end Builds

/-- A path at which there is nothing. -/
def gone : Path := ⟨.relative, ["gone"]⟩

/-- A deployer of which there is nothing. -/
def goneDeployer : DeployerConfig := ⟨.binary gone, gone, gone, gone, gone⟩

/-- A configuration in which a root, a meta and a deployer fail. -/
def faultyConfig : Config :=
  { roots := [gone, .here], metas := [.hex gone], deployers := [("00", goneDeployer)] }

theorem sound_smallTree : smallTree.Sound := by
  simp only [FileTree.Sound, smallTree, Node.Sound, Node.SoundEntries]
  decide

theorem not_returns_read_gone : ¬(MetaFile.read smallTree (.binary gone)).Returns := by
  have hgone : smallTree.readFile gone.text = .error (.os .noEntry) := by
    rw [FileTree.readFile, FileTree.find_name_of_none rfl (by decide) (by decide) rfl]
    rfl
  rintro ⟨b, hb⟩
  rw [MetaFile.read_eq, outcome_bind_ofExcept_eq_ok_iff] at hb
  obtain ⟨content, hread, -⟩ := hb
  rw [outcome_access_eq_ok_iff] at hread
  exact absurd (hgone.symm.trans hread) (by simp)

/-- The meta of the deployer cannot be read, so none of its artifacts is. -/
theorem not_ruins_goneDeployer : ¬Deployer.Ruins smallTree goneDeployer := by
  rintro (hpath | ⟨hmeta, -⟩)
  · exact hpath (by decide)
  · exact not_returns_read_gone hmeta

/-- A lenient build skips what fails. -/
theorem lenient_returns_faultyConfig : smallTree.Sound ∧
    ∃ s report, (build smallTree .lenient faultyConfig).result.1 = .ok (s, report) := by
  refine ⟨sound_smallTree, (lenient_returns_iff smallTree sound_smallTree faultyConfig).2.1.mpr
    ⟨by decide, by decide, fun d hd => ?_⟩⟩
  obtain rfl := List.mem_singleton.mp hd
  exact not_ruins_goneDeployer

/-! ### A build that crashes -/

/-- A document that names a NUL character as a directory. -/
def nulDocument : Value :=
  .mapping [(.text "include", .list [.text [.ofNat 0]])]

/-- The configuration in it. -/
def nulConfig : Config :=
  { roots := [⟨.relative, [[.ofNat 0]]⟩] }

/-- The tree that has nothing but its root. -/
def emptyTree : FileTree :=
  { root := .directory [], workingDirectory := [] }

/-- **A configuration that is accepted and crashes a lenient build.** -/
theorem lenient_crashes_nulConfig :
    Config.parse emptyTree ⟨[]⟩ { source := .packaged } none Config.unnamedSource nulDocument =
        .ok nulConfig ∧
      (build emptyTree .lenient nulConfig).result.1 = .error (.crash .embeddedNul) := by
  have hscan : Scan.scan emptyTree .lenient ⟨.relative, [[.ofNat 0]]⟩ = crash .embeddedNul := by
    have hentries : Scan.entriesOf emptyTree ⟨.relative, [[.ofNat 0]]⟩ = .error .embeddedNul := rfl
    rw [Scan.scan, Scan.scanFrom_of_error hentries]
    rfl
  have hscans : Scan.scanAll emptyTree .lenient nulConfig.roots = crash .embeddedNul := by
    rw [Scan.scanAll, nulConfig, List.mapM_cons, hscan]
    rfl
  refine ⟨by decide +kernel, ?_⟩
  rw [build, hscans]
  rfl

end Build

end RainMeta
