import RainMeta.Proofs.Build.Items
import RainMeta.Proofs.Build.Policies

/-!
# What a build gathers

The first half of a build goes through the roots, the metas and the deployers of a configuration.
What it comes to is said item by item (`RainMeta.Build.gathers_of_runFrom`): the dotrains are
those that the scan of the roots finds, the metas those of the entries that can be loaded, the
records those of the deployers that can be assembled, each in the order of the configuration.
The policy does not show in this: a strict build that ends with a value had nothing to skip.

Two things hold of everything that was gathered and are used when it is put into a store. A
dotrain holds the text of the file at its path (`RainMeta.Scan.faithful_of_scanAll`), and a record
names its meta by the meta's hash (`RainMeta.Deployer.metaHash_of_assemble`).
-/

namespace RainMeta

open Run

/-- **A dotrain is faithful to a file tree** if the file at its path spells its text. -/
def DotrainFile.Faithful (t : FileTree) (file : DotrainFile) : Prop :=
  ∃ content, t.readFile file.path.text = .ok content ∧ Utf8.decode content = .ok file.text

/-- A file spells one text only. -/
theorem DotrainFile.Faithful.text_eq {t : FileTree} {file file' : DotrainFile}
    (h : file.Faithful t) (h' : file'.Faithful t) (hp : file.path.text = file'.path.text) :
    file.text = file'.text := by
  obtain ⟨content, hread, hdecode⟩ := h
  obtain ⟨content', hread', hdecode'⟩ := h'
  rw [hp, hread', Except.ok.injEq] at hread
  rw [← hread, hdecode', Except.ok.injEq] at hdecode
  exact hdecode.symm

/-! ### The scan -/

namespace Scan

/-- What a file contributes that has been read or skipped. -/
def Found.ofRead : Option DotrainFile → Found
  | some file => .dotrain file
  | none => .nothing

/-- What an entry contributes once it is known what it is. -/
def contribution (t : FileTree) (policy : Policy) (path : Path) : Option FileKind → Run Found
  | some .directory => return .subdirectory
  | some .file =>
    if path.suffix = suffix then
      Found.ofRead <$> skipping policy stage path.text (readDotrain t path)
    else return .nothing
  | none => return .nothing

theorem inspect_eq (t : FileTree) (policy : Policy) (dir : Path) (e : Entry) :
    inspect t policy dir e =
      skipping policy stage (dir.child e.name).text
        (access (.entryUnreadable (dir.child e.name)) (kindOfEntry t dir e)) >>= fun kind =>
          contribution t policy (dir.child e.name) kind.join := by
  refine bind_congr fun kind => ?_
  rcases kind.join with _ | _ | _
  · rfl
  · rw [contribution, map_eq_pure_bind]
    refine if_congr Iff.rfl (bind_congr fun file => ?_) rfl
    cases file with
    | none => rfl
    | some file => rfl
  · rfl

/-- A file is looked at without asking what it is. -/
theorem inspect_file (t : FileTree) (policy : Policy) (dir : Path) (name : Text) (content : Bytes) :
    inspect t policy dir ⟨name, .file content⟩ =
      contribution t policy (dir.child name) (some .file) := by
  rw [inspect_eq]
  rfl

theorem steady_contribution (t : FileTree) (policy : Policy) (path : Path)
    (kind : Option FileKind) : (contribution t policy path kind).Steady := by
  unfold contribution
  split
  · exact (quiet_pure _).steady
  · split
    · exact ((quiet_readDotrain t path).steady_skipping policy stage path.text).map _
    · exact (quiet_pure _).steady
  · exact (quiet_pure _).steady

theorem steady_inspect (t : FileTree) (policy : Policy) (dir : Path) (e : Entry) :
    (inspect t policy dir e).Steady := by
  rw [inspect_eq]
  exact ((quiet_access _ _).steady_skipping policy stage _).bind fun kind =>
    steady_contribution t policy _ _

theorem steady_refuse (policy : Policy) (dir : Path) (cause : AccessError) :
    (refuse policy dir cause).Steady :=
  ((quiet_access _ _).steady_skipping policy stage _).bind fun _ => (quiet_pure ()).steady

theorem steady_scanFrom (t : FileTree) (policy : Policy) (pending : List Path) :
    (scanFrom t policy pending).Steady := by
  induction pending using scanFrom.induct (t := t) with
  | case1 =>
    rw [scanFrom]
    exact (quiet_pure []).steady
  | case2 dir rest cause h ih =>
    rw [scanFrom_of_error h]
    exact (steady_refuse policy dir cause).bind fun _ => ih
  | case3 dir rest entries h ih =>
    rw [scanFrom_of_ok h]
    refine (Steady.mapM (steady_inspect t policy dir) entries).bind fun found => ?_
    exact (ih found).bind fun _ => (quiet_pure _).steady

theorem steady_scan (t : FileTree) (policy : Policy) (root : Path) :
    (scan t policy root).Steady := by
  refine (steady_scanFrom t policy [root]).bind fun found => ?_
  exact (quiet_record rfl).steady.bind fun _ => (quiet_pure found).steady

theorem steady_scanAll (t : FileTree) (policy : Policy) (roots : List Path) :
    (scanAll t policy roots).Steady :=
  (Steady.mapM (steady_scan t policy) roots).bind fun _ => (quiet_pure _).steady

/-! ### What is found -/

theorem faithful_of_readDotrain {t : FileTree} {path : Path} {file : DotrainFile}
    (h : (readDotrain t path).outcome = .ok file) : file.Faithful t := by
  rw [readDotrain_eq, outcome_bind_ofExcept_eq_ok_iff] at h
  obtain ⟨content, hread, hfile⟩ := h
  rw [outcome_access_eq_ok_iff] at hread
  unfold dotrainOf at hfile
  rcases hd : Utf8.decode content with e | text
  · rw [hd] at hfile
    cases hfile
  · rw [hd] at hfile
    cases hfile
    exact ⟨content, hread, hd⟩

theorem faithful_of_contribution {t : FileTree} {policy : Policy} {path : Path}
    {kind : Option FileKind} {file : DotrainFile}
    (h : (contribution t policy path kind).outcome = .ok (.dotrain file)) : file.Faithful t := by
  unfold contribution at h
  split at h
  · cases h
  · split at h
    · rw [outcome_map, outcome_skipping] at h
      rcases hs : policy.settle (readDotrain t path).outcome with fault | _ | file'
      · rw [hs] at h
        cases h
      · rw [hs] at h
        cases h
      · rw [hs] at h
        cases h
        exact faithful_of_readDotrain (Policy.eq_ok_of_settle hs)
    · cases h
  · cases h

theorem faithful_of_inspect {t : FileTree} {policy : Policy} {dir : Path} {e : Entry}
    {file : DotrainFile} (h : (inspect t policy dir e).outcome = .ok (.dotrain file)) :
    file.Faithful t := by
  rw [inspect_eq] at h
  obtain ⟨kind, -, hkind⟩ :=
    (Steady.outcome_bind_eq_ok_iff fun kind => steady_contribution t policy _ _).mp h
  exact faithful_of_contribution hkind

/-- The dotrains among what entries contribute. -/
theorem faithful_of_inspectAll {t : FileTree} {policy : Policy} {dir : Path}
    {entries : List Entry} {found : List Found}
    (h : (entries.mapM (inspect t policy dir)).outcome = .ok found) :
    ∀ file ∈ found.filterMap Found.dotrain?, file.Faithful t := by
  intro file hfile
  obtain ⟨f, hf, hd⟩ := List.mem_filterMap.mp hfile
  obtain ⟨e, -, he⟩ := exists_mem_of_outcome_mapM (steady_inspect t policy dir) h hf
  cases f with
  | dotrain file' =>
    cases hd
    exact faithful_of_inspect he
  | subdirectory => cases hd
  | nothing => cases hd

theorem faithful_of_scanFrom {t : FileTree} {policy : Policy} {pending : List Path}
    {files : List DotrainFile} (h : (scanFrom t policy pending).outcome = .ok files) :
    ∀ file ∈ files, file.Faithful t := by
  induction pending using scanFrom.induct (t := t) generalizing files with
  | case1 =>
    rw [scanFrom] at h
    cases h
    simp
  | case2 dir rest cause hdir ih =>
    rw [scanFrom_of_error hdir,
      Steady.outcome_bind_eq_ok_iff fun _ => steady_scanFrom t policy rest] at h
    obtain ⟨_, -, h⟩ := h
    exact ih h
  | case3 dir rest entries hdir ih =>
    rw [scanFrom_of_ok hdir, Steady.outcome_bind_eq_ok_iff fun found =>
      (steady_scanFrom t policy _).bind fun more => (quiet_pure _).steady] at h
    obtain ⟨found, hfound, h⟩ := h
    rw [Steady.outcome_bind_eq_ok_iff fun more => (quiet_pure _).steady] at h
    obtain ⟨more, hmore, h⟩ := h
    cases h
    intro file hfile
    rcases List.mem_append.mp hfile with hfile | hfile
    · exact faithful_of_inspectAll hfound file hfile
    · exact ih found hmore file hfile

theorem outcome_scan (t : FileTree) (policy : Policy) (root : Path) :
    (scan t policy root).outcome = (scanFrom t policy [root]).outcome := by
  rw [scan, Steady.outcome_bind _ fun found =>
    (quiet_record rfl).steady.bind fun _ => (quiet_pure found).steady]
  rcases (scanFrom t policy [root]).outcome with fault | found
  · rfl
  · rfl

/-- **Every dotrain that is found holds the text of the file at its path.** -/
theorem faithful_of_scanAll {t : FileTree} {policy : Policy} {roots : List Path}
    {files : List DotrainFile} (h : (scanAll t policy roots).outcome = .ok files) :
    ∀ file ∈ files, file.Faithful t := by
  rw [scanAll, Steady.outcome_bind_eq_ok_iff fun found => (quiet_pure _).steady] at h
  obtain ⟨found, hfound, h⟩ := h
  cases h
  intro file hfile
  obtain ⟨below, hbelow, hmem⟩ := List.mem_flatten.mp hfile
  obtain ⟨root, -, hroot⟩ := exists_mem_of_outcome_mapM (steady_scan t policy) hfound hbelow
  rw [outcome_scan] at hroot
  exact faithful_of_scanFrom hroot file hmem

/-- What is found below several roots is what is found below each of them. -/
theorem exists_found_of_scanAll {t : FileTree} {policy : Policy} {roots : List Path}
    {files : List DotrainFile} (h : (scanAll t policy roots).outcome = .ok files) :
    ∃ found, List.Forall₂ (fun root below => (scan t policy root).outcome = .ok below) roots found ∧
      files = found.flatten := by
  rw [scanAll, Steady.outcome_bind_eq_ok_iff fun found => (quiet_pure _).steady,
    outcome_mapM (steady_scan t policy)] at h
  obtain ⟨found, hfound, h⟩ := h
  cases h
  exact ⟨found, Except.mapM_eq_ok_iff.mp hfound, rfl⟩

end Scan

/-! ### Metas -/

namespace MetaFile

/-- The meta of an entry, if it can be loaded. -/
def loaded? (t : FileTree) (entry : MetaEntry) : Option LoadedMeta :=
  (read t entry).outcome.toOption.map LoadedMeta.ofBytes

/-- A meta stands under its own hash. -/
theorem hash_of_mem_loaded {t : FileTree} {entries : List MetaEntry} {m : LoadedMeta}
    (hm : m ∈ entries.filterMap (loaded? t)) : keccak256 m.bytes = m.hash := by
  obtain ⟨entry, -, hentry⟩ := List.mem_filterMap.mp hm
  obtain ⟨b, -, rfl⟩ := Option.map_eq_some_iff.mp hentry
  rfl

theorem steady_load (t : FileTree) (policy : Policy) (entry : MetaEntry) :
    (load t policy entry).Steady :=
  ((quiet_read t entry).map _).steady_skipping policy _ _

/-- The end of loading, when it is known which entries could be loaded. -/
def finishLoading (loaded : List (Option LoadedMeta)) : Run (List LoadedMeta) := do
  record (.metasLoaded loaded.reduceOption.length)
  return loaded.reduceOption

theorem loadAll_eq (t : FileTree) (policy : Policy) (entries : List MetaEntry) :
    loadAll t policy entries = entries.mapM (load t policy) >>= finishLoading := rfl

theorem steady_finishLoading (loaded : List (Option LoadedMeta)) :
    (finishLoading loaded).Steady :=
  (quiet_record rfl).steady.bind fun _ => (quiet_pure loaded.reduceOption).steady

theorem steady_loadAll (t : FileTree) (policy : Policy) (entries : List MetaEntry) :
    (loadAll t policy entries).Steady :=
  (Steady.mapM (steady_load t policy) entries).bind steady_finishLoading

/-- **The metas of several entries** are those of the entries that can be loaded. -/
theorem eq_of_loadAll {t : FileTree} {policy : Policy} {entries : List MetaEntry}
    {metas : List LoadedMeta} (h : (loadAll t policy entries).outcome = .ok metas) :
    metas = entries.filterMap (loaded? t) := by
  rw [loadAll_eq, Steady.outcome_bind_eq_ok_iff steady_finishLoading] at h
  obtain ⟨os, hos, h⟩ := h
  cases h
  rw [outcome_mapM (steady_load t policy)] at hos
  simp only [load, outcome_skipping] at hos
  rw [Policy.eq_filterMap_of_settle hos]
  simp only [outcome_map, Except.toOption_map]
  rfl

theorem hash_of_mem_loadAll {t : FileTree} {policy : Policy} {entries : List MetaEntry}
    {metas : List LoadedMeta} (h : (loadAll t policy entries).outcome = .ok metas)
    {m : LoadedMeta} (hm : m ∈ metas) : keccak256 m.bytes = m.hash := by
  rw [eq_of_loadAll h] at hm
  exact hash_of_mem_loaded hm

end MetaFile

/-! ### Deployers -/

namespace Deployer

variable [Platform]

/-- The record of a deployer, if it can be assembled. -/
def assembled? (t : FileTree) (key : Text) (d : DeployerConfig) : Option DeployerRecord :=
  (assemble t key d).outcome.toOption

/-- The record of one deployer, unless it is skipped. -/
def tryAssemble (t : FileTree) (policy : Policy) (d : Text × DeployerConfig) :
    Run (Option DeployerRecord) :=
  skipping policy "deployer" d.1 (assemble t d.1 d.2)

theorem assembleAll_eq (t : FileTree) (policy : Policy)
    (deployers : List (Text × DeployerConfig)) :
    assembleAll t policy deployers =
      deployers.mapM (tryAssemble t policy) >>= fun records => pure records.reduceOption := rfl

theorem steady_tryAssemble (t : FileTree) (policy : Policy) (d : Text × DeployerConfig) :
    (tryAssemble t policy d).Steady :=
  (quiet_assemble t d.1 d.2).steady_skipping policy _ _

theorem steady_assembleAll (t : FileTree) (policy : Policy)
    (deployers : List (Text × DeployerConfig)) : (assembleAll t policy deployers).Steady := by
  rw [assembleAll_eq]
  exact (Steady.mapM (steady_tryAssemble t policy) deployers).bind fun _ => (quiet_pure _).steady

/-- **The records of several deployers** are those of the deployers that can be assembled. -/
theorem eq_of_assembleAll {t : FileTree} {policy : Policy}
    {deployers : List (Text × DeployerConfig)} {records : List DeployerRecord}
    (h : (assembleAll t policy deployers).outcome = .ok records) :
    records = deployers.filterMap fun d => assembled? t d.1 d.2 := by
  rw [assembleAll_eq, Steady.outcome_bind_eq_ok_iff fun _ => (quiet_pure _).steady] at h
  obtain ⟨os, hos, h⟩ := h
  cases h
  rw [outcome_mapM (steady_tryAssemble t policy)] at hos
  simp only [tryAssemble, outcome_skipping] at hos
  exact Policy.eq_filterMap_of_settle hos

/-- **A record names its meta by the meta's hash.** -/
theorem metaHash_of_assemble {t : FileTree} {key : Text} {d : DeployerConfig}
    {record : DeployerRecord} (h : assembled? t key d = some record) :
    record.metaHash = keccak256 record.metaBytes := by
  obtain ⟨j, hrun⟩ := exists_runFrom_of_outcome (Except.eq_ok_of_toOption h)
  obtain ⟨constructionMeta, _, hmeta, hrun⟩ := exists_of_runFrom_bind hrun
  obtain ⟨⟨bytecode, deployed⟩, _, -, hrun⟩ := exists_of_runFrom_bind hrun
  obtain ⟨parserBytecode, _, -, hrun⟩ := exists_of_runFrom_bind hrun
  obtain ⟨storeBytecode, _, -, hrun⟩ := exists_of_runFrom_bind hrun
  obtain ⟨interpreterBytecode, _, -, hrun⟩ := exists_of_runFrom_bind hrun
  rw [map_eq_pure_bind] at hmeta
  obtain ⟨bytes, _, -, hmeta⟩ := exists_of_runFrom_bind hmeta
  rcases hkey : Hex.decode key with cause | txHash
  · rw [hkey] at hrun
    cases hrun
  · rw [hkey] at hrun
    cases hmeta
    cases hrun
    rfl

end Deployer

/-! ### All together -/

namespace Build

variable [Platform]

/-- **What a build has to gather**: the dotrains that the scan finds, the metas of the entries
that can be loaded, and the records of the deployers that can be assembled. -/
structure Gathers (t : FileTree) (policy : Policy) (c : Config) (g : Gathered) : Prop where
  files : (Scan.scanAll t policy c.roots).result.1 = .ok g.files
  metas : g.metas = c.metas.filterMap (MetaFile.loaded? t)
  records : g.records = c.deployers.filterMap fun d => Deployer.assembled? t d.1 d.2

/-- A dotrain that was gathered holds the text of the file at its path. -/
theorem Gathers.faithful {t : FileTree} {policy : Policy} {c : Config} {g : Gathered}
    (hg : Gathers t policy c g) : ∀ file ∈ g.files, file.Faithful t :=
  Scan.faithful_of_scanAll hg.files

/-- **A build that gathers everything gathers what it has to.** -/
theorem gathers_of_runFrom {t : FileTree} {policy : Policy} {c : Config} {g : Gathered}
    {j : Journal} (h : runFrom (gather t policy c) [] = (.ok g, j)) : Gathers t policy c g := by
  obtain ⟨_, j₀, -, h⟩ := exists_of_runFrom_bind h
  obtain ⟨files, j₁, hfiles, h⟩ := exists_of_runFrom_bind h
  obtain ⟨metas, j₂, hmetas, h⟩ := exists_of_runFrom_bind h
  obtain ⟨records, j₃, hrecords, h⟩ := exists_of_runFrom_bind h
  cases h
  -- each stage finds a journal that earlier ones have written into, which does not matter to it
  have hf := (Scan.steady_scanAll t policy c.roots).ends j₀
  have hm := (MetaFile.steady_loadAll t policy c.metas).ends j₁
  have hr := (Deployer.steady_assembleAll t policy c.deployers).ends j₂
  rw [hfiles] at hf
  rw [hmetas] at hm
  rw [hrecords] at hr
  exact ⟨hf.symm, MetaFile.eq_of_loadAll hm.symm, Deployer.eq_of_assembleAll hr.symm⟩

/-- **A build gathers everything** if each of its stages comes to something on its own. -/
theorem exists_runFrom_gather {t : FileTree} {policy : Policy} {c : Config}
    {g : Gathered} (hfiles : (Scan.scanAll t policy c.roots).outcome = .ok g.files)
    (hmetas : (MetaFile.loadAll t policy c.metas).outcome = .ok g.metas)
    (hrecords : (Deployer.assembleAll t policy c.deployers).outcome = .ok g.records) :
    ∃ j, runFrom (gather t policy c) [] = (.ok g, j) := by
  obtain ⟨j₁, h₁⟩ := (Scan.steady_scanAll t policy c.roots).exists_runFrom hfiles
    [.buildStarted policy c.roots.length c.metas.length c.deployers.length]
  obtain ⟨j₂, h₂⟩ := (MetaFile.steady_loadAll t policy c.metas).exists_runFrom hmetas j₁
  obtain ⟨j₃, h₃⟩ := (Deployer.steady_assembleAll t policy c.deployers).exists_runFrom hrecords j₂
  refine ⟨j₃, ?_⟩
  rw [gather, runFrom_bind_of_ok (runFrom_record _ _), List.nil_append, runFrom_bind_of_ok h₁,
    runFrom_bind_of_ok h₂, runFrom_bind_of_ok h₃]
  rfl

end Build

end RainMeta
