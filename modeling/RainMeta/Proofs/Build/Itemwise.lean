import Mathlib.Data.List.Forall2
import RainMeta.Proofs.Build.Contents

/-!
# A build item by item

What a build comes to is put together of what its items come to, each on its own
(`RainMeta.Build.result_eq_ok_iff`). A build returns exactly if every root, every meta and every
deployer gets through (`RainMeta.Build.Passes`), and everything that is found can be bound. What
was gathered is then read off the items (`RainMeta.Build.gathered`), and so is what was skipped
(`RainMeta.Build.skipped`).

The three stages are alike: each goes through a list of steady runs. So a stage returns if each
of these runs does, and what it skips is what they skip, one after another. Filling the store
skips nothing. It ends early if a dotrain cannot be bound, which is a matter of that dotrain alone
(`RainMeta.DotrainFile.Bindable`).
-/

namespace RainMeta

open Run

/-! ### The stages -/

namespace Scan

/-- The dotrains below a root, if the scan gets through. -/
def found (t : FileTree) (policy : Policy) (root : Path) : List DotrainFile :=
  (scan t policy root).outcome.toOption.getD []

theorem outcome_scanAll_eq_ok_iff {t : FileTree} {policy : Policy} {roots : List Path}
    {files : List DotrainFile} : (scanAll t policy roots).outcome = .ok files ↔
      (∀ root ∈ roots, (scan t policy root).Returns) ∧ files = roots.flatMap (found t policy) := by
  have hreturns : (scanAll t policy roots).Returns ↔
      ∀ root ∈ roots, (scan t policy root).Returns := by
    rw [← returns_mapM_iff (steady_scan t policy)]
    exact returns_map_iff (f := List.flatten) (r := roots.mapM (scan t policy))
  have hfiles : ∀ {files}, (scanAll t policy roots).outcome = .ok files →
      files = roots.flatMap (found t policy) := by
    intro files h
    obtain ⟨below, hbelow, rfl⟩ := exists_found_of_scanAll h
    clear h hreturns
    induction hbelow with
    | nil => rfl
    | cons hroot _ ih => rw [List.flatten_cons, List.flatMap_cons, ih, found, hroot]; rfl
  constructor
  · exact fun h => ⟨hreturns.mp ⟨files, h⟩, hfiles h⟩
  · rintro ⟨h, rfl⟩
    obtain ⟨files, h⟩ := hreturns.mpr h
    rw [h, hfiles h]

theorem skips_scanAll {t : FileTree} {policy : Policy} {roots : List Path}
    (h : ∀ root ∈ roots, (scan t policy root).Returns) :
    (scanAll t policy roots).skips = roots.flatMap fun root => (scan t policy root).skips := by
  obtain ⟨below, hbelow⟩ := (returns_mapM_iff (steady_scan t policy)).mpr h
  rw [scanAll, Steady.skips_bind (fun _ => (quiet_pure _).steady) hbelow, skips_pure,
    List.append_nil, skips_mapM (steady_scan t policy) ⟨below, hbelow⟩]

end Scan

namespace MetaFile

theorem outcome_loadAll_eq_ok_iff {t : FileTree} {policy : Policy} {entries : List MetaEntry}
    {metas : List LoadedMeta} : (loadAll t policy entries).outcome = .ok metas ↔
      (∀ entry ∈ entries, (load t policy entry).Returns) ∧
        metas = entries.filterMap (loaded? t) := by
  have hreturns : (loadAll t policy entries).Returns ↔
      ∀ entry ∈ entries, (load t policy entry).Returns := by
    rw [← returns_mapM_iff (steady_load t policy)]
    simp only [Returns, loadAll_eq, Steady.outcome_bind_eq_ok_iff steady_finishLoading]
    constructor
    · rintro ⟨_, loaded, h, -⟩
      exact ⟨loaded, h⟩
    · rintro ⟨loaded, h⟩
      exact ⟨_, loaded, h, rfl⟩
  constructor
  · exact fun h => ⟨hreturns.mp ⟨metas, h⟩, eq_of_loadAll h⟩
  · rintro ⟨h, rfl⟩
    obtain ⟨metas, h⟩ := hreturns.mpr h
    rw [h, eq_of_loadAll h]

theorem skips_loadAll {t : FileTree} {policy : Policy} {entries : List MetaEntry}
    (h : ∀ entry ∈ entries, (load t policy entry).Returns) :
    (loadAll t policy entries).skips =
      entries.flatMap fun entry => (load t policy entry).skips := by
  obtain ⟨loaded, hloaded⟩ := (returns_mapM_iff (steady_load t policy)).mpr h
  have hend : (finishLoading loaded).skips = [] :=
    (Quiet.bind (quiet_record rfl) fun _ => quiet_pure loaded.reduceOption).skips
  rw [loadAll_eq, Steady.skips_bind steady_finishLoading hloaded, hend, List.append_nil,
    skips_mapM (steady_load t policy) ⟨loaded, hloaded⟩]

end MetaFile

namespace Deployer

variable [Platform]

theorem outcome_assembleAll_eq_ok_iff {t : FileTree} {policy : Policy}
    {deployers : List (Text × DeployerConfig)} {records : List DeployerRecord} :
    (assembleAll t policy deployers).outcome = .ok records ↔
      (∀ d ∈ deployers, (tryAssemble t policy d).Returns) ∧
        records = deployers.filterMap fun d => assembled? t d.1 d.2 := by
  have hreturns : (assembleAll t policy deployers).Returns ↔
      ∀ d ∈ deployers, (tryAssemble t policy d).Returns := by
    rw [← returns_mapM_iff (steady_tryAssemble t policy), assembleAll_eq]
    exact returns_map_iff (f := List.reduceOption) (r := deployers.mapM (tryAssemble t policy))
  constructor
  · exact fun h => ⟨hreturns.mp ⟨records, h⟩, eq_of_assembleAll h⟩
  · rintro ⟨h, rfl⟩
    obtain ⟨records, h⟩ := hreturns.mpr h
    rw [h, eq_of_assembleAll h]

theorem skips_assembleAll {t : FileTree} {policy : Policy}
    {deployers : List (Text × DeployerConfig)}
    (h : ∀ d ∈ deployers, (tryAssemble t policy d).Returns) :
    (assembleAll t policy deployers).skips =
      deployers.flatMap fun d => (tryAssemble t policy d).skips := by
  obtain ⟨records, hrecords⟩ := (returns_mapM_iff (steady_tryAssemble t policy)).mpr h
  rw [assembleAll_eq, Steady.skips_bind (fun _ => (quiet_pure _).steady) hrecords, skips_pure,
    List.append_nil, skips_mapM (steady_tryAssemble t policy) ⟨records, hrecords⟩]

end Deployer

/-! ### Gathering -/

namespace Build

/-- **A configuration passes** if each of its items gets through: it gives something, or it is
skipped. -/
structure Passes [Platform] (t : FileTree) (policy : Policy) (c : Config) : Prop where
  roots : ∀ root ∈ c.roots, (Scan.scan t policy root).Returns
  metas : ∀ entry ∈ c.metas, (MetaFile.load t policy entry).Returns
  deployers : ∀ d ∈ c.deployers, (Deployer.tryAssemble t policy d).Returns

/-- What the items of a configuration give. -/
def gathered [Platform] (t : FileTree) (policy : Policy) (c : Config) : Gathered where
  files := c.roots.flatMap (Scan.found t policy)
  metas := c.metas.filterMap (MetaFile.loaded? t)
  records := c.deployers.filterMap fun d => Deployer.assembled? t d.1 d.2

/-- What is skipped for the items of a configuration. -/
def skipped [Platform] (t : FileTree) (policy : Policy) (c : Config) : List SkippedItem :=
  (c.roots.flatMap fun root => (Scan.scan t policy root).skips) ++
    (c.metas.flatMap fun entry => (MetaFile.load t policy entry).skips) ++
    c.deployers.flatMap fun d => (Deployer.tryAssemble t policy d).skips

section Gather

variable [Platform] (t : FileTree) (policy : Policy) (c : Config)

/-- Gathering after the metas are loaded. -/
def assembleRest (files : List DotrainFile) (metas : List LoadedMeta) : Run Gathered :=
  Deployer.assembleAll t policy c.deployers >>= fun records => pure { files, metas, records }

/-- Gathering after the scan. -/
def loadRest (files : List DotrainFile) : Run Gathered :=
  MetaFile.loadAll t policy c.metas >>= assembleRest t policy c files

/-- Gathering after it was announced. -/
def scanRest : Run Gathered :=
  Scan.scanAll t policy c.roots >>= loadRest t policy c

theorem gather_eq : gather t policy c = record (.buildStarted policy c.roots.length
    c.metas.length c.deployers.length) >>= fun _ => scanRest t policy c := rfl

theorem steady_assembleRest (files : List DotrainFile) (metas : List LoadedMeta) :
    (assembleRest t policy c files metas).Steady :=
  (Deployer.steady_assembleAll t policy _).bind fun _ => (quiet_pure _).steady

theorem steady_loadRest (files : List DotrainFile) : (loadRest t policy c files).Steady :=
  (MetaFile.steady_loadAll t policy _).bind (steady_assembleRest t policy c files)

theorem steady_scanRest : (scanRest t policy c).Steady :=
  (Scan.steady_scanAll t policy _).bind (steady_loadRest t policy c)

end Gather

section Gather

variable [Platform] {t : FileTree} {policy : Policy} {c : Config}

/-- **A build has gathered everything** if its configuration passes. -/
theorem outcome_gather_eq_ok_iff {g : Gathered} : (gather t policy c).outcome = .ok g ↔
    Passes t policy c ∧ g = gathered t policy c := by
  rw [gather_eq, Steady.outcome_bind_eq_ok_iff fun _ => steady_scanRest t policy c]
  simp only [scanRest, loadRest, assembleRest,
    Steady.outcome_bind_eq_ok_iff (steady_loadRest t policy c),
    Steady.outcome_bind_eq_ok_iff (steady_assembleRest t policy c _),
    Steady.outcome_bind_eq_ok_iff fun _ => (quiet_pure _).steady,
    Scan.outcome_scanAll_eq_ok_iff, MetaFile.outcome_loadAll_eq_ok_iff,
    Deployer.outcome_assembleAll_eq_ok_iff, outcome_pure, Except.ok.injEq]
  constructor
  · rintro ⟨_, -, _, ⟨hroots, rfl⟩, _, ⟨hmetas, rfl⟩, _, ⟨hdeployers, rfl⟩, rfl⟩
    exact ⟨⟨hroots, hmetas, hdeployers⟩, rfl⟩
  · rintro ⟨hc, rfl⟩
    exact ⟨(), rfl, _, ⟨hc.roots, rfl⟩, _, ⟨hc.metas, rfl⟩, _, ⟨hc.deployers, rfl⟩, rfl⟩

/-- **What gathering skips**, one item after another. -/
theorem skips_gather (h : Passes t policy c) : (gather t policy c).skips = skipped t policy c := by
  have hfiles := Scan.outcome_scanAll_eq_ok_iff.mpr ⟨h.roots, rfl⟩
  have hmetas := MetaFile.outcome_loadAll_eq_ok_iff.mpr ⟨h.metas, rfl⟩
  have hrecords := Deployer.outcome_assembleAll_eq_ok_iff.mpr ⟨h.deployers, rfl⟩
  have hstart : (record (.buildStarted policy c.roots.length c.metas.length
      c.deployers.length)).skips = [] := (quiet_record rfl).skips
  rw [gather_eq, Steady.skips_bind (fun _ => steady_scanRest t policy c) (outcome_record _),
    hstart, List.nil_append, scanRest, Steady.skips_bind (steady_loadRest t policy c) hfiles,
    loadRest, Steady.skips_bind (steady_assembleRest t policy c _) hmetas, assembleRest,
    Steady.skips_bind (fun _ => (quiet_pure _).steady) hrecords, skips_pure, List.append_nil,
    Scan.skips_scanAll h.roots, MetaFile.skips_loadAll h.metas,
    Deployer.skips_assembleAll h.deployers, skipped, List.append_assoc]

end Gather

/-! ### Filling -/

end Build

/-- **A dotrain can be bound** if its text can be encoded. Without a uri it is dropped, which the
strict policy does not allow. -/
def DotrainFile.Bindable (policy : Policy) (file : DotrainFile) : Prop :=
  match Build.uriOf file.path with
  | some _ => (Utf8.encode file.text).isOk
  | none => policy = .lenient

namespace Build

theorem quiet_addDotrain (policy : Policy) (s : Store) (file : DotrainFile) :
    (addDotrain policy s file).Quiet := by
  unfold addDotrain
  split
  · split
    · exact quiet_fail _
    · exact (quiet_record rfl).bind fun _ => quiet_pure _
  · split
    · exact quiet_pure _
    · exact quiet_crash _

theorem quiet_addDotrains (policy : Policy) (s : Store) (count : Nat) (files : List DotrainFile) :
    (addDotrains policy s count files).Quiet := by
  induction files generalizing s count with
  | nil => exact quiet_pure _
  | cons file rest ih =>
    rw [addDotrains_cons]
    exact (quiet_addDotrain policy s file).bind fun p => ih _ _

/-- What a dotrain does to a store, if it can be bound. -/
theorem outcome_addDotrain_eq_ok_iff {policy : Policy} {s : Store} {file : DotrainFile}
    {p : Store × Bool} : (addDotrain policy s file).outcome = .ok p ↔ file.Bindable policy ∧
      p = (((bindings [file]).map bindOperation).foldl Store.apply s,
        (uriOf file.path).isSome) := by
  rcases hu : uriOf file.path with _ | uri
  · rw [bindings_cons_of_none hu]
    simp only [addDotrain, hu, DotrainFile.Bindable]
    cases policy with
    | strict => exact iff_of_false (by rintro ⟨⟩) (by rintro ⟨⟨⟩, -⟩)
    | lenient =>
      constructor
      · rintro ⟨⟩
        exact ⟨rfl, rfl⟩
      · rintro ⟨-, rfl⟩
        rfl
  · rw [bindings_cons_of_some hu, addDotrain_of_uri hu]
    simp only [DotrainFile.Bindable, hu, bindings, List.filterMap_nil, List.map_cons, List.map_nil,
      List.foldl_cons, List.foldl_nil, bindOperation, Store.apply, Option.isSome_some]
    by_cases hok : (Utf8.encode file.text).isOk
    · rw [Store.setDotrain, Envelope.dotrain?_of_isOk hok]
      simp [hok, Except.map, eq_comm]
    · obtain ⟨cause, hc⟩ := Envelope.exists_error_of_not_isOk hok
      rw [Store.setDotrain, hc]
      simp [hok, Except.map]

/-- **Binding dotrains one after another** comes to an end if each of them can be bound. -/
theorem outcome_addDotrains_eq_ok_iff {policy : Policy} {s : Store} {count : Nat}
    {files : List DotrainFile} {p : Store × Nat} :
    (addDotrains policy s count files).outcome = .ok p ↔
      (∀ file ∈ files, file.Bindable policy) ∧
        p = (((bindings files).map bindOperation).foldl Store.apply s,
          count + (bindings files).length) := by
  induction files generalizing s count with
  | nil =>
    rw [addDotrains, outcome_pure, Except.ok.injEq]
    simp [bindings, eq_comm]
  | cons file rest ih =>
    rw [addDotrains_cons, Steady.outcome_bind_eq_ok_iff fun p : Store × Bool =>
      (quiet_addDotrains policy p.1 (if p.2 then count + 1 else count) rest).steady]
    simp only [outcome_addDotrain_eq_ok_iff, ih, List.forall_mem_cons]
    -- what the first one and then the others do is what all of them do
    have hcons : (((bindings rest).map bindOperation).foldl Store.apply
        (((bindings [file]).map bindOperation).foldl Store.apply s),
          (if (uriOf file.path).isSome then count + 1 else count) + (bindings rest).length) =
        (((bindings (file :: rest)).map bindOperation).foldl Store.apply s,
          count + (bindings (file :: rest)).length) := by
      rcases hu : uriOf file.path with _ | uri
      · rw [bindings_cons_of_none hu, bindings_cons_of_none hu]
        rfl
      · have hone : count + 1 + (bindings rest).length = count + ((bindings rest).length + 1) := by
          omega
        rw [bindings_cons_of_some hu, bindings_cons_of_some hu, List.length_cons, ← hone]
        rfl
    constructor
    · rintro ⟨_, ⟨hfile, rfl⟩, hrest, rfl⟩
      exact ⟨⟨hfile, hrest⟩, hcons⟩
    · rintro ⟨⟨hfile, hrest⟩, rfl⟩
      exact ⟨_, ⟨hfile, rfl⟩, hrest, hcons.symm⟩

/-- The operations of a build, up to the binding of the dotrains and after it. -/
theorem run_operations (c : Config) (g : Gathered) : Store.run (operations c g) =
    g.records.reverse.foldl Store.setDeployer
      (((bindings g.files).map bindOperation).foldl Store.apply (unbound c g)) := by
  simp only [operations, Store.run, List.foldl_append, List.foldl_cons, unbound, addMetas_eq]
  rw [List.foldl_map (f := Store.Operation.setDeployer)]
  rfl

/-- **Filling comes to an end** if every dotrain can be bound. -/
theorem runFrom_fill_eq_ok_iff {policy : Policy} {c : Config} {g : Gathered} {j : Journal}
    {s : Store} {report : Report} : (runFrom (fill policy c g) j).1 = .ok (s, report) ↔
      (∀ file ∈ g.files, file.Bindable policy) ∧ s = Store.run (operations c g) ∧
        report = reportOf policy g s (bindings g.files).length j.skipped := by
  obtain ⟨outcome, hy⟩ := quiet_addDotrains policy (unbound c g) 0 g.files
  have ho : (addDotrains policy (unbound c g) 0 g.files).outcome = outcome := by
    obtain ⟨k, hk, -⟩ := hy []
    rw [Run.outcome, result_eq, hk]
  rcases outcome with fault | ⟨s₁, count⟩
  · rw [fill_of_yields_error hy]
    refine iff_of_false (by rintro ⟨⟩) ?_
    rintro ⟨hfiles, -⟩
    rw [outcome_addDotrains_eq_ok_iff.mpr ⟨hfiles, rfl⟩] at ho
    cases ho
  · obtain ⟨hfiles, hp⟩ := outcome_addDotrains_eq_ok_iff.mp ho
    rw [Prod.mk.injEq, Nat.zero_add] at hp
    obtain ⟨rfl, rfl⟩ := hp
    rw [fill_of_yields_ok hy, ← run_operations, Except.ok.injEq, Prod.mk.injEq]
    constructor
    · rintro ⟨rfl, rfl⟩
      exact ⟨hfiles, rfl, rfl⟩
    · rintro ⟨-, rfl, rfl⟩
      exact ⟨rfl, rfl⟩

/-! ### Builds -/

section Build

variable [Platform]

/-- The store of what the items of a configuration give. -/
def filled (t : FileTree) (policy : Policy) (c : Config) : Store :=
  Store.run (operations c (gathered t policy c))

/-- The report about it. -/
def reported (t : FileTree) (policy : Policy) (c : Config) : Report :=
  reportOf policy (gathered t policy c) (filled t policy c)
    (bindings (gathered t policy c).files).length (skipped t policy c)

/-- **A configuration can be built** if each of its items gets through and whatever is found can
be bound. -/
structure Buildable (t : FileTree) (policy : Policy) (c : Config) : Prop where
  passes : Passes t policy c
  bindable : ∀ file ∈ (gathered t policy c).files, file.Bindable policy

variable {t : FileTree} {policy : Policy} {c : Config} {s : Store} {report : Report}

/-- **What a build comes to, item by item.** It returns exactly if its configuration can be built,
and then store and report are made of what the items gave. -/
theorem result_eq_ok_iff : (build t policy c).result.1 = .ok (s, report) ↔
    Buildable t policy c ∧ s = filled t policy c ∧ report = reported t policy c := by
  rcases ho : (gather t policy c).outcome with fault | g
  · have hg : runFrom (gather t policy c) [] =
        (.error fault, (runFrom (gather t policy c) []).2) := by
      rw [← ho, outcome, result_eq]
    rw [result_build_of_error hg]
    refine iff_of_false (by rintro ⟨⟩) ?_
    rintro ⟨⟨hc, -⟩, -⟩
    rw [outcome_gather_eq_ok_iff.mpr ⟨hc, rfl⟩] at ho
    cases ho
  · obtain ⟨hc, rfl⟩ := outcome_gather_eq_ok_iff.mp ho
    obtain ⟨j, hj⟩ := exists_runFrom_of_outcome ho
    have hskipped : j.skipped = skipped t policy c := by
      rw [← skips_gather hc, skips, result_eq, hj]
    rw [result_build_of_ok hj, runFrom_fill_eq_ok_iff, hskipped]
    constructor
    · rintro ⟨hfiles, rfl, rfl⟩
      exact ⟨⟨hc, hfiles⟩, rfl, rfl⟩
    · rintro ⟨⟨-, hfiles⟩, rfl, rfl⟩
      exact ⟨hfiles, rfl, rfl⟩

theorem result_of_buildable (h : Buildable t policy c) :
    (build t policy c).result.1 = .ok (filled t policy c, reported t policy c) :=
  result_eq_ok_iff.mpr ⟨h, rfl, rfl⟩

theorem exists_result_iff :
    (∃ s report, (build t policy c).result.1 = .ok (s, report)) ↔ Buildable t policy c :=
  ⟨fun ⟨_, _, h⟩ => (result_eq_ok_iff.mp h).1, fun h => ⟨_, _, result_of_buildable h⟩⟩

/-- A build that returns gathered what its items give. -/
theorem gathers_gathered (h : Passes t policy c) :
    Gathers t policy c (gathered t policy c) := by
  obtain ⟨j, hj⟩ := exists_runFrom_of_outcome (outcome_gather_eq_ok_iff.mpr ⟨h, rfl⟩)
  exact gathers_of_runFrom hj

/-- **What has no other items than a configuration that can be built can be built.** -/
theorem Buildable.of_subset {c' : Config} (h : Buildable t policy c) (hroots : c'.roots ⊆ c.roots)
    (hmetas : c'.metas ⊆ c.metas) (hdeployers : c'.deployers ⊆ c.deployers) :
    Buildable t policy c' where
  passes :=
    { roots := fun root hr => h.passes.roots root (hroots hr)
      metas := fun entry he => h.passes.metas entry (hmetas he)
      deployers := fun d hd => h.passes.deployers d (hdeployers hd) }
  bindable file hfile := by
    obtain ⟨root, hroot, hmem⟩ := List.mem_flatMap.mp hfile
    exact h.bindable file (List.mem_flatMap.mpr ⟨root, hroots hroot, hmem⟩)

end Build

end Build

end RainMeta
