import Mathlib.Data.List.Forall2
import RainMeta.Proofs.Build.Itemwise
import RainMeta.Proofs.Build.Returning

/-!
# The accounts of a lenient build

The report of a lenient build is a full account of its configuration
(`RainMeta.Build.accounts_of_lenient`). What was skipped is what each item skips when it is the
only one (`RainMeta.Config.alone`), in the order of the items. The numbers in the report add up
with what was skipped and with what was dropped to the numbers of items and of files. And an item
that failed has left nothing behind but itself in the list of what was skipped: without it
(`RainMeta.Build.Omits`) the build comes to the same store.

All of this is read off the items, as a build does (`RainMeta.Build.result_eq_ok_iff`). The one
thing to be known about a single item is that it is skipped at the stage it belongs to, and that
metas and deployers either give one thing or are skipped once.
-/

namespace RainMeta

open Run

/-- **The items of a configuration, each alone**: the configurations of nothing but one root, one
meta or one deployer, in the order in which a build comes to them. -/
def Config.alone (c : Config) : List Config :=
  c.roots.map (fun root => { roots := [root] }) ++
    c.metas.map (fun entry => { metas := [entry] }) ++
    c.deployers.map fun d => { deployers := [d] }

/-- How many items were skipped at a stage. -/
def Report.skippedAt (report : Report) (stage : Text) : Nat :=
  report.skipped.countP fun item => item.stage == stage

/-! ### Stages of skipped items -/

namespace Scan

/-- **A scan skips at its own stage.** -/
theorem stage_of_mem_skips_inspect {t : FileTree} {policy : Policy} {dir : Path} {e : Entry}
    {item : SkippedItem} (h : item ∈ (inspect t policy dir e).skips) : item.stage = stage := by
  rw [inspect_eq] at h
  rcases Steady.mem_skips_bind (fun kind => steady_contribution t policy _ _) h with h | ⟨kind, h⟩
  · exact (quiet_access _ _).stage_of_mem_skips h
  · unfold contribution at h
    split at h
    · cases h
    · split at h
      · rw [map_eq_pure_bind] at h
        rcases Steady.mem_skips_bind (fun _ => (quiet_pure _).steady) h with h | ⟨_, h⟩
        · exact (quiet_readDotrain t _).stage_of_mem_skips h
        · cases h
      · cases h
    · cases h

theorem stage_of_mem_skips_refuse {policy : Policy} {dir : Path} {cause : AccessError}
    {item : SkippedItem} (h : item ∈ (refuse policy dir cause).skips) : item.stage = stage := by
  rcases Steady.mem_skips_bind (fun _ => (quiet_pure _).steady) h with h | ⟨_, h⟩
  · exact (quiet_access _ _).stage_of_mem_skips h
  · cases h

theorem stage_of_mem_skips_scanFrom {t : FileTree} {policy : Policy} {pending : List Path}
    {item : SkippedItem} (h : item ∈ (scanFrom t policy pending).skips) : item.stage = stage := by
  induction pending using scanFrom.induct (t := t) with
  | case1 =>
    rw [scanFrom] at h
    cases h
  | case2 dir rest cause hdir ih =>
    rw [scanFrom_of_error hdir] at h
    rcases Steady.mem_skips_bind (fun _ => steady_scanFrom t policy rest) h with h | ⟨_, h⟩
    · exact stage_of_mem_skips_refuse h
    · exact ih h
  | case3 dir rest entries hdir ih =>
    rw [scanFrom_of_ok hdir] at h
    rcases Steady.mem_skips_bind (fun found =>
      (steady_scanFrom t policy _).bind fun more => (quiet_pure _).steady) h with h | ⟨found, h⟩
    · obtain ⟨e, -, h⟩ := mem_skips_mapM (steady_inspect t policy dir) h
      exact stage_of_mem_skips_inspect h
    · rcases Steady.mem_skips_bind (fun more => (quiet_pure _).steady) h with h | ⟨more, h⟩
      · exact ih found h
      · cases h

theorem stage_of_mem_skips_scan {t : FileTree} {policy : Policy} {root : Path}
    {item : SkippedItem} (h : item ∈ (scan t policy root).skips) : item.stage = stage := by
  rcases Steady.mem_skips_bind (fun found =>
    (quiet_record rfl).steady.bind fun _ => (quiet_pure found).steady) h with h | ⟨found, h⟩
  · exact stage_of_mem_skips_scanFrom h
  · rw [Quiet.skips ((quiet_record rfl).bind fun _ => quiet_pure found)] at h
    cases h

/-- **A root that cannot be listed** gives nothing and is skipped. -/
theorem exists_skips_of_list {t : FileTree} {root : Path} {cause : AccessError}
    (h : (scan t .lenient root).Returns) (hlist : t.list root.text = .error cause) :
    found t .lenient root = [] ∧ ∃ item, (scan t .lenient root).skips = [item] := by
  have hentries : entriesOf t root = .error cause := by
    rw [entriesOf, hlist]
    rfl
  -- all that happens is that the failure is skipped
  let refused : Run Unit := access (.directoryUnreadable root) (.error cause)
  let rest : Run (List DotrainFile) := record (.scanned root 0) >>= fun _ => pure []
  have hrest : rest.Quiet := (quiet_record rfl).bind fun _ => quiet_pure []
  have hscan : scan t .lenient root =
      skipping .lenient stage root.text refused >>= fun _ => rest := by
    simp only [scan, scanFrom_of_error hentries, scanFrom, refuse, bind_assoc, pure_bind]
    rfl
  rw [found, hscan]
  rw [hscan] at h
  obtain ⟨files, o, ho, -⟩ := h.imp fun _ => (Steady.outcome_bind_eq_ok_iff fun _ =>
    hrest.steady).mp
  rw [Steady.outcome_bind _ fun _ => hrest.steady,
    Steady.skips_bind (fun _ => hrest.steady) ho, hrest.skips, List.append_nil, ho]
  refine ⟨rfl, ?_⟩
  rcases (quiet_access _ _).lenient_cases ⟨o, ho⟩ with ⟨_, hok, -⟩ | ⟨_, -, hskips⟩
  · rw [outcome_access_eq_ok_iff] at hok
    cases hok
  · exact ⟨_, hskips⟩

end Scan

/-! ### Metas and deployers -/

/-- **An item gives one thing or is skipped once**, at its stage. -/
def GivesOrSkips {α : Type} (stage : Text) (given : Option α) (skips : List SkippedItem) : Prop :=
  ((∃ a, given = some a) ∧ skips = []) ∨ given = none ∧ ∃ item, skips = [item] ∧ item.stage = stage

theorem GivesOrSkips.of_none {α : Type} {stage : Text} {given : Option α}
    {skips : List SkippedItem} (h : GivesOrSkips stage given skips) (hnone : given = none) :
    ∃ item, skips = [item] ∧ item.stage = stage := by
  rcases h with ⟨⟨a, ha⟩, -⟩ | ⟨-, h⟩
  · rw [hnone] at ha
    cases ha
  · exact h

theorem Run.Quiet.givesOrSkips {α : Type} {r : Run α} (hr : r.Quiet) {stage name : Text}
    (h : (skipping .lenient stage name r).Returns) :
    GivesOrSkips stage r.outcome.toOption (skipping .lenient stage name r).skips := by
  rcases hr.lenient_cases h with ⟨a, ha, hs⟩ | ⟨cause, hcause, hs⟩
  · rw [ha, hs]
    exact Or.inl ⟨⟨a, rfl⟩, rfl⟩
  · rw [hcause, hs]
    exact Or.inr ⟨rfl, _, rfl, rfl⟩

theorem MetaFile.givesOrSkips {t : FileTree} {entry : MetaEntry}
    (h : (load t .lenient entry).Returns) :
    GivesOrSkips "meta" (loaded? t entry) (load t .lenient entry).skips := by
  rw [loaded?, ← Except.toOption_map, ← outcome_map]
  exact ((quiet_read t entry).map _).givesOrSkips h

theorem Deployer.givesOrSkips [Platform] {t : FileTree} {d : Text × DeployerConfig}
    (h : (tryAssemble t .lenient d).Returns) :
    GivesOrSkips "deployer" (assembled? t d.1 d.2) (tryAssemble t .lenient d).skips :=
  (quiet_assemble t d.1 d.2).givesOrSkips h

section Items

variable {α β : Type} {stage : Text} {given : α → Option β} {skips : α → List SkippedItem}
  {l : List α}

/-- **What several items give and how often they are skipped** adds up to their number. -/
theorem length_filterMap_add_of_givesOrSkips
    (h : ∀ a ∈ l, GivesOrSkips stage (given a) (skips a)) :
    (l.filterMap given).length + (l.flatMap skips).length = l.length := by
  induction l with
  | nil => rfl
  | cons a l ih =>
    rw [List.forall_mem_cons] at h
    have hrest := ih h.2
    rw [List.flatMap_cons, List.length_append, List.length_cons, List.filterMap_cons]
    rcases h.1 with ⟨⟨b, hb⟩, hs⟩ | ⟨hnone, item, hs, -⟩
    · rw [hb, hs, List.length_nil]
      dsimp only
      rw [List.length_cons]
      omega
    · rw [hnone, hs, List.length_singleton]
      dsimp only
      omega

theorem stage_of_mem_flatMap (h : ∀ a ∈ l, GivesOrSkips stage (given a) (skips a)) :
    ∀ item ∈ l.flatMap skips, item.stage = stage := by
  intro item hitem
  obtain ⟨a, ha, hmem⟩ := List.mem_flatMap.mp hitem
  rcases h a ha with ⟨-, hs⟩ | ⟨-, item', hs, hstage⟩
  · rw [hs] at hmem
    cases hmem
  · rw [hs, List.mem_singleton] at hmem
    rw [hmem, hstage]

end Items

/-- Items that are skipped at one stage count there. -/
theorem countP_stage_eq_length {items : List SkippedItem} {stage : Text}
    (h : ∀ item ∈ items, item.stage = stage) :
    items.countP (fun item => item.stage == stage) = items.length :=
  List.countP_eq_length.mpr fun item hitem => beq_iff_eq.mpr (h item hitem)

/-- They do not count at any other stage. -/
theorem countP_stage_eq_zero {items : List SkippedItem} {stage stage' : Text}
    (h : ∀ item ∈ items, item.stage = stage) (hne : stage ≠ stage') :
    items.countP (fun item => item.stage == stage') = 0 :=
  List.countP_eq_zero.mpr fun item hitem => by
    rw [h item hitem, beq_iff_eq]
    exact hne

namespace Build

/-! ### Lists without one of their items -/

theorem append_subset_append_cons {α : Type} (before : List α) (a : α) (after : List α) :
    before ++ after ⊆ before ++ a :: after :=
  ((List.sublist_cons_self a after).append_left before).subset

/-- **A list without one of its items.** -/
def Lacks (items : List SkippedItem) (item : SkippedItem) (items' : List SkippedItem) : Prop :=
  ∃ before after, items = before ++ item :: after ∧ items' = before ++ after

theorem Lacks.append_left {items items' : List SkippedItem} {item : SkippedItem}
    (h : Lacks items item items') (more : List SkippedItem) :
    Lacks (more ++ items) item (more ++ items') := by
  obtain ⟨before, after, rfl, rfl⟩ := h
  exact ⟨more ++ before, after, by rw [List.append_assoc], by rw [List.append_assoc]⟩

theorem Lacks.append_right {items items' : List SkippedItem} {item : SkippedItem}
    (h : Lacks items item items') (more : List SkippedItem) :
    Lacks (items ++ more) item (items' ++ more) := by
  obtain ⟨before, after, rfl, rfl⟩ := h
  exact ⟨before, after ++ more, by rw [List.append_assoc, List.cons_append],
    by rw [List.append_assoc]⟩

theorem lacks_flatMap {α : Type} (skips : α → List SkippedItem) {a : α} {item : SkippedItem}
    (h : skips a = [item]) (before after : List α) :
    Lacks ((before ++ a :: after).flatMap skips) item ((before ++ after).flatMap skips) :=
  ⟨before.flatMap skips, after.flatMap skips,
    by rw [List.flatMap_append, List.flatMap_cons, h, List.singleton_append],
    List.flatMap_append⟩

variable {t : FileTree} {c : Config}

/-! ### The numbers in a report -/

/-- **A report balances**: each meta and each deployer was put into the store or skipped, and each
file that was found was bound or dropped as its path is no text. -/
structure Balances (t : FileTree) (c : Config) (report : Report) : Prop where
  metas : report.metas + report.skippedAt "meta" = c.metas.length
  deployers : report.deployers + report.skippedAt "deployer" = c.deployers.length
  dotrains : ∃ files, (Scan.scanAll t .lenient c.roots).result.1 = .ok files ∧
    report.dotrains + files.countP (fun file => (uriOf file.path).isNone) = files.length

theorem length_bindings_add (files : List DotrainFile) :
    (bindings files).length + files.countP (fun file => (uriOf file.path).isNone) =
      files.length := by
  induction files with
  | nil => rfl
  | cons file rest ih =>
    rcases hu : uriOf file.path with _ | uri
    · rw [bindings_cons_of_none hu, List.countP_cons_of_pos (by rw [hu]; rfl), List.length_cons]
      omega
    · rw [bindings_cons_of_some hu, List.countP_cons_of_neg (by rw [hu]; exact Bool.false_ne_true),
        List.length_cons, List.length_cons]
      omega

section Accounts

variable [Platform]

/-- At each stage there is skipped what the items of that stage skip. -/
theorem skippedAt_reported (h : Passes t .lenient c) :
    (reported t .lenient c).skippedAt "meta" =
        (c.metas.flatMap fun entry => (MetaFile.load t .lenient entry).skips).length ∧
      (reported t .lenient c).skippedAt "deployer" =
        (c.deployers.flatMap fun d => (Deployer.tryAssemble t .lenient d).skips).length := by
  have hroots : ∀ item ∈ c.roots.flatMap fun root => (Scan.scan t .lenient root).skips,
      item.stage = Scan.stage := fun item hitem => by
    obtain ⟨root, -, hmem⟩ := List.mem_flatMap.mp hitem
    exact Scan.stage_of_mem_skips_scan hmem
  have hmetas := stage_of_mem_flatMap fun entry he => MetaFile.givesOrSkips (h.metas entry he)
  have hdeployers := stage_of_mem_flatMap fun d hd => Deployer.givesOrSkips (h.deployers d hd)
  simp only [Report.skippedAt, reported, reportOf, skipped, List.countP_append]
  constructor
  · rw [countP_stage_eq_zero hroots (by decide), countP_stage_eq_length hmetas,
      countP_stage_eq_zero hdeployers (by decide), Nat.zero_add, Nat.add_zero]
  · rw [countP_stage_eq_zero hroots (by decide), countP_stage_eq_zero hmetas (by decide),
      countP_stage_eq_length hdeployers, Nat.zero_add]

theorem balances_reported (h : Passes t .lenient c) : Balances t c (reported t .lenient c) where
  metas := by
    rw [(skippedAt_reported h).1]
    exact length_filterMap_add_of_givesOrSkips fun entry he =>
      MetaFile.givesOrSkips (h.metas entry he)
  deployers := by
    rw [(skippedAt_reported h).2]
    exact length_filterMap_add_of_givesOrSkips fun d hd =>
      Deployer.givesOrSkips (h.deployers d hd)
  dotrains := ⟨_, Scan.outcome_scanAll_eq_ok_iff.mpr ⟨h.roots, rfl⟩, length_bindings_add _⟩

/-! ### Items alone -/

/-- What is skipped for a configuration is skipped for its items, each alone. -/
theorem skipped_eq_flatMap_alone (t : FileTree) (policy : Policy) (c : Config) :
    skipped t policy c = c.alone.flatMap (skipped t policy) := by
  simp [skipped, Config.alone, List.flatMap_append, List.flatMap_map]

/-- Each item can be built alone. -/
theorem Buildable.alone {policy : Policy} (h : Buildable t policy c) :
    ∀ one ∈ c.alone, Buildable t policy one := by
  simp only [Config.alone, List.mem_append, List.mem_map]
  rintro one ((⟨root, hr, rfl⟩ | ⟨entry, he, rfl⟩) | ⟨d, hd, rfl⟩)
  · exact h.of_subset (by simpa using hr) (by simp) (by simp)
  · exact h.of_subset (by simp) (by simpa using he) (by simp)
  · exact h.of_subset (by simp) (by simp) (by simpa using hd)

/-! ### Leaving out what failed -/

/-- **A configuration without an item that fails**: `one` is nothing but the item, and `c'` is
what is left of `c`. A root fails if it cannot be listed, a meta if it cannot be loaded, and a
deployer if it cannot be assembled. -/
inductive Omits (t : FileTree) : Config → Config → Config → Prop
  | ofRoot {c : Config} {before after : List Path} {root : Path} {cause : AccessError}
      (split : c.roots = before ++ root :: after) (fails : t.list root.text = .error cause) :
      Omits t c { roots := [root] } { c with roots := before ++ after }
  | ofMeta {c : Config} {before after : List MetaEntry} {entry : MetaEntry}
      (split : c.metas = before ++ entry :: after) (fails : MetaFile.loaded? t entry = none) :
      Omits t c { metas := [entry] } { c with metas := before ++ after }
  | ofDeployer {c : Config} {before after : List (Text × DeployerConfig)}
      {d : Text × DeployerConfig} (split : c.deployers = before ++ d :: after)
      (fails : Deployer.assembled? t d.1 d.2 = none) :
      Omits t c { deployers := [d] } { c with deployers := before ++ after }

theorem Omits.buildable {one c' : Config} (ho : Omits t c one c') (h : Buildable t .lenient c) :
    Buildable t .lenient one ∧ Buildable t .lenient c' := by
  cases ho with
  | ofRoot split =>
    exact ⟨h.of_subset (by simp [split]) (by simp) (by simp),
      h.of_subset (split ▸ append_subset_append_cons _ _ _) (by simp) (by simp)⟩
  | ofMeta split =>
    exact ⟨h.of_subset (by simp) (by simp [split]) (by simp),
      h.of_subset (by simp) (split ▸ append_subset_append_cons _ _ _) (by simp)⟩
  | ofDeployer split =>
    exact ⟨h.of_subset (by simp) (by simp) (by simp [split]),
      h.of_subset (by simp) (by simp) (split ▸ append_subset_append_cons _ _ _)⟩

/-- **What failed leaves nothing behind** but itself among what was skipped. -/
theorem Omits.left_behind {one c' : Config} (ho : Omits t c one c') (h : Buildable t .lenient c) :
    gathered t .lenient c' = gathered t .lenient c ∧ c'.subgraphs = c.subgraphs ∧
    ∃ item, skipped t .lenient one = [item] ∧
      Lacks (skipped t .lenient c) item (skipped t .lenient c') := by
  cases ho with
  | @ofRoot before after root cause split fails =>
    obtain ⟨hfound, item, hskips⟩ :=
      Scan.exists_skips_of_list (h.passes.roots root (by simp [split])) fails
    refine ⟨by simp [gathered, split, hfound], rfl, item, by simp [skipped, hskips], ?_⟩
    rw [skipped, split]
    exact ((lacks_flatMap (fun root => (Scan.scan t .lenient root).skips)
      hskips before after).append_right _).append_right _
  | @ofMeta before after entry split fails =>
    obtain ⟨item, hskips, -⟩ := (MetaFile.givesOrSkips
      (h.passes.metas entry (by simp [split]))).of_none fails
    refine ⟨by simp [gathered, split, fails], rfl, item, by simp [skipped, hskips], ?_⟩
    rw [skipped, split]
    exact ((lacks_flatMap (fun entry => (MetaFile.load t .lenient entry).skips)
      hskips before after).append_left _).append_right _
  | @ofDeployer before after d split fails =>
    obtain ⟨item, hskips, -⟩ := (Deployer.givesOrSkips
      (h.passes.deployers d (by simp [split]))).of_none fails
    refine ⟨by simp [gathered, split, fails], rfl, item, by simp [skipped, hskips], ?_⟩
    rw [skipped, split]
    exact (lacks_flatMap (fun d => (Deployer.tryAssemble t .lenient d).skips)
      hskips before after).append_left _

/-! ### The accounts -/

/-- **The accounts of a lenient build.** If a lenient build returns, then

* it reports as skipped, in order, what is reported for each root, each meta and each deployer
  alone, each of which can be built, too;
* the numbers in its report balance;
* without an item that failed it comes to the same store, and to the same report but for that
  item among what was skipped. -/
theorem accounts_of_lenient {s : Store} {report : Report}
    (h : (build t .lenient c).result.1 = .ok (s, report)) :
    (∃ reports, List.Forall₂ (fun one r => ∃ s₁, (build t .lenient one).result.1 = .ok (s₁, r))
      c.alone reports ∧ report.skipped = reports.flatMap Report.skipped) ∧
    Balances t c report ∧
    ∀ one c', Omits t c one c' → ∃ before item after s₁ r₁,
      report.skipped = before ++ item :: after ∧
      (build t .lenient one).result.1 = .ok (s₁, r₁) ∧ r₁.skipped = [item] ∧
      (build t .lenient c').result.1 = .ok (s, { report with skipped := before ++ after }) := by
  obtain ⟨hc, rfl, rfl⟩ := result_eq_ok_iff.mp h
  refine ⟨⟨c.alone.map (reported t .lenient), ?_, ?_⟩, balances_reported hc.passes, ?_⟩
  · rw [List.forall₂_map_right_iff, List.forall₂_same]
    exact fun one hone => ⟨_, result_of_buildable (hc.alone one hone)⟩
  · rw [List.flatMap_map]
    exact skipped_eq_flatMap_alone t .lenient c
  · intro one c' ho
    obtain ⟨hone, hc'⟩ := ho.buildable hc
    obtain ⟨hgathered, hsubgraphs, item, hitem, before, after, hskipped, hskipped'⟩ :=
      ho.left_behind hc
    have hfilled : filled t .lenient c' = filled t .lenient c := by
      rw [filled, filled, hgathered, operations, operations, hsubgraphs]
    refine ⟨before, item, after, _, _, hskipped, result_of_buildable hone, hitem, ?_⟩
    rw [result_of_buildable hc', hfilled, reported, hfilled, hgathered, hskipped']
    rfl

end Accounts

/-- A configuration in which a root, a meta and a deployer fail. -/
def patchyConfig : Config :=
  { roots := [gone, .here], metas := [.hex gone, .binary ⟨.relative, ["m"]⟩]
    deployers := ("00", goneDeployer) :: smallDeployers }

theorem assembled?_goneDeployer : Deployer.assembled? smallTree "00" goneDeployer = none := by
  rw [Option.eq_none_iff_forall_ne_some]
  intro record h
  have hmade := Deployer.outcome_assemble_eq_ok_iff.mp (Except.eq_ok_of_toOption h)
  exact not_returns_read_gone ⟨_, hmade.metaBytes⟩

theorem assembled?_smallDeployer {key : Text} {b : UInt8} (hkey : Hex.decode key = .ok [b]) :
    Deployer.assembled? smallTree key Deployer.smallDeployer = some (smallRecord b) := by
  rw [Deployer.assembled?, outcome_assemble_smallTree hkey]
  rfl

theorem not_ruins_smallDeployer : ¬Deployer.Ruins smallTree Deployer.smallDeployer := by
  have hkey : Hex.decode "0x00" = .ok [0] := by decide
  rw [← (Deployer.crashesIff_assemble smallTree "0x00" Deployer.smallDeployer).iff]
  rintro ⟨cause, hc⟩
  rw [outcome_assemble_smallTree hkey] at hc
  cases hc

theorem exists_build_patchyConfig : ∃ s report,
    (build smallTree .lenient patchyConfig).result.1 = .ok (s, report) := by
  rw [lenient_returns_iff_gather sound_smallTree,
    (crashesIff_gather sound_smallTree patchyConfig).iff, not_or, not_or]
  refine ⟨by decide, by decide, ?_⟩
  simp only [patchyConfig, smallDeployers, List.mem_cons, List.not_mem_nil, or_false]
  rintro ⟨d, rfl | rfl | rfl, hd⟩
  · exact not_ruins_goneDeployer hd
  · exact not_ruins_smallDeployer hd
  · exact not_ruins_smallDeployer hd

/-- The metas and the deployers of such a build add up. Without the root that fails, and without
the deployer that fails, it comes to the same store. -/
theorem accounts_patchyConfig : ∃ s report,
    (build smallTree .lenient patchyConfig).result.1 = .ok (s, report) ∧
      report.metas + report.skippedAt "meta" = 2 ∧
      report.deployers + report.skippedAt "deployer" = 3 ∧
      (∃ report', (build smallTree .lenient { patchyConfig with roots := [.here] }).result.1 =
        .ok (s, report')) ∧
      ∃ report', (build smallTree .lenient
        { patchyConfig with deployers := smallDeployers }).result.1 = .ok (s, report') := by
  obtain ⟨s, report, h⟩ := exists_build_patchyConfig
  obtain ⟨-, hbalances, homits⟩ := accounts_of_lenient h
  have hlist : smallTree.list gone.text = .error (.os .noEntry) := by
    rw [FileTree.list, FileTree.find_name_of_none rfl (by decide) (by decide) rfl]
    rfl
  have hroot : Omits smallTree patchyConfig { roots := [gone] }
      { patchyConfig with roots := [] ++ [.here] } := .ofRoot rfl hlist
  have hdeployer : Omits smallTree patchyConfig { deployers := [("00", goneDeployer)] }
      { patchyConfig with deployers := [] ++ smallDeployers } :=
    .ofDeployer rfl assembled?_goneDeployer
  obtain ⟨_, _, _, _, _, -, -, -, hwithout⟩ := homits _ _ hroot
  obtain ⟨_, _, _, _, _, -, -, -, hwithout'⟩ := homits _ _ hdeployer
  exact ⟨s, report, h, hbalances.metas, hbalances.deployers, ⟨_, hwithout⟩, _, hwithout'⟩

end Build

end RainMeta
