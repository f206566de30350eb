import RainMeta.Proofs.Build.Stages

/-!
# Strict and lenient builds

What a strict build comes to can be read off the lenient build of the same configuration
(`RainMeta.Build.strict_of_lenient`). The lenient build never ends with a failure. If it
skipped something, the strict build ends with the failure that was skipped first; if it skipped
nothing, both come to the same store, except that a strict build takes no dotrain whose path is
no text.

## Gathering and filling

A build has two halves. The first one gathers what goes into the store
(`RainMeta.Build.gather`), and there the policies differ in whether a failure is raised or
skipped: its runs under the two policies correspond. The second one fills the store
(`RainMeta.Build.fill`) and skips nothing. There the policies differ in one place, the dotrain
whose path is no text: a strict build ends with it and a lenient one drops it without a word
in its report (`RainMeta.Build.yields_addDotrains_strict`). So filling is compared by hand.
-/

namespace RainMeta

namespace Build

open Run

/-! ### The two halves of a build -/

/-- What a build gathers before it fills a store. -/
structure Gathered where
  files : List DotrainFile
  metas : List LoadedMeta
  records : List DeployerRecord

/-- The first half of a build: the dotrains, the metas and the deployers. -/
def gather [Platform] (t : FileTree) (policy : Policy) (c : Config) : Run Gathered := do
  record (.buildStarted policy c.roots.length c.metas.length c.deployers.length)
  let files ← Scan.scanAll t policy c.roots
  let metas ← MetaFile.loadAll t policy c.metas
  let records ← Deployer.assembleAll t policy c.deployers
  return { files, metas, records }

/-- The report about a store that was filled. -/
def reportOf (policy : Policy) (g : Gathered) (s : Store) (dotrains : Nat)
    (skipped : List SkippedItem) : Report :=
  { policy, subgraphs := s.subgraphs.length, metas := g.metas.length, dotrains
    deployers := g.records.length, skipped }

/-- The end of a build, when the dotrains are bound and counted. -/
def finish (policy : Policy) (g : Gathered) (bound : Store × Nat) : Run (Store × Report) := do
  let s ← addDeployers bound.1 g.records.reverse
  let skipped ← skippedSoFar
  let report := reportOf policy g s bound.2 skipped
  record (.buildDone policy report.subgraphs report.metas report.dotrains report.deployers
    skipped.length)
  return (s, report)

/-- The store with subgraphs and metas, to which the dotrains are yet to be bound. -/
def unbound (c : Config) (g : Gathered) : Store :=
  addMetas (Store.empty.addSubgraphs c.subgraphs) g.metas

/-- The second half of a build: what was gathered goes into a store. -/
def fill (policy : Policy) (c : Config) (g : Gathered) : Run (Store × Report) :=
  addDotrains policy (unbound c g) 0 g.files >>= finish policy g

/-- **A build gathers, then fills.** -/
theorem build_eq [Platform] (t : FileTree) (policy : Policy) (c : Config) :
    build t policy c = gather t policy c >>= fill policy c := by
  simp only [build, gather, bind_assoc, pure_bind]
  rfl

/-! ### Gathering -/

theorem corresponds_gather [Platform] (t : FileTree) (c : Config) :
    Corresponds (gather t .strict c) (gather t .lenient c) := by
  refine (corresponds_record rfl rfl).bind fun _ => ?_
  refine (Scan.corresponds_scanAll t c.roots).bind fun files => ?_
  refine (MetaFile.corresponds_loadAll t c.metas).bind fun metas => ?_
  exact (Deployer.corresponds_assembleAll t c.deployers).bind fun records => corresponds_pure _

/-- What was gathered without skipping anything holds what a scan finds. -/
theorem scanAll_of_gather [Platform] {t : FileTree} {c : Config} {g : Gathered} {j : Journal}
    (h : runFrom (gather t .lenient c) [] = (.ok g, j)) (hj : j.skipped = []) :
    (Scan.scanAll t .lenient c.roots).result.1 = .ok g.files := by
  obtain ⟨_, j₀, hstart, hscan⟩ := exists_of_runFrom_bind h
  obtain ⟨files, j₁, hfiles, hload⟩ := exists_of_runFrom_bind hscan
  obtain ⟨metas, j₂, hmetas, hassemble⟩ := exists_of_runFrom_bind hload
  obtain ⟨records, j₃, hrecords, hend⟩ := exists_of_runFrom_bind hassemble
  cases hstart
  cases hend
  -- the later stages keep what the scan skipped, so it skipped nothing
  have k₁ := (MetaFile.corresponds_loadAll t c.metas).tolerant.keeps j₁
  have k₂ := (Deployer.corresponds_assembleAll t c.deployers).tolerant.keeps j₂
  rw [hmetas] at k₁
  rw [hrecords, hj, List.prefix_nil] at k₂
  rw [k₂, List.prefix_nil] at k₁
  exact ((Scan.corresponds_scanAll t c.roots).result_of_nothing_skipped rfl hfiles k₁).2

/-! ### Binding dotrains -/

/-- The first dotrain whose path is no text. -/
def firstUntextual? (files : List DotrainFile) : Option DotrainFile :=
  files.find? fun file => file.path.text.any CodePoint.isSurrogate

theorem firstUntextual?_cons_of_untextual {file : DotrainFile}
    (h : file.path.text.any CodePoint.isSurrogate) (rest : List DotrainFile) :
    firstUntextual? (file :: rest) = some file := by
  simp [firstUntextual?, h]

theorem firstUntextual?_cons_of_textual {file : DotrainFile}
    (h : ¬file.path.text.any CodePoint.isSurrogate) (rest : List DotrainFile) :
    firstUntextual? (file :: rest) = firstUntextual? rest := by
  simp [firstUntextual?, h]

theorem addDotrain_of_uri {file : DotrainFile} {uri : Text} (h : uriOf file.path = some uri)
    (policy : Policy) (s : Store) :
    addDotrain policy s file = match s.setDotrain file.text uri true with
      | .ok (_, s) => pure (s, true)
      | .error cause => crash (.unencodable cause) := by
  unfold addDotrain
  split
  · next hnone =>
    rw [hnone] at h
    cases h
  · next found hfound =>
    rw [hfound] at h
    cases h
    rfl

theorem addDotrains_cons (policy : Policy) (s : Store) (count : Nat) (file : DotrainFile)
    (rest : List DotrainFile) :
    addDotrains policy s count (file :: rest) = addDotrain policy s file >>= fun p =>
      addDotrains policy p.1 (if p.2 then count + 1 else count) rest := rfl

/-- A lenient build binds what has a uri and drops the rest; it skips nothing. -/
theorem exists_yields_addDotrains_lenient (s : Store) (count : Nat) (files : List DotrainFile) :
    ∃ outcome, (addDotrains .lenient s count files).Yields outcome ∧
      ∀ cause, outcome ≠ .error (.failure cause) := by
  induction files generalizing s count with
  | nil => exact ⟨_, yields_pure (s, count), by rintro cause ⟨⟩⟩
  | cons file rest ih =>
    rw [addDotrains_cons]
    rcases hu : uriOf file.path with _ | uri
    · obtain ⟨outcome, hrest, hne⟩ := ih s count
      have hdrop : (addDotrain .lenient s file).Yields (.ok (s, false)) := by
        simp only [addDotrain, hu]
        exact (yields_record rfl).bind_ok (yields_pure (s, false))
      exact ⟨outcome, hdrop.bind_ok hrest, hne⟩
    · rw [addDotrain_of_uri hu]
      rcases s.setDotrain file.text uri true with cause | ⟨rebound, s'⟩
      · exact ⟨_, (yields_crash _).bind_error _, by rintro cause ⟨⟩⟩
      · obtain ⟨outcome, hrest, hne⟩ := ih s' (count + 1)
        exact ⟨outcome, (yields_pure (s', true)).bind_ok hrest, hne⟩

/-- **A strict build binds what a lenient one binds**, if every path is a text. Else it ends
with the first one that is none, unless both crash before they come to it. -/
theorem yields_addDotrains_strict (s : Store) (count : Nat) (files : List DotrainFile) :
    match firstUntextual? files with
    | none => addDotrains .strict s count files = addDotrains .lenient s count files
    | some file =>
      (addDotrains .strict s count files).Yields
        (.error (.failure (.dotrainUriInvalid file.path))) ∨
      ∃ cause, (addDotrains .strict s count files).Yields (.error (.crash cause)) ∧
        (addDotrains .lenient s count files).Yields (.error (.crash cause)) := by
  induction files generalizing s count with
  | nil => rfl
  | cons file rest ih =>
    rw [addDotrains_cons, addDotrains_cons]
    by_cases ht : file.path.text.any CodePoint.isSurrogate
    · have hfail : (addDotrain .strict s file).Yields
          (.error (.failure (.dotrainUriInvalid file.path))) := by
        simp only [addDotrain, uriOf, if_pos ht]
        exact yields_fail _
      rw [firstUntextual?_cons_of_untextual ht]
      exact Or.inl (hfail.bind_error _)
    · have hu : uriOf file.path = some file.path.text := if_neg ht
      rw [firstUntextual?_cons_of_textual ht, addDotrain_of_uri hu, addDotrain_of_uri hu]
      rcases s.setDotrain file.text file.path.text true with cause | ⟨rebound, s'⟩
      · -- both crash here, wherever the first path that is no text may be
        rcases firstUntextual? rest with _ | found
        · rfl
        · exact Or.inr ⟨_, (yields_crash _).bind_error _, (yields_crash _).bind_error _⟩
      · exact ih s' (count + 1)

/-! ### Filling -/

theorem yields_addDeployers (s : Store) (records : List DeployerRecord) :
    (addDeployers s records).Yields (.ok (records.foldl Store.setDeployer s)) := by
  induction records generalizing s with
  | nil => exact yields_pure s
  | cons record rest ih =>
    rw [addDeployers, List.foldl_cons]
    split
    · exact (yields_record rfl).bind_ok (ih _)
    · exact (yields_pure _).bind_ok (ih _)

theorem runFrom_finish (policy : Policy) (g : Gathered) (s : Store) (dotrains : Nat)
    (j : Journal) :
    (runFrom (finish policy g (s, dotrains)) j).1 =
      .ok (g.records.reverse.foldl Store.setDeployer s, reportOf policy g
        (g.records.reverse.foldl Store.setDeployer s) dotrains j.skipped) := by
  obtain ⟨k, hk, hs⟩ := yields_addDeployers s g.records.reverse j
  rw [finish, runFrom_bind_of_ok hk, runFrom_bind_of_ok (runFrom_skippedSoFar k), hs]
  rfl

theorem fill_of_yields_ok {policy : Policy} {c : Config} {g : Gathered} {s : Store}
    {dotrains : Nat} (h : (addDotrains policy (unbound c g) 0 g.files).Yields (.ok (s, dotrains)))
    (j : Journal) :
    (runFrom (fill policy c g) j).1 =
      .ok (g.records.reverse.foldl Store.setDeployer s, reportOf policy g
        (g.records.reverse.foldl Store.setDeployer s) dotrains j.skipped) := by
  obtain ⟨k, hk, hs⟩ := h j
  rw [fill, runFrom_bind_of_ok hk, runFrom_finish, hs]

theorem fill_of_yields_error {policy : Policy} {c : Config} {g : Gathered} {fault : Fault}
    (h : (addDotrains policy (unbound c g) 0 g.files).Yields (.error fault)) (j : Journal) :
    (runFrom (fill policy c g) j).1 = .error fault := by
  obtain ⟨k, hk, -⟩ := h j
  rw [fill, runFrom_bind_of_error hk]

/-- A lenient build that has gathered everything crashes or comes to a store, and then reports
what was skipped before. -/
theorem fill_lenient (c : Config) (g : Gathered) (j : Journal) :
    (∃ cause, (runFrom (fill .lenient c g) j).1 = .error (.crash cause)) ∨
      ∃ s report, (runFrom (fill .lenient c g) j).1 = .ok (s, report) ∧
        report.skipped = j.skipped := by
  obtain ⟨(cause | cause) | ⟨s, dotrains⟩, hy, hne⟩ :=
    exists_yields_addDotrains_lenient (unbound c g) 0 g.files
  · exact absurd rfl (hne cause)
  · exact Or.inl ⟨cause, fill_of_yields_error hy j⟩
  · exact Or.inr ⟨_, _, fill_of_yields_ok hy j, rfl⟩

/-- If every path is a text, strict and lenient builds that gathered the same and skipped
nothing come to the same, up to the policy in the report. -/
theorem fill_strict_of_textual {c : Config} {g : Gathered} (h : firstUntextual? g.files = none)
    {j j' : Journal} (hj : j.skipped = []) (hj' : j'.skipped = []) :
    (runFrom (fill .strict c g) j).1 = (runFrom (fill .lenient c g) j').1.map
      fun p => (p.1, { p.2 with policy := .strict }) := by
  have heq := yields_addDotrains_strict (unbound c g) 0 g.files
  rw [h] at heq
  obtain ⟨fault | ⟨s, dotrains⟩, hy, -⟩ :=
    exists_yields_addDotrains_lenient (unbound c g) 0 g.files
  · rw [fill_of_yields_error hy, fill_of_yields_error (heq ▸ hy)]
    rfl
  · rw [fill_of_yields_ok hy, fill_of_yields_ok (heq ▸ hy), hj, hj']
    rfl

/-- If a path is no text, the strict build ends with the first such path, or both crash. -/
theorem fill_strict_of_untextual {c : Config} {g : Gathered} {file : DotrainFile}
    (h : firstUntextual? g.files = some file) (j j' : Journal) :
    (runFrom (fill .strict c g) j).1 = .error (.failure (.dotrainUriInvalid file.path)) ∨
      ∃ cause, (runFrom (fill .strict c g) j).1 = .error (.crash cause) ∧
        (runFrom (fill .lenient c g) j').1 = .error (.crash cause) := by
  have hy := yields_addDotrains_strict (unbound c g) 0 g.files
  rw [h] at hy
  rcases hy with hy | ⟨cause, hs, hl⟩
  · exact Or.inl (fill_of_yields_error hy j)
  · exact Or.inr ⟨cause, fill_of_yields_error hs j, fill_of_yields_error hl j'⟩

/-! ### Builds -/

section Builds

variable [Platform]

theorem result_build_of_ok {t : FileTree} {policy : Policy} {c : Config} {g : Gathered}
    {j : Journal} (h : runFrom (gather t policy c) [] = (.ok g, j)) :
    (build t policy c).result.1 = (runFrom (fill policy c g) j).1 := by
  rw [result_eq, build_eq, runFrom_bind_of_ok h]

theorem result_build_of_error {t : FileTree} {policy : Policy} {c : Config} {fault : Fault}
    {j : Journal} (h : runFrom (gather t policy c) [] = (.error fault, j)) :
    (build t policy c).result.1 = .error fault := by
  rw [result_eq, build_eq, runFrom_bind_of_error h]

/-- **A lenient build never ends with a failure.** -/
theorem lenient_ne_failure (t : FileTree) (c : Config) (cause : Failure) :
    (build t .lenient c).result.1 ≠ .error (.failure cause) := by
  rcases hl : runFrom (gather t .lenient c) [] with ⟨fault | g, j⟩
  · rw [result_build_of_error hl]
    rintro ⟨⟩
    exact (corresponds_gather t c).tolerant.never_fails [] cause (by rw [hl])
  · rw [result_build_of_ok hl]
    rcases fill_lenient c g j with ⟨crash, h⟩ | ⟨s, report, h, -⟩
    · rw [h]
      rintro ⟨⟩
    · rw [h]
      rintro ⟨⟩

/-- A lenient build reports what was skipped while it gathered. -/
theorem skipped_of_lenient {t : FileTree} {c : Config} {y : Except Fault Gathered} {j : Journal}
    (hl : runFrom (gather t .lenient c) [] = (y, j)) {s : Store} {report : Report}
    (h : (build t .lenient c).result.1 = .ok (s, report)) : report.skipped = j.skipped := by
  rcases y with fault | g
  · rw [result_build_of_error hl] at h
    cases h
  · rw [result_build_of_ok hl] at h
    rcases fill_lenient c g j with ⟨crash, h'⟩ | ⟨s', report', h', hr⟩
    · rw [h'] at h
      cases h
    · rw [h'] at h
      cases h
      exact hr

/-- **Where two builds stand after gathering**: both have gathered the same and skipped nothing,
or both crashed, or the strict one has ended with the failure that the lenient one skipped
first. -/
theorem gathered_cases (t : FileTree) (c : Config) :
    (∃ g j j', j.skipped = [] ∧ j'.skipped = [] ∧
      runFrom (gather t .lenient c) [] = (.ok g, j') ∧
      (build t .strict c).result.1 = (runFrom (fill .strict c g) j).1 ∧
      (build t .lenient c).result.1 = (runFrom (fill .lenient c g) j').1) ∨
    (∃ cause, (build t .strict c).result.1 = .error (.crash cause) ∧
      (build t .lenient c).result.1 = .error (.crash cause)) ∨
    ∃ cause item y j', (build t .strict c).result.1 = .error (.failure cause) ∧
      runFrom (gather t .lenient c) [] = (y, j') ∧ j'.skipped.head? = some item ∧
      item.error = cause.message := by
  have ha := (corresponds_gather t c).agrees [] [] rfl rfl
  rcases hs : runFrom (gather t .strict c) [] with ⟨x, j⟩
  rcases hl : runFrom (gather t .lenient c) [] with ⟨y, j'⟩
  rw [hs, hl] at ha
  cases ha with
  | same hj hj' =>
    exact Or.inl ⟨_, j, j', hj, hj', rfl, result_build_of_ok hs, result_build_of_ok hl⟩
  | crashed =>
    exact Or.inr (Or.inl ⟨_, result_build_of_error hs, result_build_of_error hl⟩)
  | stopped first names =>
    exact Or.inr (Or.inr ⟨_, _, y, j', result_build_of_error hs, rfl, first, names⟩)

/-- **Where a lenient build ends with a fault, the strict one does.** -/
theorem exists_fault_of_lenient {t : FileTree} {c : Config} {fault : Fault}
    (h : (build t .lenient c).result.1 = .error fault) :
    ∃ fault', (build t .strict c).result.1 = .error fault' := by
  rcases gathered_cases t c with ⟨g, j, j', hj, hj', -, hs, hl⟩ | ⟨cause, hs, -⟩ |
    ⟨cause, _, _, _, hs, -⟩
  · rw [hl] at h
    rw [hs]
    rcases hu : firstUntextual? g.files with _ | file
    -- both end alike, or the strict one ends at the path if not before
    · exact ⟨fault, by rw [fill_strict_of_textual hu hj hj', h]; rfl⟩
    · rcases fill_strict_of_untextual hu j j' with hf | ⟨cause, hf, -⟩
      · exact ⟨_, hf⟩
      · exact ⟨_, hf⟩
  · exact ⟨_, hs⟩
  · exact ⟨_, hs⟩

/-- **The failure that was skipped first is the one that ends the strict build.** -/
theorem strict_of_skipped {t : FileTree} {c : Config} {s : Store} {report : Report}
    {item : SkippedItem} (h : (build t .lenient c).result.1 = .ok (s, report))
    (hitem : report.skipped.head? = some item) :
    ∃ cause, (build t .strict c).result.1 = .error (.failure cause) ∧
      cause.message = item.error := by
  rcases gathered_cases t c with ⟨g, j, j', hj, hj', hg, hs, hl⟩ | ⟨cause, -, hl⟩ |
    ⟨cause, first, y, j', hs, hg, hfirst, names⟩
  · rw [skipped_of_lenient hg h, hj'] at hitem
    cases hitem
  · rw [hl] at h
    cases h
  · rw [skipped_of_lenient hg h, hfirst, Option.some.injEq] at hitem
    exact ⟨cause, hs, by rw [← hitem, names]⟩

/-- **Where nothing was skipped, the paths decide**: with the first one that is no text the
strict build ends, and if there is none, both builds come to the same. -/
theorem strict_of_nothing_skipped {t : FileTree} {c : Config} {s : Store} {report : Report}
    (h : (build t .lenient c).result.1 = .ok (s, report)) (hskip : report.skipped = []) :
    ∃ files, (Scan.scanAll t .lenient c.roots).result.1 = .ok files ∧
      (∀ file, firstUntextual? files = some file →
        (build t .strict c).result.1 = .error (.failure (.dotrainUriInvalid file.path))) ∧
      (firstUntextual? files = none →
        (build t .strict c).result.1 = .ok (s, { report with policy := .strict })) := by
  rcases gathered_cases t c with ⟨g, j, j', hj, hj', hg, hs, hl⟩ | ⟨cause, -, hl⟩ |
    ⟨cause, first, y, j', hs, hg, hfirst, names⟩
  · refine ⟨g.files, scanAll_of_gather hg hj', fun file hu => ?_, fun hu => ?_⟩
    · rcases fill_strict_of_untextual hu j j' with hf | ⟨cause, -, hf⟩
      · exact hs.trans hf
      · rw [hl, hf] at h
        cases h
    · rw [hs, fill_strict_of_textual hu hj hj', ← hl, h]
      rfl
  · rw [hl] at h
    cases h
  · rw [skipped_of_lenient hg h] at hskip
    rw [hskip] at hfirst
    cases hfirst

/-- **What a strict build comes to, read off the lenient one.** The lenient build never ends
with a failure, and if it crashes, the strict build ends with a fault too. If it comes to a
store and a report, then

* if something was skipped, the strict build ends with a failure in the words of the item that
  was skipped first;
* if nothing was skipped and the path of some scanned dotrain is no text, the strict build
  ends with the failure about the first of them;
* else the strict build comes to the same store and, up to the policy, to the same report. -/
theorem strict_of_lenient (t : FileTree) (c : Config) :
    let strict := (build t .strict c).result.1
    let lenient := (build t .lenient c).result.1
    (∀ cause, lenient ≠ .error (.failure cause)) ∧
    (∀ fault, lenient = .error fault → ∃ fault', strict = .error fault') ∧
    ∀ s report, lenient = .ok (s, report) →
      (∀ item, report.skipped.head? = some item →
        ∃ cause, strict = .error (.failure cause) ∧ cause.message = item.error) ∧
      (report.skipped = [] →
        ∃ files, (Scan.scanAll t .lenient c.roots).result.1 = .ok files ∧
          (∀ file, firstUntextual? files = some file →
            strict = .error (.failure (.dotrainUriInvalid file.path))) ∧
          (firstUntextual? files = none →
            strict = .ok (s, { report with policy := .strict }))) := by
  intro strict lenient
  refine ⟨lenient_ne_failure t c, fun fault h => exists_fault_of_lenient h, fun s report h => ?_⟩
  exact ⟨fun item hitem => strict_of_skipped h hitem,
    fun hskip => strict_of_nothing_skipped h hskip⟩

end Builds

end Build

end RainMeta
