import RainMeta.Proofs.Scan.Walking

/-!
# Scans end

A scan takes the first directory off its list, and puts the subdirectories of this directory in
its place, without asking whether it has been there before. Links that lead back can make the
list grow for long, but not for ever (`RainMeta.Scan.scan_ends`).

The one thing to know is what can be on the list. Every directory that is put on it has one name
more than the one that was taken off (`RainMeta.Scan.subdirectories_of_iterate`), and a directory
whose written path is too long cannot be listed, so nothing takes its place. The size of the tree
does not bound the list, nor does its own length; what goes down with every iteration is the
weight of the list (`RainMeta.Scan.subdirectories_of_iterate`). There a directory counts as many
times as a tree below it could have nodes, if it had as many branches as the tree has nodes, and
paths no longer than the system allows.
-/

namespace RainMeta

open Run

namespace Scan

variable {t : FileTree} {policy : Policy} {dir : Path} {rest : List Path} {files : List DotrainFile}
  {entries : List Entry} {cause : AccessError}

/-! ### One iteration -/

theorem iterate_of_error (h : entriesOf t dir = .error cause) :
    iterate t policy ⟨dir :: rest, files⟩ =
      refuse policy dir cause >>= fun _ => pure ⟨rest, files⟩ := by
  rw [iterate, h]

theorem iterate_of_ok (h : entriesOf t dir = .ok entries) :
    iterate t policy ⟨dir :: rest, files⟩ =
      entries.mapM (inspect t policy dir) >>= fun found =>
        pure ⟨subdirectories dir entries found ++ rest,
          files ++ found.filterMap Found.dotrain?⟩ := by
  rw [iterate, h]

theorem totalWeight_rest_lt (t : FileTree) (dir : Path) (rest : List Path) :
    totalWeight t.root.count rest < totalWeight t.root.count (dir :: rest) := by
  have := weight_pos t.root.count dir
  rw [totalWeight]
  omega

/-- The subdirectories of a directory weigh less than the directory. -/
theorem totalWeight_subdirectories_lt (h : entriesOf t dir = .ok entries) (found : List Found)
    (rest : List Path) :
    totalWeight t.root.count (subdirectories dir entries found ++ rest) <
      totalWeight t.root.count (dir :: rest) := by
  obtain ⟨hcount, hsize⟩ := length_le_of_entriesOf h
  have hsubs := totalWeight_lt ((length_subdirectories_le dir entries found).trans hcount)
    (fun sub hsub => size_lt_of_mem_subdirectories hsub) hsize
  rw [totalWeight_append, totalWeight]
  omega

/-- **What an iteration does to the list**: what comes in place of a directory are entries of it, so
that their paths have one name more. The list weighs less than before. -/
theorem subdirectories_of_iterate {p : Progress}
    (h : (iterate t policy ⟨dir :: rest, files⟩).outcome = .ok p) :
    totalWeight t.root.count p.pending < totalWeight t.root.count (dir :: rest) ∧
      ∃ subs more, p = ⟨subs ++ rest, files ++ more⟩ ∧
        ∀ sub ∈ subs, ∃ name, sub = dir.child name ∧ sub.names.length = dir.names.length + 1 := by
  rcases hdir : entriesOf t dir with cause | entries
  · rw [iterate_of_error hdir, Steady.outcome_bind_eq_ok_iff fun _ => (quiet_pure _).steady] at h
    obtain ⟨-, -, h⟩ := h
    cases h
    exact ⟨totalWeight_rest_lt t dir rest, [], [], by simp⟩
  · rw [iterate_of_ok hdir, Steady.outcome_bind_eq_ok_iff fun _ => (quiet_pure _).steady] at h
    obtain ⟨found, -, h⟩ := h
    cases h
    refine ⟨totalWeight_subdirectories_lt hdir found rest, _, _, rfl, fun sub hsub => ?_⟩
    obtain ⟨e, -, rfl⟩ := exists_of_mem_subdirectories hsub
    exact ⟨e.name, rfl, List.length_append⟩

/-! ### Several iterations -/

theorem iterations_nil (t : FileTree) (policy : Policy) (n : Nat) (files : List DotrainFile) :
    iterations t policy n ⟨[], files⟩ = pure ⟨[], files⟩ := by
  induction n with
  | zero => rfl
  | succ n ih => rw [iterations, iterate, pure_bind, ih]

/-- **Enough iterations are a scan**: as many as the list weighs. After them nothing is left to be
visited, whatever the journal. -/
theorem iterations_eq_scanFrom (t : FileTree) (policy : Policy) {n : Nat} {pending : List Path}
    {files : List DotrainFile} (hn : totalWeight t.root.count pending ≤ n) :
    iterations t policy n ⟨pending, files⟩ =
      scanFrom t policy pending >>= fun more => pure ⟨[], files ++ more⟩ := by
  induction n generalizing pending files with
  | zero =>
    rcases pending with _ | ⟨dir, rest⟩
    · rw [iterations_nil, scanFrom, pure_bind, List.append_nil]
    · have := totalWeight_rest_lt t dir rest
      omega
  | succ n ih =>
    rcases pending with _ | ⟨dir, rest⟩
    · rw [iterations_nil, scanFrom, pure_bind, List.append_nil]
    rw [iterations]
    -- either way the list weighs less afterwards, so one iteration less is enough
    rcases h : entriesOf t dir with cause | entries
    · have hlt := totalWeight_rest_lt t dir rest
      rw [iterate_of_error h, scanFrom_of_error h]
      simp only [bind_assoc, pure_bind]
      exact bind_congr fun _ => ih (by omega)
    · rw [iterate_of_ok h, scanFrom_of_ok h]
      simp only [bind_assoc, pure_bind]
      refine bind_congr fun found => ?_
      have hlt := totalWeight_subdirectories_lt h found rest
      rw [ih (by omega)]
      simp only [List.append_assoc]

/-- A directory whose path cannot be used ends a scan at once. -/
theorem crashes_iterate (t : FileTree) (policy : Policy) (rest : List Path)
    (files : List DotrainFile) (hdir : ¬dir.Usable) :
    (iterate t policy ⟨dir :: rest, files⟩).Crashes := by
  obtain ⟨cause, hcause, hfatal⟩ := (fatal_entriesOf_iff t dir).mpr hdir
  rw [iterate_of_error hcause, Steady.crashes_bind_iff fun _ => (quiet_pure _).steady]
  exact Or.inl ((crashes_refuse_iff policy dir cause).mpr hfatal)

/-- **What enough iterations come to**, from a root that can be used. -/
theorem outcome_iterations (ht : t.Sound) {root : Path} (hroot : root.Usable) {n : Nat}
    (hn : weight t.root.count root ≤ n) :
    (∃ files, (iterations t policy n ⟨[root], []⟩).outcome = .ok ⟨[], files⟩) ∨
      policy = .strict ∧
        ∃ cause, (iterations t policy n ⟨[root], []⟩).outcome = .error (.failure cause) := by
  have hscan : (iterations t policy n ⟨[root], []⟩).outcome =
      (policy.verdict (survey t root)).map fun files => ⟨[], files⟩ := by
    rw [iterations_eq_scanFrom t policy hn, bind_pure_comp, outcome_map, ← outcome_scan,
      (follows_scan t policy root).outcome_eq]
    rfl
  obtain ⟨failures, hfailures⟩ := exists_failures_of_usable ht hroot
  rw [hscan]
  cases policy with
  | strict =>
    rw [Policy.verdict_strict hfailures]
    rcases failures with _ | ⟨cause, rest⟩
    · exact Or.inl ⟨_, rfl⟩
    · exact Or.inr ⟨rfl, cause, rfl⟩
  | lenient =>
    rw [Policy.verdict_lenient hfailures]
    exact Or.inl ⟨_, rfl⟩

/-- **Every scan ends**, whatever links there are in the tree. Each iteration takes the first
directory off the list, and what it puts there are entries of this directory, with one name
more; the list weighs less and less. So after as many iterations as the root weighs, the list is
empty, or the strict policy has ended the scan with a failure, and the scan has come to what the
iterations have found. A root whose path cannot be used ends it at once. -/
theorem scan_ends (t : FileTree) (policy : Policy) (root : Path) :
    (∀ dir rest files p, (iterate t policy ⟨dir :: rest, files⟩).outcome = .ok p →
      totalWeight t.root.count p.pending < totalWeight t.root.count (dir :: rest) ∧
        ∃ subs more, p = ⟨subs ++ rest, files ++ more⟩ ∧
          ∀ sub ∈ subs, ∃ name,
            sub = dir.child name ∧ sub.names.length = dir.names.length + 1) ∧
    (∀ n, weight t.root.count root ≤ n →
      iterations t policy n ⟨[root], []⟩ =
        scanFrom t policy [root] >>= fun files => pure ⟨[], files⟩) ∧
    (t.Sound → root.Usable → ∀ n, weight t.root.count root ≤ n →
      (∃ files, (iterations t policy n ⟨[root], []⟩).outcome = .ok ⟨[], files⟩) ∨
        policy = .strict ∧
          ∃ cause, (iterations t policy n ⟨[root], []⟩).outcome = .error (.failure cause)) ∧
    (¬root.Usable → (iterate t policy ⟨[root], []⟩).Crashes) :=
  ⟨fun _ _ _ _ => subdirectories_of_iterate,
    fun n (hn : totalWeight t.root.count [root] ≤ n) => iterations_eq_scanFrom t policy hn,
    fun ht hroot _ => outcome_iterations ht hroot, crashes_iterate t policy [] []⟩

/-- A tree with a directory that holds a link back to the root. -/
def circledTree : FileTree where
  root := .directory [
    (plainName "x.rain", .file [120]),
    (plainName "d", .directory [(plainName "up", .link (plainName ".."))])]
  workingDirectory := []

/-- The scan of a circle ends. -/
theorem scan_ends_circledTree : circledTree.Sound ∧ Path.here.Usable ∧ ∃ files,
    (iterations circledTree .lenient (weight circledTree.root.count .here) ⟨[.here], []⟩).outcome =
      .ok ⟨[], files⟩ := by
  have hsound : circledTree.Sound := by
    simp only [FileTree.Sound, circledTree, Node.Sound, Node.SoundEntries]
    decide
  have husable : Path.here.Usable := by decide
  have hends := (scan_ends circledTree .lenient .here).2.2.1 hsound husable _ (Nat.le_refl _)
  refine ⟨hsound, husable, hends.resolve_right ?_⟩
  rintro ⟨hstrict, -⟩
  cases hstrict

end Scan

end RainMeta
