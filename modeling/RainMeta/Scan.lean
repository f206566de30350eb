import RainMeta.FileTree.Bound
import RainMeta.Run

/-!
# Scanning for dotrains

A scan visits a directory and all directories below it, symbolic links included, and reads
every file whose suffix is `.rain`. The entries of a directory are visited in the order of
their names, its files before its subdirectories.

* `Scan.scan`: the dotrains below one root; it keeps a list of directories yet to be visited.
* `Scan.scanAll`: the dotrains below several roots.
* `Scan.iterate`: what is done for one directory of the list.

The scan ends even where links form a circle: every subdirectory has a longer path than its
directory, and paths that are too long cannot be listed.
-/

namespace RainMeta

/-- The source text of a dotrain and where it was found. -/
structure DotrainFile where
  path : Path
  text : Text
  deriving DecidableEq

namespace Scan

/-- The suffix of dotrain files. -/
def suffix : Text := ".rain"

/-- The stage at which items of a scan are skipped. -/
def stage : Text := "include"

/-- An entry of a directory. -/
structure Entry where
  name : Text
  node : Node

/-- The entries of a directory in the order of their names. -/
def entriesOf (t : FileTree) (dir : Path) : Except AccessError (List Entry) :=
  (t.list dir.text).map fun entries =>
    (entries.map fun e => { name := Utf8.decodeEscaped e.1, node := e.2 : Entry }).mergeSort
      fun e f => Text.le e.name f.name

/-- What an entry is, links followed; nothing for a link that leads nowhere. -/
def kindOfEntry (t : FileTree) (dir : Path) (e : Entry) : Except AccessError (Option FileKind) :=
  match e.node with
  | .file _ => .ok (some .file)
  | .directory _ => .ok (some .directory)
  | .link _ => match t.kindOf (dir.text ++ "/" ++ e.name) with
    | .ok kind => .ok (some kind)
    | .error (.os .noEntry) => .ok none
    | .error cause => .error cause

/-- Reads a dotrain. -/
def readDotrain (t : FileTree) (path : Path) : Run DotrainFile := do
  let content ← Run.access (.dotrainUnreadable path) (t.readFile path.text)
  match Utf8.decode content with
  | .error e => Run.fail (.dotrainNotUtf8 path e.reason)
  | .ok text => return { path, text }

/-- What an entry contributes to a scan. -/
inductive Found
  | dotrain (file : DotrainFile)
  | subdirectory
  | nothing

/-- The dotrain that was found, if it is one. -/
def Found.dotrain? : Found → Option DotrainFile
  | .dotrain file => some file
  | _ => none

/-- Looks at an entry of a directory and reads it if it is a dotrain. -/
def inspect (t : FileTree) (policy : Policy) (dir : Path) (e : Entry) : Run Found := do
  let path := dir.child e.name
  let kind ← Run.skipping policy stage path.text
    (Run.access (.entryUnreadable path) (kindOfEntry t dir e))
  match kind.join with
  | some .directory => return .subdirectory
  | some .file =>
    if path.suffix = suffix then
      match ← Run.skipping policy stage path.text (readDotrain t path) with
      | some file => return .dotrain file
      | none => return .nothing
    else return .nothing
  | none => return .nothing

/-- The directories among the entries of a directory. -/
def subdirectories (dir : Path) : List Entry → List Found → List Path
  | e :: entries, .subdirectory :: found => dir.child e.name :: subdirectories dir entries found
  | _ :: entries, _ :: found => subdirectories dir entries found
  | _, _ => []

/-- A directory that cannot be listed. -/
def refuse (policy : Policy) (dir : Path) (cause : AccessError) : Run Unit := do
  let refused : Run Unit := Run.access (.directoryUnreadable dir) (.error cause)
  let _ ← Run.skipping policy stage dir.text refused

/-! ### Why a scan ends -/

theorem length_subdirectories_le (dir : Path) (entries : List Entry) (found : List Found) :
    (subdirectories dir entries found).length ≤ entries.length := by
  induction entries generalizing found with
  | nil => simp [subdirectories]
  | cons e entries ih =>
    cases found with
    | nil => simp [subdirectories]
    | cons f found =>
      have := ih found
      cases f <;> simp only [subdirectories, List.length_cons] <;> omega

theorem size_lt_of_mem_subdirectories {dir p : Path} {entries : List Entry} {found : List Found}
    (h : p ∈ subdirectories dir entries found) : dir.size < p.size := by
  induction entries generalizing found with
  | nil => simp [subdirectories] at h
  | cons e entries ih =>
    cases found with
    | nil => simp [subdirectories] at h
    | cons f found =>
      cases f with
      | subdirectory =>
        simp only [subdirectories, List.mem_cons] at h
        rcases h with rfl | h
        · rw [Path.size_child]
          omega
        · exact ih h
      | dotrain _ => exact ih h
      | nothing => exact ih h

/-- A bound for the number of visits that a directory can lead to: with at most `b` entries in
every directory, `b + 1` to the power of how much longer its path may grow. -/
def weight (b : Nat) (p : Path) : Nat :=
  Nat.pow (b + 1) (4097 - p.size)

/-- The bound for all directories yet to be visited. -/
def totalWeight (b : Nat) : List Path → Nat
  | [] => 0
  | p :: pending => weight b p + totalWeight b pending

theorem weight_pos (b : Nat) (p : Path) : 0 < weight b p :=
  Nat.pow_pos (Nat.succ_pos b)

theorem totalWeight_le {b m : Nat} {paths : List Path} (h : ∀ p ∈ paths, weight b p ≤ m) :
    totalWeight b paths ≤ paths.length * m := by
  induction paths with
  | nil => simp [totalWeight]
  | cons p paths ih =>
    have h₁ := h p (by simp)
    have h₂ := ih fun q hq => h q (by simp [hq])
    simp only [totalWeight, List.length_cons, Nat.succ_mul]
    omega

/-- The subdirectories of a directory together weigh less than the directory. -/
theorem totalWeight_lt {b : Nat} {dir : Path} {subs : List Path} (hl : subs.length ≤ b)
    (hs : ∀ p ∈ subs, dir.size < p.size) (hd : dir.size ≤ 4096) :
    totalWeight b subs < weight b dir := by
  have hm : ∀ p ∈ subs, weight b p ≤ Nat.pow (b + 1) (4096 - dir.size) := fun p hp =>
    Nat.pow_le_pow_right (Nat.succ_pos b) (by have := hs p hp; omega)
  have h₁ := totalWeight_le hm
  have h₂ : weight b dir = Nat.pow (b + 1) (4096 - dir.size) * (b + 1) := by
    rw [weight, show 4097 - dir.size = 4096 - dir.size + 1 by omega]
    rfl
  have h₃ : 0 < Nat.pow (b + 1) (4096 - dir.size) := Nat.pow_pos (Nat.succ_pos b)
  have h₄ := Nat.mul_le_mul_right (Nat.pow (b + 1) (4096 - dir.size)) hl
  rw [h₂, Nat.mul_succ, Nat.mul_comm]
  omega

theorem length_le_of_entriesOf {t : FileTree} {dir : Path} {entries : List Entry}
    (h : entriesOf t dir = .ok entries) : entries.length ≤ t.root.count ∧ dir.size ≤ 4096 := by
  unfold entriesOf at h
  cases hl : t.list dir.text with
  | error e => simp [hl, Except.map] at h
  | ok es =>
    simp only [hl, Except.map, Except.ok.injEq] at h
    subst h
    exact ⟨by simpa using FileTree.length_list_le hl, FileTree.size_le_of_list hl⟩

theorem totalWeight_append (b : Nat) (p q : List Path) :
    totalWeight b (p ++ q) = totalWeight b p + totalWeight b q := by
  induction p with
  | nil => simp [totalWeight]
  | cons dir p ih => rw [List.cons_append, totalWeight, totalWeight, ih, Nat.add_assoc]

/-! ### The scan -/

/-- The dotrains below the directories that are yet to be visited. The subdirectories of a
directory are visited before what comes after it. -/
def scanFrom (t : FileTree) (policy : Policy) : List Path → Run (List DotrainFile)
  | [] => return []
  | dir :: rest =>
    match _h : entriesOf t dir with
    | .error cause => do
      refuse policy dir cause
      scanFrom t policy rest
    | .ok entries => do
      let found ← entries.mapM (inspect t policy dir)
      let files := found.filterMap Found.dotrain?
      let more ← scanFrom t policy (subdirectories dir entries found ++ rest)
      return files ++ more
termination_by pending => totalWeight t.root.count pending
decreasing_by
  · have := weight_pos t.root.count dir
    simp only [totalWeight]
    omega
  · have hb := length_le_of_entriesOf _h
    have hl := length_subdirectories_le dir entries found
    have hw := totalWeight_lt (Nat.le_trans hl hb.1)
      (fun p hp => size_lt_of_mem_subdirectories hp) hb.2
    rw [totalWeight_append]
    simp only [totalWeight]
    omega

/-- The dotrains below a root. -/
def scan (t : FileTree) (policy : Policy) (root : Path) : Run (List DotrainFile) := do
  let found ← scanFrom t policy [root]
  Run.record (.scanned root found.length)
  return found

/-- The dotrains below several roots, one root after another. -/
def scanAll (t : FileTree) (policy : Policy) (roots : List Path) : Run (List DotrainFile) := do
  return (← roots.mapM (scan t policy)).flatten

/-! ### The scan as a loop -/

/-- How far a scan has come: the directories that are yet to be visited, and the dotrains that were
found. -/
structure Progress where
  pending : List Path
  found : List DotrainFile

/-- One iteration of a scan. The first directory is taken off the list, and its subdirectories are
put there; if it cannot be listed, nothing is. With nothing to be visited, nothing happens. -/
def iterate (t : FileTree) (policy : Policy) : Progress → Run Progress
  | ⟨[], files⟩ => return ⟨[], files⟩
  | ⟨dir :: rest, files⟩ =>
    match entriesOf t dir with
    | .error cause => do
      refuse policy dir cause
      return ⟨rest, files⟩
    | .ok entries => do
      let found ← entries.mapM (inspect t policy dir)
      return ⟨subdirectories dir entries found ++ rest, files ++ found.filterMap Found.dotrain?⟩

/-- Several iterations, one after another. -/
def iterations (t : FileTree) (policy : Policy) : Nat → Progress → Run Progress
  | 0, p => return p
  | n + 1, p => do iterations t policy n (← iterate t policy p)

end Scan

end RainMeta
