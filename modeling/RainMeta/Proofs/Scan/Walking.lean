import Mathlib.Data.List.Permutation
import Mathlib.Data.List.TakeWhile
import Mathlib.Data.Set.List
import RainMeta.Proofs.Build.Returning
import RainMeta.Scan.Walk

/-!
# Scans as walks

A scan keeps a list of directories that it has yet to visit. It comes to the same as the walk
that is said by recursion, from any journal and under any policy
(`RainMeta.Scan.scanFrom_eq_walk`), and both policies make what they make of one and the same
survey of the tree, which knows nothing of policies (`RainMeta.Scan.scan_eq_walk`).

## The list and the recursion

What is yet to be visited are the walks that the recursion has still to make: a scan of several
directories is the walks of these directories one after another. The subdirectories of a
directory are put in front of the rest, so their walks come before those of the rest; the files
of the directory have been read by then. This is all that has to be kept up.

## The survey

`RainMeta.Scan.survey` lists the dotrains that a walk finds, and apart from them the faults that it
meets, each in the order of the walk. A policy then decides what becomes of the faults
(`RainMeta.Policy.verdict`, `RainMeta.Policy.skips`): the strict one stops at the first, the lenient
one notes all failures and stops at the first crash only. That a run follows a survey
(`RainMeta.Run.Follows`) is closed under putting runs together, since the second part of a run
only matters if the policy gets past the faults of the first.
-/

namespace RainMeta

/-! ### The order of names -/

namespace Text

theorem le_trans {t u v : Text} (h : le t u) (h' : le u v) : le t v := by
  induction t generalizing u v with
  | nil => rfl
  | cons c t ih =>
    cases u with
    | nil => cases h
    | cons d u =>
      cases v with
      | nil => cases h'
      | cons e v =>
        simp only [le, Bool.or_eq_true, Bool.and_eq_true, decide_eq_true_eq, beq_iff_eq] at h h' ⊢
        rcases h with h | ⟨hc, h⟩
        · exact Or.inl (by omega)
        · rcases h' with h' | ⟨hd, h'⟩
          · exact Or.inl (by omega)
          · exact Or.inr ⟨hc.trans hd, ih h h'⟩

theorem le_total (t u : Text) : le t u || le u t := by
  induction t generalizing u with
  | nil => rfl
  | cons c t ih =>
    cases u with
    | nil => rfl
    | cons d u =>
      have := ih u
      simp only [le, Bool.or_eq_true, Bool.and_eq_true, decide_eq_true_eq, beq_iff_eq] at this ⊢
      rcases Nat.lt_trichotomy c.val d.val with h | h | h
      · exact Or.inl (Or.inl h)
      · exact this.imp (fun ht => Or.inr ⟨h, ht⟩) fun hu => Or.inr ⟨h.symm, hu⟩
      · exact Or.inr (Or.inl h)

end Text

/-- The entries of a directory are visited in the order of their names. -/
theorem Scan.pairwise_entriesOf {t : FileTree} {dir : Path} {entries : List Entry}
    (h : entriesOf t dir = .ok entries) :
    entries.Pairwise fun e f => Text.le e.name f.name := by
  rcases hl : t.list dir.text with cause | listed
  · simp [entriesOf, hl, Except.map] at h
  · simp only [entriesOf, hl, Except.map, Except.ok.injEq] at h
    subst h
    refine List.pairwise_mergeSort ?_ ?_ _
    · exact fun _ _ _ => Text.le_trans
    · exact fun e f => Text.le_total e.name f.name

/-! ### What becomes of faults -/

/-- What is found, and the faults that are met on the way. -/
structure Survey (α : Type) where
  value : α
  faults : List Fault

/-- What is found of an item alone: its value, or the one fault that it is. -/
def Survey.ofOutcome {α : Type} : Except Fault α → Survey (Option α)
  | .ok a => ⟨some a, []⟩
  | .error fault => ⟨none, [fault]⟩

/-- Whether a policy gets past a fault. -/
def Policy.passes : Policy → Fault → Bool
  | .lenient, .failure _ => true
  | _, _ => false

/-- What a run ends with that finds a value and meets faults on the way. -/
def Policy.verdict {α : Type} (policy : Policy) (s : Survey α) : Except Fault α :=
  match s.faults.find? fun fault => !policy.passes fault with
  | some fault => .error fault
  | none => .ok s.value

/-- The item that is skipped for a failure. -/
def Failure.skipped (stage : Text) (cause : Failure) : SkippedItem :=
  { stage, item := cause.item.getD [], error := cause.message }

/-- The item that is skipped for a fault; there is none for a crash. -/
def Fault.skipped? (stage : Text) : Fault → Option SkippedItem
  | .failure cause => some (cause.skipped stage)
  | .crash _ => none

/-- The first of several failures, or the value if there is none. -/
def Failure.firstOr {α : Type} (a : α) : List Failure → Except Fault α
  | [] => .ok a
  | cause :: _ => .error (.failure cause)

/-- What a run skips that meets faults on the way. -/
def Policy.skips (policy : Policy) (stage : Text) (faults : List Fault) : List SkippedItem :=
  (faults.takeWhile policy.passes).filterMap (Fault.skipped? stage)

namespace Policy

variable {α β : Type} {policy : Policy} {stage : Text} {fs gs : List Fault}

theorem find?_eq_none_iff :
    fs.find? (fun fault => !policy.passes fault) = none ↔ ∀ fault ∈ fs, policy.passes fault := by
  simp [List.find?_eq_none]

theorem takeWhile_eq_self (h : ∀ fault ∈ fs, policy.passes fault) :
    fs.takeWhile policy.passes = fs := by
  simpa [List.takeWhile_eq_self_iff] using h

theorem verdict_of_passes {s : Survey α} (h : ∀ fault ∈ s.faults, policy.passes fault) :
    policy.verdict s = .ok s.value := by
  rw [verdict, find?_eq_none_iff.mpr h]

theorem verdict_of_stops {s : Survey α} {fault : Fault}
    (h : s.faults.find? (fun fault => !policy.passes fault) = some fault) :
    policy.verdict s = .error fault := by
  rw [verdict, h]

/-- The lenient policy gets past all failures. -/
theorem verdict_lenient {s : Survey α} {failures : List Failure}
    (h : s.faults = failures.map .failure) : Policy.lenient.verdict s = .ok s.value :=
  verdict_of_passes (h ▸ List.forall_mem_map.mpr fun _ _ => rfl)

/-- The strict policy stops at the first failure. -/
theorem verdict_strict {s : Survey α} {failures : List Failure}
    (h : s.faults = failures.map .failure) :
    Policy.strict.verdict s = Failure.firstOr s.value failures := by
  rw [verdict, h]
  rcases failures with _ | ⟨cause, rest⟩
  · rfl
  · rfl

/-- Past the first faults come the others. -/
theorem skips_append_of_passes (h : ∀ fault ∈ fs, policy.passes fault) :
    policy.skips stage (fs ++ gs) = policy.skips stage fs ++ policy.skips stage gs := by
  rw [skips, List.takeWhile_append, takeWhile_eq_self h, if_pos rfl, List.filterMap_append, skips,
    takeWhile_eq_self h, skips]

/-- What comes after a fault that stops a run is not skipped. -/
theorem skips_append_of_stops {fault : Fault}
    (h : fs.find? (fun fault => !policy.passes fault) = some fault) :
    policy.skips stage (fs ++ gs) = policy.skips stage fs := by
  have hlt : (fs.takeWhile policy.passes).length ≠ fs.length := by
    intro hlen
    have hall := List.takeWhile_eq_self_iff.mp
      ((List.takeWhile_prefix policy.passes (l := fs)).eq_of_length hlen)
    have := find?_eq_none_iff.mpr hall
    rw [h] at this
    cases this
  rw [skips, List.takeWhile_append, if_neg hlt, skips]

/-- The strict policy skips nothing. -/
theorem skips_strict (stage : Text) (fs : List Fault) : Policy.strict.skips stage fs = [] := by
  rcases fs with _ | ⟨fault, fs⟩
  · rfl
  · rcases fault with cause | cause <;> rfl

/-- The lenient policy skips all failures. -/
theorem skips_lenient (stage : Text) (failures : List Failure) :
    Policy.lenient.skips stage (failures.map .failure) = failures.map (Failure.skipped stage) := by
  rw [skips, takeWhile_eq_self (List.forall_mem_map.mpr fun _ _ => rfl), List.filterMap_map]
  exact congrFun List.filterMap_eq_map failures

end Policy

namespace Run

variable {α β : Type} {policy : Policy} {stage : Text}

/-! ### Runs that follow a survey -/

/-- **A run follows a survey** under a policy: it ends with what the policy makes of it, and skips
what the policy skips. -/
def Follows (policy : Policy) (stage : Text) (r : Run α) (s : Survey α) : Prop :=
  ∀ j, ∃ j', runFrom r j = (policy.verdict s, j') ∧
    j'.skipped = j.skipped ++ policy.skips stage s.faults

theorem Follows.outcome_eq {r : Run α} {s : Survey α} (h : Follows policy stage r s) :
    r.outcome = policy.verdict s := by
  obtain ⟨j, hj, -⟩ := h []
  rw [outcome, result_eq, hj]

theorem Follows.skips_eq {r : Run α} {s : Survey α} (h : Follows policy stage r s) :
    r.skips = policy.skips stage s.faults := by
  obtain ⟨j, hj, hs⟩ := h []
  rw [Run.skips, result_eq, hj, hs]
  rfl

theorem follows_pure (a : α) : Follows policy stage (pure a) ⟨a, []⟩ :=
  fun j => ⟨j, rfl, (List.append_nil _).symm⟩

/-- A quiet run follows the survey that its outcome is. -/
theorem Yields.follows {r : Run α} {a : α} (h : r.Yields (.ok a)) :
    Follows policy stage r ⟨a, []⟩ := by
  intro j
  obtain ⟨j', hj, hs⟩ := h j
  exact ⟨j', hj, hs.trans (List.append_nil _).symm⟩

/-- **One run after another** meets the faults of the one, and then those of the other. -/
theorem Follows.bind {r : Run α} {f : α → Run β} {a : α} {b : β} {fs gs : List Fault}
    (hr : Follows policy stage r ⟨a, fs⟩) (hf : Follows policy stage (f a) ⟨b, gs⟩) :
    Follows policy stage (r >>= f) ⟨b, fs ++ gs⟩ := by
  intro j
  obtain ⟨j₁, h₁, hs₁⟩ := hr j
  -- the second run is made if the policy gets past all faults of the first, and only then
  rcases hfind : fs.find? (fun fault => !policy.passes fault) with _ | fault
  · have hpass := Policy.find?_eq_none_iff.mp hfind
    obtain ⟨j₂, h₂, hs₂⟩ := hf j₁
    rw [Policy.verdict_of_passes hpass] at h₁
    refine ⟨j₂, ?_, ?_⟩
    · rw [runFrom_bind_of_ok h₁, h₂]
      simp only [Policy.verdict, List.find?_append, hfind, Option.none_or]
    · rw [hs₂, hs₁, Policy.skips_append_of_passes hpass, List.append_assoc]
  · rw [Policy.verdict_of_stops hfind] at h₁
    refine ⟨j₁, ?_, ?_⟩
    · rw [runFrom_bind_of_error h₁]
      simp only [Policy.verdict, List.find?_append, hfind, Option.some_or]
    · rw [hs₁, Policy.skips_append_of_stops hfind]

/-- What is made of the value meets no more faults. -/
theorem Follows.bind_pure {r : Run α} {a : α} {fs : List Fault}
    (hr : Follows policy stage r ⟨a, fs⟩) (f : α → β) :
    Follows policy stage (r >>= fun a => pure (f a)) ⟨f a, fs⟩ := by
  have h := hr.bind (f := fun a => pure (f a)) (follows_pure (f a))
  rwa [List.append_nil] at h

theorem Follows.mapM {γ : Type} {f : γ → Run α} {s : γ → Survey α} {l : List γ}
    (h : ∀ c ∈ l, Follows policy stage (f c) (s c)) :
    Follows policy stage (l.mapM f)
      ⟨l.map fun c => (s c).value, l.flatMap fun c => (s c).faults⟩ := by
  induction l with
  | nil => exact follows_pure []
  | cons c l ih =>
    rw [List.forall_mem_cons] at h
    rw [List.mapM_cons]
    exact h.1.bind ((ih h.2).bind_pure ((s c).value :: ·))

/-- **Around an item whose run is quiet**: its failure is a fault that is met, and nothing is left
of the item. -/
theorem follows_skipping {r : Run α} {item : Text} {outcome : Except Fault α}
    (hr : r.Yields outcome)
    (hitem : ∀ cause, outcome = .error (.failure cause) → cause.item = some item) :
    Follows policy stage (skipping policy stage item r) (.ofOutcome outcome) := by
  intro j
  obtain ⟨j', hj, hs⟩ := hr j
  rw [runFrom_skipping, hj]
  rcases outcome with (cause | cause) | a
  -- only the lenient policy goes on, and it notes the failure under the name of the item
  · cases policy with
    | strict => exact ⟨j', rfl, hs.trans (List.append_nil _).symm⟩
    | lenient =>
      refine ⟨_, rfl, ?_⟩
      rw [Journal.skipped_append, hs, Journal.skipped_singleton]
      change _ = _ ++ [cause.skipped stage]
      rw [Failure.skipped, hitem cause rfl]
      rfl
  · refine ⟨j', by cases policy <;> rfl, hs.trans ?_⟩
    cases policy <;> exact (List.append_nil _).symm
  · exact ⟨j', rfl, hs.trans (List.append_nil _).symm⟩

end Run

/-- The fault that an error of an access is. -/
def AccessError.fault (failure : OsError → Failure) : AccessError → Fault
  | .os cause => .failure (failure cause)
  | .embeddedNul => .crash .embeddedNul
  | .unencodable cause => .crash (.unencodable cause)

theorem Run.yields_access {α : Type} (failure : OsError → Failure) (x : Except AccessError α) :
    (Run.access failure x).Yields (x.mapError (AccessError.fault failure)) := by
  rcases x with (cause | _ | cause) | a
  · exact yields_fail _
  · exact yields_crash _
  · exact yields_crash _
  · exact yields_pure a

namespace Scan

open Run

/-! ### Surveys of a tree -/

/-- The dotrain in a file, or the fault that reading it is. -/
def dotrainAt (t : FileTree) (path : Path) : Except Fault DotrainFile :=
  match t.readFile path.text with
  | .error cause => .error (cause.fault (.dotrainUnreadable path))
  | .ok content => (dotrainOf path content).mapError .failure

/-- What is met at a path, if it is known what is there. -/
def surveyKind (t : FileTree) (path : Path) : Option FileKind → Survey Found
  | none => ⟨.nothing, []⟩
  | some .directory => ⟨.subdirectory, []⟩
  | some .file =>
    if path.suffix = suffix then
      match dotrainAt t path with
      | .error fault => ⟨.nothing, [fault]⟩
      | .ok file => ⟨.dotrain file, []⟩
    else ⟨.nothing, []⟩

/-- What is met at an entry of a directory. -/
def surveyEntry (t : FileTree) (dir : Path) (e : Entry) : Survey Found :=
  match kindOfEntry t dir e with
  | .error cause => ⟨.nothing, [cause.fault (.entryUnreadable (dir.child e.name))]⟩
  | .ok kind => surveyKind t (dir.child e.name) kind

/-- What is found among the entries of a directory. -/
def foundIn (t : FileTree) (dir : Path) (entries : List Entry) : List Found :=
  entries.map fun e => (surveyEntry t dir e).value

/-- **What a walk finds and meets**: the dotrains of a directory, followed by those below its
subdirectories, and the faults in the same order. -/
def survey (t : FileTree) (dir : Path) : Survey (List DotrainFile) :=
  match _h : entriesOf t dir with
  | .error cause => ⟨[], [cause.fault (.directoryUnreadable dir)]⟩
  | .ok entries =>
    let found := foundIn t dir entries
    let below := (subdirectories dir entries found).attach.map fun ⟨sub, _⟩ => survey t sub
    { value := found.filterMap Found.dotrain? ++ below.flatMap Survey.value
      faults := (entries.flatMap fun e => (surveyEntry t dir e).faults)
        ++ below.flatMap Survey.faults }
termination_by 4097 - dir.size
decreasing_by
  rename_i hsub
  have := size_lt_of_mem_subdirectories hsub
  have := (length_le_of_entriesOf _h).2
  omega

variable {t : FileTree} {dir : Path} {entries : List Entry} {cause : AccessError}

theorem survey_of_error (h : entriesOf t dir = .error cause) :
    survey t dir = ⟨[], [cause.fault (.directoryUnreadable dir)]⟩ := by
  rw [survey]
  split
  · next cause' h' =>
    rw [h] at h'
    cases h'
    rfl
  · next entries h' =>
    rw [h] at h'
    cases h'

theorem survey_of_ok (h : entriesOf t dir = .ok entries) :
    survey t dir =
      { value := (foundIn t dir entries).filterMap Found.dotrain? ++
          (subdirectories dir entries (foundIn t dir entries)).flatMap fun sub =>
            (survey t sub).value
        faults := (entries.flatMap fun e => (surveyEntry t dir e).faults) ++
          (subdirectories dir entries (foundIn t dir entries)).flatMap
            fun sub => (survey t sub).faults } := by
  rw [survey]
  split
  · next cause h' =>
    rw [h] at h'
    cases h'
  · next entries' h' =>
    rw [h] at h'
    cases h'
    simp only [List.flatMap_map, List.flatMap_subtype, List.unattach_attach]

/-! ### Scans and walks -/

theorem walk_of_error (h : entriesOf t dir = .error cause) (policy : Policy) :
    walk t policy dir = refuse policy dir cause >>= fun _ => pure [] := by
  rw [walk]
  split
  · next cause' h' =>
    rw [h] at h'
    cases h'
    rfl
  · next entries h' =>
    rw [h] at h'
    cases h'

theorem walk_of_ok (h : entriesOf t dir = .ok entries) (policy : Policy) :
    walk t policy dir = entries.mapM (inspect t policy dir) >>= fun found =>
      (subdirectories dir entries found).mapM (walk t policy) >>= fun below =>
        pure (found.filterMap Found.dotrain? ++ below.flatten) := by
  rw [walk]
  split
  · next cause h' =>
    rw [h] at h'
    cases h'
  · next entries' h' =>
    rw [h] at h'
    cases h'
    refine bind_congr fun found => ?_
    rw [List.mapM_subtype fun sub _ => rfl, List.unattach_attach]

/-- **A scan is the walks that are yet to be made**, one after another, from any journal. -/
theorem scanFrom_eq_walk (t : FileTree) (policy : Policy) (pending : List Path) :
    scanFrom t policy pending =
      pending.mapM (walk t policy) >>= fun found => pure found.flatten := by
  induction pending using scanFrom.induct (t := t) with
  | case1 => rw [scanFrom, List.mapM_nil, pure_bind, List.flatten_nil]
  | case2 dir rest cause h ih =>
    rw [scanFrom_of_error h, List.mapM_cons, walk_of_error h, ih]
    simp only [bind_assoc, pure_bind, List.flatten_cons, List.nil_append]
  | case3 dir rest entries h ih =>
    -- the subdirectories are in front of the rest, and so are their walks
    rw [scanFrom_of_ok h, List.mapM_cons, walk_of_ok h]
    simp only [ih, List.mapM_append, bind_assoc, pure_bind, List.flatten_append,
      List.flatten_cons, List.append_assoc]

theorem yields_readDotrain (t : FileTree) (path : Path) :
    (readDotrain t path).Yields (dotrainAt t path) := by
  have hread := yields_access (.dotrainUnreadable path) (t.readFile path.text)
  rw [readDotrain_eq, dotrainAt]
  rcases h : t.readFile path.text with cause | content
  · rw [h] at hread
    exact hread.bind_error _
  · rw [h] at hread
    refine hread.bind_ok ?_
    dsimp only
    rcases dotrainOf path content with cause | file
    · exact yields_fail cause
    · exact yields_pure file

/-- A file that is not read is named by the failure. -/
theorem item_of_dotrainAt {path : Path} {cause : Failure}
    (h : dotrainAt t path = .error (.failure cause)) : cause.item = some path.text := by
  rw [dotrainAt] at h
  rcases hr : t.readFile path.text with (cause' | _ | cause') | content
  · rw [hr] at h
    cases h
    rfl
  · rw [hr] at h
    cases h
  · rw [hr] at h
    cases h
  · rw [hr] at h
    dsimp only [dotrainOf] at h
    rcases hd : Utf8.decode content with e | text
    · rw [hd] at h
      cases h
      rfl
    · rw [hd] at h
      cases h

theorem follows_contribution (t : FileTree) (policy : Policy) (path : Path)
    (kind : Option FileKind) :
    Follows policy stage (contribution t policy path kind) (surveyKind t path kind) := by
  rcases kind with _ | _ | _
  · exact follows_pure _
  · rw [contribution, surveyKind]
    split
    · have hread : Follows policy stage (skipping policy stage path.text (readDotrain t path))
          (.ofOutcome (dotrainAt t path)) :=
        follows_skipping (yields_readDotrain t path) fun cause => item_of_dotrainAt
      rw [map_eq_pure_bind]
      rcases h : dotrainAt t path with fault | file
      · rw [h] at hread
        exact hread.bind_pure Found.ofRead
      · rw [h] at hread
        exact hread.bind_pure Found.ofRead
    · exact follows_pure _
  · exact follows_pure _

theorem follows_inspect (t : FileTree) (policy : Policy) (dir : Path) (e : Entry) :
    Follows policy stage (inspect t policy dir e) (surveyEntry t dir e) := by
  have hkind := yields_access (.entryUnreadable (dir.child e.name)) (kindOfEntry t dir e)
  rw [inspect_eq, surveyEntry]
  rcases h : kindOfEntry t dir e with cause | kind
  · rw [h] at hkind
    refine (follows_skipping hkind ?_).bind (follows_pure _)
    rcases cause <;> rintro _ ⟨⟩
    rfl
  · rw [h] at hkind
    exact (follows_skipping hkind (by rintro _ ⟨⟩)).bind (follows_contribution t policy _ kind)

theorem follows_refuse (policy : Policy) (dir : Path) (cause : AccessError) :
    Follows policy stage (refuse policy dir cause)
      ⟨(), [cause.fault (.directoryUnreadable dir)]⟩ := by
  have hrefused := yields_access (α := Unit) (.directoryUnreadable dir) (.error cause)
  refine (follows_skipping hrefused ?_).bind_pure fun _ => ()
  rcases cause <;> rintro _ ⟨⟩
  rfl

/-- **A walk follows the survey** of its directory, under either policy. -/
theorem follows_walk (t : FileTree) (policy : Policy) (dir : Path) :
    Follows policy stage (walk t policy dir) (survey t dir) := by
  induction dir using survey.induct (t := t) with
  | case1 dir cause h =>
    rw [walk_of_error h, survey_of_error h]
    exact (follows_refuse policy dir cause).bind_pure fun _ => []
  | case2 dir entries h found ih =>
    rw [walk_of_ok h, survey_of_ok h]
    refine (Follows.mapM fun e _ => follows_inspect t policy dir e).bind ?_
    have hbelow := (Follows.mapM ih).bind_pure
      fun below => found.filterMap Found.dotrain? ++ below.flatten
    rwa [← List.flatMap_def] at hbelow

/-! ### What scans come to -/

theorem follows_scan (t : FileTree) (policy : Policy) (root : Path) :
    Follows policy stage (scan t policy root) (survey t root) := by
  have hwalk := (Follows.mapM fun dir (_ : dir ∈ [root]) => follows_walk t policy dir).bind_pure
    List.flatten
  rw [← scanFrom_eq_walk] at hwalk
  have hscan := hwalk.bind
    (f := fun found => record (.scanned root found.length) >>= fun _ => pure found)
    ((yields_record rfl).follows.bind_pure fun _ => _)
  simpa [scan] using hscan

/-- A root that can be used leads to nothing that would make a scan crash. -/
theorem exists_failures_of_usable (ht : t.Sound) {root : Path} (hroot : root.Usable) :
    ∃ failures : List Failure, (survey t root).faults = failures.map .failure := by
  -- a fault that stops the lenient policy is a crash, and such a scan does not crash
  have hpass : ∀ fault ∈ (survey t root).faults, Policy.lenient.passes fault := by
    rw [← Policy.find?_eq_none_iff, ← Option.not_isSome_iff_eq_none, Option.isSome_iff_exists]
    rintro ⟨fault, hfault⟩
    have hends := (follows_scan t .lenient root).outcome_eq
    rw [Policy.verdict_of_stops hfault, outcome_scan] at hends
    rcases fault with cause | cause
    · cases List.find?_some hfault
    · have hcrash := (crashes_scanFrom_iff ht [root]).mp ⟨cause, hends⟩
      exact absurd hroot (by simpa using hcrash)
  have hrange : (survey t root).faults ∈ Set.range (List.map Fault.failure) := by
    rw [Set.range_list_map]
    rintro (cause | cause) hfault
    · exact ⟨cause, rfl⟩
    · cases hpass _ hfault
  obtain ⟨failures, h⟩ := hrange
  exact ⟨failures, h.symm⟩

/-- **A scan is a walk.** It comes to the same as the recursion on directories, whatever the
journal, and what both come to can be read off the survey of the root: a lenient scan finds all
of its dotrains and skips its failures in their order, and a strict scan ends with the first
failure, if there is one. -/
theorem scan_eq_walk (t : FileTree) (root : Path) :
    (∀ dir entries, entriesOf t dir = .ok entries →
      entries.Pairwise fun e f => Text.le e.name f.name) ∧
    (∀ policy, scan t policy root = walk t policy root >>= fun found =>
      record (.scanned root found.length) >>= fun _ => pure found) ∧
    (t.Sound → root.Usable → ∃ failures : List Failure,
      (survey t root).faults = failures.map .failure ∧
      (scan t .lenient root).outcome = .ok (survey t root).value ∧
      (scan t .lenient root).skips = failures.map (Failure.skipped stage) ∧
      (scan t .strict root).skips = [] ∧
      (scan t .strict root).outcome = Failure.firstOr (survey t root).value failures) := by
  refine ⟨fun _ _ => pairwise_entriesOf, fun policy => ?_, fun ht hroot => ?_⟩
  · rw [scan, scanFrom_eq_walk]
    simp only [List.mapM_cons, List.mapM_nil, bind_assoc, pure_bind, List.flatten_cons,
      List.flatten_nil, List.append_nil]
  · obtain ⟨failures, hfailures⟩ := exists_failures_of_usable ht hroot
    refine ⟨failures, hfailures, ?_, ?_, ?_, ?_⟩
    · rw [(follows_scan t .lenient root).outcome_eq, Policy.verdict_lenient hfailures]
    · rw [(follows_scan t .lenient root).skips_eq, hfailures, Policy.skips_lenient]
    · rw [(follows_scan t .strict root).skips_eq, Policy.skips_strict]
    · rw [(follows_scan t .strict root).outcome_eq, Policy.verdict_strict hfailures]

/-- The bytes of a name of plain letters. -/
def plainName (name : String) : Bytes :=
  name.toList.map fun c => c.toNat.toUInt8

/-- A tree with a link to itself, and a file below a directory that is no text. -/
def loopedTree : FileTree where
  root := .directory [
    (plainName "z.rain", .file [120]),
    (plainName "l.rain", .link (plainName "l.rain")),
    (plainName "a", .directory [
      (plainName "c.rain", .file [121]),
      (plainName "b.rain", .file [255])])]
  workingDirectory := []

theorem sound_loopedTree : loopedTree.Sound := by
  simp only [FileTree.Sound, loopedTree, Node.Sound, Node.SoundEntries]
  decide

/-- The entries of the looped tree in the order of their names. -/
def loopedEntries : List Entry := [
  ⟨"a", .directory [(plainName "c.rain", .file [121]), (plainName "b.rain", .file [255])]⟩,
  ⟨"l.rain", .link (plainName "l.rain")⟩,
  ⟨"z.rain", .file [120]⟩]

theorem survey_loopedTree : survey loopedTree .here =
    { value := [⟨⟨.relative, ["z.rain"]⟩, "x"⟩, ⟨⟨.relative, ["a", "c.rain"]⟩, "y"⟩]
      faults := [.failure (.entryUnreadable ⟨.relative, ["l.rain"]⟩ .tooManyLinks),
        .failure (.dotrainNotUtf8 ⟨.relative, ["a", "b.rain"]⟩ .invalidStart)] } := by
  have habove : entriesOf loopedTree .here = .ok loopedEntries := by cbv
  have hbelow : entriesOf loopedTree ⟨.relative, ["a"]⟩ = .ok [
      ⟨"b.rain", .file [255]⟩, ⟨"c.rain", .file [121]⟩] := by cbv
  have hsub : survey loopedTree ⟨.relative, ["a"]⟩ =
      ⟨[⟨⟨.relative, ["a", "c.rain"]⟩, "y"⟩],
        [.failure (.dotrainNotUtf8 ⟨.relative, ["a", "b.rain"]⟩ .invalidStart)]⟩ := by
    rw [survey_of_ok hbelow]
    cbv
  have hsubs : subdirectories .here loopedEntries (foundIn loopedTree .here loopedEntries) =
      [⟨.relative, ["a"]⟩] := by cbv
  rw [survey_of_ok habove, hsubs]
  simp only [List.flatMap_cons, List.flatMap_nil, hsub]
  cbv

/-- The file of the directory is found before the one below it, and what fails above is met
first. -/
theorem scan_loopedTree : loopedTree.Sound ∧ Path.here.Usable ∧
    (scan loopedTree .lenient .here).outcome =
      .ok [⟨⟨.relative, ["z.rain"]⟩, "x"⟩, ⟨⟨.relative, ["a", "c.rain"]⟩, "y"⟩] ∧
    (scan loopedTree .strict .here).outcome =
      .error (.failure (.entryUnreadable ⟨.relative, ["l.rain"]⟩ .tooManyLinks)) := by
  have husable : Path.here.Usable := by decide
  obtain ⟨failures, hfaults, hlenient, -, -, hstrict⟩ :=
    (scan_eq_walk loopedTree .here).2.2 sound_loopedTree husable
  rw [survey_loopedTree] at hfaults hlenient
  refine ⟨sound_loopedTree, husable, hlenient, ?_⟩
  rcases failures with _ | ⟨cause, rest⟩
  · cases hfaults
  · have hfirst := (List.cons_eq_cons.mp hfaults).1
    exact hstrict.trans (congrArg Except.error hfirst.symm)

end Scan

end RainMeta
