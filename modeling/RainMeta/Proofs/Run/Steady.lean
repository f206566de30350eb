import Mathlib.Data.List.Forall2
import Mathlib.Data.List.ReduceOption
import RainMeta.Proofs.Run

/-!
# Outcomes of runs

A run that never looks into the journal comes to the same from every journal, and it skips the
same items (`RainMeta.Run.Steady`). What such a run comes to can be computed without any journal:
`RainMeta.Run.outcome` turns runs put together into computations that end with a value or a
fault (`RainMeta.Run.Steady.outcome_bind`, `RainMeta.Run.outcome_mapM`), and around an item the
policy decides what its outcome becomes (`RainMeta.Run.outcome_skipping`,
`RainMeta.Policy.settle`).

Quiet runs are steady, so for a stage of a build it is enough that what concerns one item is
quiet (`RainMeta.Run.Quiet.steady_skipping`). As long as runs return, what they skip adds up
(`RainMeta.Run.skips_mapM`): an item that a lenient run gets past has a value and skips nothing, or
it fails and is skipped itself (`RainMeta.Run.Quiet.lenient_cases`).

## Crashes

No policy keeps a run from crashing, so whether it does can be said along the same lines
(`RainMeta.Run.CrashesIff`). After a run that may fail, the second one crashes only if the first
one returns (`RainMeta.Run.CrashesIff.bind`); after a tolerant run there is no such condition
(`RainMeta.Run.CrashesIff.bind_of_tolerant`), and several tolerant runs crash if one of them does
(`RainMeta.Run.crashes_mapM_iff`).
-/

namespace RainMeta

/-! ### Values and faults -/

section Except

variable {ε α β : Type}

/-- Every item of a list has to have a value for the list to have its values. -/
theorem Except.mapM_eq_ok_iff {f : α → Except ε β} {l : List α} {bs : List β} :
    l.mapM f = .ok bs ↔ List.Forall₂ (fun a b => f a = .ok b) l bs := by
  induction l generalizing bs with
  | nil =>
    rw [List.mapM_nil, List.forall₂_nil_left_iff]
    exact ⟨fun h => by cases h; rfl, fun h => by rw [h]; rfl⟩
  | cons a l ih =>
    rw [List.mapM_cons, List.forall₂_cons_left_iff]
    rcases hf : f a with e | b
    · refine iff_of_false (fun h => by cases h) ?_
      rintro ⟨b, _, h, -⟩
      cases h
    · rcases hl : l.mapM f with e | rest
      · refine iff_of_false (fun h => by cases h) ?_
        rintro ⟨_, rest, -, h, -⟩
        rw [← ih, hl] at h
        cases h
      · constructor
        · rintro ⟨⟩
          exact ⟨b, rest, rfl, ih.mp hl, rfl⟩
        · rintro ⟨_, _, ⟨⟩, h, rfl⟩
          rw [← ih, hl, Except.ok.injEq] at h
          rw [h]
          rfl

theorem Except.exists_mem_of_mapM {f : α → Except ε β} {l : List α} {bs : List β}
    (h : l.mapM f = .ok bs) {b : β} (hb : b ∈ bs) : ∃ a ∈ l, f a = .ok b := by
  rw [mapM_eq_ok_iff] at h
  induction h with
  | nil => cases hb
  | @cons a b' l bs ha _ ih =>
    rcases List.mem_cons.mp hb with rfl | hb
    · exact ⟨a, List.mem_cons_self, ha⟩
    · obtain ⟨a', ha', hf⟩ := ih hb
      exact ⟨a', List.mem_cons_of_mem a ha', hf⟩

theorem Except.eq_ok_of_toOption {x : Except ε α} {a : α} (h : x.toOption = some a) :
    x = .ok a := by
  rcases x with e | b
  · cases h
  · cases h
    rfl

theorem Except.toOption_map (f : α → β) (x : Except ε α) :
    (x.map f).toOption = x.toOption.map f := by
  rcases x with e | a
  · rfl
  · rfl

end Except

/-- What becomes of the outcome of an item under a policy: a failure ends the run or leaves
nothing of the item. -/
def Policy.settle {α : Type} (policy : Policy) : Except Fault α → Except Fault (Option α)
  | .ok a => .ok (some a)
  | .error (.failure cause) => match policy with
    | .strict => .error (.failure cause)
    | .lenient => .ok none
  | .error (.crash cause) => .error (.crash cause)

namespace Policy

variable {α : Type} {policy : Policy} {x : Except Fault α}

/-- What is left of an item is its value, if it has one. -/
theorem eq_toOption_of_settle {o : Option α} (h : policy.settle x = .ok o) : o = x.toOption := by
  rcases x with (cause | cause) | a
  · cases policy with
    | strict => cases h
    | lenient =>
      cases h
      rfl
  · cases h
  · cases h
    rfl

theorem eq_ok_of_settle {a : α} (h : policy.settle x = .ok (some a)) : x = .ok a := by
  rcases x with (cause | cause) | b
  · cases policy <;> cases h
  · cases h
  · cases h
    rfl

/-- **What is left of several items** are the values of those that have one. -/
theorem eq_filterMap_of_settle {β : Type} {f : β → Except Fault α} {l : List β}
    {os : List (Option α)} (h : (l.mapM fun b => policy.settle (f b)) = .ok os) :
    os.reduceOption = l.filterMap fun b => (f b).toOption := by
  rw [Except.mapM_eq_ok_iff] at h
  induction h with
  | nil => rfl
  | @cons b o l os hb _ ih =>
    rw [eq_toOption_of_settle hb, List.filterMap_cons]
    rcases (f b).toOption with _ | a
    · rw [List.reduceOption_cons_of_none, ih]
    · rw [List.reduceOption_cons_of_some, ih]

end Policy

namespace Run

variable {α β : Type}

/-! ### Outcomes -/

/-- What a run ends with: a value or a fault. -/
def outcome (r : Run α) : Except Fault α :=
  r.result.1

/-- What a run skips. -/
def skips (r : Run α) : List SkippedItem :=
  r.result.2.skipped

/-- **A steady run** does not depend on the journal that it finds: it ends with its outcome, and
what it skips comes after what was skipped before. -/
structure Steady (r : Run α) : Prop where
  ends : ∀ j, (runFrom r j).1 = r.outcome
  adds : ∀ j, (runFrom r j).2.skipped = j.skipped ++ r.skips

theorem steady_of_eq {r : Run α} (outcome : Except Fault α) (items : List SkippedItem)
    (h : ∀ j, ∃ k, runFrom r j = (outcome, k) ∧ k.skipped = j.skipped ++ items) : r.Steady := by
  obtain ⟨k₀, h₀, hs₀⟩ := h []
  have ho : r.outcome = outcome := by rw [Run.outcome, result_eq, h₀]
  have hi : r.skips = items := by
    rw [skips, result_eq, h₀, hs₀]
    rfl
  constructor
  · intro j
    obtain ⟨k, hk, -⟩ := h j
    rw [hk, ho]
  · intro j
    obtain ⟨k, hk, hs⟩ := h j
    rw [hk, hs, hi]

theorem Quiet.steady {r : Run α} (h : r.Quiet) : r.Steady := by
  obtain ⟨outcome, h⟩ := h
  refine steady_of_eq outcome [] fun j => ?_
  obtain ⟨k, hk, hs⟩ := h j
  exact ⟨k, hk, by rw [hs, List.append_nil]⟩

theorem Steady.bind {r : Run α} {f : α → Run β} (hr : r.Steady) (hf : ∀ a, (f a).Steady) :
    (r >>= f).Steady := by
  rcases ho : r.outcome with fault | a
  · refine steady_of_eq (.error fault) r.skips fun j => ?_
    have hj : runFrom r j = (.error fault, (runFrom r j).2) := by rw [← ho, ← hr.ends j]
    exact ⟨_, runFrom_bind_of_error hj f, hr.adds j⟩
  · refine steady_of_eq (f a).outcome (r.skips ++ (f a).skips) fun j => ?_
    have hj : runFrom r j = (.ok a, (runFrom r j).2) := by rw [← ho, ← hr.ends j]
    refine ⟨(runFrom (f a) (runFrom r j).2).2, ?_, ?_⟩
    · rw [runFrom_bind_of_ok hj, ← (hf a).ends (runFrom r j).2]
    · rw [(hf a).adds, hr.adds, List.append_assoc]

theorem Steady.map {r : Run α} (hr : r.Steady) (f : α → β) : (f <$> r).Steady := by
  rw [map_eq_pure_bind]
  exact hr.bind fun a => (quiet_pure (f a)).steady

theorem Steady.mapM {f : α → Run β} (hf : ∀ a, (f a).Steady) (l : List α) :
    (l.mapM f).Steady := by
  induction l with
  | nil =>
    rw [List.mapM_nil]
    exact (quiet_pure []).steady
  | cons a l ih =>
    rw [List.mapM_cons]
    exact (hf a).bind fun b => ih.bind fun bs => (quiet_pure (b :: bs)).steady

/-- **Around a quiet run the policy settles what becomes of the item.** -/
theorem Quiet.steady_skipping {r : Run α} (h : r.Quiet) (policy : Policy) (stage item : Text) :
    (skipping policy stage item r).Steady := by
  obtain ⟨outcome, h⟩ := h
  -- nothing is skipped but a failure under the lenient policy
  have quiet : ∀ x, (∀ j k, runFrom r j = (outcome, k) →
      runFrom (skipping policy stage item r) j = (x, k)) →
        (skipping policy stage item r).Steady := by
    intro x hx
    refine Quiet.steady ⟨x, fun j => ?_⟩
    obtain ⟨k, hk, hs⟩ := h j
    exact ⟨k, hx j k hk, hs⟩
  rcases outcome with (cause | cause) | a
  · cases policy with
    | strict => exact quiet (.error (.failure cause)) fun j k hk => by rw [runFrom_skipping, hk]
    | lenient =>
      refine steady_of_eq (.ok none) [{ stage, item, error := cause.message }] fun j => ?_
      obtain ⟨k, hk, hs⟩ := h j
      refine ⟨_, by rw [runFrom_skipping, hk], ?_⟩
      simp [Journal.skipped_singleton, hs, Event.skippedItem?]
  · exact quiet (.error (.crash cause)) fun j k hk => by rw [runFrom_skipping, hk]
  · exact quiet (.ok (some a)) fun j k hk => by rw [runFrom_skipping, hk]

/-! ### Outcomes of what is put together -/

@[simp] theorem outcome_pure (a : α) : outcome (pure a) = .ok a := rfl

@[simp] theorem outcome_fail (cause : Failure) :
    outcome (fail cause : Run α) = .error (.failure cause) := rfl

@[simp] theorem outcome_crash (cause : Crash) :
    outcome (crash cause : Run α) = .error (.crash cause) := rfl

@[simp] theorem outcome_record (e : Event) : outcome (record e) = .ok () := rfl

/-- **The outcome of two runs put together.** The second one may find anything in the journal. -/
theorem Steady.outcome_bind (r : Run α) {f : α → Run β} (hf : ∀ a, (f a).Steady) :
    (r >>= f).outcome = r.outcome >>= fun a => (f a).outcome := by
  rw [outcome, outcome, result_eq, result_eq, runFrom_bind]
  rcases runFrom r [] with ⟨fault | a, j⟩
  · rfl
  · exact (hf a).ends j

theorem outcome_mapM {f : α → Run β} (hf : ∀ a, (f a).Steady) (l : List α) :
    (l.mapM f).outcome = l.mapM fun a => (f a).outcome := by
  induction l with
  | nil =>
    rw [List.mapM_nil, List.mapM_nil]
    rfl
  | cons a l ih =>
    have hrest : ∀ b, (l.mapM f >>= fun bs => (pure (b :: bs) : Run (List β))).Steady := fun b =>
      (Steady.mapM hf l).bind fun bs => (quiet_pure (b :: bs)).steady
    rw [List.mapM_cons, List.mapM_cons, Steady.outcome_bind _ hrest]
    congr 1
    funext b
    rw [Steady.outcome_bind _ fun bs => (quiet_pure (b :: bs)).steady, ih]
    rfl

@[simp] theorem outcome_map (f : α → β) (r : Run α) : (f <$> r).outcome = r.outcome.map f := by
  rw [map_eq_pure_bind, Steady.outcome_bind _ fun a => (quiet_pure (f a)).steady]
  rcases r.outcome with fault | a
  · rfl
  · rfl

/-- Each value of several runs is the value of one of them. -/
theorem exists_mem_of_outcome_mapM {f : α → Run β} (hf : ∀ a, (f a).Steady) {l : List α}
    {bs : List β} (h : (l.mapM f).outcome = .ok bs) {b : β} (hb : b ∈ bs) :
    ∃ a ∈ l, (f a).outcome = .ok b := by
  rw [outcome_mapM hf] at h
  exact Except.exists_mem_of_mapM h hb

/-- Around an item the policy settles the outcome. -/
theorem outcome_skipping (policy : Policy) (stage item : Text) (r : Run α) :
    (skipping policy stage item r).outcome = policy.settle r.outcome := by
  rw [outcome, outcome, result_eq, result_eq, runFrom_skipping]
  rcases runFrom r [] with ⟨(cause | cause) | a, j⟩
  · cases policy with
    | strict => rfl
    | lenient => rfl
  · rfl
  · rfl

theorem exists_runFrom_of_outcome {r : Run α} {a : α} (h : r.outcome = .ok a) :
    ∃ j, runFrom r [] = (.ok a, j) :=
  ⟨(runFrom r []).2, by rw [← h, outcome, result_eq]⟩

theorem Steady.exists_runFrom {r : Run α} (hr : r.Steady) {a : α} (h : r.outcome = .ok a)
    (j : Journal) : ∃ k, runFrom r j = (.ok a, k) :=
  ⟨(runFrom r j).2, Prod.ext ((hr.ends j).trans h) rfl⟩

/-- Two runs put together have a value if both have one. -/
theorem Steady.outcome_bind_eq_ok_iff {r : Run α} {f : α → Run β} (hf : ∀ a, (f a).Steady)
    {b : β} : (r >>= f).outcome = .ok b ↔ ∃ a, r.outcome = .ok a ∧ (f a).outcome = .ok b := by
  rw [Steady.outcome_bind _ hf]
  rcases r.outcome with fault | a
  · refine iff_of_false (fun h => by cases h) ?_
    rintro ⟨a, h, -⟩
    cases h
  · constructor
    · exact fun h => ⟨a, rfl, h⟩
    · rintro ⟨_, ⟨⟩, h⟩
      exact h

/-! ### Runs that return -/

/-- **A run returns** if it ends with a value. -/
def Returns (r : Run α) : Prop :=
  ∃ a, r.outcome = .ok a

theorem returns_map_iff {f : α → β} {r : Run α} : (f <$> r).Returns ↔ r.Returns := by
  simp only [Returns, outcome_map]
  rcases r.outcome with fault | a
  · simp [Except.map]
  · simp [Except.map]

/-- **Several runs return** if each of them does. -/
theorem returns_mapM_iff {f : α → Run β} (hf : ∀ a, (f a).Steady) {l : List α} :
    (l.mapM f).Returns ↔ ∀ a ∈ l, (f a).Returns := by
  simp only [Returns, outcome_mapM hf, Except.mapM_eq_ok_iff]
  induction l with
  | nil => simp
  | cons a l ih => simp [List.forall₂_cons_left_iff, ih, exists_and_left]

/-! ### What is skipped -/

@[simp] theorem skips_pure (a : α) : skips (pure a) = [] := rfl

/-- A quiet run skips nothing itself. -/
theorem Quiet.skips {r : Run α} (h : r.Quiet) : r.skips = [] := by
  obtain ⟨outcome, h⟩ := h
  obtain ⟨j, hj, hs⟩ := h []
  rw [Run.skips, result_eq, hj]
  exact hs

/-- **If the first run returns**, the second one skips after it. -/
theorem Steady.skips_bind {r : Run α} {f : α → Run β} (hf : ∀ a, (f a).Steady) {a : α}
    (h : r.outcome = .ok a) : (r >>= f).skips = r.skips ++ (f a).skips := by
  obtain ⟨j, hj⟩ := exists_runFrom_of_outcome h
  rw [skips, skips, result_eq, result_eq, runFrom_bind_of_ok hj, (hf a).adds, hj]

/-- What two runs put together skip is skipped by one of them. -/
theorem Steady.mem_skips_bind {r : Run α} {f : α → Run β} (hf : ∀ a, (f a).Steady)
    {item : SkippedItem} (h : item ∈ (r >>= f).skips) :
    item ∈ r.skips ∨ ∃ a, item ∈ (f a).skips := by
  rcases ho : r.outcome with fault | a
  · have hr : runFrom r [] = (.error fault, (runFrom r []).2) := by rw [← ho, outcome, result_eq]
    rw [skips, result_eq, runFrom_bind_of_error hr] at h
    exact Or.inl h
  · rw [Steady.skips_bind hf ho] at h
    exact (List.mem_append.mp h).imp_right fun h => ⟨a, h⟩

theorem mem_skips_mapM {f : α → Run β} (hf : ∀ a, (f a).Steady) {l : List α}
    {item : SkippedItem} (h : item ∈ (l.mapM f).skips) : ∃ a ∈ l, item ∈ (f a).skips := by
  induction l with
  | nil => cases h
  | cons a l ih =>
    have hcons : ∀ b, (l.mapM f >>= fun bs => (pure (b :: bs) : Run (List β))).Steady := fun b =>
      (Steady.mapM hf l).bind fun bs => (quiet_pure (b :: bs)).steady
    rw [List.mapM_cons] at h
    rcases Steady.mem_skips_bind hcons h with h | ⟨b, h⟩
    · exact ⟨a, List.mem_cons_self, h⟩
    · rcases Steady.mem_skips_bind (fun bs => (quiet_pure (b :: bs)).steady) h with h | ⟨bs, h⟩
      · obtain ⟨a', ha', h⟩ := ih h
        exact ⟨a', List.mem_cons_of_mem a ha', h⟩
      · cases h

/-- **If all of several runs return**, they skip one after another. -/
theorem skips_mapM {f : α → Run β} (hf : ∀ a, (f a).Steady) {l : List α}
    (h : (l.mapM f).Returns) : (l.mapM f).skips = l.flatMap fun a => (f a).skips := by
  induction l with
  | nil => rfl
  | cons a l ih =>
    rw [returns_mapM_iff hf, List.forall_mem_cons] at h
    obtain ⟨⟨b, hb⟩, hrest⟩ := h
    obtain ⟨bs, hbs⟩ := (returns_mapM_iff hf).mpr hrest
    have hcons : ∀ b, (l.mapM f >>= fun bs => (pure (b :: bs) : Run (List β))).Steady := fun b =>
      (Steady.mapM hf l).bind fun bs => (quiet_pure (b :: bs)).steady
    rw [List.mapM_cons, Steady.skips_bind hcons hb,
      Steady.skips_bind (fun bs => (quiet_pure (b :: bs)).steady) hbs, ih ⟨bs, hbs⟩]
    simp

/-- What is skipped around a quiet run is skipped at its stage. -/
theorem Quiet.stage_of_mem_skips {r : Run α} (hr : r.Quiet) {policy : Policy} {stage name : Text}
    {item : SkippedItem} (h : item ∈ (skipping policy stage name r).skips) :
    item.stage = stage := by
  obtain ⟨outcome, hr⟩ := hr
  obtain ⟨j, hj, hs⟩ := hr []
  have hnone : item ∉ j.skipped := by
    rw [hs]
    exact List.not_mem_nil
  rw [Run.skips, result_eq, runFrom_skipping, hj] at h
  rcases outcome with (cause | cause) | a
  · cases policy with
    | strict => exact absurd h hnone
    | lenient =>
      rw [Journal.skipped_append, Journal.skipped_singleton, List.mem_append] at h
      rw [List.mem_singleton.mp (h.resolve_left hnone)]
  · exact absurd h hnone
  · exact absurd h hnone

/-- **An item that a lenient run gets past** has a value, or it fails and is skipped. -/
theorem Quiet.lenient_cases {r : Run α} (hr : r.Quiet) {stage item : Text}
    (h : (skipping .lenient stage item r).Returns) :
    (∃ a, r.outcome = .ok a ∧ (skipping .lenient stage item r).skips = []) ∨
      ∃ cause, r.outcome = .error (.failure cause) ∧
        (skipping .lenient stage item r).skips = [{ stage, item, error := cause.message }] := by
  obtain ⟨o, h⟩ := h
  obtain ⟨outcome, hr⟩ := hr
  obtain ⟨j, hj, hs⟩ := hr []
  have ho : r.outcome = outcome := by rw [Run.outcome, result_eq, hj]
  rw [outcome_skipping, ho] at h
  simp only [ho, Run.skips, result_eq, runFrom_skipping, hj]
  rcases outcome with (cause | cause) | a
  · refine Or.inr ⟨cause, rfl, ?_⟩
    rw [Journal.skipped_append, hs]
    rfl
  · cases h
  · exact Or.inl ⟨a, rfl, hs⟩

/-! ### Crashes -/

/-- **A run crashes** if it ends with what no policy can skip. -/
def Crashes (r : Run α) : Prop :=
  ∃ cause, r.outcome = .error (.crash cause)

theorem not_crashes_pure (a : α) : ¬Crashes (pure a) := by
  rintro ⟨cause, h⟩
  cases h

theorem not_crashes_record (e : Event) : ¬Crashes (record e) := by
  rintro ⟨cause, h⟩
  cases h

theorem not_crashes_fail (cause : Failure) : ¬Crashes (fail cause : Run α) := by
  rintro ⟨cause, h⟩
  cases h

theorem crashes_crash (cause : Crash) : Crashes (crash cause : Run α) :=
  ⟨cause, rfl⟩

/-- Two runs put together crash if the first one does, or else the second one. -/
theorem Steady.crashes_bind_iff {r : Run α} {f : α → Run β} (hf : ∀ a, (f a).Steady) :
    (r >>= f).Crashes ↔ r.Crashes ∨ ∃ a, r.outcome = .ok a ∧ (f a).Crashes := by
  simp only [Crashes, Steady.outcome_bind _ hf]
  rcases r.outcome with fault | a
  · constructor
    · rintro ⟨cause, ⟨⟩⟩
      exact Or.inl ⟨cause, rfl⟩
    · rintro (⟨cause, ⟨⟩⟩ | ⟨a, ⟨⟩, -⟩)
      exact ⟨cause, rfl⟩
  · constructor
    · exact fun h => Or.inr ⟨a, rfl, h⟩
    · rintro (⟨cause, h⟩ | ⟨_, ⟨⟩, h⟩)
      · cases h
      · exact h

/-- If it is known when the second run crashes, whatever the first one came to. -/
theorem Steady.crashes_bind_iff_of_forall {r : Run α} {f : α → Run β} {crash : Prop}
    (hs : ∀ a, (f a).Steady) (hf : ∀ a, (f a).Crashes ↔ crash) :
    (r >>= f).Crashes ↔ r.Crashes ∨ (∃ a, r.outcome = .ok a) ∧ crash := by
  simp only [Steady.crashes_bind_iff hs, hf, exists_and_right]

/-- What comes after does not matter if it never crashes. -/
theorem Steady.crashes_bind_iff_of_not {r : Run α} {f : α → Run β} (hs : ∀ a, (f a).Steady)
    (hf : ∀ a, ¬(f a).Crashes) : (r >>= f).Crashes ↔ r.Crashes := by
  rw [Steady.crashes_bind_iff_of_forall hs fun a => iff_false_intro (hf a)]
  simp

theorem crashes_map_iff {f : α → β} {r : Run α} : (f <$> r).Crashes ↔ r.Crashes := by
  rw [map_eq_pure_bind]
  exact Steady.crashes_bind_iff_of_not (fun a => (quiet_pure (f a)).steady)
    fun a => not_crashes_pure (f a)

/-- **A steady run crashes exactly if** something holds. -/
structure CrashesIff (r : Run α) (crash : Prop) : Prop where
  steady : r.Steady
  iff : r.Crashes ↔ crash

/-- **Two runs one after the other crash** if the first one does, or else, if it returns, the
second one. -/
theorem CrashesIff.bind {r : Run α} {f : α → Run β} {p q returns : Prop} (hr : CrashesIff r p)
    (ho : (∃ a, r.outcome = .ok a) ↔ returns) (hf : ∀ a, CrashesIff (f a) q) :
    CrashesIff (r >>= f) (p ∨ returns ∧ q) where
  steady := hr.steady.bind fun a => (hf a).steady
  iff := by
    rw [Steady.crashes_bind_iff_of_forall (fun a => (hf a).steady) fun a => (hf a).iff, hr.iff, ho]

/-- The policy settles failures only. -/
theorem crashes_skipping_iff {policy : Policy} {stage item : Text} {r : Run α} :
    (skipping policy stage item r).Crashes ↔ r.Crashes := by
  simp only [Crashes, outcome_skipping]
  rcases r.outcome with (cause | cause) | a
  · cases policy <;> simp [Policy.settle]
  · simp [Policy.settle]
  · simp [Policy.settle]

/-- A tolerant run returns unless it crashes. -/
theorem Tolerant.returns_or_crashes {r : Run α} (hr : r.Tolerant) :
    (∃ a, r.outcome = .ok a) ∨ r.Crashes := by
  rcases h : r.outcome with (cause | cause) | a
  · exact absurd h (hr.never_fails [] cause)
  · exact Or.inr ⟨cause, h⟩
  · exact Or.inl ⟨a, rfl⟩

/-- **After a tolerant run** something follows that crashes or not whatever the run came to. -/
theorem Tolerant.crashes_bind_iff {r : Run α} {f : α → Run β} {crash : Prop} (hr : r.Tolerant)
    (hs : ∀ a, (f a).Steady) (hf : ∀ a, (f a).Crashes ↔ crash) :
    (r >>= f).Crashes ↔ r.Crashes ∨ crash := by
  rw [Steady.crashes_bind_iff_of_forall hs hf]
  -- what follows matters only if the first run returns, but else that one crashes
  rcases hr.returns_or_crashes with ⟨a, ha⟩ | hc
  · simp [ha]
  · simp [hc]

theorem CrashesIff.bind_of_tolerant {r : Run α} {f : α → Run β} {p q : Prop}
    (hr : CrashesIff r p) (ht : r.Tolerant) (hf : ∀ a, CrashesIff (f a) q) :
    CrashesIff (r >>= f) (p ∨ q) where
  steady := hr.steady.bind fun a => (hf a).steady
  iff := by rw [ht.crashes_bind_iff (fun a => (hf a).steady) fun a => (hf a).iff, hr.iff]

/-- **Of several tolerant runs one has to crash** for all of them together to crash. -/
theorem crashes_mapM_iff {f : α → Run β} (hs : ∀ a, (f a).Steady) (ht : ∀ a, (f a).Tolerant)
    (l : List α) : (l.mapM f).Crashes ↔ ∃ a ∈ l, (f a).Crashes := by
  induction l with
  | nil =>
    rw [List.mapM_nil]
    simp [not_crashes_pure]
  | cons a l ih =>
    have hrest : ∀ b, (l.mapM f >>= fun bs => (pure (b :: bs) : Run (List β))).Crashes ↔
        ∃ a ∈ l, (f a).Crashes := fun b => by
      rw [← ih, Steady.crashes_bind_iff_of_not (fun bs => (quiet_pure (b :: bs)).steady)
        fun bs => not_crashes_pure (b :: bs)]
    rw [List.mapM_cons, (ht a).crashes_bind_iff (fun b =>
      (Steady.mapM hs l).bind fun bs => (quiet_pure (b :: bs)).steady) hrest]
    simp only [List.mem_cons, exists_eq_or_imp]

/-! ### Runs that only end -/

/-- The run that ends with a value or with a failure and does nothing else. -/
def ofExcept : Except Failure α → Run α
  | .ok a => pure a
  | .error cause => fail cause

theorem quiet_ofExcept (x : Except Failure α) : (ofExcept x).Quiet := by
  rcases x with cause | a
  · exact quiet_fail cause
  · exact quiet_pure a

theorem not_crashes_ofExcept (x : Except Failure α) : ¬(ofExcept x).Crashes := by
  rcases x with cause | a
  · exact not_crashes_fail cause
  · exact not_crashes_pure a

theorem outcome_ofExcept_eq_ok_iff {x : Except Failure α} {a : α} :
    (ofExcept x).outcome = .ok a ↔ x = .ok a := by
  rcases x with cause | b
  · simp [ofExcept]
  · simp [ofExcept]

theorem ofExcept_eq_fail_iff {x : Except Failure α} {cause : Failure} :
    ofExcept x = fail cause ↔ x = .error cause := by
  constructor
  · intro h
    have houtcome := congrArg outcome h
    rcases x with cause' | a
    · simpa [ofExcept] using houtcome
    · simp [ofExcept] at houtcome
  · rintro rfl
    rfl

variable {r : Run α} {f : α → Except Failure β}

/-- What is made of the value of a run does not crash. -/
theorem crashes_bind_ofExcept_iff : (r >>= fun a => ofExcept (f a)).Crashes ↔ r.Crashes :=
  Steady.crashes_bind_iff_of_not (fun a => (quiet_ofExcept (f a)).steady)
    fun a => not_crashes_ofExcept (f a)

theorem outcome_bind_ofExcept_eq_ok_iff {b : β} :
    (r >>= fun a => ofExcept (f a)).outcome = .ok b ↔ ∃ a, r.outcome = .ok a ∧ f a = .ok b := by
  rw [Steady.outcome_bind_eq_ok_iff fun a => (quiet_ofExcept (f a)).steady]
  simp only [outcome_ofExcept_eq_ok_iff]

end Run

end RainMeta
