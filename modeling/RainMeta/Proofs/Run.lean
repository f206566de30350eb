import RainMeta.Run

/-!
# Reasoning about runs

What a run comes to from a journal (`RainMeta.Run.runFrom`), and the two ways in which runs are
compared.

* **Quiet runs** (`RainMeta.Run.Quiet`) come to the same from every journal and skip nothing.
  So is everything that concerns a single item: it does not know the policy.
* **Corresponding runs** (`RainMeta.Run.Corresponds`) are what a strict and a lenient run of one
  computation are to each other. As long as nothing fails they agree; the first failure ends
  the one and is skipped by the other, which then goes on and cannot fail any more.

Where the policy matters is `RainMeta.Run.skipping` alone: around a quiet run it gives
corresponding runs (`RainMeta.Run.corresponds_skipping`). From there on, correspondence is
closed under what puts runs together (`RainMeta.Run.Corresponds.bind`,
`RainMeta.Run.Corresponds.mapM`), so the stages of a build follow the text of their definitions.
-/

namespace RainMeta

@[simp] theorem Journal.skipped_append (j k : Journal) :
    Journal.skipped (j ++ k) = Journal.skipped j ++ Journal.skipped k :=
  List.filterMap_append

theorem Journal.skipped_singleton (e : Event) : Journal.skipped [e] = e.skippedItem?.toList := by
  rcases h : e.skippedItem? with _ | item <;> simp [Journal.skipped, h]

namespace Run

variable {α β : Type}

/-! ### What a run comes to -/

/-- What a run comes to, and the journal it leaves, if it finds a journal at its start. -/
def runFrom (r : Run α) (j : Journal) : Except Fault α × Journal :=
  StateT.run (ExceptT.run r) j

theorem result_eq (r : Run α) : r.result = runFrom r [] := rfl

@[simp] theorem runFrom_record (e : Event) (j : Journal) :
    runFrom (record e) j = (.ok (), j ++ [e]) := rfl

@[simp] theorem runFrom_skippedSoFar (j : Journal) :
    runFrom skippedSoFar j = (.ok j.skipped, j) := rfl

theorem runFrom_bind (r : Run α) (f : α → Run β) (j : Journal) :
    runFrom (r >>= f) j = match runFrom r j with
      | (.ok a, j') => runFrom (f a) j'
      | (.error fault, j') => (.error fault, j') := by
  show (ExceptT.bindCont f (runFrom r j).1).run (runFrom r j).2 = _
  rcases runFrom r j with ⟨_ | _, _⟩ <;> rfl

theorem runFrom_bind_of_ok {r : Run α} {j j' : Journal} {a : α} (h : runFrom r j = (.ok a, j'))
    (f : α → Run β) : runFrom (r >>= f) j = runFrom (f a) j' := by
  rw [runFrom_bind, h]

theorem runFrom_bind_of_error {r : Run α} {j j' : Journal} {fault : Fault}
    (h : runFrom r j = (.error fault, j')) (f : α → Run β) :
    runFrom (r >>= f) j = (.error fault, j') := by
  rw [runFrom_bind, h]

theorem exists_of_runFrom_bind {r : Run α} {f : α → Run β} {j j' : Journal} {b : β}
    (h : runFrom (r >>= f) j = (.ok b, j')) :
    ∃ a k, runFrom r j = (.ok a, k) ∧ runFrom (f a) k = (.ok b, j') := by
  rcases hr : runFrom r j with ⟨fault | a, k⟩
  · rw [runFrom_bind_of_error hr] at h
    cases h
  · rw [runFrom_bind_of_ok hr] at h
    exact ⟨a, k, rfl, h⟩

theorem runFrom_tryCatch (r : Run α) (handle : Fault → Run α) (j : Journal) :
    runFrom (tryCatch r handle) j = match runFrom r j with
      | (.ok a, j') => (.ok a, j')
      | (.error fault, j') => runFrom (handle fault) j' := by
  show (StateT.run (ExceptT.run (tryCatch r handle)) j : Id _) = _
  simp only [tryCatch, tryCatchThe, MonadExceptOf.tryCatch, ExceptT.tryCatch, ExceptT.run_mk,
    StateT.run_bind]
  show bind (m := Id) (runFrom r j) _ = _
  rcases runFrom r j with ⟨_ | _, _⟩
  · rfl
  · rfl

/-- **Where the policy matters**: a failure around an item ends the run or is skipped. -/
theorem runFrom_skipping (policy : Policy) (stage item : Text) (r : Run α) (j : Journal) :
    runFrom (skipping policy stage item r) j = match runFrom r j, policy with
      | (.ok a, j'), _ => (.ok (some a), j')
      | (.error (.failure cause), j'), .strict => (.error (.failure cause), j')
      | (.error (.failure cause), j'), .lenient =>
        (.ok none, j' ++ [.skipped { stage, item, error := cause.message }])
      | (.error (.crash cause), j'), _ => (.error (.crash cause), j') := by
  rw [skipping, runFrom_tryCatch, map_eq_pure_bind, runFrom_bind]
  rcases runFrom r j with ⟨(cause | cause) | a, j'⟩
  · cases policy with
    | strict => rfl
    | lenient => rfl
  · rfl
  · rfl

/-! ### Quiet runs -/

/-- **A run yields an outcome** if it comes to it from every journal and skips nothing. -/
def Yields (r : Run α) (outcome : Except Fault α) : Prop :=
  ∀ j, ∃ j', runFrom r j = (outcome, j') ∧ j'.skipped = j.skipped

/-- **A quiet run** has an outcome, whatever the journal is. -/
def Quiet (r : Run α) : Prop :=
  ∃ outcome, r.Yields outcome

theorem yields_pure (a : α) : Yields (pure a) (.ok a) :=
  fun j => ⟨j, rfl, rfl⟩

theorem yields_fail (cause : Failure) : Yields (fail cause : Run α) (.error (.failure cause)) :=
  fun j => ⟨j, rfl, rfl⟩

theorem yields_crash (cause : Crash) : Yields (crash cause : Run α) (.error (.crash cause)) :=
  fun j => ⟨j, rfl, rfl⟩

theorem yields_record {e : Event} (h : e.skippedItem? = none) : Yields (record e) (.ok ()) :=
  fun j => ⟨j ++ [e], rfl, by simp [Journal.skipped_singleton, h]⟩

theorem Yields.bind_ok {r : Run α} {a : α} {f : α → Run β} {outcome : Except Fault β}
    (hr : r.Yields (.ok a)) (hf : (f a).Yields outcome) : (r >>= f).Yields outcome := by
  intro j
  obtain ⟨j₁, h₁, hs₁⟩ := hr j
  obtain ⟨j₂, h₂, hs₂⟩ := hf j₁
  exact ⟨j₂, by rw [runFrom_bind_of_ok h₁, h₂], hs₂.trans hs₁⟩

theorem Yields.bind_error {r : Run α} {fault : Fault} (hr : r.Yields (.error fault))
    (f : α → Run β) : (r >>= f).Yields (.error fault) := by
  intro j
  obtain ⟨j₁, h₁, hs₁⟩ := hr j
  exact ⟨j₁, runFrom_bind_of_error h₁ f, hs₁⟩

theorem quiet_pure (a : α) : Quiet (pure a) := ⟨_, yields_pure a⟩

theorem quiet_fail (cause : Failure) : Quiet (fail cause : Run α) := ⟨_, yields_fail cause⟩

theorem quiet_crash (cause : Crash) : Quiet (crash cause : Run α) := ⟨_, yields_crash cause⟩

theorem quiet_record {e : Event} (h : e.skippedItem? = none) : Quiet (record e) :=
  ⟨_, yields_record h⟩

theorem Quiet.bind {r : Run α} {f : α → Run β} (hr : r.Quiet) (hf : ∀ a, (f a).Quiet) :
    (r >>= f).Quiet := by
  obtain ⟨fault | a, hr⟩ := hr
  · exact ⟨_, hr.bind_error f⟩
  · obtain ⟨outcome, hf⟩ := hf a
    exact ⟨outcome, hr.bind_ok hf⟩

theorem Quiet.map {r : Run α} (hr : r.Quiet) (f : α → β) : (f <$> r).Quiet := by
  rw [map_eq_pure_bind]
  exact hr.bind fun a => quiet_pure (f a)

theorem quiet_access (failure : OsError → Failure) (a : Except AccessError α) :
    Quiet (access failure a) := by
  rcases a with (cause | _ | cause) | a
  · exact quiet_fail (failure cause)
  · exact quiet_crash .embeddedNul
  · exact quiet_crash (.unencodable cause)
  · exact quiet_pure a

/-! ### Tolerant runs -/

/-- **A tolerant run** never ends with a failure, and what was skipped before it stays
skipped. -/
structure Tolerant (r : Run α) : Prop where
  never_fails : ∀ j cause, (runFrom r j).1 ≠ .error (.failure cause)
  keeps : ∀ j, j.skipped <+: (runFrom r j).2.skipped

theorem tolerant_pure (a : α) : Tolerant (pure a) where
  never_fails := by
    rintro j cause ⟨⟩
  keeps j := List.prefix_refl _

theorem tolerant_record (e : Event) : Tolerant (record e) where
  never_fails := by
    rintro j cause ⟨⟩
  keeps j := by simp

theorem Tolerant.bind {r : Run α} {f : α → Run β} (hr : r.Tolerant) (hf : ∀ a, (f a).Tolerant) :
    (r >>= f).Tolerant where
  never_fails j cause := by
    rcases h : runFrom r j with ⟨fault | a, j'⟩
    · rw [runFrom_bind_of_error h]
      rintro ⟨⟩
      exact hr.never_fails j cause (by rw [h])
    · rw [runFrom_bind_of_ok h]
      exact (hf a).never_fails j' cause
  keeps j := by
    have hk := hr.keeps j
    rcases h : runFrom r j with ⟨fault | a, j'⟩
    · rw [h] at hk
      rwa [runFrom_bind_of_error h]
    · rw [h] at hk
      rw [runFrom_bind_of_ok h]
      exact hk.trans ((hf a).keeps j')

/-! ### Corresponding runs -/

/-- **Outcomes of a strict and of a lenient run agree**, each with the journal it left. -/
inductive Agrees : Except Fault α × Journal → Except Fault α × Journal → Prop
  /-- Nothing failed: both ended with one value. -/
  | same {a : α} {j j' : Journal} (strict : j.skipped = []) (lenient : j'.skipped = []) :
      Agrees (.ok a, j) (.ok a, j')
  /-- What ends both. -/
  | crashed {cause : Crash} {j j' : Journal} :
      Agrees (.error (.crash cause), j) (.error (.crash cause), j')
  /-- The failure that ended the one is the first that the other skipped. -/
  | stopped {cause : Failure} {item : SkippedItem} {j j' : Journal} {outcome : Except Fault α}
      (first : j'.skipped.head? = some item) (names : item.error = cause.message) :
      Agrees (.error (.failure cause), j) (outcome, j')

/-- **A strict and a lenient run correspond**: the lenient one is tolerant, and from journals
without skipped items they come to outcomes that agree. -/
structure Corresponds (strict lenient : Run α) : Prop where
  tolerant : lenient.Tolerant
  agrees : ∀ j j', j.skipped = [] → j'.skipped = [] →
    Agrees (runFrom strict j) (runFrom lenient j')

theorem corresponds_pure (a : α) : Corresponds (pure a) (pure a) where
  tolerant := tolerant_pure a
  agrees _ _ hj hj' := .same hj hj'

/-- Events that skip nothing may differ. -/
theorem corresponds_record {e e' : Event} (h : e.skippedItem? = none)
    (h' : e'.skippedItem? = none) : Corresponds (record e) (record e') where
  tolerant := tolerant_record e'
  agrees j j' hj hj' := .same (by simp [Journal.skipped_singleton, hj, h])
    (by simp [Journal.skipped_singleton, hj', h'])

/-- **Runs put together of corresponding runs correspond.** -/
theorem Corresponds.bind {strict lenient : Run α} {f g : α → Run β}
    (h : Corresponds strict lenient) (hfg : ∀ a, Corresponds (f a) (g a)) :
    Corresponds (strict >>= f) (lenient >>= g) where
  tolerant := h.tolerant.bind fun a => (hfg a).tolerant
  agrees j j' hj hj' := by
    have ha := h.agrees j j' hj hj'
    rcases hs : runFrom strict j with ⟨x, k⟩
    rcases hl : runFrom lenient j' with ⟨y, k'⟩
    rw [hs, hl] at ha
    cases ha with
    | same hk hk' =>
      rw [runFrom_bind_of_ok hs, runFrom_bind_of_ok hl]
      exact (hfg _).agrees k k' hk hk'
    | crashed =>
      rw [runFrom_bind_of_error hs, runFrom_bind_of_error hl]
      exact .crashed
    | stopped first names =>
      rw [runFrom_bind_of_error hs]
      -- whatever the lenient run does next, its first skipped item stays the first
      rcases y with fault | a
      · rw [runFrom_bind_of_error hl]
        exact .stopped first names
      · rw [runFrom_bind_of_ok hl]
        obtain ⟨more, hmore⟩ := (hfg a).tolerant.keeps k'
        rcases hg : runFrom (g a) k' with ⟨outcome, k''⟩
        rw [hg] at hmore
        exact .stopped (by rw [← hmore, List.head?_append, first, Option.some_or]) names

theorem Corresponds.mapM {f g : α → Run β} (h : ∀ a, Corresponds (f a) (g a)) (l : List α) :
    Corresponds (l.mapM f) (l.mapM g) := by
  induction l with
  | nil =>
    rw [List.mapM_nil, List.mapM_nil]
    exact corresponds_pure []
  | cons a l ih =>
    rw [List.mapM_cons, List.mapM_cons]
    exact (h a).bind fun b => ih.bind fun bs => corresponds_pure (b :: bs)

/-- **A quiet run around which failures are caught.** -/
theorem corresponds_skipping {r : Run α} (hr : r.Quiet) (stage item : Text) :
    Corresponds (skipping .strict stage item r) (skipping .lenient stage item r) := by
  obtain ⟨outcome, hr⟩ := hr
  constructor
  · constructor
    · intro j cause
      obtain ⟨j', hj, -⟩ := hr j
      rw [runFrom_skipping, hj]
      rcases outcome with (cause | cause) | a <;> rintro ⟨⟩
    · intro j
      obtain ⟨j', hj, hs⟩ := hr j
      rw [runFrom_skipping, hj, ← hs]
      rcases outcome with (cause | cause) | a
      · simp
      · exact List.prefix_refl _
      · exact List.prefix_refl _
  · intro j j' hj hj'
    obtain ⟨k, hk, hs⟩ := hr j
    obtain ⟨k', hk', hs'⟩ := hr j'
    rw [runFrom_skipping, runFrom_skipping, hk, hk']
    rw [hj] at hs
    rw [hj'] at hs'
    rcases outcome with (cause | cause) | a
    · have first : (Journal.skipped (k' ++ [.skipped ⟨stage, item, cause.message⟩])).head? =
          some ⟨stage, item, cause.message⟩ := by
        simp [Journal.skipped_singleton, hs', Event.skippedItem?]
      exact .stopped first rfl
    · exact .crashed
    · exact .same hs hs'

/-- What a lenient run came to without skipping anything is what both runs come to. -/
theorem Corresponds.result_of_nothing_skipped {strict lenient : Run α}
    (h : Corresponds strict lenient) {j j' : Journal} {a : α} (hj : j.skipped = [])
    (hr : runFrom lenient j = (.ok a, j')) (hj' : j'.skipped = []) :
    strict.result.1 = .ok a ∧ lenient.result.1 = .ok a := by
  -- the strict run from the empty journal is compared with both lenient runs
  have hs : ∃ k, runFrom strict [] = (.ok a, k) := by
    have ha := h.agrees [] j rfl hj
    rw [hr] at ha
    rcases hx : runFrom strict [] with ⟨x, k⟩
    rw [hx] at ha
    cases ha with
    | same => exact ⟨k, rfl⟩
    | stopped first => simp [hj'] at first
  obtain ⟨k, hs⟩ := hs
  have ha := h.agrees [] [] rfl rfl
  rw [hs] at ha
  rcases hy : runFrom lenient [] with ⟨y, k'⟩
  rw [hy] at ha
  cases ha
  exact ⟨by rw [result_eq, hs], by rw [result_eq, hy]⟩

end Run

end RainMeta
