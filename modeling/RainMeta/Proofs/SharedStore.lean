import RainMeta.Proofs.Lock.Sound
import RainMeta.SharedStore

/-!
# What readers of a shared store see

The lock keeps writers apart from one another and from readers, whatever the order in which
threads come, are woken, look again and leave. So a reader sees one store as long as it is inside:
the one that the write sections which were over when it came in have left behind
(`RainMeta.SharedStore.exclusive_and_snapshot`).

What the write sections did is read off the events (`RainMeta.SharedStore.Sections`): a change
belongs to a section that is still open until the thread that made it leaves, and sections are
over in the order in which they are left. That applying the changes in this order gives the
store, is not clear from the events. It holds because no two sections are open at one time: when a
section is left, all open changes are its own (`RainMeta.SharedStore.Accounts`).
-/

namespace RainMeta

namespace SharedStore

/-! ### Write sections -/

section Sections

variable {Thread : Type}

/-- Changes applied to a store, one after another. -/
def applyAll (s : Store) (changes : List (Store → Store)) : Store :=
  changes.foldl (fun s f => f s) s

@[simp] theorem applyAll_concat (s : Store) (changes : List (Store → Store)) (f : Store → Store) :
    applyAll s (changes ++ [f]) = f (applyAll s changes) := by
  simp [applyAll]

/-- **What write sections did**: the changes of those that are over, in the order in which they
were left, and the changes of those that are open, with the thread that made them. -/
structure Sections (Thread : Type) where
  finished : List (Store → Store) := []
  pending : List (Thread × (Store → Store)) := []

variable [DecidableEq Thread]

/-- What write sections did after one more event. -/
def Sections.after (c : Sections Thread) : Event Thread → Sections Thread
  | .change t f => { c with pending := c.pending ++ [(t, f)] }
  | .move (.leave t .write) =>
    { finished := c.finished ++ (c.pending.filter fun p => p.1 = t).map Prod.snd
      pending := c.pending.filter fun p => p.1 ≠ t }
  | _ => c

/-- What write sections did in the course of events. -/
def sections (es : List (Event Thread)) : Sections Thread :=
  es.foldl Sections.after {}

@[simp] theorem sections_concat (es : List (Event Thread)) (e : Event Thread) :
    sections (es ++ [e]) = (sections es).after e := by
  simp [sections]

/-- The store that write sections have left behind: the changes of those that are over. -/
def leftBehind (s : Store) (es : List (Event Thread)) : Store :=
  applyAll s (sections es).finished

end Sections

variable {Thread : Type} [DecidableEq Thread] {s s' : SharedStore Thread} {t : Thread}
  {e : Event Thread} {es : List (Event Thread)} {start : Store}

theorem sound_step (hl : s.lock.Sound) (hs : Step s e s') : s'.lock.Sound := by
  cases hs with
  | move hm => exact hl.step hm
  | change f h => exact hl
  | observe h => exact hl

/-! ### Accounts -/

/-- **The store is accounted for**: it is what all changes make of the first store, those of
sections that are over before the others; and who has an open change is inside to write. -/
structure Accounts (start : Store) (es : List (Event Thread)) (s : SharedStore Thread) : Prop where
  sound : s.lock.Sound
  store : s.store =
    applyAll start ((sections es).finished ++ (sections es).pending.map Prod.snd)
  writing : ∀ p ∈ (sections es).pending, p.1 ∈ s.lock.writers

theorem accounts_nil (start : Store) :
    Accounts start ([] : List (Event Thread)) ⟨{}, start⟩ :=
  ⟨Lock.sound_empty, rfl, by simp [sections]⟩

/-- **One more event at the lock**: only the end of a write section changes what is over, and it
ends the only section that is open. -/
theorem Accounts.move {m : Lock.Move Thread} {lock : Lock Thread} (h : Accounts start es s)
    (hs : Lock.Step s.lock m lock) : Accounts start (es ++ [.move m]) { s with lock } := by
  have hsound := h.sound.step hs
  by_cases hm : ∃ t, m = .leave t .write
  · obtain ⟨t, rfl⟩ := hm
    have ht : t ∈ s.lock.writers := by
      cases hs with
      | leave hv => exact Lock.mem_writers_iff.mpr (List.mem_of_find?_eq_some hv)
    have hown : ∀ p ∈ (sections es).pending, p.1 = t := fun p hp =>
      h.sound.eq_of_mem_writers (h.writing p hp) ht
    have hclosed : ((sections es).pending.filter fun p => p.1 = t) = (sections es).pending :=
      List.filter_eq_self.mpr fun p hp => decide_eq_true (hown p hp)
    have hopen : ((sections es).pending.filter fun p => p.1 ≠ t) = [] :=
      List.filter_eq_nil_iff.mpr fun p hp => by simp [hown p hp]
    refine ⟨hsound, ?_, ?_⟩
    · rw [sections_concat, Sections.after, hclosed, hopen, h.store]
      simp
    · rw [sections_concat, Sections.after, hopen]
      simp
  · have hsame : (sections es).after (.move m) = sections es := by
      rcases m with ⟨t, a⟩ | ⟨t, a⟩ | ⟨t, _ | _⟩
      · rfl
      · rfl
      · rfl
      · exact absurd ⟨t, rfl⟩ hm
    refine ⟨hsound, ?_, ?_⟩
    · rw [sections_concat, hsame]
      exact h.store
    · rw [sections_concat, hsame]
      intro p hp
      have hv := Lock.mem_writers_iff.mp (h.writing p hp)
      obtain ⟨stage, hv', hstage⟩ := hs.stays h.sound hv fun he => hm ⟨p.1, he⟩
      rw [hstage rfl] at hv'
      exact Lock.mem_writers_iff.mpr hv'

theorem Accounts.step (h : Accounts start es s) (hs : Step s e s') :
    Accounts start (es ++ [e]) s' := by
  cases hs with
  | move hm => exact h.move hm
  | @change t f ht =>
    refine ⟨h.sound, ?_, ?_⟩
    · rw [sections_concat, Sections.after, List.map_append, ← List.append_assoc, List.map_singleton,
        applyAll_concat, ← h.store]
    · rw [sections_concat, Sections.after]
      intro p hp
      rcases List.mem_append.mp hp with hp | hp
      · exact h.writing p hp
      · rw [List.mem_singleton.mp hp]
        exact ht
  | observe ht =>
    refine ⟨h.sound, ?_, ?_⟩
    · rw [sections_concat]
      exact h.store
    · rw [sections_concat]
      exact h.writing

theorem accounts_of_trace (h : Trace Step ⟨{}, start⟩ es s) : Accounts start es s := by
  induction h with
  | nil => exact accounts_nil start
  | concat _ hs ih => exact ih.step hs

/-- **While nobody writes**, the store is what the write sections that are over have left
behind. -/
theorem Accounts.store_eq (h : Accounts start es s) (hw : s.lock.writers = []) :
    s.store = leftBehind start es := by
  have hnone : (sections es).pending = [] := List.eq_nil_iff_forall_not_mem.mpr fun p hp => by
    have := h.writing p hp
    rw [hw] at this
    exact List.not_mem_nil this
  rw [h.store, hnone, List.map_nil, List.append_nil, leftBehind]

/-! ### Read sections -/

/-- **A reader comes in** while nobody writes, and finds the store as it is. -/
theorem store_of_enters (hl : s.lock.Sound) (hs : Step s e s') (hout : t ∉ s.lock.reading)
    (hin : t ∈ s'.lock.reading) : s.lock.writers = [] ∧ s'.store = s.store := by
  cases hs with
  | move hm =>
    rw [Lock.mem_reading_iff] at hout hin
    have ha := (hm.admitted hl hout hin).2
    exact ⟨(hl.admits_read_iff.mp ha).1, rfl⟩
  | change f h => exact absurd hin hout
  | observe h => exact absurd hin hout

/-- **While a reader is inside**, nothing happens to the store, and all who look see it. -/
theorem store_of_reading (hl : s.lock.Sound) (hs : Step s e s') (hin : t ∈ s.lock.reading)
    (hstay : e ≠ .move (.leave t .read)) :
    t ∈ s'.lock.reading ∧ s'.store = s.store ∧ ∀ u seen, e = .observe u seen → seen = s.store := by
  cases hs with
  | @move m lock hm =>
    have hm' : m ≠ .leave t .read := fun he => hstay (by rw [he])
    obtain ⟨stage, hv, hstage⟩ := hm.stays hl (Lock.mem_reading_iff.mp hin) hm'
    rw [hstage rfl] at hv
    exact ⟨Lock.mem_reading_iff.mpr hv, rfl, nofun⟩
  | change f h =>
    rw [hl.writers_eq_nil_of_reading hin] at h
    exact absurd h List.not_mem_nil
  | observe h =>
    refine ⟨hin, rfl, ?_⟩
    rintro u seen ⟨⟩
    rfl

theorem store_of_readSection {inside : List (Event Thread)} (hl : s.lock.Sound)
    (hin : t ∈ s.lock.reading) (h : Trace Step s inside s')
    (hstay : .move (.leave t .read) ∉ inside) :
    s'.lock.Sound ∧ t ∈ s'.lock.reading ∧ s'.store = s.store ∧
      ∀ u seen, .observe u seen ∈ inside → seen = s.store := by
  induction h with
  | nil => exact ⟨hl, hin, rfl, by simp⟩
  | @concat s₁ s₂ es e _ hs ih =>
    rw [List.mem_append, not_or, List.mem_singleton] at hstay
    obtain ⟨hl', hin', hstore, hseen⟩ := ih hstay.1
    obtain ⟨hin'', hstore', hsee⟩ := store_of_reading hl' hs hin' (Ne.symm hstay.2)
    refine ⟨sound_step hl' hs, hin'', hstore'.trans hstore, fun u seen hm => ?_⟩
    rcases List.mem_append.mp hm with hm | hm
    · exact hseen u seen hm
    · rw [← hstore]
      exact hsee u seen (List.mem_singleton.mp hm).symm

/-- **Writers exclude all others, and readers see one store.** Threads may be of any number and may
come, be woken, look again and leave in any order; one that comes in again while it is inside is a
visitor of its own.

* At the lock no thread is twice, at most one thread is inside to write, and none to read while
  one writes. The counters are the number of threads that read, whether one writes, and the number
  of threads that wait to write.
* A read section of a thread `t` begins with an event `e` and goes on `inside` until the thread
  leaves. All that is seen in it, and the store at its end, is what the write sections that were
  over before it have left behind. -/
theorem exclusive_and_snapshot :
    (∀ l : Lock Thread, l.Reachable →
      (l.visitors.map Visitor.thread).Nodup ∧ l.writers.length ≤ 1 ∧
        (l.writers ≠ [] → l.reading = []) ∧ l.readers = l.reading.length ∧
        (l.writing = true ↔ l.writers ≠ []) ∧ l.writersWaiting = (l.waiting .write).length) ∧
    (∀ (start : Store) (before : List (Event Thread)) (s₀ : SharedStore Thread)
        (e : Event Thread) (s₁ : SharedStore Thread) (inside : List (Event Thread))
        (s₂ : SharedStore Thread) (t : Thread),
      Trace Step ⟨{}, start⟩ before s₀ → t ∉ s₀.lock.reading → Step s₀ e s₁ →
      t ∈ s₁.lock.reading → Trace Step s₁ inside s₂ → .move (.leave t .read) ∉ inside →
        s₂.store = leftBehind start before ∧
          ∀ u seen, .observe u seen ∈ inside → seen = leftBehind start before) := by
  constructor
  · intro l h
    have hl := h.sound
    refine ⟨hl.nodup, hl.length_writers_le, fun hw => ?_, hl.readers_eq, ?_, hl.writersWaiting_eq⟩
    · by_contra hr
      obtain ⟨t, ht⟩ := List.exists_mem_of_ne_nil _ hr
      exact hw (hl.writers_eq_nil_of_reading ht)
    · rw [← not_iff_not, Bool.not_eq_true, hl.writing_eq_false_iff, not_not]
  · intro start before s₀ e s₁ inside s₂ t hbefore hout he hin hinside hstay
    have accounts := accounts_of_trace hbefore
    obtain ⟨hnobody, hstore⟩ := store_of_enters accounts.sound he hout hin
    have hsound := sound_step accounts.sound he
    obtain ⟨-, -, hend, hseen⟩ := store_of_readSection hsound hin hinside hstay
    rw [hstore, accounts.store_eq hnobody] at hend hseen
    exact ⟨hend, hseen⟩

/-- One thread writes and leaves. -/
def writeSection : List (Event Nat) :=
  [.move (.arrive 1 .write), .change 1 fun s => s.addSubgraphs ["a"], .move (.leave 1 .write)]

/-- The shared store after that. -/
def written : SharedStore Nat :=
  ⟨(({} : Lock Nat).arrive 1 .write).leave 1 .write, Store.empty.addSubgraphs ["a"]⟩

/-- Then another thread has come to read. -/
def entered : SharedStore Nat :=
  { written with lock := written.lock.arrive 2 .read }

/-- Then a third one has come to write, and waits. -/
def contended : SharedStore Nat :=
  { entered with lock := entered.lock.arrive 3 .write }

theorem trace_writeSection : Trace Step ⟨{}, .empty⟩ writeSection written :=
  .cons (.move (.arrive .write rfl)) (.cons (.change _ (by decide))
    (.cons (.move (.leave rfl)) .nil))

theorem trace_contended :
    Trace Step entered [.move (.arrive 3 .write), .observe 2 contended.store] contended :=
  .cons (.move (.arrive .write rfl)) (.cons (.observe (by decide)) .nil)

theorem reachable_contended : contended.lock.Reachable :=
  ⟨_, .cons (.arrive (t := 1) .write rfl) (.cons (@Lock.Step.leave Nat _ _ 1 .write rfl)
    (.cons (.arrive (t := 2) .read rfl) (.cons (.arrive (t := 3) .write rfl) .nil)))⟩

/-- The reader sees what the first thread has written, and the third one is counted as waiting. -/
theorem snapshot_contended :
    Trace Step ⟨{}, .empty⟩ writeSection written ∧ 2 ∉ written.lock.reading ∧
      Step written (.move (.arrive 2 .read)) entered ∧ 2 ∈ entered.lock.reading ∧
      contended.store = leftBehind .empty writeSection ∧
      contended.lock.waiting .write = [3] ∧ contended.lock.writersWaiting = 1 := by
  obtain ⟨hlock, hstore⟩ := @exclusive_and_snapshot Nat _
  have henter : Step written (.move (.arrive 2 .read)) entered := .move (.arrive .read rfl)
  have hwait : contended.lock.waiting .write = [3] := by decide
  refine ⟨trace_writeSection, by decide, henter, by decide, ?_, hwait, ?_⟩
  · exact (hstore .empty writeSection written _ entered _ contended 2 trace_writeSection
      (by decide) henter (by decide) trace_contended (by simp)).1
  · rw [(hlock contended.lock reachable_contended).2.2.2.2.2, hwait]
    rfl

end SharedStore

end RainMeta
