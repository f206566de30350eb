import RainMeta.Proofs.Lock.Sound

/-!
# Writers before readers

A reader that comes while a writer waits stands behind it. The lock has no queue, and of several
woken threads any may look first, so this is not the order in which threads came: what keeps the
reader out is the number of writers that wait. The writer is counted there until it enters, and
from then on it is inside until it leaves. So as long as it has not left, no reader is let in
(`RainMeta.Lock.Ahead.step`), and a reader that is inside after all has seen it enter and leave
(`RainMeta.Lock.writer_before_reader`).
-/

namespace RainMeta

namespace Lock

variable {Thread : Type} [DecidableEq Thread] {l l' : Lock Thread} {w r : Thread}
  {m : Move Thread} {ms : List (Move Thread)}

omit [DecidableEq Thread] in
/-- Who is at the lock for an access is inside with it or waits for it. -/
theorem mem_writers_or_waiting {stage : Stage} (h : ⟨w, .write, stage⟩ ∈ l.visitors) :
    w ∈ l.writers ∨ w ∈ l.waiting .write := by
  by_cases hstage : stage = .holding
  · rw [hstage] at h
    exact Or.inl (mem_writers_iff.mpr h)
  · exact Or.inr (mem_waiting_iff.mpr ⟨stage, hstage, h⟩)

/-- **A reader is let in** only where no writer is inside or waits. -/
theorem Step.no_writers (hs : Step l m l') (hl : l.Sound) (hout : r ∉ l.reading)
    (hin : r ∈ l'.reading) : l.writers = [] ∧ l.waiting .write = [] := by
  rw [mem_reading_iff] at hout hin
  exact hl.admits_read_iff.mp (hs.admitted hl hout hin).2

/-- **A writer ahead of a reader**: the writer waits or is inside, and the reader is not
inside. -/
structure Ahead (w r : Thread) (l : Lock Thread) : Prop where
  writer : w ∈ l.writers ∨ w ∈ l.waiting .write
  reader : r ∉ l.reading

/-- The writer stays ahead until it leaves. -/
theorem Ahead.step (h : Ahead w r l) (hs : Step l m l') (hl : l.Sound)
    (hm : m ≠ .leave w .write) : Ahead w r l' := by
  obtain ⟨stage, hw⟩ : ∃ stage, ⟨w, .write, stage⟩ ∈ l.visitors := by
    rcases h.writer with hw | hw
    · exact ⟨.holding, mem_writers_iff.mp hw⟩
    · obtain ⟨stage, -, hw⟩ := mem_waiting_iff.mp hw
      exact ⟨stage, hw⟩
  obtain ⟨stage', hw', -⟩ := hs.stays hl hw hm
  refine ⟨mem_writers_or_waiting hw', fun hr => ?_⟩
  obtain ⟨hnone, hnone'⟩ := hs.no_writers hl h.reader hr
  rcases h.writer with hw | hw
  · rw [hnone] at hw
    exact List.not_mem_nil hw
  · rw [hnone'] at hw
    exact List.not_mem_nil hw

theorem Ahead.trace (h : Ahead w r l) (hms : Trace Step l ms l') (hl : l.Sound)
    (hm : .leave w .write ∉ ms) : Ahead w r l' := by
  induction hms with
  | nil => exact h
  | @concat l' l'' ms m hms hs ih =>
    rw [List.mem_append, not_or, List.mem_singleton] at hm
    exact (ih hm.1).step hs (hms.invariant Sound.step hl) (Ne.symm hm.2)

/-- **Writers go before readers that come after them.** Threads may be of any number and may come,
be woken, look again and leave in any order.

* A thread that is inside to read after a move, and was not before it, was let in where no writer
  was inside or waited.
* Let a writer `w` wait when a thread `r` comes to read, and let `r` be inside some time later.
  Then `w` has left in between: there was a first time that it did, when it was inside, and `r`
  was not. -/
theorem writer_before_reader (h : l.Reachable) :
    (∀ m l' r, Step l m l' → r ∉ l.reading → r ∈ l'.reading →
      l.writers = [] ∧ l.waiting .write = []) ∧
    ∀ w r ms l', w ∈ l.waiting .write → l.visitor? r = none →
      Trace Step (l.arrive r .read) ms l' → r ∈ l'.reading →
        ∃ us vs l₁ l₂, ms = us ++ .leave w .write :: vs ∧ .leave w .write ∉ us ∧
          Trace Step (l.arrive r .read) us l₁ ∧ w ∈ l₁.writers ∧ r ∉ l₁.reading ∧
          Step l₁ (.leave w .write) l₂ ∧ Trace Step l₂ vs l' := by
  refine ⟨fun m l' r hs hout hin => hs.no_writers h.sound hout hin, ?_⟩
  intro w r ms l' hw hnew hms hr
  have hcame : Step l (.arrive r .read) (l.arrive r .read) := .arrive .read hnew
  have hsound : (l.arrive r .read).Sound := h.sound.step hcame
  have hahead : Ahead w r l := by
    refine ⟨Or.inr hw, fun hr => ?_⟩
    have hthere := visitor?_of_mem h.sound.nodup (mem_reading_iff.mp hr)
    rw [hnew] at hthere
    cases hthere
  replace hahead : Ahead w r (l.arrive r .read) := hahead.step hcame h.sound (by simp)
  have hleft : .leave w .write ∈ ms := by
    by_contra hm
    exact (hahead.trace hms hsound hm).reader hr
  obtain ⟨us, vs, l₁, l₂, hsplit, hfirst, hus, hleave, hvs⟩ := hms.exists_first hleft
  refine ⟨us, vs, l₁, l₂, hsplit, hfirst, hus, ?_, (hahead.trace hus hsound hfirst).reader,
    hleave, hvs⟩
  cases hleave with
  | leave hv => exact mem_writers_iff.mpr (List.mem_of_find?_eq_some hv)

/-- A thread reads and another waits to write. -/
def writerBehindReader : Lock Nat :=
  (({} : Lock Nat).arrive 1 .read).arrive 2 .write

/-- The reader leaves, the writer enters and leaves, and the thread that has come after it to read
looks again. -/
def handOver : List (Move Nat) :=
  [.leave 1 .read, .look 2 .write, .leave 2 .write, .look 3 .read]

/-- The lock after that. -/
def handedOver : Lock Nat :=
  ((((writerBehindReader.arrive 3 .read).leave 1 .read).look 2 .write).leave 2 .write).look 3 .read

theorem reachable_writerBehindReader : writerBehindReader.Reachable :=
  ⟨_, .cons (.arrive (t := 1) .read rfl) (.cons (.arrive (t := 2) .write rfl) .nil)⟩

theorem trace_handOver : Trace Step (writerBehindReader.arrive 3 .read) handOver handedOver :=
  .cons (.leave rfl) (.cons (.look rfl) (.cons (.leave rfl) (.cons (.look rfl) .nil)))

/-- The thread that came to read is inside in the end, and there was a time when the writer was
and it was not. -/
theorem writer_before_reader_handOver :
    2 ∈ writerBehindReader.waiting .write ∧ 3 ∈ handedOver.reading ∧
      ∃ us l, us <+: handOver ∧ Trace Step (writerBehindReader.arrive 3 .read) us l ∧
        2 ∈ l.writers ∧ 3 ∉ l.reading := by
  have hwaits : 2 ∈ writerBehindReader.waiting .write := by decide
  have hreads : 3 ∈ handedOver.reading := by decide
  obtain ⟨us, vs, l, -, hsplit, -, htrace, hw, hr, -, -⟩ :=
    (writer_before_reader reachable_writerBehindReader).2 2 3 handOver handedOver hwaits rfl
      trace_handOver hreads
  exact ⟨hwaits, hreads, us, l, ⟨_, hsplit.symm⟩, htrace, hw, hr⟩

end Lock

end RainMeta
