import Mathlib.Data.List.Nodup
import RainMeta.Lock
import RainMeta.Trace

/-!
# Sound locks

The counters of a lock are all that decides who may enter, and nobody checks them against the
threads. `RainMeta.Lock.Sound` says that they are right: each counts the threads that it is meant
to count, and of a writer and readers only one side is inside. It holds in every state that
threads can bring the lock into, in whatever order they come, look again and leave
(`RainMeta.Lock.Reachable.sound`).

## What one move does

A thread that comes is appended to the visitors as if it had just been woken
(`RainMeta.Lock.join`), and then looks like any woken one. So there are three things to
understand, and each is said once, with the visitors split at the thread:

* joining changes a counter only for a writer, which waits from then on;
* looking lets the thread enter or lets it sleep (`RainMeta.Lock.look_cases`);
* leaving takes the thread away and wakes all sleepers, except where a reader leaves others
  behind (`RainMeta.Lock.leave_cases`).

Every invariant of the lock is shown from these.
-/

namespace RainMeta

/-! ### Visitors -/

namespace Visitor

variable {Thread : Type}

/-- Whether the visitor is inside with an access. -/
def holds (access : Access) (v : Visitor Thread) : Bool :=
  v.stage = .holding && v.access = access

/-- Whether the visitor waits for an access. -/
def waits (access : Access) (v : Visitor Thread) : Bool :=
  v.stage ≠ .holding && v.access = access

@[simp] theorem thread_wake (v : Visitor Thread) : v.wake.thread = v.thread := by
  unfold wake
  split <;> rfl

@[simp] theorem access_wake (v : Visitor Thread) : v.wake.access = v.access := by
  unfold wake
  split <;> rfl

theorem stage_wake_ne (v : Visitor Thread) : v.wake.stage ≠ .asleep := by
  unfold wake
  split
  · simp
  · next h => exact h

theorem stage_wake_eq_holding_iff (v : Visitor Thread) :
    v.wake.stage = .holding ↔ v.stage = .holding := by
  unfold wake
  split
  · next h => simp [h]
  · rfl

@[simp] theorem holds_wake (access : Access) (v : Visitor Thread) :
    v.wake.holds access = v.holds access := by
  simp [holds, stage_wake_eq_holding_iff]

@[simp] theorem waits_wake (access : Access) (v : Visitor Thread) :
    v.wake.waits access = v.waits access := by
  simp [waits, stage_wake_eq_holding_iff]

theorem mk_wake_mem {v : Visitor Thread} {vs : List (Visitor Thread)} (h : v ∈ vs) :
    ⟨v.thread, v.access, v.wake.stage⟩ ∈ vs.map wake := by
  refine List.mem_map.mpr ⟨v, h, ?_⟩
  unfold wake
  split <;> rfl

/-- Waking lets nobody in. -/
theorem mem_of_mem_map_wake {t : Thread} {access : Access} {vs : List (Visitor Thread)}
    (h : ⟨t, access, .holding⟩ ∈ vs.map wake) : ⟨t, access, .holding⟩ ∈ vs := by
  obtain ⟨v, hv, he⟩ := List.mem_map.mp h
  have hstage : v.stage = .holding := by
    rw [← stage_wake_eq_holding_iff, he]
  have hself : v.wake = v := if_neg (by rw [hstage]; simp)
  rwa [← he, hself]

theorem map_moveTo_of_ne [DecidableEq Thread] {t : Thread} {vs : List (Visitor Thread)}
    (h : ∀ v ∈ vs, v.thread ≠ t) (stage : Stage) : vs.map (moveTo t stage) = vs :=
  calc vs.map (moveTo t stage) = vs.map id :=
        List.map_congr_left fun v hv => if_neg (h v hv)
    _ = vs := List.map_id vs

theorem countP_split (p : Visitor Thread → Bool) (us ws : List (Visitor Thread))
    (v : Visitor Thread) :
    (us ++ v :: ws).countP p = (us ++ ws).countP p + (p v).toNat := by
  rw [List.countP_append, List.countP_append, List.countP_cons, Nat.add_assoc]
  cases p v <;> rfl

theorem countP_map_wake {p : Visitor Thread → Bool} (hp : ∀ v, p v.wake = p v)
    (vs : List (Visitor Thread)) : (vs.map wake).countP p = vs.countP p := by
  rw [List.countP_map]
  exact List.countP_congr fun v _ => by rw [Function.comp_apply, hp]

theorem map_thread_wake (vs : List (Visitor Thread)) :
    (vs.map wake).map Visitor.thread = vs.map Visitor.thread := by
  rw [List.map_map]
  exact List.map_congr_left fun v _ => v.thread_wake

end Visitor

namespace Lock

section Sound

variable {Thread : Type} {l : Lock Thread} {t : Thread} {access : Access}

/-- Whether a thread may enter with an access. -/
def admits (l : Lock Thread) : Access → Bool
  | .read => l.admitsReader
  | .write => l.admitsWriter

theorem admits_read : l.admits .read = true ↔ l.writing = false ∧ l.writersWaiting = 0 := by
  simp [admits, admitsReader]

theorem admits_write : l.admits .write = true ↔ l.writing = false ∧ l.readers = 0 := by
  simp [admits, admitsWriter]

/-- **A sound lock**: the counters count what they are meant to count. -/
structure Sound (l : Lock Thread) : Prop where
  /-- No thread is there twice. -/
  nodup : (l.visitors.map Visitor.thread).Nodup
  readers : l.readers = l.visitors.countP (Visitor.holds .read)
  writing : l.writing.toNat = l.visitors.countP (Visitor.holds .write)
  writersWaiting : l.writersWaiting = l.visitors.countP (Visitor.waits .write)
  /-- While somebody writes, nobody reads. -/
  exclusive : l.writing = true → l.readers = 0

theorem sound_empty : ({} : Lock Thread).Sound := by
  constructor <;> simp

/-! ### Who is inside and who waits -/

theorem mem_map_holds_iff :
    t ∈ (l.visitors.filter (Visitor.holds access)).map Visitor.thread ↔
      ⟨t, access, .holding⟩ ∈ l.visitors := by
  rw [List.mem_map]
  constructor
  · rintro ⟨⟨u, a, g⟩, hv, rfl⟩
    simp only [List.mem_filter, Visitor.holds, Bool.and_eq_true, decide_eq_true_eq] at hv
    obtain ⟨hv, rfl, rfl⟩ := hv
    exact hv
  · exact fun hv => ⟨_, List.mem_filter.mpr ⟨hv, by simp [Visitor.holds]⟩, rfl⟩

theorem mem_reading_iff : t ∈ l.reading ↔ ⟨t, .read, .holding⟩ ∈ l.visitors :=
  mem_map_holds_iff

theorem mem_writers_iff : t ∈ l.writers ↔ ⟨t, .write, .holding⟩ ∈ l.visitors :=
  mem_map_holds_iff

theorem mem_waiting_iff :
    t ∈ l.waiting access ↔ ∃ stage, stage ≠ .holding ∧ ⟨t, access, stage⟩ ∈ l.visitors := by
  rw [waiting, List.mem_map]
  constructor
  · rintro ⟨⟨u, a, g⟩, hv, rfl⟩
    simp only [List.mem_filter, Bool.and_eq_true, decide_eq_true_eq] at hv
    obtain ⟨hv, hg, rfl⟩ := hv
    exact ⟨g, hg, hv⟩
  · rintro ⟨g, hg, hv⟩
    exact ⟨_, List.mem_filter.mpr ⟨hv, by simp [hg]⟩, rfl⟩

namespace Sound

variable (hl : l.Sound)

include hl

theorem readers_eq : l.readers = l.reading.length := by
  rw [hl.readers, reading, List.length_map, List.countP_eq_length_filter]
  rfl

theorem toNat_writing : l.writing.toNat = l.writers.length := by
  rw [hl.writing, writers, List.length_map, List.countP_eq_length_filter]
  rfl

theorem writersWaiting_eq : l.writersWaiting = (l.waiting .write).length := by
  rw [hl.writersWaiting, waiting, List.length_map, List.countP_eq_length_filter]
  rfl

theorem writing_eq_false_iff : l.writing = false ↔ l.writers = [] := by
  rw [← List.length_eq_zero_iff, ← hl.toNat_writing, Bool.toNat_eq_zero]

theorem readers_eq_zero_iff : l.readers = 0 ↔ l.reading = [] := by
  rw [hl.readers_eq, List.length_eq_zero_iff]

theorem writersWaiting_eq_zero_iff : l.writersWaiting = 0 ↔ l.waiting .write = [] := by
  rw [hl.writersWaiting_eq, List.length_eq_zero_iff]

/-- **Who may enter**, said of the threads. -/
theorem admits_read_iff : l.admits .read = true ↔ l.writers = [] ∧ l.waiting .write = [] := by
  rw [admits_read, hl.writing_eq_false_iff, hl.writersWaiting_eq_zero_iff]

theorem admits_write_iff : l.admits .write = true ↔ l.writers = [] ∧ l.reading = [] := by
  rw [admits_write, hl.writing_eq_false_iff, hl.readers_eq_zero_iff]

/-- At most one thread writes. -/
theorem length_writers_le : l.writers.length ≤ 1 := by
  rw [← hl.toNat_writing]
  exact Bool.toNat_le l.writing

theorem eq_of_mem_writers {u : Thread} (ht : t ∈ l.writers) (hu : u ∈ l.writers) : t = u := by
  have hone := hl.length_writers_le
  rcases hw : l.writers with _ | ⟨x, _ | ⟨y, rest⟩⟩
  · rw [hw] at ht
    cases ht
  · rw [hw] at ht hu
    rw [List.mem_singleton.mp ht, List.mem_singleton.mp hu]
  · simp [hw] at hone

/-- Nobody writes while somebody reads. -/
theorem writers_eq_nil_of_reading (ht : t ∈ l.reading) : l.writers = [] := by
  rw [← hl.writing_eq_false_iff, ← Bool.not_eq_true]
  intro hw
  rw [hl.readers_eq_zero_iff.mp (hl.exclusive hw)] at ht
  exact List.not_mem_nil ht

end Sound

end Sound

variable {Thread : Type} [DecidableEq Thread] {l l' : Lock Thread} {t : Thread} {access : Access}
  {stage : Stage} {us ws : List (Visitor Thread)}

/-! ### The visitors around a thread -/

omit [DecidableEq Thread] in
/-- No thread is there twice. -/
theorem thread_ne_of_split (hn : (l.visitors.map Visitor.thread).Nodup)
    (hs : l.visitors = us ++ ⟨t, access, stage⟩ :: ws) : ∀ u ∈ us ++ ws, u.thread ≠ t := by
  rw [hs, List.map_append, List.map_cons, List.nodup_middle, List.nodup_cons,
    ← List.map_append] at hn
  exact fun u hu he => hn.1 (List.mem_map.mpr ⟨u, hu, he⟩)

/-- The visitors can be split at a thread that is found. -/
theorem exists_split (hn : (l.visitors.map Visitor.thread).Nodup)
    (h : l.visitor? t = some ⟨t, access, stage⟩) :
    ∃ us ws, l.visitors = us ++ ⟨t, access, stage⟩ :: ws ∧ ∀ u ∈ us ++ ws, u.thread ≠ t := by
  obtain ⟨-, us, ws, hsplit, -⟩ := List.find?_eq_some_iff_append.mp h
  exact ⟨us, ws, hsplit, thread_ne_of_split hn hsplit⟩

/-- A thread that is there is found. -/
theorem visitor?_of_mem (hn : (l.visitors.map Visitor.thread).Nodup)
    (h : ⟨t, access, stage⟩ ∈ l.visitors) : l.visitor? t = some ⟨t, access, stage⟩ := by
  obtain ⟨us, ws, hs⟩ := List.append_of_mem h
  refine List.find?_eq_some_iff_append.mpr ⟨by simp, us, ws, hs, fun u hu => ?_⟩
  simpa using thread_ne_of_split hn hs u (List.mem_append_left _ hu)

/-- Only the thread itself is moved. -/
theorem place_eq (hs : l.visitors = us ++ ⟨t, access, stage⟩ :: ws)
    (hne : ∀ u ∈ us ++ ws, u.thread ≠ t) (stage' : Stage) :
    l.place t stage' = { l with visitors := us ++ ⟨t, access, stage'⟩ :: ws } := by
  have hus := Visitor.map_moveTo_of_ne (fun u hu => hne u (List.mem_append_left _ hu)) stage'
  have hws := Visitor.map_moveTo_of_ne (fun u hu => hne u (List.mem_append_right _ hu)) stage'
  simp [place, hs, hus, hws, Visitor.moveTo]

/-- All others stay when a thread leaves. -/
theorem filter_thread_ne (hs : l.visitors = us ++ ⟨t, access, stage⟩ :: ws)
    (hne : ∀ u ∈ us ++ ws, u.thread ≠ t) :
    (l.visitors.filter fun v => v.thread ≠ t) = us ++ ws := by
  have hall : (us ++ ws).filter (fun v => v.thread ≠ t) = us ++ ws :=
    List.filter_eq_self.mpr fun u hu => decide_eq_true (hne u hu)
  rw [List.filter_append] at hall
  simpa [hs] using hall

/-! ### What one move does -/

/-- The lock when a thread has come and has not looked yet: a writer is counted as waiting. -/
def join (l : Lock Thread) (t : Thread) (access : Access) : Lock Thread :=
  { l with
    writersWaiting := match access with
      | .read => l.writersWaiting
      | .write => l.writersWaiting + 1
    visitors := l.visitors ++ [⟨t, access, .woken⟩] }

/-- Who comes joins and looks. -/
theorem arrive_eq (l : Lock Thread) (t : Thread) (access : Access) :
    l.arrive t access = (l.join t access).look t access := rfl

theorem visitor?_join (h : l.visitor? t = none) (access : Access) :
    (l.join t access).visitor? t = some ⟨t, access, .woken⟩ := by
  rw [visitor?] at h
  simp [visitor?, join, h]

/-- **What looking does**: the thread enters if it may, and the counters follow; if it may not,
it sleeps. -/
theorem look_cases (hn : (l.visitors.map Visitor.thread).Nodup)
    (h : l.visitor? t = some ⟨t, access, .woken⟩) :
    ∃ us ws, l.visitors = us ++ ⟨t, access, .woken⟩ :: ws ∧ (∀ u ∈ us ++ ws, u.thread ≠ t) ∧
      ((access = .read ∧ l.admits .read = true ∧ l.look t access =
          { l with readers := l.readers + 1, visitors := us ++ ⟨t, .read, .holding⟩ :: ws }) ∨
        (access = .write ∧ l.admits .write = true ∧ l.look t access =
          { l with
            writing := true
            writersWaiting := l.writersWaiting - 1
            visitors := us ++ ⟨t, .write, .holding⟩ :: ws }) ∨
        (l.admits access = false ∧ l.look t access =
          { l with visitors := us ++ ⟨t, access, .asleep⟩ :: ws })) := by
  obtain ⟨us, ws, hs, hne⟩ := exists_split hn h
  refine ⟨us, ws, hs, hne, ?_⟩
  cases access with
  | read =>
    by_cases ha : l.admitsReader = true
    · exact Or.inl ⟨rfl, ha, by simp [look, ha, place_eq hs hne]⟩
    · rw [Bool.not_eq_true] at ha
      exact Or.inr (Or.inr ⟨ha, by simp [look, ha, place_eq hs hne]⟩)
  | write =>
    by_cases ha : l.admitsWriter = true
    · exact Or.inr (Or.inl ⟨rfl, ha, by simp [look, ha, place_eq hs hne]⟩)
    · rw [Bool.not_eq_true] at ha
      exact Or.inr (Or.inr ⟨ha, by simp [look, ha, place_eq hs hne]⟩)

/-- **What leaving does**: the thread is gone, and all sleepers are woken unless other readers
stay. -/
theorem leave_cases (hn : (l.visitors.map Visitor.thread).Nodup)
    (h : l.visitor? t = some ⟨t, access, .holding⟩) :
    ∃ us ws, l.visitors = us ++ ⟨t, access, .holding⟩ :: ws ∧ (∀ u ∈ us ++ ws, u.thread ≠ t) ∧
      ((access = .read ∧ l.readers - 1 ≠ 0 ∧ l.leave t access =
          { l with readers := l.readers - 1, visitors := us ++ ws }) ∨
        (access = .read ∧ l.readers - 1 = 0 ∧ l.leave t access =
          { l with readers := 0, visitors := (us ++ ws).map Visitor.wake }) ∨
        (access = .write ∧ l.leave t access =
          { l with writing := false, visitors := (us ++ ws).map Visitor.wake })) := by
  obtain ⟨us, ws, hs, hne⟩ := exists_split hn h
  have hf := filter_thread_ne hs hne
  refine ⟨us, ws, hs, hne, ?_⟩
  cases access with
  | read =>
    by_cases hr : l.readers - 1 = 0
    · exact Or.inr (Or.inl ⟨rfl, hr, by simp only [leave, hf, hr, if_true, wakeAll]⟩)
    · exact Or.inl ⟨rfl, hr, by simp only [leave, hf, hr, if_false]⟩
  | write => exact Or.inr (Or.inr ⟨rfl, by simp only [leave, hf, wakeAll]⟩)

/-- Looking moves the thread out of the woken and leaves all others as they are. -/
theorem visitors_look (hn : (l.visitors.map Visitor.thread).Nodup)
    (h : l.visitor? t = some ⟨t, access, .woken⟩) :
    ∃ us ws stage, l.visitors = us ++ ⟨t, access, .woken⟩ :: ws ∧ stage ≠ .woken ∧
      (l.look t access).visitors = us ++ ⟨t, access, stage⟩ :: ws := by
  obtain ⟨us, ws, hs, -, ⟨rfl, -, he⟩ | ⟨rfl, -, he⟩ | ⟨-, he⟩⟩ := look_cases hn h
  · exact ⟨us, ws, .holding, hs, by simp, by rw [he]⟩
  · exact ⟨us, ws, .holding, hs, by simp, by rw [he]⟩
  · exact ⟨us, ws, .asleep, hs, by simp, by rw [he]⟩

/-- Leaving takes the thread away, and wakes all others or none. -/
theorem visitors_leave (hn : (l.visitors.map Visitor.thread).Nodup)
    (h : l.visitor? t = some ⟨t, access, .holding⟩) :
    ∃ us ws, l.visitors = us ++ ⟨t, access, .holding⟩ :: ws ∧
      ((l.leave t access).visitors = us ++ ws ∨
        (l.leave t access).visitors = (us ++ ws).map Visitor.wake) := by
  obtain ⟨us, ws, hs, -, ⟨-, -, he⟩ | ⟨-, -, he⟩ | ⟨-, he⟩⟩ := leave_cases hn h
  · exact ⟨us, ws, hs, Or.inl (by rw [he])⟩
  · exact ⟨us, ws, hs, Or.inr (by rw [he])⟩
  · exact ⟨us, ws, hs, Or.inr (by rw [he])⟩

/-! ### Soundness is kept -/

theorem Sound.join (hl : l.Sound) (h : l.visitor? t = none) (access : Access) :
    (l.join t access).Sound := by
  have hnew : ∀ v ∈ l.visitors, v.thread ≠ t := fun v hv => by
    simpa using List.find?_eq_none.mp h v hv
  constructor
  · simpa [Lock.join, List.nodup_append, hl.nodup] using hnew
  · simpa [Lock.join, Visitor.holds] using hl.readers
  · simpa [Lock.join, Visitor.holds] using hl.writing
  · cases access <;> simpa [Lock.join, Visitor.waits] using hl.writersWaiting
  · simpa [Lock.join] using hl.exclusive

theorem Sound.look (hl : l.Sound) (h : l.visitor? t = some ⟨t, access, .woken⟩) :
    (l.look t access).Sound := by
  obtain ⟨us, ws, hs, -, hcases⟩ := look_cases hl.nodup h
  obtain ⟨hn, hr, hw, hq, hx⟩ := hl
  rw [hs] at hn
  rw [hs, Visitor.countP_split] at hr hw hq
  rcases hcases with ⟨rfl, ha, he⟩ | ⟨rfl, ha, he⟩ | ⟨-, he⟩
  · -- a reader enters
    obtain ⟨hwriting, -⟩ := admits_read.mp ha
    rw [he]
    refine ⟨by simpa using hn, ?_, ?_, ?_, fun hb => absurd (hwriting.symm.trans hb) (by simp)⟩
    · rw [Visitor.countP_split, hr]
      rfl
    · rw [Visitor.countP_split]
      exact hw
    · rw [Visitor.countP_split]
      exact hq
  · -- a writer enters and waits no longer
    obtain ⟨hwriting, hreaders⟩ := admits_write.mp ha
    rw [he]
    refine ⟨by simpa using hn, ?_, ?_, ?_, fun _ => hreaders⟩
    · rw [Visitor.countP_split]
      exact hr
    · rw [hwriting] at hw
      rw [Visitor.countP_split]
      exact congrArg (· + 1) hw
    · rw [Visitor.countP_split, hq]
      rfl
  · -- the thread goes back to sleep, which no counter sees
    rw [he]
    refine ⟨by simpa using hn, ?_, ?_, ?_, hx⟩
    · rw [Visitor.countP_split]
      exact hr
    · rw [Visitor.countP_split]
      exact hw
    · rw [Visitor.countP_split]
      exact hq

theorem Sound.leave (hl : l.Sound) (h : l.visitor? t = some ⟨t, access, .holding⟩) :
    (l.leave t access).Sound := by
  obtain ⟨us, ws, hs, -, hcases⟩ := leave_cases hl.nodup h
  obtain ⟨hn, hr, hw, hq, hx⟩ := hl
  rw [hs, List.map_append, List.map_cons, List.nodup_middle, ← List.map_append] at hn
  have hrest := (List.nodup_cons.mp hn).2
  rw [hs, Visitor.countP_split] at hr hw hq
  have wakes : ∀ {a : Access}, ((us ++ ws).map Visitor.wake).countP (Visitor.holds a) =
      (us ++ ws).countP (Visitor.holds a) := Visitor.countP_map_wake (Visitor.holds_wake _) _
  have wakes' : ((us ++ ws).map Visitor.wake).countP (Visitor.waits .write) =
      (us ++ ws).countP (Visitor.waits .write) := Visitor.countP_map_wake (Visitor.waits_wake _) _
  rcases hcases with ⟨rfl, -, he⟩ | ⟨rfl, hlast, he⟩ | ⟨rfl, he⟩
  · -- a reader leaves others behind
    rw [he]
    exact ⟨hrest, by rw [hr]; rfl, hw, hq, fun hb => by simp [hx hb]⟩
  · -- the last reader leaves
    rw [he]
    refine ⟨by rwa [Visitor.map_thread_wake], ?_, by rwa [wakes], by rwa [wakes'], fun _ => rfl⟩
    rw [wakes]
    rw [hr] at hlast
    exact hlast.symm
  · -- the writer leaves
    rw [he]
    refine ⟨by rwa [Visitor.map_thread_wake], by rwa [wakes], ?_, by rwa [wakes'], by simp⟩
    have hone := Bool.toNat_le l.writing
    rw [hw] at hone
    rw [wakes]
    exact (Nat.le_zero.mp (Nat.le_of_succ_le_succ hone)).symm

theorem Sound.step {m : Move Thread} (hs : Step l m l') (hl : l.Sound) : l'.Sound := by
  cases hs with
  | arrive access h =>
    rw [arrive_eq]
    exact (hl.join h access).look (visitor?_join h access)
  | look h => exact hl.look h
  | leave h => exact hl.leave h

/-! ### Reachable locks -/

/-- **A reachable lock**: threads have brought it there from the lock at which nobody is. -/
def Reachable (l : Lock Thread) : Prop :=
  ∃ ms, Trace Step {} ms l

theorem Reachable.trace {ms : List (Move Thread)} (h : l.Reachable) (hms : Trace Step l ms l') :
    l'.Reachable := by
  obtain ⟨ns, h⟩ := h
  exact ⟨_, h.append hms⟩

/-- **Reachable locks are sound.** -/
theorem Reachable.sound (h : l.Reachable) : l.Sound := by
  obtain ⟨ms, h⟩ := h
  exact h.invariant Sound.step sound_empty

/-! ### Who enters and who stays -/

omit [DecidableEq Thread] in
theorem admits_join (l : Lock Thread) (t : Thread) (access : Access) :
    (l.join t access).admits access = l.admits access := by
  cases access <;> rfl

theorem admits_of_look (hl : l.Sound) {u : Thread} {a : Access}
    (h : l.visitor? t = some ⟨t, access, .woken⟩) (hout : ⟨u, a, .holding⟩ ∉ l.visitors)
    (hin : ⟨u, a, .holding⟩ ∈ (l.look t access).visitors) :
    u = t ∧ a = access ∧ l.admits access = true := by
  obtain ⟨us, ws, hs, -, hcases⟩ := look_cases hl.nodup h
  simp only [hs, List.mem_append, List.mem_cons, not_or] at hout
  obtain ⟨hus, -, hws⟩ := hout
  have hself : ∀ {v}, ⟨u, a, .holding⟩ ∈ us ++ v :: ws → ⟨u, a, .holding⟩ = v := fun hv =>
    ((List.mem_append.mp hv).resolve_left hus |> List.mem_cons.mp).resolve_right hws
  rcases hcases with ⟨rfl, ha, he⟩ | ⟨rfl, ha, he⟩ | ⟨-, he⟩
  · rw [he] at hin
    obtain ⟨⟩ := hself hin
    exact ⟨rfl, rfl, ha⟩
  · rw [he] at hin
    obtain ⟨⟩ := hself hin
    exact ⟨rfl, rfl, ha⟩
  · rw [he] at hin
    cases hself hin

/-- **Who enters was admitted**: a thread that is inside after a move and was not before has made
the move, and might enter. -/
theorem Step.admitted {m : Move Thread} (hs : Step l m l') (hl : l.Sound)
    (hout : ⟨t, access, .holding⟩ ∉ l.visitors) (hin : ⟨t, access, .holding⟩ ∈ l'.visitors) :
    (m = .arrive t access ∨ m = .look t access) ∧ l.admits access = true := by
  cases hs with
  | @arrive u a h =>
    have hout' : ⟨t, access, .holding⟩ ∉ (l.join u a).visitors := by simpa [join] using hout
    obtain ⟨rfl, rfl, ha⟩ := admits_of_look (hl.join h a) (visitor?_join h a) hout' hin
    exact ⟨Or.inl rfl, by rwa [admits_join] at ha⟩
  | look h =>
    obtain ⟨rfl, rfl, ha⟩ := admits_of_look hl h hout hin
    exact ⟨Or.inr rfl, ha⟩
  | leave h =>
    obtain ⟨us, ws, hsplit, he⟩ := visitors_leave hl.nodup h
    have hrest : ⟨t, access, .holding⟩ ∉ us ++ ws := fun hm => hout (by
      rw [hsplit]
      rw [List.mem_append] at hm ⊢
      exact hm.imp_right (List.mem_cons_of_mem _))
    rcases he with he | he
    · rw [he] at hin
      exact absurd hin hrest
    · rw [he] at hin
      exact absurd (Visitor.mem_of_mem_map_wake hin) hrest

theorem stays_of_look (hl : l.Sound) {u : Thread} {a : Access}
    (h : l.visitor? t = some ⟨t, access, .woken⟩) (hv : ⟨u, a, stage⟩ ∈ l.visitors) :
    ∃ stage', ⟨u, a, stage'⟩ ∈ (l.look t access).visitors ∧
      (stage = .holding → stage' = .holding) := by
  obtain ⟨us, ws, g, hs, -, hg⟩ := visitors_look hl.nodup h
  rw [hs, List.mem_append, List.mem_cons] at hv
  rcases hv with hv | ⟨⟨⟩⟩ | hv
  · exact ⟨stage, by rw [hg]; exact List.mem_append_left _ hv, id⟩
  · exact ⟨g, by rw [hg]; exact List.mem_append_right _ List.mem_cons_self, nofun⟩
  · exact ⟨stage, by rw [hg]; exact List.mem_append_right _ (List.mem_cons_of_mem _ hv), id⟩

/-- **Who does not leave stays**, and stays inside if it was there. -/
theorem Step.stays {m : Move Thread} (hs : Step l m l') (hl : l.Sound)
    (hv : ⟨t, access, stage⟩ ∈ l.visitors) (hm : m ≠ .leave t access) :
    ∃ stage', ⟨t, access, stage'⟩ ∈ l'.visitors ∧ (stage = .holding → stage' = .holding) := by
  cases hs with
  | @arrive u a h =>
    have hv' : ⟨t, access, stage⟩ ∈ (l.join u a).visitors := List.mem_append_left _ hv
    exact stays_of_look (hl.join h a) (visitor?_join h a) hv'
  | look h => exact stays_of_look hl h hv
  | @leave u a h =>
    obtain ⟨us, ws, hsplit, he⟩ := visitors_leave hl.nodup h
    have hrest : ⟨t, access, stage⟩ ∈ us ++ ws := by
      rw [hsplit, List.mem_append, List.mem_cons] at hv
      rw [List.mem_append]
      refine hv.imp_right fun hv => hv.resolve_left ?_
      rintro ⟨⟩
      exact hm rfl
    rcases he with he | he
    · rw [he]
      exact ⟨stage, hrest, id⟩
    · rw [he]
      exact ⟨_, Visitor.mk_wake_mem hrest, fun hg => (Visitor.stage_wake_eq_holding_iff _).mpr hg⟩

end Lock

end RainMeta
