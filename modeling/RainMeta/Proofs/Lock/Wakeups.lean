import RainMeta.Proofs.Lock.Sound

/-!
# No lost wake-ups

A thread that cannot enter sleeps until somebody wakes it. The last reader and every writer wake
all who sleep when they leave, but a reader that leaves others behind wakes nobody, and a reader
that was woken may find a writer waiting and go back to sleep. What makes sure that nobody is
forgotten is that the lock is *alert* (`RainMeta.Lock.Alert`): whoever sleeps could not enter. So
when all who were woken have looked again, whoever waits has somebody to wait for.

When no more threads come, this empties the lock. There is always a thread that can move, either
one that was woken or one that is inside (`RainMeta.Lock.exists_step`), and every move takes away
from the work that is left (`RainMeta.Lock.work`): a thread that leaves may wake all others, but it
does so once.

Both are put together in `RainMeta.Lock.no_lost_wakeup`. Requests, which let everybody look before
the next one comes, are runs of this kind from rest to rest (`RainMeta.Lock.atRest_request`).
-/

namespace RainMeta

namespace Lock

section Rest

variable {Thread : Type}

/-- Whether a thread comes. -/
def Move.comes : Move Thread → Bool
  | .arrive _ _ => true
  | _ => false

/-- Whether a thread leaves. -/
def Move.leaves : Move Thread → Bool
  | .leave _ _ => true
  | _ => false

/-- Whether a thread that was woken looks again. -/
def Move.looks : Move Thread → Bool
  | .look _ _ => true
  | _ => false

/-- **A lock at rest**: nobody who was woken has still to look. -/
def AtRest (l : Lock Thread) : Prop :=
  ∀ v ∈ l.visitors, v.stage ≠ .woken

instance (l : Lock Thread) : Decidable l.AtRest :=
  inferInstanceAs (Decidable (∀ v ∈ l.visitors, v.stage ≠ .woken))

/-- **An alert lock**: whoever sleeps could not enter. -/
def Alert (l : Lock Thread) : Prop :=
  ∀ v ∈ l.visitors, v.stage = .asleep → l.admits v.access = false

/-- How many were woken and have still to look. -/
def wokenCount (l : Lock Thread) : Nat :=
  l.visitors.countP fun v => v.stage = .woken

/-- What is left to do when no more threads come: one look for everybody who was woken, and for
everybody who is there to leave, and to wake all others. -/
def work (l : Lock Thread) : Nat :=
  l.visitors.length * (l.visitors.length + 1) + l.wokenCount

variable {l l' : Lock Thread} {t : Thread} {access : Access}

theorem wokenCount_eq_zero_iff : l.wokenCount = 0 ↔ l.AtRest := by
  simp [wokenCount, AtRest]

theorem wokenCount_le : l.wokenCount ≤ l.visitors.length :=
  List.countP_le_length

theorem work_of_atRest (hrest : l.AtRest) :
    l.work = l.visitors.length * (l.visitors.length + 1) := by
  rw [work, wokenCount_eq_zero_iff.mpr hrest, Nat.add_zero]

theorem mem_blocked_iff : t ∈ l.blocked ↔ ∃ access, t ∈ l.waiting access := by
  simp only [mem_waiting_iff, blocked, List.mem_map, List.mem_filter, decide_eq_true_eq]
  constructor
  · rintro ⟨⟨u, a, g⟩, ⟨hv, hg⟩, rfl⟩
    exact ⟨a, g, hg, hv⟩
  · rintro ⟨a, g, hg, hv⟩
    exact ⟨_, ⟨hv, hg⟩, rfl⟩

/-! ### Whom the waiting wait for -/

/-- At rest, whoever waits may not enter. -/
theorem not_admits_of_waiting (ha : l.Alert) (hrest : l.AtRest) (ht : t ∈ l.waiting access) :
    l.admits access = false := by
  obtain ⟨stage, hstage, hv⟩ := mem_waiting_iff.mp ht
  cases stage with
  | holding => exact absurd rfl hstage
  | asleep => exact ha _ hv rfl
  | woken => exact absurd rfl (hrest _ hv)

theorem writer_of_waiting_read (hl : l.Sound) (ha : l.Alert) (hrest : l.AtRest)
    (ht : t ∈ l.waiting .read) : l.writers ≠ [] ∨ l.waiting .write ≠ [] := by
  have hout := not_admits_of_waiting ha hrest ht
  rw [← Bool.not_eq_true, hl.admits_read_iff] at hout
  exact not_and_or.mp hout

theorem holder_of_waiting_write (hl : l.Sound) (ha : l.Alert) (hrest : l.AtRest)
    (ht : t ∈ l.waiting .write) : l.reading ≠ [] ∨ l.writers ≠ [] := by
  have hout := not_admits_of_waiting ha hrest ht
  rw [← Bool.not_eq_true, hl.admits_write_iff] at hout
  exact (not_and_or.mp hout).symm

/-- **Somebody holds the lock at rest** if anybody is blocked. -/
theorem holder_of_blocked (hl : l.Sound) (ha : l.Alert) (hrest : l.AtRest)
    (hb : l.blocked ≠ []) : l.reading ≠ [] ∨ l.writers ≠ [] := by
  obtain ⟨t, ht⟩ := List.exists_mem_of_ne_nil _ hb
  obtain ⟨_ | _, ht⟩ := mem_blocked_iff.mp ht
  · rcases writer_of_waiting_read hl ha hrest ht with hw | hw
    · exact Or.inr hw
    · obtain ⟨u, hu⟩ := List.exists_mem_of_ne_nil _ hw
      exact holder_of_waiting_write hl ha hrest hu
  · exact holder_of_waiting_write hl ha hrest ht

/-- **Somebody holds the lock at rest** if anybody is there. -/
theorem exists_holder (hl : l.Sound) (ha : l.Alert) (hrest : l.AtRest) (hne : l.visitors ≠ []) :
    ∃ t access, ⟨t, access, .holding⟩ ∈ l.visitors := by
  by_cases hb : l.blocked = []
  · obtain ⟨⟨t, a, g⟩, hv⟩ := List.exists_mem_of_ne_nil _ hne
    have hg : g = .holding := by
      by_contra hg
      have ht : t ∈ l.blocked := mem_blocked_iff.mpr ⟨a, mem_waiting_iff.mpr ⟨g, hg, hv⟩⟩
      rw [hb] at ht
      exact List.not_mem_nil ht
    exact ⟨t, a, hg ▸ hv⟩
  · rcases holder_of_blocked hl ha hrest hb with hr | hw
    · obtain ⟨t, ht⟩ := List.exists_mem_of_ne_nil _ hr
      exact ⟨t, .read, mem_reading_iff.mp ht⟩
    · obtain ⟨t, ht⟩ := List.exists_mem_of_ne_nil _ hw
      exact ⟨t, .write, mem_writers_iff.mp ht⟩

/-! ### Nobody sleeps who could enter -/

theorem mem_or_of_split {us ws : List (Visitor Thread)} {u v w : Visitor Thread}
    (hs : l.visitors = us ++ u :: ws) (h : v ∈ us ++ w :: ws) : v = w ∨ v ∈ l.visitors := by
  rw [List.mem_append, List.mem_cons] at h
  rw [hs, List.mem_append, List.mem_cons]
  tauto

/-- An alert lock stays so if nobody may enter who might not before, and nobody goes to sleep
who might enter. -/
theorem Alert.of_admits (h : l.Alert)
    (hadmits : ∀ a, l.admits a = false → l'.admits a = false)
    (hasleep : ∀ v ∈ l'.visitors, v.stage = .asleep →
      v ∈ l.visitors ∨ l.admits v.access = false) : l'.Alert := by
  intro v hv hstage
  rcases hasleep v hv hstage with hold | hnew
  · exact hadmits _ (h v hold hstage)
  · exact hadmits _ hnew

/-- Where all were woken nobody sleeps. -/
theorem alert_of_wake {vs : List (Visitor Thread)} (h : l.visitors = vs.map Visitor.wake) :
    l.Alert := by
  intro v hv hstage
  rw [h] at hv
  obtain ⟨u, -, rfl⟩ := List.mem_map.mp hv
  exact absurd hstage u.stage_wake_ne

theorem Alert.join (h : l.Alert) (t : Thread) (access : Access) : (l.join t access).Alert := by
  refine h.of_admits (fun a ha => ?_) fun v hv hstage => ?_
  · -- a writer that comes keeps readers out, and a reader that comes changes nothing
    cases access with
    | read => exact ha
    | write =>
      cases a with
      | read => simp [admits, admitsReader, Lock.join]
      | write => exact ha
  · rcases List.mem_append.mp hv with hv | hv
    · exact Or.inl hv
    · rw [List.mem_singleton.mp hv] at hstage
      cases hstage

end Rest

variable {Thread : Type} [DecidableEq Thread] {l l' : Lock Thread} {t : Thread} {access : Access}
  {m : Move Thread} {ms : List (Move Thread)}

theorem Alert.look (h : l.Alert) (hn : (l.visitors.map Visitor.thread).Nodup)
    (hv : l.visitor? t = some ⟨t, access, .woken⟩) : (l.look t access).Alert := by
  obtain ⟨us, ws, hs, -, ⟨rfl, -, he⟩ | ⟨rfl, -, he⟩ | ⟨ha, he⟩⟩ := look_cases hn hv
  · -- a reader enters and keeps writers out
    rw [he]
    refine h.of_admits (fun a ha => ?_) fun v hv hstage => Or.inl ?_
    · cases a with
      | read => exact ha
      | write => simp [admits, admitsWriter]
    · refine (mem_or_of_split hs hv).resolve_left ?_
      rintro rfl
      cases hstage
  · -- a writer enters and keeps all others out
    rw [he]
    intro v _ _
    cases v.access with
    | read => rfl
    | write => rfl
  · -- the thread goes to sleep because it may not enter
    rw [he]
    refine h.of_admits (fun a ha' => by cases a <;> exact ha') fun v hv _ => ?_
    rcases mem_or_of_split hs hv with rfl | hv
    · exact Or.inr ha
    · exact Or.inl hv

theorem Alert.leave (h : l.Alert) (hn : (l.visitors.map Visitor.thread).Nodup)
    (hv : l.visitor? t = some ⟨t, access, .holding⟩) : (l.leave t access).Alert := by
  obtain ⟨us, ws, hs, -, ⟨rfl, hr, he⟩ | ⟨rfl, -, he⟩ | ⟨rfl, he⟩⟩ := leave_cases hn hv
  · -- the readers that stay keep writers out as before, and for readers nothing has changed
    rw [he]
    refine h.of_admits (fun a ha => ?_) fun v hv _ => Or.inl ?_
    · cases a with
      | read => exact ha
      | write =>
        rw [← Bool.not_eq_true, admits_write]
        exact fun hc => hr hc.2
    · rw [hs]
      rw [List.mem_append] at hv ⊢
      exact hv.imp_right (List.mem_cons_of_mem _)
  · exact alert_of_wake (congrArg visitors he)
  · exact alert_of_wake (congrArg visitors he)

theorem Alert.step (hs : Step l m l') (hl : l.Sound) (h : l.Alert) : l'.Alert := by
  cases hs with
  | arrive access hv =>
    rw [arrive_eq]
    exact (h.join _ access).look (hl.join hv access).nodup (visitor?_join hv access)
  | look hv => exact h.look hl.nodup hv
  | leave hv => exact h.leave hl.nodup hv

theorem Reachable.alert (h : l.Reachable) : l.Alert := by
  obtain ⟨ms, h⟩ := h
  refine (h.invariant (P := fun l => l.Sound ∧ l.Alert) ?_ ⟨sound_empty, by simp [Alert]⟩).2
  exact fun hs ⟨hl, ha⟩ => ⟨hl.step hs, ha.step hs hl⟩

/-! ### When no more threads come -/

/-- Somebody can look where the lock is not at rest. -/
theorem exists_woken (hl : l.Sound) (h : ¬l.AtRest) :
    ∃ t access, l.visitor? t = some ⟨t, access, .woken⟩ := by
  simp only [AtRest, not_forall, not_not] at h
  obtain ⟨⟨t, a, g⟩, hv, rfl⟩ := h
  exact ⟨t, a, visitor?_of_mem hl.nodup hv⟩

/-- **A thread can move** as long as there is one: it looks or leaves. -/
theorem exists_step (hl : l.Sound) (ha : l.Alert) (hne : l.visitors ≠ []) :
    ∃ m l', m.comes = false ∧ Step l m l' := by
  by_cases hrest : l.AtRest
  · obtain ⟨t, a, hv⟩ := exists_holder hl ha hrest hne
    exact ⟨_, _, rfl, .leave (visitor?_of_mem hl.nodup hv)⟩
  · obtain ⟨t, a, hv⟩ := exists_woken hl hrest
    exact ⟨_, _, rfl, .look hv⟩

/-- A look keeps the number of visitors, and one less is woken. -/
theorem wokenCount_look (hn : (l.visitors.map Visitor.thread).Nodup)
    (h : l.visitor? t = some ⟨t, access, .woken⟩) :
    (l.look t access).visitors.length = l.visitors.length ∧
      (l.look t access).wokenCount + 1 = l.wokenCount := by
  obtain ⟨us, ws, stage, hs, hstage, he⟩ := visitors_look hn h
  constructor
  · simp [he, hs]
  · simp [wokenCount, he, hs, hstage, Nat.add_assoc]

/-- Leaving takes one visitor away; that all others may be woken is less work than that. -/
theorem work_leave (hn : (l.visitors.map Visitor.thread).Nodup)
    (h : l.visitor? t = some ⟨t, access, .holding⟩) :
    (l.leave t access).visitors.length + 1 = l.visitors.length ∧
      (l.leave t access).work + 1 ≤ l.work := by
  obtain ⟨us, ws, hs, he⟩ := visitors_leave hn h
  have hlen : (l.leave t access).visitors.length + 1 = l.visitors.length := by
    rcases he with he | he
    · simp [he, hs, Nat.add_assoc]
    · simp [he, hs, Nat.add_assoc]
  refine ⟨hlen, ?_⟩
  have hwoken : (l.leave t access).wokenCount ≤ (l.leave t access).visitors.length := wokenCount_le
  have hsquare : ∀ n : Nat, (n + 1) * (n + 1 + 1) = n * (n + 1) + 2 * (n + 1) := fun n => by
    rw [Nat.mul_comm, ← Nat.add_mul]
  rw [work, work, ← hlen, hsquare]
  omega

/-- What a move does when no thread comes: the visitors are those that have not left, and there is
less work. -/
theorem work_step (hs : Step l m l') (hl : l.Sound) (hm : m.comes = false) :
    [m].countP Move.leaves + l'.visitors.length = l.visitors.length ∧ l'.work + 1 ≤ l.work := by
  cases hs with
  | arrive access h => cases hm
  | @look t access h =>
    obtain ⟨hlen, hwoken⟩ := wokenCount_look hl.nodup h
    have hwork : (l.look t access).work + 1 = l.work := by
      rw [work, work, hlen, Nat.add_assoc, hwoken]
    exact ⟨by simpa [Move.leaves] using hlen, Nat.le_of_eq hwork⟩
  | leave h =>
    obtain ⟨hlen, hwork⟩ := work_leave hl.nodup h
    exact ⟨by rw [← hlen, Nat.add_comm]; rfl, hwork⟩

theorem work_trace (h : Trace Step l ms l') (hl : l.Sound) (hms : ∀ m ∈ ms, m.comes = false) :
    ms.countP Move.leaves + l'.visitors.length = l.visitors.length ∧
      ms.length + l'.work ≤ l.work := by
  induction h with
  | nil => simp
  | @concat l' l'' ms m h hs ih =>
    obtain ⟨hlen, hwork⟩ := ih fun m hm => hms m (List.mem_append_left _ hm)
    have hl' : l'.Sound := h.invariant Sound.step hl
    obtain ⟨hlen', hwork'⟩ := work_step hs hl' (hms m (by simp))
    refine ⟨by rw [List.countP_append, Nat.add_assoc, hlen', hlen], ?_⟩
    rw [List.length_append, List.length_singleton]
    omega

/-- **No lost wake-up.** Threads may be of any number and may have come, been woken, looked again
and left in any order. In a state in which nobody who was woken has still to look:

* a reader waits only while a writer holds the lock or waits for it;
* a writer waits only while somebody holds the lock;
* so if anybody is blocked, somebody holds the lock.

From such a state threads leave, in any order and with any looks in between, while no more threads
come. Such a run has as many releases as visitors are gone, and a bounded number of moves; it can
go on as long as there is a visitor; and when it comes to rest with nobody who holds the lock,
nobody is blocked. -/
theorem no_lost_wakeup (h : l.Reachable) (hrest : l.AtRest) :
    (∀ t ∈ l.waiting .read, l.writers ≠ [] ∨ l.waiting .write ≠ []) ∧
    (∀ t ∈ l.waiting .write, l.reading ≠ [] ∨ l.writers ≠ []) ∧
    (l.blocked ≠ [] → l.reading ≠ [] ∨ l.writers ≠ []) ∧
    ∀ ms l', Trace Step l ms l' → (∀ m ∈ ms, m.comes = false) →
      ms.countP Move.leaves + l'.visitors.length = l.visitors.length ∧
      ms.length ≤ l.visitors.length * (l.visitors.length + 1) ∧
      (l'.visitors ≠ [] → ∃ m l'', m.comes = false ∧ Step l' m l'') ∧
      (l'.AtRest → l'.reading = [] → l'.writers = [] → l'.blocked = []) := by
  refine ⟨fun t ht => writer_of_waiting_read h.sound h.alert hrest ht,
    fun t ht => holder_of_waiting_write h.sound h.alert hrest ht,
    holder_of_blocked h.sound h.alert hrest, fun ms l' hms hcome => ?_⟩
  have h' : l'.Reachable := h.trace hms
  obtain ⟨hleft, hwork⟩ := work_trace hms h.sound hcome
  rw [work_of_atRest hrest] at hwork
  refine ⟨hleft, Nat.le_of_add_right_le hwork, exists_step h'.sound h'.alert, ?_⟩
  intro hrest' hr hw
  by_contra hb
  rcases holder_of_blocked h'.sound h'.alert hrest' hb with hr' | hw'
  · exact hr' hr
  · exact hw' hw

/-- A thread reads, another waits to write, and a third one waits behind it to read. -/
def crowded : Lock Nat :=
  ((({} : Lock Nat).arrive 1 .read).arrive 2 .write).arrive 3 .read

/-- All leave: the reader that was woken first goes back to sleep for the writer. -/
def emptying : List (Move Nat) :=
  [.leave 1 .read, .look 3 .read, .look 2 .write, .leave 2 .write, .look 3 .read, .leave 3 .read]

theorem reachable_crowded : crowded.Reachable :=
  ⟨_, .cons (.arrive (t := 1) .read rfl) (.cons (.arrive (t := 2) .write rfl)
    (.cons (.arrive (t := 3) .read rfl) .nil))⟩

theorem trace_emptying :
    ∃ l, Trace Step crowded emptying l :=
  ⟨_, .cons (.leave rfl) (.cons (.look rfl) (.cons (.look rfl) (.cons (.leave rfl)
    (.cons (.look rfl) (.cons (.leave rfl) .nil)))))⟩

/-- Two are blocked, so somebody holds the lock; and after three releases nobody is there. -/
theorem crowded_empties :
    crowded.Reachable ∧ crowded.AtRest ∧ crowded.blocked = [2, 3] ∧
      (crowded.reading ≠ [] ∨ crowded.writers ≠ []) ∧
      ∃ l, Trace Step crowded emptying l ∧ l.visitors = [] := by
  have hrest : crowded.AtRest := by decide
  have hblocked : crowded.blocked = [2, 3] := by decide
  obtain ⟨-, -, hholder, hrun⟩ := no_lost_wakeup reachable_crowded hrest
  obtain ⟨l, hl⟩ := trace_emptying
  obtain ⟨hleft, -⟩ := hrun emptying l hl (by decide)
  have hthree : emptying.countP Move.leaves = crowded.visitors.length := by decide
  rw [hthree, Nat.add_eq_left] at hleft
  exact ⟨reachable_crowded, hrest, hblocked, hholder (by rw [hblocked]; simp), l, hl,
    List.eq_nil_of_length_eq_zero hleft⟩

/-! ### Requests -/

/-- **Woken threads look until the lock is at rest**, if there is a look for each of them. -/
theorem atRest_settleWithin {fuel : Nat} (hl : l.Sound) (hfuel : l.wokenCount ≤ fuel) :
    ∃ ms, Trace Step l ms (l.settleWithin fuel) ∧ (∀ m ∈ ms, m.looks) ∧
      (l.settleWithin fuel).AtRest := by
  induction fuel generalizing l with
  | zero => exact ⟨[], .nil, by simp, wokenCount_eq_zero_iff.mp (Nat.le_zero.mp hfuel)⟩
  | succ fuel ih =>
    rw [settleWithin]
    cases hv : l.firstWoken? with
    | none =>
      refine ⟨[], .nil, by simp, fun v hm => ?_⟩
      simpa using List.find?_eq_none.mp hv v hm
    | some v =>
      obtain ⟨t, a, g⟩ := v
      have hg : g = .woken := by simpa using List.find?_some hv
      rw [hg] at hv
      have ht : l.visitor? t = some ⟨t, a, .woken⟩ :=
        visitor?_of_mem hl.nodup (List.mem_of_find?_eq_some hv)
      have hcount := (wokenCount_look hl.nodup ht).2
      obtain ⟨ms, hms, hlooks, hrest⟩ := ih (hl.look ht) (by omega)
      exact ⟨_, .cons (.look ht) hms, List.forall_mem_cons.mpr ⟨rfl, hlooks⟩, hrest⟩

theorem atRest_settle (h : l.Reachable) : l.settle.Reachable ∧ l.settle.AtRest := by
  obtain ⟨ms, hms, -, hrest⟩ := atRest_settleWithin h.sound wokenCount_le
  exact ⟨h.trace hms, hrest⟩

/-- **A request leads from rest to rest**, by moves that threads can make. -/
theorem atRest_request (h : l.Reachable) (hrest : l.AtRest) (t : Thread) (r : Request) :
    (l.request t r).Reachable ∧ (l.request t r).AtRest := by
  cases r with
  | enter access =>
    rw [request]
    split
    · exact ⟨h, hrest⟩
    · next hv => exact atRest_settle (h.trace (.concat .nil (.arrive access hv)))
  | release =>
    rw [request]
    split
    · next u a hv =>
      have hu : u = t := by simpa using List.find?_some hv
      rw [hu] at hv
      exact atRest_settle (h.trace (.concat .nil (.leave hv)))
    · exact ⟨h, hrest⟩

end Lock

end RainMeta
