import Mathlib.Data.List.Induction
import Mathlib.Data.List.Infix
import RainMeta.Proofs.Lock.Wakeups

/-!
# Rest does not depend on the order of looks

Who leaves a lock wakes all who sleep, and these then race: each looks whether it may enter, in any
order, and those that come too late go back to sleep. Where the race ends does not depend on its
order, as long as at most one writer waits (`RainMeta.Lock.rest_of_requests`).

## The lock without races

What a lock comes to is said by a simpler one, which knows no sleep and no counters
(`RainMeta.Roster`). It lists its guests in the order in which they came, each either inside or
blocked. A guest that comes enters or is blocked at once; when the last one leaves, the writer that
is blocked enters, or, if there is none, everybody does.

A lock in the middle of a race is a roster that has still something to settle: nobody is inside,
or only readers are and no writer is blocked, so that the blocked ones are about to enter
(`RainMeta.Roster.settled`). The one thing to know is that a look never changes what a roster
settles to (`RainMeta.Lock.settled_look`): a reader is let in only where all readers will be, and a
writer only where it is the one that will be. At rest there is nothing left to settle
(`RainMeta.Lock.isSettled_roster`), so the race has one end only.
-/

namespace RainMeta

/-! ### Rosters -/

/-- A thread at a lock, which is inside or blocked. -/
structure Guest (Thread : Type) where
  thread : Thread
  access : Access
  inside : Bool
  deriving DecidableEq

namespace Guest

variable {Thread : Type}

/-- The guest when it is inside. -/
def enter (g : Guest Thread) : Guest Thread :=
  { g with inside := true }

/-- The guest, inside if it is a writer. -/
def enterToWrite (g : Guest Thread) : Guest Thread :=
  if g.access = .write then g.enter else g

end Guest

/-- **A roster**: the guests of a lock in the order in which they came. -/
abbrev Roster (Thread : Type) := List (Guest Thread)

namespace Roster

section Settled

variable {Thread : Type}

/-- Whether a writer is there. -/
def hasWriter (gs : Roster Thread) : Bool :=
  gs.any fun g => g.access == .write

/-- Whether somebody is inside. -/
def occupied (gs : Roster Thread) : Bool :=
  gs.any fun g => g.inside

/-- Whether a guest that comes may enter: a reader if there is no writer, a writer if nobody is
inside. -/
def admits (gs : Roster Thread) : Access → Bool
  | .read => !gs.hasWriter
  | .write => !gs.occupied

/-- The blocked are let in: the writer if there is one, else everybody. -/
def admitBlocked (gs : Roster Thread) : Roster Thread :=
  if gs.hasWriter then gs.map Guest.enterToWrite else gs.map Guest.enter

/-- How many writers are blocked. -/
def blockedWriters (gs : Roster Thread) : Nat :=
  gs.countP fun g => g.access == .write && !g.inside

/-- The threads that read. -/
def reading (gs : Roster Thread) : List Thread :=
  (gs.filter fun g => g.inside && g.access == .read).map Guest.thread

/-- The threads that write. -/
def writing (gs : Roster Thread) : List Thread :=
  (gs.filter fun g => g.inside && g.access == .write).map Guest.thread

/-- The threads that are blocked. -/
def blocked (gs : Roster Thread) : List Thread :=
  (gs.filter fun g => !g.inside).map Guest.thread

/-- **What a roster settles to**: the blocked are let in unless somebody is inside and a writer
is there. -/
def settled (gs : Roster Thread) : Roster Thread :=
  if gs.hasWriter && gs.occupied then gs else gs.admitBlocked

/-- **A settled roster**: nobody is left who would be let in. -/
structure IsSettled (gs : Roster Thread) : Prop where
  /-- Where a writer is there, somebody is inside. -/
  occupied : gs.hasWriter = true → gs.occupied = true
  /-- Where no writer is there, everybody is inside. -/
  inside : gs.hasWriter = false → ∀ g ∈ gs, g.inside = true

variable {gs : Roster Thread}

theorem settled_of_not_hasWriter (h : gs.hasWriter = false) :
    gs.settled = gs.map Guest.enter := by
  simp [settled, admitBlocked, h]

theorem settled_of_not_occupied (h : gs.occupied = false) : gs.settled = gs.admitBlocked := by
  simp [settled, h]

theorem settled_of_hasWriter (h : gs.hasWriter = true) (ho : gs.occupied = true) :
    gs.settled = gs := by
  simp [settled, h, ho]

/-- Where all are inside there is nothing to settle. -/
theorem map_enter_of_inside (h : ∀ g ∈ gs, g.inside = true) : gs.map Guest.enter = gs := by
  refine (List.map_congr_left fun g hg => ?_).trans (List.map_id gs)
  rw [Guest.enter, ← h g hg]
  rfl

/-- Readers are not let in to write. -/
theorem map_enterToWrite_of_not_hasWriter (h : gs.hasWriter = false) :
    gs.map Guest.enterToWrite = gs := by
  refine (List.map_congr_left fun g hg => ?_).trans (List.map_id gs)
  have hread : g.access ≠ .write := by
    simpa using List.any_eq_false.mp h g hg
  exact if_neg hread

theorem IsSettled.settled_eq (h : gs.IsSettled) : gs.settled = gs := by
  cases hw : gs.hasWriter with
  | false => rw [settled_of_not_hasWriter hw, map_enter_of_inside (h.inside hw)]
  | true => exact settled_of_hasWriter hw (h.occupied hw)

@[simp] theorem hasWriter_append (gs hs : Roster Thread) :
    hasWriter (gs ++ hs) = (gs.hasWriter || hs.hasWriter) :=
  List.any_append

@[simp] theorem occupied_append (gs hs : Roster Thread) :
    occupied (gs ++ hs) = (gs.occupied || hs.occupied) :=
  List.any_append

@[simp] theorem hasWriter_cons (g : Guest Thread) (gs : Roster Thread) :
    hasWriter (g :: gs) = (g.access == .write || gs.hasWriter) := rfl

@[simp] theorem occupied_cons (g : Guest Thread) (gs : Roster Thread) :
    occupied (g :: gs) = (g.inside || gs.occupied) := rfl

/-- **Who comes to a settled roster** enters or is blocked, and nobody else moves. -/
theorem IsSettled.settled_concat (h : gs.IsSettled) (t : Thread) (access : Access) :
    settled (gs ++ [⟨t, access, false⟩]) = gs ++ [⟨t, access, gs.admits access⟩] := by
  cases access with
  | read =>
    cases hw : gs.hasWriter with
    | false =>
      rw [settled_of_not_hasWriter (by simp [hw]; rfl), List.map_append,
        map_enter_of_inside (h.inside hw), admits, hw]
      rfl
    | true =>
      rw [settled_of_hasWriter (by simp [hw]) (by simp [h.occupied hw]), admits, hw]
      rfl
  | write =>
    cases ho : gs.occupied with
    | false =>
      have hw : gs.hasWriter = false := by
        rw [← Bool.not_eq_true]
        exact fun hw => absurd (h.occupied hw) (by simp [ho])
      rw [settled_of_not_occupied (by simp [ho]; rfl), admitBlocked, if_pos (by simp),
        List.map_append, map_enterToWrite_of_not_hasWriter hw, admits, ho]
      rfl
    | true =>
      rw [settled_of_hasWriter (by simp) (by simp [ho]), admits, ho]
      rfl

theorem blockedWriters_append (gs hs : Roster Thread) :
    blockedWriters (gs ++ hs) = gs.blockedWriters + hs.blockedWriters :=
  List.countP_append

theorem blockedWriters_of_not_hasWriter (h : gs.hasWriter = false) : gs.blockedWriters = 0 := by
  refine List.countP_eq_zero.mpr fun g hg hb => ?_
  have hread := List.any_eq_false.mp h g hg
  simp only [Bool.and_eq_true] at hb
  exact hread hb.1

/-- Before it looks, a writer that comes to a settled roster is the only one that is blocked if it
is so afterwards, or if it enters. -/
theorem IsSettled.blockedWriters_concat_le (h : gs.IsSettled) {t : Thread} {access : Access}
    (hone : blockedWriters (gs ++ [⟨t, access, gs.admits access⟩]) ≤ 1) :
    blockedWriters (gs ++ [⟨t, access, false⟩]) ≤ 1 := by
  cases access with
  | read => simpa [blockedWriters_append, blockedWriters] using hone
  | write =>
    cases ho : gs.occupied with
    | false =>
      have hw : gs.hasWriter = false := by
        rw [← Bool.not_eq_true]
        exact fun hw => absurd (h.occupied hw) (by simp [ho])
      rw [blockedWriters_append, blockedWriters_of_not_hasWriter hw]
      exact Nat.le_refl 1
    | true => simpa [admits, ho] using hone

end Settled

variable {Thread : Type} [DecidableEq Thread]

/-- **The roster after a request.** A guest that is there already cannot come, and only one that
is inside can leave; the last one lets the blocked in. -/
def after (gs : Roster Thread) (t : Thread) : Lock.Request → Roster Thread
  | .enter access =>
    if gs.any fun g => g.thread == t then gs
    else gs ++ [{ thread := t, access, inside := gs.admits access }]
  | .release =>
    if gs.any fun g => g.thread == t && g.inside then
      let rest : Roster Thread := gs.filter fun g => g.thread != t
      if rest.occupied then rest else rest.admitBlocked
    else gs

/-- The roster after several requests, from the one without guests. -/
def run (qs : List (Thread × Lock.Request)) : Roster Thread :=
  qs.foldl (fun gs q => gs.after q.1 q.2) []

theorem run_concat (qs : List (Thread × Lock.Request)) (q : Thread × Lock.Request) :
    run (qs ++ [q]) = (run qs).after q.1 q.2 := by
  simp [run]

end Roster

namespace Visitor

variable {Thread : Type}

/-- The visitor as a guest. -/
def guest (v : Visitor Thread) : Guest Thread :=
  { thread := v.thread, access := v.access, inside := v.stage = .holding }

@[simp] theorem thread_guest (v : Visitor Thread) : v.guest.thread = v.thread := rfl

@[simp] theorem access_guest (v : Visitor Thread) : v.guest.access = v.access := rfl

@[simp] theorem inside_guest (v : Visitor Thread) : v.guest.inside = decide (v.stage = .holding) :=
  rfl

end Visitor

namespace Lock

section Roster

variable {Thread : Type} {l : Lock Thread}

/-- **The roster of a lock**: who sleeps or was woken is blocked. -/
def roster (l : Lock Thread) : Roster Thread :=
  l.visitors.map Visitor.guest

theorem reading_roster (l : Lock Thread) : l.roster.reading = l.reading := by
  simp only [Roster.reading, roster, reading, List.filter_map, List.map_map]
  rfl

theorem writing_roster (l : Lock Thread) : l.roster.writing = l.writers := by
  simp only [Roster.writing, roster, writers, List.filter_map, List.map_map]
  rfl

theorem blocked_roster (l : Lock Thread) : l.roster.blocked = l.blocked := by
  simp only [Roster.blocked, roster, blocked, List.filter_map, List.map_map]
  congr 1
  exact List.filter_congr fun v _ => by simp

theorem hasWriter_roster_eq_false_iff :
    l.roster.hasWriter = false ↔ ∀ v ∈ l.visitors, v.access ≠ .write := by
  simp [Roster.hasWriter, roster]

theorem occupied_roster_eq_false_iff :
    l.roster.occupied = false ↔ ∀ v ∈ l.visitors, v.stage ≠ .holding := by
  simp [Roster.occupied, roster]

theorem roster_of_split {us ws : List (Visitor Thread)} {v : Visitor Thread}
    (hs : l.visitors = us ++ v :: ws) :
    l.roster = us.map Visitor.guest ++ v.guest :: ws.map Visitor.guest := by
  rw [roster, hs, List.map_append, List.map_cons]

/-- **The counters admit whom the roster does.** -/
theorem admits_roster (hl : l.Sound) (access : Access) :
    l.roster.admits access = l.admits access := by
  rw [Bool.eq_iff_iff]
  cases access with
  | read =>
    rw [Roster.admits, Bool.not_eq_true', hasWriter_roster_eq_false_iff, admits_read,
      ← Bool.toNat_eq_zero, hl.writing, hl.writersWaiting, List.countP_eq_zero,
      List.countP_eq_zero]
    constructor
    · exact fun h => ⟨fun v hv => by simp [Visitor.holds, h v hv],
        fun v hv => by simp [Visitor.waits, h v hv]⟩
    · rintro ⟨hin, hout⟩ v hv hw
      by_cases hstage : v.stage = .holding
      · exact hin v hv (by simp [Visitor.holds, hstage, hw])
      · exact hout v hv (by simp [Visitor.waits, hstage, hw])
  | write =>
    rw [Roster.admits, Bool.not_eq_true', occupied_roster_eq_false_iff, admits_write,
      ← Bool.toNat_eq_zero, hl.writing, hl.readers, List.countP_eq_zero, List.countP_eq_zero]
    constructor
    · exact fun h => ⟨fun v hv => by simp [Visitor.holds, h v hv],
        fun v hv => by simp [Visitor.holds, h v hv]⟩
    · rintro ⟨hw, hr⟩ v hv hstage
      cases ha : v.access with
      | read => exact hr v hv (by simp [Visitor.holds, hstage, ha])
      | write => exact hw v hv (by simp [Visitor.holds, hstage, ha])

theorem blockedWriters_roster (hl : l.Sound) : l.roster.blockedWriters = l.writersWaiting := by
  rw [hl.writersWaiting, Roster.blockedWriters, roster, List.countP_map]
  refine List.countP_congr fun v _ => ?_
  simp [Visitor.waits, and_comm]

/-- Where nobody is inside and at most one writer waits, all others are readers. -/
theorem access_ne_write_of_split (hl : l.Sound) {us ws : List (Visitor Thread)} {t : Thread}
    (hs : l.visitors = us ++ ⟨t, .write, .woken⟩ :: ws) (hone : l.writersWaiting ≤ 1)
    (hout : ∀ v ∈ l.visitors, v.stage ≠ .holding) : ∀ u ∈ us ++ ws, u.access ≠ .write := by
  rw [hl.writersWaiting, hs, Visitor.countP_split] at hone
  have hnone : (us ++ ws).countP (Visitor.waits .write) = 0 :=
    Nat.le_zero.mp (Nat.le_of_succ_le_succ hone)
  intro u hu hw
  have hmem : u ∈ l.visitors := by
    rw [hs]
    rw [List.mem_append] at hu ⊢
    exact hu.imp_right (List.mem_cons_of_mem _)
  exact List.countP_eq_zero.mp hnone u hu (by simp [Visitor.waits, hw, hout u hmem])

/-! ### Rest -/

/-- **At rest there is nothing left to settle.** -/
theorem isSettled_roster (hl : l.Sound) (ha : l.Alert) (hrest : l.AtRest) :
    l.roster.IsSettled where
  occupied hw := by
    have hne : l.visitors ≠ [] := by
      intro hnil
      simp [roster, hnil, Roster.hasWriter] at hw
    obtain ⟨t, a, hv⟩ := exists_holder hl ha hrest hne
    rw [← Bool.not_eq_false, occupied_roster_eq_false_iff]
    exact fun h => h _ hv rfl
  inside hw g hg := by
    obtain ⟨v, hv, rfl⟩ := List.mem_map.mp hg
    have hadmits : l.admits v.access = true := by
      rw [← admits_roster hl]
      cases h : v.access with
      | read => simp [Roster.admits, hw]
      | write => exact absurd h (hasWriter_roster_eq_false_iff.mp hw v hv)
    cases hstage : v.stage with
    | holding => simp [hstage]
    | asleep => exact absurd hadmits (by simp [ha v hv hstage])
    | woken => exact absurd hstage (hrest v hv)

end Roster

variable {Thread : Type} [DecidableEq Thread] {l l' : Lock Thread} {t : Thread} {access : Access}
  {ms : List (Move Thread)}

/-- **A look never changes what a roster settles to**, if at most one writer waits. -/
theorem settled_look (hl : l.Sound) (h : l.visitor? t = some ⟨t, access, .woken⟩)
    (hone : l.writersWaiting ≤ 1) : (l.look t access).roster.settled = l.roster.settled := by
  obtain ⟨us, ws, hs, -, ⟨rfl, ha, he⟩ | ⟨rfl, ha, he⟩ | ⟨-, he⟩⟩ := look_cases hl.nodup h
  · -- a reader enters where there is no writer, so that all others will
    rw [← admits_roster hl, Roster.admits, Bool.not_eq_true', roster_of_split hs] at ha
    rw [roster_of_split (congrArg visitors he), roster_of_split hs,
      Roster.settled_of_not_hasWriter ha,
      Roster.settled_of_not_hasWriter (by simpa using ha)]
    simp [Guest.enter]
  · -- the one writer enters where nobody is inside
    rw [← admits_roster hl, Roster.admits, Bool.not_eq_true'] at ha
    have hothers := access_ne_write_of_split hl hs hone (occupied_roster_eq_false_iff.mp ha)
    have hus : Roster.hasWriter (us.map Visitor.guest) = false := by
      simpa [Roster.hasWriter] using fun u hu => hothers u (List.mem_append_left _ hu)
    have hws : Roster.hasWriter (ws.map Visitor.guest) = false := by
      simpa [Roster.hasWriter] using fun u hu => hothers u (List.mem_append_right _ hu)
    rw [Roster.settled_of_not_occupied ha, roster_of_split (congrArg visitors he),
      roster_of_split hs, Roster.settled_of_hasWriter (by simp) (by simp), Roster.admitBlocked,
      if_pos (by simp), List.map_append, List.map_cons,
      Roster.map_enterToWrite_of_not_hasWriter hus, Roster.map_enterToWrite_of_not_hasWriter hws]
    rfl
  · -- the thread is blocked as it was before
    rw [roster_of_split (congrArg visitors he), roster_of_split hs]
    rfl

theorem writersWaiting_look_le (hl : l.Sound) (h : l.visitor? t = some ⟨t, access, .woken⟩) :
    (l.look t access).writersWaiting ≤ l.writersWaiting := by
  obtain ⟨us, ws, -, -, ⟨-, -, he⟩ | ⟨-, -, he⟩ | ⟨-, he⟩⟩ := look_cases hl.nodup h
  · simp only [he, Nat.le_refl]
  · simp only [he, Nat.sub_le]
  · simp only [he, Nat.le_refl]

theorem Step.exists_of_looks {m : Move Thread} (hs : Step l m l') (hm : m.looks) :
    ∃ t access, l.visitor? t = some ⟨t, access, .woken⟩ ∧ l' = l.look t access := by
  cases hs with
  | arrive access hv => cases hm
  | look hv => exact ⟨_, _, hv, rfl⟩
  | leave hv => cases hm

/-- **Looks in any order** leave what is to be settled as it is. -/
theorem settled_looks (h : Trace Step l ms l') (hlooks : ∀ m ∈ ms, m.looks) (hl : l.Sound)
    (hone : l.writersWaiting ≤ 1) :
    l'.roster.settled = l.roster.settled ∧ l'.writersWaiting ≤ 1 := by
  induction h with
  | nil => exact ⟨rfl, hone⟩
  | @concat l₁ l₂ ms m h hs ih =>
    obtain ⟨hsettled, hone₁⟩ := ih fun m hm => hlooks m (List.mem_append_left _ hm)
    have hl₁ : l₁.Sound := h.invariant Sound.step hl
    obtain ⟨t, access, hv, rfl⟩ := hs.exists_of_looks (hlooks m (by simp))
    exact ⟨(settled_look hl₁ hv hone₁).trans hsettled,
      Nat.le_trans (writersWaiting_look_le hl₁ hv) hone₁⟩

/-- **Looks come to an end**: there is one for every thread that was woken. -/
theorem length_looks (h : Trace Step l ms l') (hlooks : ∀ m ∈ ms, m.looks) (hl : l.Sound) :
    ms.length + l'.wokenCount = l.wokenCount := by
  induction h with
  | nil => simp
  | @concat l₁ l₂ ms m h hs ih =>
    have hcount := ih fun m hm => hlooks m (List.mem_append_left _ hm)
    have hl₁ : l₁.Sound := h.invariant Sound.step hl
    obtain ⟨t, access, hv, rfl⟩ := hs.exists_of_looks (hlooks m (by simp))
    have hwoken := (wokenCount_look hl₁.nodup hv).2
    rw [List.length_append, List.length_singleton]
    omega

/-! ### Requests -/

/-- **What a thread does that asks** for something: it comes or leaves, unless it is there
already or is not inside. -/
def issue (l : Lock Thread) (t : Thread) : Request → Lock Thread
  | .enter access => match l.visitor? t with
    | some _ => l
    | none => l.arrive t access
  | .release => match l.visitor? t with
    | some { access, stage := .holding, .. } => l.leave t access
    | _ => l

/-- **A thread asks, and the woken look** in some order until all have come to rest. -/
def Serves (l : Lock Thread) (q : Thread × Request) (l' : Lock Thread) : Prop :=
  ∃ ms, Trace Step (l.issue q.1 q.2) ms l' ∧ (∀ m ∈ ms, m.looks) ∧ l'.AtRest

theorem thread_eq_of_visitor? {v : Visitor Thread} (h : l.visitor? t = some v) : v.thread = t := by
  simpa using List.find?_some h

theorem reachable_issue (h : l.Reachable) (t : Thread) (r : Request) : (l.issue t r).Reachable := by
  cases r with
  | enter access =>
    rw [issue]
    split
    · exact h
    · next hv => exact h.trace (.concat .nil (.arrive access hv))
  | release =>
    rw [issue]
    split
    · next u a hv =>
      obtain rfl : u = t := thread_eq_of_visitor? hv
      exact h.trace (.concat .nil (.leave hv))
    · exact h

theorem after_enter_of_none (h : l.visitor? t = none) (access : Access) :
    l.roster.after t (.enter access) = l.roster ++ [⟨t, access, l.roster.admits access⟩] := by
  refine if_neg ?_
  simpa [roster, visitor?] using h

theorem after_enter_of_some {v : Visitor Thread} (h : l.visitor? t = some v) (access : Access) :
    l.roster.after t (.enter access) = l.roster := by
  refine if_pos (List.any_eq_true.mpr ⟨v.guest, ?_, ?_⟩)
  · exact List.mem_map_of_mem (List.mem_of_find?_eq_some h)
  · simpa using thread_eq_of_visitor? h

omit [DecidableEq Thread] in
theorem roster_join (l : Lock Thread) (t : Thread) (access : Access) :
    (l.join t access).roster = l.roster ++ [⟨t, access, false⟩] := by
  simp [roster, join, Visitor.guest]

/-- **A request to enter** leads to what the roster says, when all looks are made. -/
theorem settled_issue_enter (hl : l.Sound) (hset : l.roster.IsSettled)
    (hone : (l.roster.after t (.enter access)).blockedWriters ≤ 1) :
    (l.issue t (.enter access)).roster.settled = l.roster.after t (.enter access) ∧
      (l.issue t (.enter access)).writersWaiting ≤ 1 := by
  rcases hv : l.visitor? t with _ | v
  · rw [after_enter_of_none hv] at hone ⊢
    have hissue : l.issue t (.enter access) = (l.join t access).look t access := by
      simp only [issue, hv, arrive_eq]
    have hjoin : (l.join t access).Sound := hl.join hv access
    have hwait : (l.join t access).writersWaiting ≤ 1 := by
      rw [← blockedWriters_roster hjoin, roster_join]
      exact hset.blockedWriters_concat_le hone
    rw [hissue, settled_look hjoin (visitor?_join hv access) hwait, roster_join,
      hset.settled_concat]
    exact ⟨rfl, Nat.le_trans (writersWaiting_look_le hjoin (visitor?_join hv access)) hwait⟩
  · have hissue : l.issue t (.enter access) = l := by simp only [issue, hv]
    rw [after_enter_of_some hv, blockedWriters_roster hl] at hone
    rw [hissue, after_enter_of_some hv]
    exact ⟨hset.settled_eq, hone⟩

omit [DecidableEq Thread] in
/-- Waking lets nobody in. -/
theorem map_guest_wake (vs : List (Visitor Thread)) :
    (vs.map Visitor.wake).map Visitor.guest = vs.map Visitor.guest := by
  rw [List.map_map]
  refine List.map_congr_left fun v _ => ?_
  simp [Visitor.guest, Visitor.stage_wake_eq_holding_iff]

/-- Who leaves is taken off the roster, and as many writers wait as before. -/
theorem roster_leave (l : Lock Thread) (t : Thread) (access : Access) :
    (l.leave t access).roster = l.roster.filter (fun g => g.thread != t) ∧
      (l.leave t access).writersWaiting = l.writersWaiting := by
  have hrest : (l.visitors.filter fun v => v.thread ≠ t).map Visitor.guest =
      l.roster.filter fun g => g.thread != t := by
    rw [roster, List.filter_map]
    congr 1
    exact List.filter_congr fun v _ => by rw [Bool.eq_iff_iff]; simp
  have hwake := (map_guest_wake (l.visitors.filter fun v => v.thread ≠ t)).trans hrest
  cases access with
  | read =>
    by_cases hr : l.readers - 1 = 0
    · simp only [leave, hr, if_true, wakeAll, and_true]
      exact hwake
    · simp only [leave, hr, if_false, and_true]
      exact hrest
  | write => exact ⟨hwake, rfl⟩

/-- Only a thread that is inside can leave. -/
theorem any_inside_iff (hl : l.Sound) :
    (l.roster.any fun g => g.thread == t && g.inside) = true ↔
      ∃ access, l.visitor? t = some ⟨t, access, .holding⟩ := by
  simp only [roster, List.any_map, List.any_eq_true, Function.comp_apply, Visitor.thread_guest,
    Visitor.inside_guest, Bool.and_eq_true, beq_iff_eq, decide_eq_true_eq]
  constructor
  · rintro ⟨⟨u, a, g⟩, hv, rfl, rfl⟩
    exact ⟨a, visitor?_of_mem hl.nodup hv⟩
  · rintro ⟨a, hv⟩
    exact ⟨_, List.mem_of_find?_eq_some hv, rfl, rfl⟩

/-- A writer leaves nobody behind inside. -/
theorem occupied_roster_leave_write (hl : l.Sound)
    (h : l.visitor? t = some ⟨t, .write, .holding⟩) :
    (l.leave t .write).roster.occupied = false := by
  have hwriting : l.writing = true := by
    rw [← Bool.not_eq_false, hl.writing_eq_false_iff]
    exact List.ne_nil_of_mem (mem_writers_iff.mpr (List.mem_of_find?_eq_some h))
  have hadmits : (l.leave t .write).admits .write = true :=
    admits_write.mpr ⟨rfl, hl.exclusive hwriting⟩
  rwa [← admits_roster (hl.leave h), Roster.admits, Bool.not_eq_true'] at hadmits

/-- A writer stays when a reader leaves. -/
theorem hasWriter_of_leave_read (hl : l.Sound) (h : l.visitor? t = some ⟨t, .read, .holding⟩)
    (hw : (l.leave t .read).roster.hasWriter = false) : l.roster.hasWriter = false := by
  rw [(roster_leave l t .read).1] at hw
  refine hasWriter_roster_eq_false_iff.mpr fun v hv ha => ?_
  have hne : v.thread ≠ t := by
    rintro rfl
    have hfound : l.visitor? v.thread = some v := visitor?_of_mem hl.nodup hv
    rw [h, Option.some.injEq] at hfound
    cases (congrArg Visitor.access hfound).trans ha
  refine List.any_eq_false.mp hw v.guest ?_ (by simpa using ha)
  exact List.mem_filter.mpr ⟨List.mem_map_of_mem hv, by simpa using hne⟩

/-- **A request to leave** leads to what the roster says, when all looks are made. -/
theorem settled_issue_release (hl : l.Sound) (hset : l.roster.IsSettled)
    (hone : l.writersWaiting ≤ 1) :
    (l.issue t .release).roster.settled = l.roster.after t .release ∧
      (l.issue t .release).writersWaiting ≤ 1 := by
  by_cases hin : (l.roster.any fun g => g.thread == t && g.inside) = true
  · obtain ⟨a, hv⟩ := (any_inside_iff hl).mp hin
    have hissue : l.issue t .release = l.leave t a := by simp only [issue, hv]
    obtain ⟨hroster, hwait⟩ := roster_leave l t a
    rw [hissue, Roster.after, if_pos hin, ← hroster, hwait]
    refine ⟨?_, hone⟩
    dsimp only
    split
    · next ho =>
      cases a with
      | read =>
        have hrest : (l.leave t .read).roster.IsSettled := by
          refine ⟨fun _ => ho, fun hw g hg => ?_⟩
          rw [hroster] at hg
          exact hset.inside (hasWriter_of_leave_read hl hv hw) g (List.mem_of_mem_filter hg)
        exact hrest.settled_eq
      | write => exact absurd ho (by simp [occupied_roster_leave_write hl hv])
    · next ho => exact Roster.settled_of_not_occupied (by simpa using ho)
  · have hissue : l.issue t .release = l := by
      rw [issue]
      split
      · next u a hv =>
        obtain rfl : u = t := thread_eq_of_visitor? hv
        exact absurd ((any_inside_iff hl).mpr ⟨a, hv⟩) hin
      · rfl
    rw [hissue, Roster.after, if_neg hin]
    exact ⟨hset.settled_eq, hone⟩

/-- **Requests lead to what the roster says**: from rest, whatever the order of looks is. -/
theorem roster_of_serves (h : l.Reachable) (hrest : l.AtRest) {q : Thread × Request}
    (hone : l.roster.blockedWriters ≤ 1) (hone' : (l.roster.after q.1 q.2).blockedWriters ≤ 1)
    (hs : Serves l q l') :
    l'.Reachable ∧ l'.AtRest ∧ l'.roster = l.roster.after q.1 q.2 := by
  obtain ⟨ms, hms, hlooks, hrest'⟩ := hs
  have hset := isSettled_roster h.sound h.alert hrest
  have hissue := reachable_issue h q.1 q.2
  obtain ⟨hsettled, hwait⟩ : (l.issue q.1 q.2).roster.settled = l.roster.after q.1 q.2 ∧
      (l.issue q.1 q.2).writersWaiting ≤ 1 := by
    obtain ⟨t, _ | _⟩ := q
    · exact settled_issue_enter h.sound hset hone'
    · exact settled_issue_release h.sound hset (blockedWriters_roster h.sound ▸ hone)
  have h' := hissue.trace hms
  refine ⟨h', hrest', ?_⟩
  rw [← (isSettled_roster h'.sound h'.alert hrest').settled_eq,
    (settled_looks hms hlooks hissue.sound hwait).1, hsettled]

/-- One way to serve a request is to let the woken look in the order in which they came. -/
theorem serves_request (h : l.Reachable) (hrest : l.AtRest) (q : Thread × Request) :
    Serves l q (l.request q.1 q.2) := by
  obtain ⟨t, r⟩ := q
  have hsettle : Serves l (t, r) (l.issue t r).settle :=
    atRest_settleWithin (reachable_issue h t r).sound wokenCount_le
  have hself : l.issue t r = l → Serves l (t, r) l := fun he => by
    exact ⟨[], by rw [he]; exact .nil, by simp, hrest⟩
  cases r with
  | enter access =>
    simp only [request]
    split
    · next v hv => exact hself (by simp only [issue, hv])
    · next hv => simpa only [issue, hv] using hsettle
  | release =>
    simp only [request]
    split
    · next u a hv => simpa only [issue, hv] using hsettle
    · next hv => exact hself (by rw [issue]; split; exacts [absurd ‹_› (hv _ _), rfl])

/-- **Several requests**, each made at rest, lead to the roster of the requests. -/
theorem roster_of_trace {qs : List (Thread × Request)} (h : Trace Serves {} qs l)
    (hone : ∀ ps, ps <+: qs → (Roster.run ps).blockedWriters ≤ 1) :
    l.Reachable ∧ l.AtRest ∧ l.roster = Roster.run qs := by
  induction h with
  | nil => exact ⟨⟨[], .nil⟩, by simp [AtRest], rfl⟩
  | @concat l l' qs q h hs ih =>
    obtain ⟨hl, hrest, hroster⟩ := ih fun ps hps => hone ps (hps.trans (List.prefix_append _ _))
    have hbefore := hone qs (List.prefix_append _ _)
    have hafter := hone _ (List.prefix_refl _)
    rw [Roster.run_concat, ← hroster] at hafter ⊢
    rw [← hroster] at hbefore
    exact roster_of_serves hl hrest hbefore hafter hs

theorem trace_requests (qs : List (Thread × Request))
    (hone : ∀ ps, ps <+: qs → (Roster.run ps).blockedWriters ≤ 1) :
    Trace Serves ({} : Lock Thread) qs (qs.foldl (fun l q => l.request q.1 q.2) {}) := by
  induction qs using List.reverseRecOn with
  | nil => exact .nil
  | append_singleton qs q ih =>
    have hone' : ∀ ps, ps <+: qs → (Roster.run ps).blockedWriters ≤ 1 := fun ps hps =>
      hone ps (hps.trans (List.prefix_append _ _))
    obtain ⟨hl, hrest, -⟩ := roster_of_trace (ih hone') hone'
    rw [List.foldl_append]
    exact .concat (ih hone') (serves_request hl hrest q)

/-- **Where requests lead does not depend on the order of looks.** Let threads make any requests,
each when all have come to rest, with at most one writer that waits at a time.

* They can be served, for instance with looks in the order of arrival.
* In whatever order the woken look, those inside and those blocked at rest are the ones on the
  roster of the requests.
* After one more request there is at most one look for every thread that was woken, and as long
  as the lock is not at rest, there is a look to make. -/
theorem rest_of_requests (qs : List (Thread × Request))
    (hone : ∀ ps, ps <+: qs → (Roster.run ps).blockedWriters ≤ 1) :
    Trace Serves ({} : Lock Thread) qs (qs.foldl (fun l q => l.request q.1 q.2) {}) ∧
    ∀ l, Trace Serves {} qs l →
      l.reading = (Roster.run qs).reading ∧ l.writers = (Roster.run qs).writing ∧
      l.blocked = (Roster.run qs).blocked ∧
      ∀ t r ms l', Trace Step (l.issue t r) ms l' → (∀ m ∈ ms, m.looks) →
        ms.length ≤ (l.issue t r).wokenCount ∧ (l'.AtRest ∨ ∃ m l'', m.looks ∧ Step l' m l'') := by
  refine ⟨trace_requests qs hone, fun l h => ?_⟩
  obtain ⟨hl, -, hroster⟩ := roster_of_trace h hone
  rw [← hroster, reading_roster, writing_roster, blocked_roster]
  refine ⟨rfl, rfl, rfl, fun t r ms l' hms hlooks => ?_⟩
  have hissue := reachable_issue hl t r
  refine ⟨Nat.le_of_add_right_le (Nat.le_of_eq (length_looks hms hlooks hissue.sound)), ?_⟩
  by_cases hrest : l'.AtRest
  · exact Or.inl hrest
  · obtain ⟨u, access, hv⟩ := exists_woken (hissue.trace hms).sound hrest
    exact Or.inr ⟨_, _, rfl, .look hv⟩

/-- A writer and two readers wait for a reader; it leaves, and then the writer does. -/
def queueing : List (Nat × Request) :=
  [(1, .enter .read), (2, .enter .write), (3, .enter .read), (4, .enter .read), (1, .release),
    (2, .release)]

/-- However the three race when the first reader has left, the two readers are inside in the
end. -/
theorem rest_queueing : (∀ ps, ps <+: queueing → (Roster.run ps).blockedWriters ≤ 1) ∧
    (∃ l, Trace Serves {} queueing l) ∧
    ∀ l, Trace Serves {} queueing l → l.reading = [3, 4] ∧ l.writers = [] ∧ l.blocked = [] := by
  have hone : ∀ ps, ps <+: queueing → (Roster.run ps).blockedWriters ≤ 1 := by
    have hall : ∀ ps ∈ queueing.inits, (Roster.run ps).blockedWriters ≤ 1 := by decide
    exact fun ps hps => hall ps ((List.mem_inits _ _).mpr hps)
  obtain ⟨htrace, hrest⟩ := rest_of_requests queueing hone
  refine ⟨hone, ⟨_, htrace⟩, fun l h => ?_⟩
  obtain ⟨hr, hw, hb, -⟩ := hrest l h
  exact ⟨hr, hw, hb⟩

end Lock

end RainMeta
