import RainMeta.Text

/-!
# The lock around a shared store

Many readers or one writer may hold the lock, and a waiting writer keeps new readers out.
Threads that cannot enter sleep; whoever leaves wakes them, and each then looks again.

Nobody gives up waiting: what may happen is that threads arrive, are woken, look again and leave.
An exception that is thrown into a sleeping thread from outside is none of these events. (A writer
that is interrupted like this counts itself out without waking anybody, so readers that it alone
has kept out sleep on until somebody else leaves. Nothing is said about such runs.)

* `Lock`: who is inside, who sleeps and who is awake, with the counters that decide.
* `Lock.Move`, `Lock.Step`: what may happen next, one critical section at a time, in any order.
* `Lock.settle`: what happens until everybody has come to rest, in one fixed order.
* `Lock.request`: a request by a thread, and what follows until rest.
-/

namespace RainMeta

/-- What a thread wants of the lock. -/
inductive Access
  | read | write
  deriving DecidableEq

/-- Where a thread stands. -/
inductive Stage
  /-- It is inside. -/
  | holding
  /-- It sleeps until somebody wakes it. -/
  | asleep
  /-- It was woken and has still to look whether it may enter. -/
  | woken
  deriving DecidableEq

/-- A thread at the lock. -/
structure Visitor (Thread : Type) where
  thread : Thread
  access : Access
  stage : Stage
  deriving DecidableEq

/-- The visitor, woken if it was asleep. -/
def Visitor.wake {Thread : Type} (v : Visitor Thread) : Visitor Thread :=
  if v.stage = .asleep then { v with stage := .woken } else v

/-- The visitor, moved to a stage if it is thread `t`. -/
def Visitor.moveTo {Thread : Type} [DecidableEq Thread] (t : Thread) (stage : Stage)
    (v : Visitor Thread) : Visitor Thread :=
  if v.thread = t then { v with stage } else v

/-- The lock: its counters, and the threads that are inside or wait, in order of arrival. -/
structure Lock (Thread : Type) where
  readers : Nat := 0
  writing : Bool := false
  writersWaiting : Nat := 0
  visitors : List (Visitor Thread) := []

namespace Lock

variable {Thread : Type} [DecidableEq Thread]

/-- Whether a reader may enter: nobody writes and no writer waits. -/
def admitsReader (l : Lock Thread) : Bool :=
  !l.writing && l.writersWaiting == 0

/-- Whether a writer may enter: nobody is inside. -/
def admitsWriter (l : Lock Thread) : Bool :=
  !l.writing && l.readers == 0

/-- The visitor that a thread is. -/
def visitor? (l : Lock Thread) (t : Thread) : Option (Visitor Thread) :=
  l.visitors.find? fun v => v.thread = t

/-- Moves a thread to a stage. -/
def place (l : Lock Thread) (t : Thread) (stage : Stage) : Lock Thread :=
  { l with visitors := l.visitors.map (Visitor.moveTo t stage) }

/-- Wakes everybody who sleeps. -/
def wakeAll (l : Lock Thread) : Lock Thread :=
  { l with visitors := l.visitors.map Visitor.wake }

/-- A thread looks whether it may enter: it does, or goes to sleep. A writer that enters no
longer waits. -/
def look (l : Lock Thread) (t : Thread) (access : Access) : Lock Thread :=
  match access with
  | .read =>
    if l.admitsReader then { l.place t .holding with readers := l.readers + 1 }
    else l.place t .asleep
  | .write =>
    if l.admitsWriter then
      { l.place t .holding with writing := true, writersWaiting := l.writersWaiting - 1 }
    else l.place t .asleep

/-- A thread arrives: a writer is counted as waiting, and the thread looks whether it may
enter. -/
def arrive (l : Lock Thread) (t : Thread) (access : Access) : Lock Thread :=
  let waiting := match access with
    | .read => l.writersWaiting
    | .write => l.writersWaiting + 1
  let l : Lock Thread :=
    { l with
      writersWaiting := waiting
      visitors := l.visitors ++ [{ thread := t, access, stage := .woken }] }
  l.look t access

/-- A thread leaves. The last reader and every writer wake all who sleep. -/
def leave (l : Lock Thread) (t : Thread) (access : Access) : Lock Thread :=
  let l : Lock Thread := { l with visitors := l.visitors.filter fun v => v.thread ≠ t }
  match access with
  | .read =>
    let l : Lock Thread := { l with readers := l.readers - 1 }
    if l.readers = 0 then l.wakeAll else l
  | .write => wakeAll { l with writing := false }

/-! ### Steps -/

/-- What a thread does at the lock in one critical section. -/
inductive Move (Thread : Type)
  /-- It comes, and enters or goes to sleep. -/
  | arrive (t : Thread) (access : Access)
  /-- It was woken and looks again: it enters or goes back to sleep. -/
  | look (t : Thread) (access : Access)
  /-- It was inside and leaves. -/
  | leave (t : Thread) (access : Access)

/-- What may happen at the lock, one critical section at a time: a new thread arrives, a woken
one looks again, or one that is inside leaves. -/
inductive Step : Lock Thread → Move Thread → Lock Thread → Prop
  | arrive {l : Lock Thread} {t : Thread} (access : Access) (h : l.visitor? t = none) :
      Step l (.arrive t access) (l.arrive t access)
  | look {l : Lock Thread} {t : Thread} {access : Access}
      (h : l.visitor? t = some { thread := t, access, stage := .woken }) :
      Step l (.look t access) (l.look t access)
  | leave {l : Lock Thread} {t : Thread} {access : Access}
      (h : l.visitor? t = some { thread := t, access, stage := .holding }) :
      Step l (.leave t access) (l.leave t access)

/-! ### Rest -/

/-- The first thread that was woken and has not looked yet. -/
def firstWoken? (l : Lock Thread) : Option (Visitor Thread) :=
  l.visitors.find? fun v => v.stage = .woken

/-- Lets up to `fuel` woken threads look, in order of arrival. -/
def settleWithin (l : Lock Thread) : Nat → Lock Thread
  | 0 => l
  | fuel + 1 => match l.firstWoken? with
    | none => l
    | some v => (l.look v.thread v.access).settleWithin fuel

/-- Lets all woken threads look; a look wakes nobody, so everybody then is at rest. -/
def settle (l : Lock Thread) : Lock Thread :=
  l.settleWithin l.visitors.length

/-- What a thread asks for. -/
inductive Request
  | enter (access : Access)
  | release
  deriving DecidableEq

/-- A request and what follows until rest. A thread that is inside or waits cannot ask to
enter, and only one that is inside can release. -/
def request (l : Lock Thread) (t : Thread) : Request → Lock Thread
  | .enter access => match l.visitor? t with
    | some _ => l
    | none => (l.arrive t access).settle
  | .release => match l.visitor? t with
    | some { access, stage := .holding, .. } => (l.leave t access).settle
    | _ => l

/-- The threads that read. -/
def reading (l : Lock Thread) : List Thread :=
  (l.visitors.filter fun v => v.stage = .holding && v.access = .read).map Visitor.thread

/-- The threads that write. -/
def writers (l : Lock Thread) : List Thread :=
  (l.visitors.filter fun v => v.stage = .holding && v.access = .write).map Visitor.thread

/-- The threads that wait for an access. -/
def waiting (l : Lock Thread) (access : Access) : List Thread :=
  (l.visitors.filter fun v => v.stage ≠ .holding && v.access = access).map Visitor.thread

/-- The threads that wait. -/
def blocked (l : Lock Thread) : List Thread :=
  (l.visitors.filter fun v => v.stage ≠ .holding).map Visitor.thread

end Lock

end RainMeta
