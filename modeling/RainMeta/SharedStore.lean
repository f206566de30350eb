import RainMeta.Lock
import RainMeta.Store

/-!
# Shared stores

A store that several threads use, behind a lock: who reads may look at the store, who writes may
change it.

* `SharedStore`: a store and the lock around it.
* `SharedStore.Event`, `SharedStore.Step`: what may happen, in any order. A change may be any part
  of an operation on the store, so that others may come in between.
-/

namespace RainMeta

/-- A store and the lock around it. -/
structure SharedStore (Thread : Type) where
  lock : Lock Thread := {}
  store : Store := .empty

namespace SharedStore

variable {Thread : Type} [DecidableEq Thread]

/-- What happens to a shared store. -/
inductive Event (Thread : Type)
  /-- A thread does something at the lock. -/
  | move (m : Lock.Move Thread)
  /-- A thread changes the store. -/
  | change (t : Thread) (f : Store → Store)
  /-- A thread looks at the store and sees what it is. -/
  | observe (t : Thread) (seen : Store)

/-- What may happen: what may happen at the lock, changes by a thread that is inside to write,
and looks by a thread that is inside to read. -/
inductive Step : SharedStore Thread → Event Thread → SharedStore Thread → Prop
  | move {s : SharedStore Thread} {m : Lock.Move Thread} {lock : Lock Thread}
      (h : Lock.Step s.lock m lock) : Step s (.move m) { s with lock }
  | change {s : SharedStore Thread} {t : Thread} (f : Store → Store) (h : t ∈ s.lock.writers) :
      Step s (.change t f) { s with store := f s.store }
  | observe {s : SharedStore Thread} {t : Thread} (h : t ∈ s.lock.reading) :
      Step s (.observe t s.store) s

end SharedStore

end RainMeta
