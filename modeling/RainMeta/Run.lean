import RainMeta.Failure

/-!
# Runs that fail or skip

What a build does is a run: it writes a journal and ends with a value, with a failure, or with
a crash. The policy decides whether a failing item ends the run or is skipped.

* `Policy`, `Run.recover`: a failure is raised, or written into the journal.
* `Event`, `Journal`: what happened, in order; the skipped items and the log are read off
  it.
* `Run`: computations that write a journal.
-/

namespace RainMeta

/-- What to do about an item that fails. -/
inductive Policy
  /-- The first failure ends the run. -/
  | strict
  /-- Items that fail are skipped. -/
  | lenient
  deriving DecidableEq

/-- The name of a policy. -/
def Policy.name : Policy → Text
  | .strict => "STRICT"
  | .lenient => "LENIENT"

/-- The policy with a name. -/
def Policy.ofName? (t : Text) : Option Policy :=
  if t = Policy.strict.name then some .strict
  else if t = Policy.lenient.name then some .lenient
  else none

/-- The words about a name that no policy has. -/
def Policy.unknownName (t : Text) : Text :=
  t.quoted ++ " is not a valid ErrorPolicy"

/-- An item that was skipped: at which stage, which one, and with which failure. -/
structure SkippedItem where
  stage : Text
  item : Text
  error : Text
  deriving DecidableEq

/-- What is written into the journal. -/
inductive Event
  | skipped (item : SkippedItem)
  /-- A root was scanned and files were found. -/
  | scanned (root : Path) (files : Nat)
  | metasLoaded (count : Nat)
  | deployerAssembled (key : Text) (bytecodeMetaHash : Bytes)
  /-- A file was left out because its path is no text. -/
  | dotrainDropped (path : Path)
  /-- A deployer took the place of a different one. -/
  | deployerReplaced (bytecodeMetaHash : Bytes)
  | buildStarted (policy : Policy) (roots metas deployers : Nat)
  | buildDone (policy : Policy) (subgraphs metas dotrains deployers skipped : Nat)
  deriving DecidableEq

/-- What happened, in order. -/
abbrev Journal := List Event

/-- The item that an event skips. -/
def Event.skippedItem? : Event → Option SkippedItem
  | .skipped item => some item
  | _ => none

/-- The items that were skipped, in order. -/
def Journal.skipped (j : Journal) : List SkippedItem :=
  j.filterMap Event.skippedItem?

/-- How a run ends without a value. -/
inductive Fault
  | failure (cause : Failure)
  | crash (cause : Crash)
  deriving DecidableEq

/-- Computations that write a journal and may end with a fault. -/
abbrev Run := ExceptT Fault (StateM Journal)

namespace Run

/-- What a run comes to when the journal is empty at its start. -/
def result {α : Type} (r : Run α) : Except Fault α × Journal :=
  StateT.run (ExceptT.run r) []

/-- Writes an event into the journal. -/
def record (e : Event) : Run Unit :=
  modify fun j => j ++ [e]

/-- The items skipped so far. -/
def skippedSoFar : Run (List SkippedItem) := do
  return Journal.skipped (← get)

/-- Ends the run with a failure. -/
def fail {α : Type} (cause : Failure) : Run α :=
  throw (.failure cause)

/-- Ends the run with a crash. -/
def crash {α : Type} (cause : Crash) : Run α :=
  throw (.crash cause)

/-- A failure of an item: it ends the run, or the item is skipped. -/
def recover (policy : Policy) (cause : Failure) (stage item : Text) : Run Unit :=
  match policy with
  | .strict => fail cause
  | .lenient => record (.skipped { stage, item, error := cause.message })

/-- Runs what concerns an item; if it fails, the item is skipped or the run ends. -/
def skipping {α : Type} (policy : Policy) (stage item : Text) (r : Run α) : Run (Option α) :=
  tryCatch (some <$> r) fun
    | .failure cause => do
      recover policy cause stage item
      return none
    | .crash cause => crash cause

/-- The value of an access to the file tree: a refusal by the system is a failure. -/
def access {α : Type} (failure : OsError → Failure) : Except AccessError α → Run α
  | .ok a => pure a
  | .error (.os cause) => fail (failure cause)
  | .error .embeddedNul => crash .embeddedNul
  | .error (.unencodable cause) => crash (.unencodable cause)

end Run

end RainMeta
