import RainMeta.Deployer
import RainMeta.Scan

/-!
# Building a store

A build scans the roots of a configuration, loads its metas, assembles its deployers, and puts
all of it into a new store.

* `Build.build`: the store and a report.
* `Report`: what was put into the store and what was skipped.
-/

namespace RainMeta

/-- What a build put into the store and what it skipped. -/
structure Report where
  policy : Policy
  subgraphs : Nat
  metas : Nat
  dotrains : Nat
  deployers : Nat
  skipped : List SkippedItem
  deriving DecidableEq

/-- The report as a document. -/
def Report.toValue (r : Report) : Value :=
  let item (s : SkippedItem) : Value :=
    .mapping [(.text "stage", .text s.stage), (.text "item", .text s.item),
      (.text "error", .text s.error)]
  .mapping
    [(.text "policy", .text r.policy.name), (.text "subgraphs", .int r.subgraphs),
     (.text "metas", .int r.metas), (.text "dotrains", .int r.dotrains),
     (.text "deployers", .int r.deployers), (.text "skipped", .list (r.skipped.map item))]

namespace Build

/-- The uri of a path: its text, if it has no surrogates. -/
def uriOf (path : Path) : Option Text :=
  if path.text.any CodePoint.isSurrogate then none else some path.text

/-- Puts the metas into a store. -/
def addMetas (s : Store) (metas : List LoadedMeta) : Store :=
  metas.foldl (fun s m => match s.updateWith m.hash m.bytes with
    | .ok (_, s) => s
    | .error _ => s) s

/-- Binds the uri of a dotrain. A dotrain without a uri is dropped, or ends the run. -/
def addDotrain (policy : Policy) (s : Store) (file : DotrainFile) : Run (Store × Bool) :=
  match uriOf file.path with
  | none => match policy with
    | .strict => Run.fail (.dotrainUriInvalid file.path)
    | .lenient => do
      Run.record (.dotrainDropped file.path)
      return (s, false)
  | some uri => match s.setDotrain file.text uri true with
    | .ok (_, s) => return (s, true)
    | .error cause => Run.crash (.unencodable cause)

/-- Binds the uris of several dotrains and counts them. -/
def addDotrains (policy : Policy) (s : Store) (count : Nat) : List DotrainFile → Run (Store × Nat)
  | [] => return (s, count)
  | file :: rest => do
    let (s, bound) ← addDotrain policy s file
    addDotrains policy s (if bound then count + 1 else count) rest

/-- Sets deployers, one after another. -/
def addDeployers (s : Store) : List DeployerRecord → Run Store
  | [] => return s
  | record :: rest => do
    if s.replaces record then Run.record (.deployerReplaced record.bytecodeMetaHash)
    addDeployers (s.setDeployer record) rest

variable [Platform]

/-- The store of a configuration and what was put into it. The deployers are set in reverse
order, so of several with one bytecode hash the first one stays. -/
def build (t : FileTree) (policy : Policy) (c : Config) : Run (Store × Report) := do
  Run.record (.buildStarted policy c.roots.length c.metas.length c.deployers.length)
  let files ← Scan.scanAll t policy c.roots
  let metas ← MetaFile.loadAll t policy c.metas
  let records ← Deployer.assembleAll t policy c.deployers
  let s := addMetas (Store.empty.addSubgraphs c.subgraphs) metas
  let (s, dotrains) ← addDotrains policy s 0 files
  let s ← addDeployers s records.reverse
  let skipped ← Run.skippedSoFar
  let report : Report :=
    { policy, subgraphs := s.subgraphs.length, metas := metas.length, dotrains
      deployers := records.length, skipped }
  Run.record (.buildDone policy report.subgraphs report.metas report.dotrains report.deployers
    skipped.length)
  return (s, report)

end Build

end RainMeta
