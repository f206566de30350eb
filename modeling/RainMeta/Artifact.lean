import RainMeta.Json.Reader
import RainMeta.Run

/-!
# Contract artifacts

An artifact is a JSON document that holds the bytecode of a contract: the one that creates it,
the one that is deployed, or both.

* `Artifact.ofDocument`: the bytecode that a document holds.
* `Artifact.read`: the same for a file.
* `Artifact.require`: one side of an artifact, which its role needs.
-/

namespace RainMeta

/-- The bytecode of a contract. -/
structure Artifact where
  path : Path
  creation : Option Bytes
  deployed : Option Bytes
  deriving DecidableEq

/-- Which sides an artifact has. -/
inductive Presence
  | neither | creationOnly | deployedOnly | both
  deriving DecidableEq

/-- The name of a presence. -/
def Presence.name : Presence → Text
  | .neither => "NEITHER"
  | .creationOnly => "CREATION_ONLY"
  | .deployedOnly => "DEPLOYED_ONLY"
  | .both => "BOTH"

/-- The presence of two sides. -/
def Presence.ofSides : Bool → Bool → Presence
  | true, true => .both
  | true, false => .creationOnly
  | false, true => .deployedOnly
  | false, false => .neither

namespace Artifact

/-- A side of the bytecode. -/
def side (a : Artifact) : Side → Option Bytes
  | .creation => a.creation
  | .deployed => a.deployed

/-- Which sides there are. -/
def presence (a : Artifact) : Presence :=
  .ofSides a.creation.isSome a.deployed.isSome

/-- The digits of a side in a document: a text in the side's field, or in an object in that
field under the key `object`. -/
def heldDigits (document : Value) (side : Side) : Option Text :=
  match document.field? side.field with
  | some (.mapping entries) => (Value.fieldOf? "object" entries).bind Value.text?
  | some v => v.text?
  | none => none

/-- The bytes of a side that is held. -/
def decodeSide (path : Path) (side : Side) : Option Text → Except Failure (Option Bytes)
  | none => .ok none
  | some digits => ((Hex.decode digits).map some).mapError (.artifactHexInvalid path side)

/-- The bytecode that a document holds. -/
def ofDocument (path : Path) (document : Value) : Except Failure Artifact :=
  let creation := heldDigits document .creation
  let deployed := heldDigits document .deployed
  if creation.isNone && deployed.isNone then .error (.artifactNoBytecode path)
  else do
    let creation ← decodeSide path .creation creation
    let deployed ← decodeSide path .deployed deployed
    return { path, creation, deployed }

variable [Platform]

/-- The document that a file spells. -/
def readDocument (path : Path) (content : Bytes) : Run Value :=
  match Json.readBytes content with
  | .ok document => return document
  | .error (.malformed cause) => Run.fail (.artifactNotJson path cause)
  | .error (.encoding cause) => Run.fail (.artifactNotText path cause)
  | .error (.digits cause) => Run.crash (.digits cause)
  | .error .tooDeep => Run.crash .tooDeep

/-- The bytecode in a file. -/
def read (t : FileTree) (path : Path) : Run Artifact := do
  let content ← Run.access (.artifactUnreadable path) (t.readFile path.text)
  match ofDocument path (← readDocument path content) with
  | .ok a => return a
  | .error cause => Run.fail cause

/-- A side of an artifact, which its role needs. -/
def require (a : Artifact) (side : Side) (role : Text) : Except Failure Bytes :=
  match a.side side with
  | some b => .ok b
  | none => .error (.bytecodeMissing a.path side role)

end Artifact

end RainMeta
