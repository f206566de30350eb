import RainMeta.Envelope.Reader
import RainMeta.Hex
import RainMeta.Table

/-!
# The meta store

A store keeps payloads under their hashes, and beside them three tables: which dotrain each
uri is bound to, which deployer each bytecode hash names, and which subgraphs there are.

* `Store`: the cache of payloads and the tables.
* `Store.addSubgraphs`, `Store.updateWith`, `Store.setDotrain`, `Store.setDeployer`: what
  changes a store.
* `Store.get?`, `Store.dotrainHash?`, `Store.dotrainText`, `Store.deployer?`: what is read
  from it.
-/

namespace RainMeta

/-- All that is needed to set up an expression deployer anew. `bytecode` is the creation
bytecode, the parser, the store and the interpreter are deployed bytecode, and
`bytecodeMetaHash` is the key of the record. -/
structure DeployerRecord where
  metaHash : Bytes
  metaBytes : Bytes
  bytecode : Bytes
  parserBytecode : Bytes
  storeBytecode : Bytes
  interpreterBytecode : Bytes
  bytecodeMetaHash : Bytes
  txHash : Bytes
  deriving DecidableEq

/-- Payloads by hash, and the tables of dotrains, deployers and subgraphs. -/
structure Store where
  cache : Table Bytes Bytes
  dotrains : Table Text Bytes
  deployers : Table Bytes DeployerRecord
  subgraphs : List Text

/-- A payload was given under a hash that is not its own. -/
structure HashMismatch where
  hash : Bytes
  deriving DecidableEq

/-- The words for it. -/
def HashMismatch.message (e : HashMismatch) : Text :=
  "HASH_MISMATCH:" ++ Hex.encode e.hash

namespace Store

/-- The store without anything. -/
def empty : Store :=
  { cache := .empty, dotrains := .empty, deployers := .empty, subgraphs := [] }

/-- The number of payloads. -/
def size (s : Store) : Nat :=
  s.cache.size

/-! ### Reading -/

/-- The payload with a hash. -/
def get? (s : Store) (hash : Bytes) : Option Bytes :=
  s.cache.find? hash

/-- The uris that are bound, in the order in which they were first bound. -/
def dotrainUris (s : Store) : List Text :=
  s.dotrains.keys

/-- The hash that a uri is bound to. -/
def dotrainHash? (s : Store) (uri : Text) : Option Bytes :=
  s.dotrains.find? uri

/-- The deployer under a bytecode hash. -/
def deployer? (s : Store) (hash : Bytes) : Option DeployerRecord :=
  s.deployers.find? hash

/-- The bytecode hashes of deployers, in the order in which they were first set. -/
def deployerHashes (s : Store) : List Bytes :=
  s.deployers.keys

/-- Why the text of a dotrain cannot be read back. -/
inductive TextError
  /-- The payload is no envelope. -/
  | envelope (cause : EnvelopeError)
  /-- The payload in the envelope is no text. -/
  | text (cause : DecodeError)
  deriving DecidableEq

/-- The text in the envelope that a payload encodes. -/
def textOf [Platform] (payload : Bytes) : Except TextError Text :=
  match Envelope.decode payload with
  | .error cause => .error (.envelope cause)
  | .ok e => match Utf8.decode e.payload with
    | .error cause => .error (.text cause)
    | .ok t => .ok t

/-- The text of the dotrain that a uri is bound to, read back from the cache; nothing if the
uri is not bound or the payload is gone. -/
def dotrainText [Platform] (s : Store) (uri : Text) : Except TextError (Option Text) :=
  match s.dotrainHash? uri with
  | none => .ok none
  | some hash => match s.get? hash with
    | none => .ok none
    | some payload => (textOf payload).map some

/-! ### Changing -/

/-- Adds the subgraphs that are not there yet, in their order. -/
def addSubgraphs (s : Store) (urls : List Text) : Store :=
  let add (known : List Text) (url : Text) : List Text :=
    if url ∈ known then known else known ++ [url]
  { s with subgraphs := urls.foldl add s.subgraphs }

/-- Puts a payload under its hash. The flag says whether it is new; one that is there
stays. -/
def updateWith (s : Store) (hash payload : Bytes) : Except HashMismatch (Bool × Store) :=
  if keccak256 payload ≠ hash then .error ⟨hash⟩
  else if s.cache.contains hash then .ok (false, s)
  else .ok (true, { s with cache := s.cache.set hash payload })

/-- What binding a uri did: the hash it is bound to, and the one it was bound to before. -/
structure Rebound where
  new : Bytes
  old : Option Bytes
  deriving DecidableEq

/-- Binds a uri to an envelope under a hash. Unless `keepOld` holds, the payload that the uri
was bound to leaves the cache if no uri is bound to it any more. -/
def bind (s : Store) (uri : Text) (hash payload : Bytes) (keepOld : Bool) : Rebound × Store :=
  let old := s.dotrains.find? uri
  let cache := s.cache.setNew hash payload
  let dotrains := s.dotrains.set uri hash
  let cache := match old with
    | none => cache
    | some h =>
      if h ≠ hash && !keepOld && !dotrains.values.contains h then cache.erase h else cache
  ({ new := hash, old }, { s with cache, dotrains })

/-- Binds a uri to the envelope of a text; fails for a text with surrogates. -/
def setDotrain (s : Store) (text uri : Text) (keepOld : Bool) :
    Except EncodeError (Rebound × Store) :=
  (Envelope.dotrain? text).map fun e => s.bind uri e.hash e.encode keepOld

/-- Whether a record would take the place of a different one. -/
def replaces (s : Store) (record : DeployerRecord) : Bool :=
  match s.deployer? record.bytecodeMetaHash with
  | none => false
  | some previous => previous ≠ record

/-- Sets a deployer under its bytecode hash, and its meta under the meta's hash unless there
is a payload under it. -/
def setDeployer (s : Store) (record : DeployerRecord) : Store :=
  { s with
    cache := s.cache.setNew record.metaHash record.metaBytes
    deployers := s.deployers.set record.bytecodeMetaHash record }

end Store

end RainMeta
