import RainMeta.Config
import RainMeta.Keccak
import RainMeta.Run
import RainMeta.Text.Blank

/-!
# Loading metas

* `MetaFile.read`: the bytes of a meta, from a file that holds them or that spells them in
  hexadecimal digits between blanks.
* `MetaFile.loadAll`: the metas of several files with their hashes; files that fail are
  skipped or end the run.
-/

namespace RainMeta

/-- A meta that was loaded: its bytes under their hash. -/
structure LoadedMeta where
  hash : Bytes
  bytes : Bytes
  deriving DecidableEq

/-- A meta under its own hash. -/
def LoadedMeta.ofBytes (b : Bytes) : LoadedMeta :=
  { hash := keccak256 b, bytes := b }

namespace MetaFile

/-- The bytes that the content of a file spells in hexadecimal digits. Line ends of all kinds
and blanks around the digits do not matter. -/
def decodeHex (path : Path) (content : Bytes) : Except Failure Bytes :=
  match Utf8.decode content with
  | .error e => .error (.metaNotUtf8 path e.reason)
  | .ok text => (Hex.decode text.unifyLineEnds.strip).mapError (.metaHexInvalid path)

/-- The bytes of a meta. -/
def read (t : FileTree) (entry : MetaEntry) : Run Bytes := do
  let content ← Run.access (.metaUnreadable entry.path) (t.readFile entry.path.text)
  match entry with
  | .binary _ => return content
  | .hex path => match decodeHex path content with
    | .ok b => return b
    | .error cause => Run.fail cause

/-- The meta of one file, unless it is skipped. -/
def load (t : FileTree) (policy : Policy) (entry : MetaEntry) : Run (Option LoadedMeta) :=
  Run.skipping policy "meta" entry.path.text (LoadedMeta.ofBytes <$> read t entry)

/-- The metas of several files. -/
def loadAll (t : FileTree) (policy : Policy) (entries : List MetaEntry) :
    Run (List LoadedMeta) := do
  let loaded := (← entries.mapM (load t policy)).reduceOption
  Run.record (.metasLoaded loaded.length)
  return loaded

end MetaFile

end RainMeta
