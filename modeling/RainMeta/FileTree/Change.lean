import RainMeta.FileTree

/-!
# Changing a file tree

* `FileTree.place`: puts a file, a directory or a link under a path and makes the
  directories above it: this is how a tree is laid out.
* `FileTree.makeDirectories`, `FileTree.touch`, `FileTree.append`: what a program does that
  writes a file of its own.
-/

namespace RainMeta.FileTree

/-- The tree with an empty working directory. -/
def empty : FileTree :=
  let name : Bytes := [119, 111, 114, 107, 115, 112, 97, 99, 101]
  { root := .directory [(name, .directory [])], workingDirectory := [name] }

/-- The tree with a node at a location. -/
def put (t : FileTree) (location : Location) (node : Node) : FileTree :=
  { t with root := Node.putAt node location t.root }

/-! ### Laying out -/

/-- Goes along names from a location and makes the directories that are missing. -/
def enter (t : FileTree) (location : Location) : List Bytes → FileTree × Location
  | [] => (t, location)
  | name :: rest =>
    match t.resolve mostLinks location [name] with
    | .ok (.node found) => t.enter found rest
    | .ok (.vacant found) => (t.put found (.directory [])).enter found rest
    | .error _ => (t, location)

/-- Puts a node under the names of a path below the working directory. A file goes where
links lead, a link stands where it is put, and a directory that exists stays. -/
def place (t : FileTree) (names : List Bytes) (node : Node) : FileTree :=
  let (t, location) := t.enter t.workingDirectory names.dropLast
  match names.getLast?, node with
  | none, _ => t
  | some name, .link _ => t.put (location ++ [name]) node
  | some name, .directory _ => (t.enter location [name]).1
  | some name, .file _ =>
    match t.resolve mostLinks location [name] with
    | .ok (.node found) => t.put found node
    | .ok (.vacant found) => t.put found node
    | .error _ => t

/-! ### Directories and files of a program -/

/-- Whether a written path leads to a directory. -/
def isDirectory (t : FileTree) (path : Text) : Bool :=
  match t.kindOf path with
  | .ok .directory => true
  | _ => false

/-- Makes one directory; the one above has to exist. -/
def makeDirectory (t : FileTree) (p : Path) : Except AccessError FileTree := do
  let b ← pathBytes p.text
  let names := namesIn b
  let last := names.getLast?.getD []
  let start := if p.isAbsolute then [] else t.workingDirectory
  -- the empty name at the end asks for a directory
  match ← (t.resolve mostLinks start (names.dropLast ++ [[]])).mapError .os with
  | .vacant _ => .error (.os .noEntry)
  | .node location =>
    if last = [] || last = [46] || last = [46, 46] then .error (.os .exists)
    else if longestName < last.length then .error (.os .nameTooLong)
    else match t.root.at? (location ++ [last]) with
      | some _ => .error (.os .exists)
      | none => .ok (t.put (location ++ [last]) (.directory []))

/-- A directory could not be made: a refusal other than that something is missing will do if
the path is a directory all the same. -/
def unlessDirectory (t : FileTree) (p : Path) (cause : AccessError) :
    Except (AccessError × Path) FileTree :=
  match cause with
  | .os _ => if t.isDirectory p.text then .ok t else .error (cause, p)
  | _ => .error (cause, p)

/-- Makes a directory and those above it that are missing; one that exists will do. The error
names the path that was refused. At most `fuel` directories above are made. -/
def makeDirectoriesWithin (t : FileTree) (p : Path) : Nat → Except (AccessError × Path) FileTree
  | 0 => match t.makeDirectory p with
    | .ok t => .ok t
    | .error (.os .noEntry) => .error (.os .noEntry, p)
    | .error cause => t.unlessDirectory p cause
  | fuel + 1 => match t.makeDirectory p with
    | .ok t => .ok t
    | .error (.os .noEntry) => do
      let t ← t.makeDirectoriesWithin p.parent fuel
      match t.makeDirectory p with
      | .ok t => .ok t
      | .error (.os .noEntry) => .error (.os .noEntry, p)
      | .error cause => t.unlessDirectory p cause
    | .error cause => t.unlessDirectory p cause

/-- Makes a directory and those above it that are missing. -/
def makeDirectories (t : FileTree) (p : Path) : Except (AccessError × Path) FileTree :=
  t.makeDirectoriesWithin p p.names.length

/-- Opens a file for writing at its end: it is made if it is missing. -/
def touch (t : FileTree) (p : Path) : Except AccessError FileTree := do
  match ← t.spot p.text with
  | .vacant location => .ok (t.put location (.file []))
  | .node location => match t.root.at? location with
    | some (.directory _) => .error (.os .isDirectory)
    | _ => .ok t

/-- Writes bytes at the end of a file, if there is one. -/
def append (t : FileTree) (path : Text) (content : Bytes) : FileTree :=
  match t.spot path with
  | .ok (.node location) =>
    match t.root.at? location with
    | some (.file old) => t.put location (.file (old ++ content))
    | _ => t
  | _ => t

end RainMeta.FileTree
