import RainMeta.Path
import RainMeta.Text.Quoted
import RainMeta.Text.Utf8

/-!
# File trees

A file tree holds files, directories and symbolic links, and a place in it from which relative
paths start. Nothing in it changes while it is read.

Whoever reads may read everything: there are no permissions, and no devices, pipes or sockets. So
the system refuses a path only because it leads nowhere, to a node of another kind, through a name
or a path that is too long, or through too many links (`OsError`). Refusals of other kinds, such as
that of a file which may not be read, are outside of what is said here.

* `FileTree`: the tree, and the working directory.
* `FileTree.resolve`: where the names of a path lead, links followed, at most forty of them.
* `FileTree.readFile`, `FileTree.list`, `FileTree.kindOf`: what is read.
* `OsError`, `AccessError`: why nothing can be read.
-/

namespace RainMeta

/-! ### Errors -/

/-- Why the system refuses a path. -/
inductive OsError
  | noEntry | exists | notDirectory | isDirectory | nameTooLong | tooManyLinks
  deriving DecidableEq

/-- The number of the error. -/
def OsError.number : OsError → Nat
  | .noEntry => 2
  | .exists => 17
  | .notDirectory => 20
  | .isDirectory => 21
  | .nameTooLong => 36
  | .tooManyLinks => 40

/-- The words for the error. -/
def OsError.text : OsError → Text
  | .noEntry => "No such file or directory"
  | .exists => "File exists"
  | .notDirectory => "Not a directory"
  | .isDirectory => "Is a directory"
  | .nameTooLong => "File name too long"
  | .tooManyLinks => "Too many levels of symbolic links"

/-- The words for the error, with its number and the path. -/
def OsError.message (e : OsError) (path : Text) : Text :=
  "[Errno " ++ Text.ofNat e.number ++ "] " ++ e.text ++ ": " ++ path.quoted

/-- Why a path cannot be used. -/
inductive AccessError
  /-- The system refuses it. -/
  | os (cause : OsError)
  /-- It holds a NUL character. -/
  | embeddedNul
  /-- It holds surrogates that stand for no byte. -/
  | unencodable (cause : EncodeError)
  deriving DecidableEq

/-- The words for it, about a path. -/
def AccessError.message (path : Text) : AccessError → Text
  | .os cause => cause.message path
  | .embeddedNul => "embedded null byte"
  | .unencodable cause => cause.message

/-! ### Trees -/

/-- What stands under a name. -/
inductive Node
  | file (content : Bytes)
  | link (target : Bytes)
  | directory (entries : List (Bytes × Node))
  deriving Inhabited

/-- The names that lead from the root to a node, without links. -/
abbrev Location := List Bytes

namespace Node

/-- The node under a name among the entries of a directory. -/
def named? (name : Bytes) (entries : List (Bytes × Node)) : Option Node :=
  (entries.find? fun e => e.1 == name).map Prod.snd

/-- The node at a location below a node. -/
def at? : Location → Node → Option Node
  | [], node => some node
  | name :: rest, .directory entries => (named? name entries).bind (at? rest)
  | _ :: _, _ => none

/-- Puts a node under a name among the entries of a directory. -/
def putEntry (name : Bytes) (node : Node) : List (Bytes × Node) → List (Bytes × Node)
  | [] => [(name, node)]
  | e :: rest => if e.1 == name then (name, node) :: rest else e :: putEntry name node rest

/-- Puts a node at a location; the directory that is to hold it has to exist. -/
def putAt (new : Node) : Location → Node → Node
  | [], _ => new
  | name :: rest, .directory entries =>
    match named? name entries, rest with
    | some node, _ => .directory (putEntry name (putAt new rest node) entries)
    | none, [] => .directory (putEntry name new entries)
    | none, _ :: _ => .directory entries
  | _ :: _, node => node

end Node

/-- A tree and the location of its working directory. -/
structure FileTree where
  root : Node
  workingDirectory : Location

/-- The kinds of nodes that no link hides. -/
inductive FileKind
  | file | directory
  deriving DecidableEq

/-- Where the names of a path lead. -/
inductive Spot
  /-- To a node that is no link. -/
  | node (location : Location)
  /-- To a name that its directory lacks. -/
  | vacant (location : Location)

/-- The names in a written path or link target. -/
def namesIn (b : Bytes) : List Bytes :=
  b.foldr (fun c names =>
    if c = 47 then [] :: names
    else match names with
      | [] => [[c]]
      | n :: ns => (c :: n) :: ns) [[]]

namespace FileTree

/-- The greatest number of links that are followed for one path. -/
def mostLinks : Nat := 40

/-- The greatest number of bytes of a name. -/
def longestName : Nat := 255

/-- The greatest number of bytes of a path. -/
def longestPath : Nat := 4095

/-- Where names lead from a location, if at most `links` links are followed. What has more
names after it has to be a directory; an empty name or a dot stays where it is, and two dots
lead to the directory above. -/
def resolve (t : FileTree) (links : Nat) (location : Location) (names : List Bytes) :
    Except OsError Spot :=
  match names with
  | [] => .ok (.node location)
  | name :: rest =>
    if name = [] || name = [46] then t.resolve links location rest
    else if name = [46, 46] then t.resolve links location.dropLast rest
    else if longestName < name.length then .error .nameTooLong
    else match t.root.at? (location ++ [name]) with
      | none => if rest.isEmpty then .ok (.vacant (location ++ [name])) else .error .noEntry
      | some (.directory _) => t.resolve links (location ++ [name]) rest
      | some (.file _) =>
        if rest.isEmpty then .ok (.node (location ++ [name])) else .error .notDirectory
      | some (.link target) =>
        match links with
        | 0 => .error .tooManyLinks
        | links + 1 =>
          let start := if target.head? = some 47 then [] else location
          t.resolve links start (namesIn target ++ rest)
termination_by (links, names.length)

/-- The bytes of a written path, if it can be used at all. -/
def pathBytes (path : Text) : Except AccessError Bytes :=
  match Utf8.encodeEscaped path with
  | .error cause => .error (.unencodable cause)
  | .ok b =>
    if b.contains 0 then .error .embeddedNul
    else if longestPath < b.length then .error (.os .nameTooLong)
    else .ok b

/-- Where a written path leads. -/
def spot (t : FileTree) (path : Text) : Except AccessError Spot := do
  let b ← pathBytes path
  let start := if b.head? = some 47 then [] else t.workingDirectory
  (t.resolve mostLinks start (namesIn b)).mapError .os

/-- The node that a written path leads to, which is no link. -/
def find (t : FileTree) (path : Text) : Except AccessError Node := do
  match ← t.spot path with
  | .vacant _ => .error (.os .noEntry)
  | .node location => match t.root.at? location with
    | none => .error (.os .noEntry)
    | some node => .ok node

/-- The content of a file. -/
def readFile (t : FileTree) (path : Text) : Except AccessError Bytes := do
  match ← t.find path with
  | .file content => .ok content
  | _ => .error (.os .isDirectory)

/-- The entries of a directory, as they stand, without order. -/
def list (t : FileTree) (path : Text) : Except AccessError (List (Bytes × Node)) := do
  match ← t.find path with
  | .directory entries => .ok entries
  | _ => .error (.os .notDirectory)

/-- Whether a path leads to a file or to a directory. -/
def kindOf (t : FileTree) (path : Text) : Except AccessError FileKind := do
  match ← t.find path with
  | .directory _ => .ok .directory
  | _ => .ok .file

end FileTree

end RainMeta
