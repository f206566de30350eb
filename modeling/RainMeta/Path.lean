import RainMeta.Text

/-!
# Paths

A path is a root and the names below it. Reading a path drops empty names and names that are
a single dot; names of two dots stay.

* `Path`: a path; `Path.ofText` reads one and `Path.text` writes it.
* `Path.join`: a path seen from another one.
* `Path.parent`, `Path.name`, `Path.suffix`, `Path.child`.
-/

namespace RainMeta

/-- Where a path starts. Exactly two slashes in front are a root of their own. -/
inductive PathRoot
  | relative | absolute | doubled
  deriving DecidableEq

/-- How the start is written. -/
def PathRoot.text : PathRoot → Text
  | .relative => []
  | .absolute => "/"
  | .doubled => "//"

/-- A path: its start and its names. -/
structure Path where
  root : PathRoot
  names : List Text
  deriving DecidableEq

namespace Path

/-- The slash between names. -/
def slash : CodePoint := CodePoint.ofChar '/'

/-- The dot in names. -/
def dot : CodePoint := CodePoint.ofChar '.'

/-- The path that is where one is. -/
def here : Path := ⟨.relative, []⟩

/-- The start of a written path. -/
def rootOf (t : Text) : PathRoot :=
  match (t.takeWhile (· = slash)).length with
  | 0 => .relative
  | 2 => .doubled
  | _ => .absolute

/-- Reads a path. -/
def ofText (t : Text) : Path :=
  { root := rootOf t
    names := (t.splitOn slash).filter fun name => name ≠ [] && name ≠ [dot] }

/-- Writes a path; the one without start and names is a dot. -/
def text (p : Path) : Text :=
  match p.root, p.names with
  | .relative, [] => [dot]
  | root, names => root.text ++ Text.join [slash] names

/-- Whether the path has a root of its own. -/
def isAbsolute (p : Path) : Bool :=
  p.root ≠ .relative

/-- The path `p` seen from `base`: itself if it is absolute, else below `base`. -/
def join (base p : Path) : Path :=
  if p.isAbsolute then p else { base with names := base.names ++ p.names }

/-- The path of an entry of a directory. -/
def child (p : Path) (name : Text) : Path :=
  { p with names := p.names ++ [name] }

/-- The path without its last name. -/
def parent (p : Path) : Path :=
  { p with names := p.names.dropLast }

/-- The last name; empty if there is none. -/
def name (p : Path) : Text :=
  p.names.getLast?.getD []

/-- The last dot of the name and what follows it; empty if nothing stands before that dot or
after it. -/
def suffix (p : Path) : Text :=
  match p.name.lastIndexOf? dot with
  | none => []
  | some i => if 0 < i && i + 1 < p.name.length then p.name.drop i else []

end Path

end RainMeta
