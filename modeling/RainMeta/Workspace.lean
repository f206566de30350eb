import RainMeta.Document
import RainMeta.Environment
import RainMeta.FileTree.Change
import RainMeta.Hex
import RainMeta.Path

/-!
# Workspaces

A workspace is what a command works on: files, and the variables of the environment.

* `Workspace.ofDocument`: the workspace that a document describes. Under `environment` it has
  the variables, under `files` a list of objects, each with a `path` and one of `text`, `hex`,
  `link` and `directory`.
-/

namespace RainMeta

/-- Files and variables. -/
structure Workspace where
  tree : FileTree := .empty
  environment : Environment := ⟨[]⟩

namespace Workspace

/-- What stands at the end of a path. -/
def nodeOf (entry : Value) : Node :=
  match entry.field? "text", entry.field? "hex", entry.field? "link" with
  | some (.text t), _, _ => .file (t.flatMap Utf8.encodeOneEscaped)
  | _, some (.text digits), _ => .file ((Hex.decode digits).toOption.getD [])
  | _, _, some (.text target) => .link (target.flatMap Utf8.encodeOneEscaped)
  | _, _, _ => .directory []

/-- Puts what an object describes into a tree. -/
def placeEntry (t : FileTree) (entry : Value) : FileTree :=
  match entry.field? "path" with
  | some (.text path) =>
    t.place (namesIn (path.flatMap Utf8.encodeOneEscaped)) (nodeOf entry)
  | _ => t

/-- The workspace that a document describes. -/
def ofDocument (v : Value) : Workspace :=
  let files : List Value := match v.field? "files" with
    | some (.list entries) => entries
    | _ => []
  let bindings : List (Value × Value) := match v.field? "environment" with
    | some (.mapping entries) => entries
    | _ => []
  { tree := files.foldl placeEntry .empty
    environment := ⟨bindings.filterMap fun e =>
      match e with
      | (.text name, .text value) => some (name, value)
      | _ => none⟩ }

end Workspace

end RainMeta
