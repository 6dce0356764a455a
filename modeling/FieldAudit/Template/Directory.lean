import FieldAudit.Failure
import FieldAudit.Text.Utf8

/-! # Templates of a directory

Every file at any depth is a template, named by its path from the directory.  Files are read
directory by directory in the order of their names, and the first that fails makes the whole
directory fail.  The answer lists the templates by their paths. -/

namespace FieldAudit

mutual

/-- The files of a tree with the names that lead to them, and what of it cannot be read, in the
order of a walk that visits the entries of each directory by name. -/
def FileTree.walk : FileTree → List (List String × Except Refusal (List UInt8))
  | .file bytes => [([], .ok bytes)]
  | .refused refusal => [([], .error refusal)]
  | .directory entries =>
    ((FileTree.walkEntries entries).mergeSort fun a b => Text.le a.1 b.1).flatMap
      fun (name, files) => files.map fun (names, content) => (name :: names, content)

/-- The files below each entry of a directory. -/
def FileTree.walkEntries : List (String × FileTree) →
    List (String × List (List String × Except Refusal (List UInt8)))
  | [] => []
  | (name, tree) :: rest => (name, FileTree.walk tree) :: FileTree.walkEntries rest

end

/-- What becomes of a walk that meets something that cannot be read: it cannot go on into a
directory, and a file is listed but cannot be opened. -/
def Refusal.failure (refusal : Refusal) (root : String) (names : List String) : Failure :=
  let path := names.foldl Path.join root
  if refusal.isDirectory then .walk root path refusal.error else .read path refusal.error

namespace Template

/-- The field references of a file below a directory. -/
def analyzeFile (d : Delimiters) (root : String) (names : List String) :
    Except Refusal (List UInt8) → Except Failure (String × List FieldReference)
  | .error refusal => .error (refusal.failure root names)
  | .ok bytes =>
    let path := "/".intercalate names
    match analyze d path (Text.decode bytes) with
    | .ok references => .ok (path, references)
    | .error failure => .error (.template failure)

/-- The field references of all templates of a directory, by path. -/
def analyzeTree (d : Delimiters) (root : String) (tree : FileTree) :
    Except Failure (List (String × List FieldReference)) := do
  let templates ← tree.walk.mapM fun (names, content) => analyzeFile d root names content
  return templates.mergeSort fun a b => Text.le a.1 b.1

end Template

end FieldAudit
