import FieldAudit.FileTree

/-! # The surroundings of a run -/

namespace FieldAudit

/-- A standard output that takes so many bytes and then fails. -/
structure Outlet where
  room : Nat
  error : OsError
  deriving DecidableEq, Repr

/-- The files that a run sees, the home directory, the search path for Go packages, and the standard
output if it fails at some point. -/
structure Workspace where
  files : FileSystem
  home : Option String
  goPath : Option String
  outlet : Option Outlet := none

namespace Workspace

/-- The directories that Go packages are searched under. -/
def roots (w : Workspace) : List String :=
  let standard := w.home.toList.map (Path.join · "go")
  match w.goPath with
  | some value =>
    if value.isEmpty then standard else (Text.splitOn ':' value.toList).map String.ofList
  | none => standard

/-- The directories that hold Go packages by their import paths. -/
def sourceRoots (w : Workspace) : List String :=
  w.roots.map (Path.join · "src")

/-- The import path of a directory: its names below the first source root that it is in. -/
def importPath? (w : Workspace) (directory : String) : Option String := do
  let place ← (w.files.locate directory).toOption
  w.sourceRoots.findSome? fun root => do
    let base ← (w.files.locate root).toOption
    if base.isPrefixOf place then
      return "/".intercalate (place.drop base.length)
    else none

end Workspace

end FieldAudit
