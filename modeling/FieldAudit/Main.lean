import FieldAudit.CommandLine
import FieldAudit.CommandLine.OptionReader
import FieldAudit.Go.SourceTree

/-! # The program

Takes a picture of the files that the arguments name, runs on it, and writes what comes out. -/

namespace FieldAudit

/-- What a reading gives, or the tree that stands for a refused one. -/
def orRefused (isDirectory : Bool) (reading : IO FileTree) : IO FileTree := do
  try reading
  catch error => return .refused ⟨isDirectory, ⟨error.toString⟩⟩

/-- The files at a path. -/
partial def snapshot (path : String) : IO (Option FileTree) := do
  try
    let real ← IO.FS.realPath path
    let isDirectory ← real.isDir
    orRefused isDirectory do
      if isDirectory then
        let entries ← real.readDir
        let trees ← entries.toList.mapM fun entry => do
          return (← snapshot entry.path.toString).map (entry.fileName, ·)
        return .directory (trees.filterMap id)
      else return .file (← IO.FS.readBinFile real).toList
  catch _ => return none

/-- The names that lead to a path from the root. -/
def realNames (path : String) : IO (Option (List String)) := do
  try return some (Path.names (← IO.FS.realPath path).toString)
  catch _ => return none

/-- A tree with the files at a path, and the directories on the way to it. -/
def mount (tree : FileTree) (path : String) : IO FileTree := do
  let segments := Path.segments path
  let mut tree := tree
  for count in List.range segments.length do
    if let some names ← realNames ("/".intercalate (segments.take (count + 1))) then
      if let none := tree.descend? names then
        tree := tree.put names (.directory [])
  match ← realNames path, ← snapshot path with
  | some names, some files => return tree.put names files
  | _, _ => return tree

/-- The surroundings of a run with some settings. -/
def surroundings (settings : Settings) : IO Workspace := do
  let current := (← realNames ".").getD []
  let home ← IO.getEnv "HOME"
  let goPath ← IO.getEnv "GOPATH"
  let start : FileTree := (FileTree.directory []).put current (.directory [])
  let w : Workspace := { files := ⟨start, current⟩, home, goPath }
  let mut tree := start
  for root in w.sourceRoots do
    if let some names ← realNames root then
      tree := tree.put names (.directory [])
  for path in settings.templates :: settings.package ::
      w.sourceRoots.map (Path.join · settings.package) do
    tree ← mount tree path
  return { w with files := ⟨tree, current⟩ }

end FieldAudit

/-- Runs with the arguments of the command line. -/
def main (arguments : List String) : IO UInt32 := do
  let tools : FieldAudit.CommandLine.Tools :=
    ⟨FieldAudit.CommandLine.readOptions, FieldAudit.Go.Grammar.parser⟩
  let vector := ("tmplcheck" :: arguments).map fun text => FieldAudit.Text.encode text.toList
  let settings :=
    match tools.options (FieldAudit.CommandLine.normalizeVector vector) with
    | .ok options => options.settings
    | .error _ => { templates := "", package := "" }
  let outcome := FieldAudit.CommandLine.run tools (← FieldAudit.surroundings settings) vector
  IO.eprint outcome.errors
  IO.print outcome.output
  return outcome.exitCode.toUInt32
