import FieldAudit.Failure
import FieldAudit.Go.Package
import FieldAudit.Text.Utf8
import FieldAudit.Workspace

/-! # Packages in a workspace

A package is named by its directory or by its import path below a source root.  Its files are the
Go files of the directory itself, without tests, in the order of their names. -/

namespace FieldAudit.Go

/-- Where a package is: its directory and its import path, which is empty if nothing tells it. -/
structure PackageLocation where
  directory : String
  importPath : String
  deriving DecidableEq, Repr

/-- The place of a package. -/
def locatePackage (w : Workspace) (package : String) : Except Failure PackageLocation :=
  if w.files.isDirectory package then .ok ⟨package, (w.importPath? package).getD ""⟩
  else
    match w.sourceRoots.find? fun root => w.files.isDirectory (Path.join root package) with
    | some root => .ok ⟨Path.join root package, package⟩
    | none => .error (.noPackage package w.sourceRoots)

/-- Whether a file name is one of a Go file that is no test. -/
def isSourceName (name : String) : Bool :=
  ".go".toList.isSuffixOf name.toList && !"_test.go".toList.isSuffixOf name.toList

/-- The Go files of a directory by name, each with its bytes or why they cannot be read. -/
def sourceFiles (directory : FileTree) : List (String × Except OsError (List UInt8)) :=
  let files := directory.entries.filterMap fun (name, tree) =>
    if isSourceName name then tree.content?.map (name, ·) else none
  files.mergeSort fun a b => Text.le a.1 b.1

/-- The Go files of the directory at a path. -/
def listSources (w : Workspace) (directory : String) :
    Except Failure (List (String × Except OsError (List UInt8))) :=
  match w.files.tree directory with
  | .error error => .error (.list directory error)
  | .ok (.refused refusal) => .error (.list directory refusal.error)
  | .ok (.file _) => .error (.list directory .notDirectory)
  | .ok (.directory entries) => .ok (sourceFiles (.directory entries))

/-- Whether a parser can be used. -/
def Parser.start (parser : Parser) : Except Failure Unit :=
  match parser.fault with
  | some fault => .error (.grammar fault)
  | none => .ok ()

/-- The text of a file of a directory. -/
def readText (path : String) (content : Except OsError (List UInt8)) :
    Except Failure (List Char) :=
  match content with
  | .error error => .error (.read path error)
  | .ok bytes =>
    match Text.decode? bytes with
    | none => .error (.read path .notText)
    | some source => .ok source

/-- A file of a directory, read from its content. -/
def loadFile (parser : Parser) (directory name : String) (content : Except OsError (List UInt8)) :
    Except Failure File := do
  let source ← readText (Path.join directory name) content
  match File.read parser name source with
  | .error place => .error (.malformed place)
  | .ok file => .ok file

/-- A package with its files.  If its location does not tell the import path, the package clause
of the first file does. -/
def loadPackage (parser : Parser) (w : Workspace) (package : String) : Except Failure Package := do
  let location ← locatePackage w package
  let sources ← listSources w location.directory
  parser.start
  let files ← sources.mapM fun (name, content) =>
    loadFile parser location.directory name content
  let declared := (files.head?.bind File.packageName?).getD ""
  return ⟨if location.importPath.isEmpty then declared else location.importPath, files⟩

end FieldAudit.Go
