import FieldAudit.Text.Basic

/-! # Trees of files

A file tree is a file with its bytes, a directory with named entries, or one of the two that the
operating system refuses to read.  A path names a place in a tree from the directory where a run
takes place, or from the root of the tree. -/

namespace FieldAudit

/-- Why the operating system refuses something, in its own words. -/
structure OsError where
  message : String
  deriving DecidableEq, Repr

namespace OsError

/-- There is nothing of that name. -/
def noEntry : OsError := ⟨"No such file or directory (os error 2)"⟩

/-- A path goes on behind a file. -/
def notDirectory : OsError := ⟨"Not a directory (os error 20)"⟩

/-- A file that is read as text is none. -/
def notText : OsError := ⟨"stream did not contain valid UTF-8"⟩

end OsError

/-- A file or a directory that cannot be read, and why. -/
structure Refusal where
  isDirectory : Bool
  error : OsError
  deriving DecidableEq, Repr

/-- A file or a directory. -/
inductive FileTree where
  | file (bytes : List UInt8)
  | directory (entries : List (String × FileTree))
  | refused (refusal : Refusal)

namespace FileTree

/-- Whether a tree is a directory. -/
def isDirectory : FileTree → Bool
  | file _ => false
  | directory _ => true
  | refused refusal => refusal.isDirectory

/-- The entries of a directory.  Anything else has none. -/
def entries : FileTree → List (String × FileTree)
  | directory entries => entries
  | _ => []

/-- The bytes of a file, or why they cannot be read.  A directory has no such content. -/
def content? : FileTree → Option (Except OsError (List UInt8))
  | file bytes => some (.ok bytes)
  | directory _ => none
  | refused refusal => if refusal.isDirectory then none else some (.error refusal.error)

/-- The entry of a directory with a name. -/
def entry? (tree : FileTree) (name : String) : Option FileTree :=
  tree.entries.lookup name

/-- The tree at the end of a list of names. -/
def descend? (tree : FileTree) : List String → Option FileTree
  | [] => some tree
  | name :: rest => (tree.entry? name).bind (descend? · rest)

/-- Entries with a tree put under a name, in the place of one of that name. -/
def putEntry (name : String) (tree : FileTree) (entries : List (String × FileTree)) :
    List (String × FileTree) :=
  if entries.any (·.1 = name) then entries.map fun e => if e.1 = name then (name, tree) else e
  else entries ++ [(name, tree)]

/-- A tree with another put at the end of a list of names, and the directories on the way. -/
def put (tree : FileTree) (names : List String) (new : FileTree) : FileTree :=
  match names with
  | [] =>
    match tree, new with
    | directory entries, directory [] => directory entries
    | _, _ => new
  | name :: rest =>
    let inner := (tree.entry? name).getD (directory [])
    directory (putEntry name (put inner rest new) tree.entries)

end FileTree

/-! ## Paths -/

namespace Path

/-- Whether a path starts at the root. -/
def isAbsolute (path : String) : Bool :=
  path.toList.head? = some '/'

/-- A path after another one.  A path from the root stands for itself. -/
def join (base path : String) : String :=
  if isAbsolute path || base.isEmpty then path
  else if base.toList.getLast? = some '/' then base ++ path
  else base ++ "/" ++ path

/-- The texts between the slashes of a path. -/
def segments (path : String) : List String :=
  (Text.splitOn '/' path.toList).map String.ofList

/-- The names of a path.  Slashes in a row count as one, and a point names nothing. -/
def names (path : String) : List String :=
  (segments path).filter fun name => !name.isEmpty && name ≠ "."

/-- Whether a path ends in a slash or a point, so that it can only name a directory. -/
def namesDirectory (path : String) : Bool :=
  (segments path).getLast?.any fun last => last.isEmpty || last = "."

end Path

/-- A tree of files and the names that lead to the directory of the run. -/
structure FileSystem where
  root : FileTree
  current : List String

namespace FileSystem

/-- Follows names from a place, given by the names that lead to it.  Two points lead back. -/
def follow (fs : FileSystem) (place : List String) : List String → Except OsError (List String)
  | [] => .ok place
  | name :: rest =>
    match fs.root.descend? place with
    | none => .error .noEntry
    | some (.file _) => .error .notDirectory
    | some (.refused refusal) =>
      .error (if refusal.isDirectory then refusal.error else .notDirectory)
    | some (.directory entries) =>
      if name = ".." then fs.follow place.dropLast rest
      else if entries.any (·.1 = name) then fs.follow (place ++ [name]) rest
      else .error .noEntry

/-- The place that a path names. -/
def locate (fs : FileSystem) (path : String) : Except OsError (List String) :=
  if path.isEmpty then .error .noEntry
  else
    let start := if Path.isAbsolute path then [] else fs.current
    match fs.follow start (Path.names path) with
    | .error error => .error error
    | .ok place =>
      if Path.namesDirectory path && (fs.root.descend? place).any (!·.isDirectory) then
        .error .notDirectory
      else .ok place

/-- The tree that a path names. -/
def tree (fs : FileSystem) (path : String) : Except OsError FileTree := do
  match fs.root.descend? (← fs.locate path) with
  | some tree => .ok tree
  | none => .error .noEntry

/-- Whether a path names a directory. -/
def isDirectory (fs : FileSystem) (path : String) : Bool :=
  match fs.tree path with
  | .ok tree => tree.isDirectory
  | .error _ => false

end FileSystem

end FieldAudit
