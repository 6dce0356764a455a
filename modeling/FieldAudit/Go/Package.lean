import FieldAudit.Go.Cursor
import FieldAudit.Go.Parser
import FieldAudit.Literal
import FieldAudit.Text.Location
import FieldAudit.Warning

/-! # Go packages

A package is a list of files with their syntax trees.  A file knows which packages it imports and
by which names. -/

namespace FieldAudit.Go

/-- The paths of imported packages by the names that a file uses for them. -/
abbrev Imports := List (String × String)

/-- A file of a package. -/
structure File where
  name : String
  source : List Char
  root : Node
  imports : Imports

/-- A package with the path that qualifies its own types. -/
structure Package where
  importPath : String
  files : List File

/-- The text of a node. -/
def File.text (file : File) (node : Node) : String :=
  node.text file.source

/-- The place of the root of a file. -/
def File.top (file : File) : Cursor :=
  ⟨file.root, []⟩

/-! ## Imports -/

/-- Whether a part of a path is a major version, such as `v2`. -/
def isMajorVersion (segment : List Char) : Bool :=
  match segment with
  | 'v' :: digits => !digits.isEmpty && digits.all Char.isDigit
  | _ => false

/-- The name that Go code uses for an import path unless told otherwise: the last part, or the one
before a major version, up to its first point. -/
def defaultPackageName (path : String) : String :=
  let segments := (Text.splitOn '/' path.toList).reverse
  let segment :=
    match segments with
    | last :: previous :: _ => if isMajorVersion last then previous else last
    | [last] => last
    | [] => []
  String.ofList (segment.takeWhile (· ≠ '.'))

mutual

/-- The imports at and below a node in order, with repeated names. -/
def Node.imports : Node → List Node
  | ⟨kind, role, start, stop, children⟩ =>
    match kind with
    | .sourceFile | .importDeclaration | .importSpecList => Node.importsAmong children
    | .importSpec => [⟨kind, role, start, stop, children⟩]
    | _ => []

/-- The imports at and below some nodes. -/
def Node.importsAmong : List Node → List Node
  | [] => []
  | node :: rest => node.imports ++ Node.importsAmong rest

end

/-- The name and path of an import.  Imports without a name of their own to use, and paths that are
no literals, are left out. -/
def importOf? (source : List Char) (spec : Node) : Option (String × String) := do
  let literal ← spec.inRole? .path
  let path ← (Literal.unquote (literal.text source).toList).toOption
  let path := String.ofList path
  match spec.inRole? .name with
  | none => return (defaultPackageName path, path)
  | some name =>
    if name.kind = .packageIdentifier then return (name.text source, path) else none

/-- The first import of each name. -/
def firstImports (imports : Imports) : Imports :=
  imports.eraseDupsBy fun a b => a.1 = b.1

/-- The path of the package that a file calls by a name. -/
def File.importPath? (file : File) (name : String) : Option String :=
  file.imports.lookup name

/-! ## Files -/

/-- The line and the column of an offset in a text, both from one. -/
def position (source : List Char) (offset : Nat) : Nat × Nat :=
  let lines := Text.splitOn '\n' (Text.takeBytes offset source)
  (lines.length, Text.byteLength (lines.getLast?.getD []) + 1)

/-- The line and the column of an offset in a file. -/
def File.locate (file : File) (offset : Nat) : Nat × Nat :=
  position file.source offset

/-- A file read from its text, or the place of its first syntax error. -/
def File.read (parser : Parser) (name : String) (source : List Char) : Except Place File :=
  match parser.tree? source with
  | none => .error ⟨name, 1, 1⟩
  | some root =>
    if root.hasError then
      let (line, column) := position source (root.firstError?.getD root).start
      .error ⟨name, line, column⟩
    else .ok ⟨name, source, root, firstImports (root.imports.filterMap (importOf? source))⟩

/-- The name in the package clause of a file. -/
def File.packageName? (file : File) : Option String := do
  let clause ← file.top.named.find? (·.node.kind = .packageClause)
  let name ← clause.named.find? (·.node.kind = .packageIdentifier)
  return file.text name.node

end FieldAudit.Go
