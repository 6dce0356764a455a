import FieldAudit.Template.Node.Walk
import FieldAudit.Template.Tree
import FieldAudit.Text.Location

/-! # The fields a template needs

A template refers to its data by fields such as `.User.Name`.  The references of a template are
those of its own nodes in the order of a walk; the templates defined in it do not count. -/

namespace FieldAudit.Template

/-- A reference to the data: where it stands, and the names it follows. -/
structure FieldReference where
  path : String
  offset : Nat
  line : Nat
  column : Nat
  chain : List String
  deriving DecidableEq, Repr

/-- The names that a node follows into the data.  A function is no reference. -/
def Node.chain? : Node → Option (List String)
  | .field _ path => some path
  | .identifier _ name isFunction => if isFunction then none else some [name]
  | _ => none

/-- The references of a block of a template with the given path and source. -/
def fieldReferences (path : String) (source : List Char) (root : Block Node) :
    List FieldReference :=
  let lengths := Text.lineLengths source
  root.visited fun node =>
    node.chain?.map fun chain =>
      let place := Text.locate node.pos lengths
      ⟨path, node.pos, place.line, place.column, chain⟩

/-- A template that cannot be read: its path, the place of the error and the error. -/
structure ParseFailure where
  path : String
  line : Nat
  column : Nat
  error : Error
  deriving DecidableEq, Repr

/-- The wording of a failure. -/
def ParseFailure.message (f : ParseFailure) : String :=
  "template " ++ f.path ++ ":" ++ toString f.line ++ ":" ++ toString f.column ++ ": " ++
    f.error.message

/-- The references of a template given by its source. -/
def analyze (d : Delimiters) (path : String) (source : List Char) :
    Except ParseFailure (List FieldReference) :=
  match parse d source with
  | .ok tree => .ok (fieldReferences path source tree.root)
  | .error e =>
    let place := Text.locationOf e.pos source
    .error ⟨path, place.line, place.column, e⟩

end FieldAudit.Template
