import FieldAudit.Go.TypeName
import FieldAudit.Render.Api

/-! # Arguments of calls

An argument that is a name stands for its first value.  A template name is a string literal, and
the data is a composite literal with keys, the address of one, or `nil`. -/

namespace FieldAudit.Go

open Render (Unsupported)

/-- The first value of the name that an argument is, and the file it is in. -/
def Package.initializer (package : Package) (file : File) (argument : Cursor) :
    Except Unsupported (File × Cursor) :=
  let name := file.text argument.node
  match package.lookup? file name argument with
  | none => .error (.argument ("cannot resolve " ++ name))
  | some binding =>
    match binding.value with
    | none => .error (.argument (name ++ " has no initializer"))
    | some value => .ok (binding.file, value)

/-- The value of an argument and the file it is in: the first value of a name, and anything else
itself. -/
def Package.argumentValue (package : Package) (file : File) (argument : Cursor) :
    Except Unsupported (File × Cursor) :=
  if argument.node.kind = .identifier then package.initializer file argument
  else .ok (file, argument)

/-- The text that a string literal stands for. -/
def stringValue (file : File) (literal : Node) : Except Unsupported String :=
  match Literal.unquote (file.text literal).toList with
  | .ok text => .ok (String.ofList text)
  | .error malformed => .error (.argument malformed.message)

/-- Whether a node is a string literal. -/
def isStringLiteral (node : Node) : Bool :=
  node.kind = .interpretedString || node.kind = .rawString

/-- The template name that an argument gives. -/
def Package.templateName (package : Package) (file : File) (argument : Cursor) :
    Except Unsupported String := do
  let (valueFile, value) ← package.argumentValue file argument
  if isStringLiteral value.node then stringValue valueFile value.node
  else
    .error (.argument
      ("template name " ++ file.text argument.node ++ " is not a string literal"))

/-! ## Data -/

/-- The kinds of keys that count as they are written. -/
def isPlainKey (kind : Kind) : Bool :=
  [Kind.intLiteral, .floatLiteral, .imaginaryLiteral, .runeLiteral, .trueLiteral, .falseLiteral,
    .identifier, .fieldIdentifier].contains kind

/-- The key of a keyed element, if there is one.  An element wraps its value. -/
def keyNode? (element : Node) : Option Node := do
  let key ← element.part?
  if key.kind = .literalElement then key.part? else some key

/-- The keys that an element of a literal supplies: a string, a literal or a name, and nothing for
any other key. -/
def elementKeys (file : File) (element : Node) : Except Unsupported (List String) :=
  if element.kind ≠ .keyedElement then
    .error (.argument "composite literal elements must be keyed")
  else
    match keyNode? element with
    | none => .ok []
    | some key =>
      if isStringLiteral key then (stringValue file key).map ([·])
      else if isPlainKey key.kind then .ok [file.text key]
      else .ok []

/-- The keys of a composite literal in order. -/
def compositeKeys (file : File) (literal : Cursor) : Except Unsupported (List String) :=
  match literal.inRole? .body with
  | none => .ok []
  | some body => return (← body.parts.mapM fun c => elementKeys file c.node).flatten

/-- The keys that an argument supplies. -/
def Package.suppliedKeys (package : Package) (file : File) (argument : Cursor) :
    Except Unsupported (List String) := do
  let (valueFile, value) ← package.argumentValue file argument
  let unsupported : Unsupported :=
    .argument ("data argument " ++ valueFile.text value.node ++ " is not a composite literal")
  match value.node.kind with
  | .nilLiteral => return []
  | .compositeLiteral => compositeKeys valueFile value
  | .unaryExpression =>
    match addressedLiteral? valueFile value with
    | some literal => compositeKeys valueFile literal
    | none => .error unsupported
  | _ => .error unsupported

/-- The argument at a position. -/
def argumentAt (arguments : List Cursor) (index : Nat) : Except Unsupported Cursor :=
  match arguments[index]? with
  | some argument => .ok argument
  | none => .error (.argument ("missing argument " ++ toString (index + 1)))

/-- The arguments of a call by their list. -/
def Package.arguments (package : Package) (file : File) (list : Cursor) : Render.Arguments where
  count := list.parts.length
  templateName index := do package.templateName file (← argumentAt list.parts index)
  suppliedKeys index := do package.suppliedKeys file (← argumentAt list.parts index)

end FieldAudit.Go
