import FieldAudit.Go.Binding

/-! # Names of types

The name of a type is its name in the package that declares it, after the path of that package.
The type of an expression is known where its text states it: literals, `new`, and the functions of
the template packages.  A name has the type of what it stands for, and such a chain of names is
followed for a bounded number of steps. -/

namespace FieldAudit.Go

/-- The packages whose functions make templates. -/
def templatePackages : List String :=
  ["html/template", "text/template"]

/-- The functions of the template packages that give a template first. -/
def templateConstructors : List String :=
  ["New", "Must", "ParseFiles", "ParseGlob", "ParseFS"]

/-- The methods of a template that give nothing but a template. -/
def templateBuilders : List String :=
  ["New", "Funcs", "Delims", "Option", "Lookup"]

/-- The type of the templates that a package makes. -/
def templateType (path : String) : String :=
  "*" ++ path ++ ".Template"

/-- The number of steps from a name to the expression that states its type. -/
def typeSteps : Nat := 8

/-! ## Types as written -/

/-- The qualified name of a type.  A name without a package is one of the package itself. -/
def Package.typeName? (package : Package) (file : File) (type : Node) : Option String :=
  match type.kind with
  | .typeIdentifier => some (package.importPath ++ "." ++ file.text type)
  | .qualifiedType => do
    let path ← file.importPath? (file.text (← type.inRole? .package))
    return path ++ "." ++ file.text (← type.inRole? .name)
  | .pointerType =>
    match _h : type.part? with
    | some target => (package.typeName? file target).map ("*" ++ ·)
    | none => none
  | .parenthesizedType =>
    match _h : type.part? with
    | some inner => package.typeName? file inner
    | none => none
  | .genericType =>
    match _h : type.inRole? .type with
    | some base => package.typeName? file base
    | none => none
  | _ => none
termination_by sizeOf type
decreasing_by
  · exact Node.sizeOf_lt_of_mem_children (Node.part?_mem _h)
  · exact Node.sizeOf_lt_of_mem_children (Node.part?_mem _h)
  · exact Node.sizeOf_lt_of_mem_children (Node.inRole?_mem _h)

/-- The type that a composite literal states. -/
def Package.literalType? (package : Package) (file : File) (literal : Node) : Option String := do
  package.typeName? file (← literal.inRole? .type)

/-! ## Types of expressions -/

/-- Whether an expression takes the address of a composite literal. -/
def addressedLiteral? (file : File) (expression : Cursor) : Option Cursor := do
  let operator ← expression.inRole? .operator
  let operand ← expression.inRole? .operand
  if file.text operator.node = "&" && operand.node.kind = .compositeLiteral then some operand
  else none

/-- The type of a binding, by the type of its value unless it states one. -/
def Package.bindingType? (package : Package) (valueType : File → Cursor → Option String)
    (binding : Binding) : Option String :=
  match binding.type with
  | some type => package.typeName? binding.file type
  | none => binding.value.bind (valueType binding.file)

/-- The type of the template that a function of an imported package gives. -/
def constructedType? (file : File) (qualifier function : String) : Option String := do
  let path ← file.importPath? qualifier
  if templatePackages.contains path && templateConstructors.contains function then
    return templateType path
  else none

/-- The type that a method of a template gives, if it is the type of the template. -/
def builtType? (receiver method : String) : Option String :=
  if (templatePackages.map templateType).contains receiver && templateBuilders.contains method
  then some receiver else none

/-- The type of a call, by the type of the operand of its function. -/
def Package.callType? (package : Package) (operandType : File → Cursor → Option String)
    (file : File) (call : Cursor) : Option String := do
  let function ← call.inRole? .function
  if function.node.kind = .identifier && file.text function.node = "new" then
    let arguments ← call.inRole? .arguments
    let type ← package.typeName? file (← arguments.node.part?)
    return "*" ++ type
  else if function.node.kind = .selectorExpression then
    let operand ← function.inRole? .operand
    let field := file.text (← function.inRole? .field).node
    let qualifier := file.text operand.node
    if operand.node.kind = .identifier && (package.lookup? file qualifier operand).isNone then
      constructedType? file qualifier field
    else builtType? (← operandType file operand) field
  else none

/-- The type of an expression, found in a number of steps. -/
def Package.expressionType? (package : Package) : Nat → File → Cursor → Option String
  | 0, _, _ => none
  | steps + 1, file, expression =>
    match expression.node.kind with
    | .compositeLiteral => package.literalType? file expression.node
    | .unaryExpression => do
      let literal ← addressedLiteral? file expression
      return "*" ++ (← package.literalType? file literal.node)
    | .parenthesizedExpression => do
      package.expressionType? steps file (← expression.part?)
    | .identifier => do
      let binding ← package.lookup? file (file.text expression.node) expression
      package.bindingType? (package.expressionType? steps) binding
    | .callExpression => package.callType? (package.expressionType? steps) file expression
    | _ => none

/-- The type of a name where it is used. -/
def Package.identifierType? (package : Package) (file : File) (name : String) (use : Cursor) :
    Option String := do
  package.bindingType? (package.expressionType? typeSteps) (← package.lookup? file name use)

end FieldAudit.Go
