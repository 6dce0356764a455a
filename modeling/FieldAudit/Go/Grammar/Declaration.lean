import FieldAudit.Go.Grammar.Expression

/-! # Declarations

A group of specifications needs a terminator after each.  The names of a constant specification
include the commas between them. -/

namespace FieldAudit.Go.Grammar

open Reader

/-- The values of a specification.  If lines end what is before them, they start on the same
line. -/
def initialValues (g : Grammar) (lineEnds : Bool) : Reader Node := do
  let _ ← following lineEnds "="
  return (← g.expressionList .statement).as .value

/-- Variables with a type, values, or both. -/
def varSpec (g : Grammar) : Reader Node :=
  spanning .varSpec do
    let names ← commaList false (name .identifier)
    let typed : Reader (List Node) := do
      let type ← g.type true
      let values ← maybe (g.initialValues true)
      return type.as .type :: values.toList
    let rest ← typed <|> return [← g.initialValues false]
    return names.map (·.as .name) ++ rest

/-- Constants, with values or without. -/
def constSpec (g : Grammar) : Reader Node :=
  spanning .constSpec do
    let first ← name .identifier
    let rest ← many do
      let comma ← following true ","
      return [leaf .punctuation comma, ← name .identifier]
    let values ← maybeNodes do
      let type ← maybe do
        check fun t => !t.newline
        g.type true
      return (type.map (·.as .type)).toList ++ [← g.initialValues true]
    return (first :: rest.flatten).map (·.as .name) ++ values

/-- A constraint on type parameters. -/
def typeParameter (g : Grammar) : Reader Node :=
  spanning .typeParameterDeclaration do
    let names ← commaList false (name .identifier)
    return names.map (·.as .name) ++ [(← g.typeElement false).as .type]

/-- Type parameters between square brackets. -/
def typeParameters (g : Grammar) : Reader Node :=
  spanning .typeParameterList (bracketedSome "[" "]" g.typeParameter)

/-- A new type or another name for a type. -/
def typeSpec (g : Grammar) : Reader Node :=
  let other := spanning .typeAlias do
    let type ← name .typeIdentifier
    let _ ← symbol "="
    return [type.as .name, (← g.type true).as .type]
  let generic := spanning .typeSpec do
    let type ← name .typeIdentifier
    let parameters ← g.typeParameters
    return [type.as .name, parameters, (← g.type true).as .type]
  let plain := spanning .typeSpec do
    let type ← name .typeIdentifier
    return [type.as .name, (← g.type true).as .type]
  other <|> generic <|> plain

/-- Specifications between brackets, each with a terminator. -/
def group (spec : Reader Node) : Reader (List Node) := do
  let _ ← symbol "("
  let specs ← many (spec <* terminator)
  let _ ← symbol ")"
  return specs

/-- A declaration of variables. -/
def varDeclaration (g : Grammar) : Reader Node :=
  spanning .varDeclaration do
    let _ ← keyword "var"
    return [← spanning .varSpecList (group g.varSpec) <|> g.varSpec]

/-- A declaration of constants. -/
def constDeclaration (g : Grammar) : Reader Node :=
  spanning .constDeclaration do
    let _ ← keyword "const"
    group g.constSpec <|> return [← g.constSpec]

/-- A declaration of types. -/
def typeDeclaration (g : Grammar) : Reader Node :=
  spanning .typeDeclaration do
    let _ ← keyword "type"
    group g.typeSpec <|> return [← g.typeSpec]

/-- The body of a function, on the same line. -/
def functionBody (g : Grammar) : Reader Node := do
  check fun t => !t.newline
  return (← g.block).as .body

/-- A function. -/
def functionDeclaration (g : Grammar) : Reader Node :=
  spanning .functionDeclaration do
    let _ ← keyword "func"
    let function ← name .identifier
    let types ← maybe g.typeParameters
    let signature ← g.signature true
    let body ← maybe g.functionBody
    return function.as .name :: (types.toList ++ signature ++ body.toList)

/-- A method. -/
def methodDeclaration (g : Grammar) : Reader Node :=
  spanning .methodDeclaration do
    let _ ← keyword "func"
    let receiver ← g.parameters
    let method ← name .fieldIdentifier
    let signature ← g.signature true
    let body ← maybe g.functionBody
    return receiver.as .receiver :: method.as .name :: (signature ++ body.toList)

/-- The package that a file belongs to. -/
def packageClause : Reader Node :=
  spanning .packageClause do
    let _ ← keyword "package"
    return [← name .packageIdentifier]

/-- An imported package, perhaps under a name of its own. -/
def importSpec : Reader Node :=
  spanning .importSpec do
    let ownName : Reader Node :=
      (leaf .dotImport <$> symbol ".")
        <|> (leaf .blankImport <$> keyword "_")
        <|> name .packageIdentifier
    let ownName ← maybe ownName
    return (ownName.map (·.as .name)).toList ++ [(← stringLiteral).as .path]

/-- A declaration of imported packages. -/
def importDeclaration : Reader Node :=
  let list := spanning .importSpecList do
    let _ ← symbol "("
    let specs ← maybeNodes do
      let first ← importSpec
      let rest ← many (terminator *> importSpec)
      let _ ← maybe terminator
      return first :: rest
    let _ ← symbol ")"
    return specs
  spanning .importDeclaration do
    let _ ← keyword "import"
    return [← list <|> importSpec]

end FieldAudit.Go.Grammar
