import FieldAudit.Go.Grammar

/-! # Types

A line end matters only where a type could also be complete: before the type arguments or the
qualified name, and before the result of a function type. -/

namespace FieldAudit.Go.Grammar

open Reader

/-- The words that start types other than type names. -/
def typeKeywords : List String :=
  ["func", "struct", "interface", "map", "chan"]

/-- A word that can be a name where a type can also start. -/
def plainName (kind : Kind) : Reader Node :=
  leaf kind <$> take fun t => t.kind = .word && !typeKeywords.contains t.text

/-- A type, or the types below another one. -/
def typeElement (g : Grammar) (lineEnds : Bool) : Reader Node :=
  spanning .typeElement do
    let element : Reader Node :=
      spanning .negatedType (do let _ ← symbol "~"; return [← g.type lineEnds])
        <|> g.type lineEnds
    let first ← element
    let rest ← many (following lineEnds "|" *> element)
    return first :: rest

/-- Types between square brackets. -/
def typeArguments (g : Grammar) : Reader Node :=
  spanning .typeArguments (bracketedSome "[" "]" (g.typeElement false))

/-- A type name, perhaps with a package name and type arguments. -/
def namedType (g : Grammar) (lineEnds : Bool) : Reader Node := do
  let qualified : Reader Node :=
    spanning .qualifiedType do
      let package ← name .packageIdentifier
      let _ ← following lineEnds "."
      return [package.as .package, (← name .typeIdentifier).as .name]
  let base ← qualified <|> name .typeIdentifier
  let generic : Reader Node :=
    continuing .genericType (base.as .type) do
      check fun t => !(lineEnds && t.newline)
      return [← g.typeArguments]
  generic <|> return base

/-- A parameter with a name before three dots, or without one. -/
def variadicParameter (g : Grammar) : Reader Node :=
  spanning .variadicParameterDeclaration do
    let names ← maybe (plainName .identifier)
    let _ ← symbol "..."
    return (names.map (·.as .name)).toList ++ [(← g.type false).as .type]

/-- Parameters of one type, or a single type. -/
def parameterDeclaration (g : Grammar) : Reader Node :=
  spanning .parameterDeclaration do
    let names ← commaList false (plainName .identifier)
    return names.map (·.as .name) ++ [(← g.type false).as .type]

/-- The parameters of a function. -/
def parameters (g : Grammar) : Reader Node :=
  let unnamed := spanning .parameterDeclaration (return [(← g.type false).as .type])
  spanning .parameterList
    (bracketed "(" ")" (g.parameterDeclaration <|> g.variadicParameter <|> unnamed))

/-- The results of a function: parameters or a type that is not in brackets. -/
def result (g : Grammar) (lineEnds : Bool) : Reader Node := do
  check fun t => !(lineEnds && t.newline)
  let type : Reader Node := do
    check (! ·.isSymbol "(")
    g.type lineEnds
  g.parameters <|> type

/-- The parameters and the result of a function. -/
def signature (g : Grammar) (lineEnds : Bool) : Reader (List Node) := do
  let parameters ← g.parameters
  let result ← maybe (g.result lineEnds)
  return parameters.as .parameters :: (result.map (·.as .result)).toList

/-- A slice type, or an array type with its length. -/
def arrayType (g : Grammar) (lineEnds : Bool) : Reader Node :=
  let slice := spanning .sliceType do
    let _ ← symbol "["
    let _ ← symbol "]"
    return [← g.type lineEnds]
  let array := spanning .arrayType do
    let _ ← symbol "["
    let length ← g.expression .inner
    let _ ← symbol "]"
    return [length, ← g.type lineEnds]
  slice <|> array

/-- An array type whose length is that of the literal body after it. -/
def implicitArrayType (g : Grammar) : Reader Node :=
  spanning .implicitLengthArrayType do
    let _ ← symbol "["
    let _ ← symbol "..."
    let _ ← symbol "]"
    return [← g.type false]

/-- Items between braces, each ended by a terminator, which the last may lack. -/
def members (item : Reader Node) : Reader (List Node) := do
  let _ ← symbol "\x7b"
  let items ← maybeNodes do
    let first ← item
    let rest ← many (terminator *> item)
    let _ ← maybe terminator
    return first :: rest
  let _ ← symbol "\x7d"
  return items

/-- A string. -/
def stringLiteral : Reader Node :=
  (leaf .interpretedString <$> take (·.kind = .interpretedString))
    <|> (leaf .rawString <$> take (·.kind = .rawString))

/-- Whether the fields of a struct are complete before a token: it is on another line, ends the
member or is the tag. -/
def endsField (t : Token) : Bool :=
  t.newline || t.isSymbol ";" || t.isSymbol "\x00" || t.isSymbol "\x7d"
    || t.kind = .interpretedString || t.kind = .rawString

/-- The fields of a struct of one type, or an embedded type.  A name with brackets behind it is an
embedded type only if nothing goes on behind the brackets. -/
def fieldDeclaration (g : Grammar) : Reader Node :=
  spanning .fieldDeclaration do
    let embedded : Reader (List Node) := do
      let _ ← maybe (symbol "*")
      let type ← g.namedType true
      check endsField
      return [type.as .type]
    let named : Reader (List Node) := do
      let names ← commaList true (name .fieldIdentifier)
      check fun t => !t.newline
      return names.map (·.as .name) ++ [(← g.type true).as .type]
    let fields ← embedded <|> named
    let tag ← maybe (do check (fun t => !t.newline); stringLiteral)
    return fields ++ tag.toList

/-- A struct type. -/
def structType (g : Grammar) : Reader Node :=
  spanning .structType do
    let _ ← keyword "struct"
    return [← spanning .fieldDeclarationList (members g.fieldDeclaration)]

/-- A method or a type of an interface. -/
def interfaceElement (g : Grammar) : Reader Node :=
  let method := spanning .methodElement do
    let method ← plainName .fieldIdentifier
    check fun t => !t.newline
    return method.as .name :: (← g.signature true)
  method <|> g.typeElement true

/-- An interface type. -/
def interfaceType (g : Grammar) : Reader Node :=
  spanning .interfaceType do
    let _ ← keyword "interface"
    members g.interfaceElement

/-- A map type. -/
def mapType (g : Grammar) (lineEnds : Bool) : Reader Node :=
  spanning .mapType do
    let _ ← keyword "map"
    let _ ← symbol "["
    let key ← g.type false
    let _ ← symbol "]"
    return [key, (← g.type lineEnds).as .value]

/-- A channel type. -/
def channelType (g : Grammar) (lineEnds : Bool) : Reader Node :=
  spanning .channelType do
    let receiving ← maybe (symbol "<-")
    let _ ← keyword "chan"
    if receiving.isNone then
      let _ ← maybe (symbol "<-")
    return [(← g.type lineEnds).as .value]

/-- A function type. -/
def functionType (g : Grammar) (lineEnds : Bool) : Reader Node :=
  spanning .functionType do
    let _ ← keyword "func"
    g.signature lineEnds

/-- A type between brackets. -/
def parenthesizedType (g : Grammar) : Reader Node :=
  spanning .parenthesizedType do
    let _ ← symbol "("
    let type ← g.type false
    let _ ← symbol ")"
    return [type]

/-- A type. -/
def typeExpression (g : Grammar) (lineEnds : Bool) : Reader Node := do
  match ← peek? with
  | none => failure
  | some t =>
    match t.kind, t.text with
    | .symbol, "*" =>
      spanning .pointerType (do let _ ← symbol "*"; return [← g.type lineEnds])
    | .symbol, "(" => g.parenthesizedType
    | .symbol, "[" => g.arrayType lineEnds
    | .symbol, "<-" => g.channelType lineEnds
    | .word, "struct" => g.structType
    | .word, "interface" => g.interfaceType
    | .word, "map" => g.mapType lineEnds
    | .word, "chan" => g.channelType lineEnds
    | .word, "func" => g.functionType lineEnds
    | .word, _ => g.namedType lineEnds
    | _, _ => failure

end FieldAudit.Go.Grammar
