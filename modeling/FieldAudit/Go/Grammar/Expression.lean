import FieldAudit.Go.Grammar.Block
import FieldAudit.Go.Grammar.TypeExpression

/-! # Expressions

Operands are extended by selectors, indices and calls, and then joined by operators of five
precedences.  Where the same tokens could be a value or a type, they are read as a value, except
for what stands in square brackets before the arguments of a call. -/

namespace FieldAudit.Go.Grammar

open Reader

/-! ## Operands -/

/-- A function with its body. -/
def funcLiteral (g : Grammar) : Reader Node :=
  spanning .funcLiteral do
    let _ ← keyword "func"
    let signature ← g.signature false
    return signature ++ [(← g.block).as .body]

/-- A value between brackets. -/
def parenthesized (g : Grammar) : Reader Node :=
  spanning .parenthesizedExpression do
    let _ ← symbol "("
    let inner ← g.expression .inner
    let _ ← symbol ")"
    return [inner]

/-- A value between brackets after a type that is no type name. -/
def conversion (g : Grammar) : Reader Node :=
  spanning .typeConversionExpression do
    let type ← g.type false
    let _ ← symbol "("
    let operand ← g.expression .inner
    let _ ← maybe (symbol ",")
    let _ ← symbol ")"
    return [type.as .type, operand.as .operand]

/-- A type and a literal body. -/
def composite (type : Reader Node) (g : Grammar) : Reader Node :=
  spanning .compositeLiteral do
    let type ← type
    let body ← g.literalBody
    return [type.as .type, body.as .body]

/-- A type name and a literal body. -/
def namedComposite (g : Grammar) (mode : Mode) : Reader Node := do
  if mode.braces then
    let type : Reader Node := do
      let type ← g.namedType mode.lineEnds
      check fun t => !(mode.lineEnds && t.newline)
      return type
    composite type g
  else failure

/-- An element of a literal body: a value or a body without a type. -/
def literalElement (g : Grammar) : Reader Node :=
  spanning .literalElement (return [← g.literalBody <|> g.expression .inner])

/-- An element of a literal body, perhaps with a key. -/
def keyedElement (g : Grammar) : Reader Node := do
  let first ← g.literalElement
  let keyed := continuing .keyedElement first do
    let _ ← symbol ":"
    return [← g.literalElement]
  keyed <|> return first

/-- Elements between braces. -/
def literalValue (g : Grammar) : Reader Node :=
  spanning .literalValue (bracketed "\x7b" "\x7d" g.keyedElement)

/-- The arguments of `new` and `make`: a type and values. -/
def typeFirstArguments (g : Grammar) : Reader Node :=
  spanning .argumentList do
    let _ ← symbol "("
    let arguments ← maybeNodes do
      let type ← g.type false
      let rest ← many (symbol "," *> g.expression .inner)
      let _ ← maybe (symbol ",")
      return type :: rest
    let _ ← symbol ")"
    return arguments

/-- A call of `new` or `make`. -/
def allocation (g : Grammar) (mode : Mode) : Reader Node := do
  let function ← name .identifier
  let call := continuing .callExpression (function.as .function) do
    check fun t => !(mode.lineEnds && t.newline)
    return [(← g.typeFirstArguments).as .arguments]
  if ← next fun t => t.isSymbol "(" && !(mode.lineEnds && t.newline) then call
  else return function

/-- The literal kinds of tokens. -/
def literalKind? : TokenKind → Option Kind
  | .intLiteral => some .intLiteral
  | .floatLiteral => some .floatLiteral
  | .imaginaryLiteral => some .imaginaryLiteral
  | .runeLiteral => some .runeLiteral
  | .interpretedString => some .interpretedString
  | .rawString => some .rawString
  | .word | .symbol => none

/-- An operand before what extends it. -/
def primary (g : Grammar) (mode : Mode) : Reader Node := do
  match ← peek? with
  | none => failure
  | some t =>
    match t.kind, t.text with
    | .symbol, "(" => g.parenthesized <|> g.conversion
    | .symbol, "[" => composite (g.implicitArrayType <|> g.arrayType false) g <|> g.conversion
    | .symbol, "<-" => g.conversion
    | .word, "func" => g.funcLiteral <|> g.conversion
    | .word, "struct" => composite g.structType g <|> g.conversion
    | .word, "map" => composite (g.mapType false) g <|> g.conversion
    | .word, "chan" => g.conversion
    | .word, "interface" => g.conversion
    | .word, "nil" => name .nilLiteral
    | .word, "true" => name .trueLiteral
    | .word, "false" => name .falseLiteral
    | .word, "iota" => name .iotaLiteral
    | .word, "new" => g.allocation mode
    | .word, "make" => g.allocation mode
    | .word, _ => g.namedComposite mode <|> name .identifier
    | kind, _ =>
      match literalKind? kind with
      | some kind => leaf kind <$> take fun _ => true
      | none => failure

/-- An argument of a call, perhaps spread by three dots. -/
def argument (g : Grammar) : Reader Node := do
  let value ← g.expression .inner
  let spread := continuing .variadicArgument value do
    let _ ← symbol "..."
    return []
  spread <|> return value

/-- The arguments of a call. -/
def argumentList (g : Grammar) : Reader Node :=
  spanning .argumentList (bracketed "(" ")" g.argument)

/-- What follows the colon of a slice. -/
def sliceBounds (g : Grammar) : Reader (List Node) := do
  let _ ← symbol ":"
  let stop ← maybe (g.expression .inner)
  match stop with
  | none => return []
  | some stop =>
    let capacity ← maybe (symbol ":" *> g.expression .inner)
    return stop :: capacity.toList

/-- An operand followed by a selector, a type test, an index or arguments. -/
def extended (g : Grammar) (mode : Mode) (operand : Node) : Reader Node :=
  let selector := continuing .selectorExpression (operand.as .operand) do
    let _ ← following mode.lineEnds "."
    return [(← name .fieldIdentifier).as .field]
  let test := continuing .typeAssertionExpression (operand.as .operand) do
    let _ ← following mode.lineEnds "."
    let _ ← symbol "("
    if mode.typeTest then check (! ·.isWord "type")
    let type ← g.type false
    let _ ← symbol ")"
    return [type.as .type]
  let typesOfCall : Reader Node := do
    check fun t => !(mode.lineEnds && t.newline)
    let types ← g.typeArguments
    check fun t => t.isSymbol "(" && !(mode.lineEnds && t.newline)
    return types
  let bracketed : Reader Node := do
    let _ ← following mode.lineEnds "["
    let first ← maybe (g.expression .inner)
    match first, ← maybe (symbol "]") with
    | some index, some closing =>
      return ⟨.indexExpression, .plain, operand.start, closing.stop, [operand.as .operand, index]⟩
    | none, some _ => failure
    | _, none =>
      let bounds ← g.sliceBounds
      let closing ← symbol "]"
      return ⟨.sliceExpression, .plain, operand.start, closing.stop,
        operand.as .operand :: (first.toList ++ bounds)⟩
  let instantiation := continuing .typeInstantiationExpression (operand.as .type) do
    check fun t => !(mode.lineEnds && t.newline)
    return [← g.typeArguments]
  let call (types : List Node) := continuing .callExpression (operand.as .function) do
    check fun t => !(mode.lineEnds && t.newline)
    return types ++ [(← g.argumentList).as .arguments]
  do
    match ← maybe typesOfCall with
    | some types => call [types]
    | none => selector <|> test <|> bracketed <|> instantiation <|> call []

/-- The operators before an operand. -/
def unaryOperators : List String :=
  ["+", "-", "!", "^", "*", "&", "<-"]

/-- An operand, perhaps with an operator before it. -/
def operandExpression (g : Grammar) (mode : Mode) : Reader Node :=
  let unary := spanning .unaryExpression do
    let operator ← (take fun t => t.kind = .symbol && unaryOperators.contains t.text)
      <|> split ["&", "+", "-"]
    let operand ← g.operand mode
    return [(leaf .punctuation operator).as .operator, operand.as .operand]
  unary <|> do extend (g.extended mode) (← g.primary mode)

/-! ## Operators -/

/-- The precedence of an operator between operands. -/
def precedence? (operator : String) : Option Nat :=
  if ["*", "/", "%", "<<", ">>", "&", "&^"].contains operator then some 5
  else if ["+", "-", "|", "^"].contains operator then some 4
  else if ["==", "!=", "<", "<=", ">", ">="].contains operator then some 3
  else if operator = "&&" then some 2
  else if operator = "||" then some 1
  else none

/-- Two operands under one node. -/
def joined (left right : Node) : Node :=
  ⟨.binaryExpression, .plain, left.start, right.stop, [left.as .left, right.as .right]⟩

/-- Joins an operand with those before it whose operators bind at least as strongly. -/
def joinStronger (precedence : Nat) : List (Node × Nat) → Node → List (Node × Nat) × Node
  | [], top => ([], top)
  | (left, p) :: stack, top =>
    if precedence ≤ p then joinStronger precedence stack (joined left top)
    else ((left, p) :: stack, top)

/-- Joins operands by the precedences of the operators between them, from the left. -/
def joinOperands (first : Node) (rest : List (Nat × Node)) : Node :=
  let (stack, top) := rest.foldl
    (fun (stack, top) (precedence, operand) =>
      let (stack, top) := joinStronger precedence stack top
      ((top, precedence) :: stack, operand))
    (([] : List (Node × Nat)), first)
  (joinStronger 0 stack top).2

/-- An expression. -/
def wholeExpression (g : Grammar) (mode : Mode) : Reader Node := do
  let operator : Reader Nat := do
    check fun t => !(mode.lineEnds && t.newline)
    let t ← (take fun t => t.kind = .symbol && (precedence? t.text).isSome)
      <|> do
        check fun t => !mode.leading && ["<-", "++", "--"].contains t.text
        split ["<", "+", "-"]
    match precedence? t.text with
    | some precedence => return precedence
    | none => failure
  let first ← g.operandExpression mode
  let rest ← many do
    let precedence ← operator
    return (precedence, ← g.operandExpression mode)
  return joinOperands first rest

/-- Expressions with commas between them. -/
def expressionList (g : Grammar) (mode : Mode) : Reader Node :=
  spanning .expressionList (commaList mode.lineEnds (g.expression mode))

end FieldAudit.Go.Grammar
