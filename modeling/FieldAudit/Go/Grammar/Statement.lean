import FieldAudit.Go.Grammar.Declaration

/-! # Statements

Before the body of a statement, a brace after a type name opens the body.  What a header assigns is
followed by a semicolon, so there a brace opens a literal. -/

namespace FieldAudit.Go.Grammar

open Reader

/-! ## Simple statements -/

/-- The symbols that assign. -/
def assignmentOperators : List String :=
  ["=", "+=", "-=", "*=", "/=", "%=", "<<=", ">>=", "&=", "&^=", "|=", "^="]

/-- An expression, send, increment, assignment or short declaration.  The modes are for what
stands first and for what is assigned. -/
def simpleStatement (g : Grammar) (mode valueMode : Mode) : Reader Node := do
  let left ← g.expressionList mode.first
  let declaration := continuing .shortVarDeclaration (left.as .left) do
    let _ ← following mode.lineEnds ":="
    return [(← g.expressionList valueMode).as .right]
  let assignment := continuing .assignmentStatement (left.as .left) do
    let _ ← take fun t => t.kind = .symbol && assignmentOperators.contains t.text
      && !(mode.lineEnds && t.newline)
    return [(← g.expressionList valueMode).as .right]
  match left.children with
  | [single] =>
    let send := continuing .sendStatement single do
      let _ ← following mode.lineEnds "<-"
      return [(← g.expression valueMode).as .value]
    let increment := continuing .incStatement single do
      let _ ← following mode.lineEnds "++"
      return []
    let decrement := continuing .decStatement single do
      let _ ← following mode.lineEnds "--"
      return []
    declaration <|> assignment <|> send <|> increment <|> decrement
      <|> return ⟨.expressionStatement, .plain, single.start, single.stop, [single]⟩
  | _ => declaration <|> assignment

/-! ## Conditions and loops -/

/-- A condition, perhaps after a simple statement. -/
def conditionHeader (g : Grammar) : Reader (List Node) := do
  let first ← g.simpleStatement .header .inner
  if ← next (·.isSymbol ";") then
    let _ ← symbol ";"
    return [first.as .initializer, ← g.expression .header]
  else if first.kind = .expressionStatement then return first.children
  else failure

/-- A conditional statement. -/
def ifStatement (g : Grammar) : Reader Node :=
  spanning .ifStatement do
    let _ ← keyword "if"
    let head ← g.conditionHeader
    let consequence ← g.block
    let alternative ← maybe do
      let _ ← take fun t => t.isWord "else" && !t.newline
      check fun t => t.isWord "if" || t.isSymbol "\x7b"
      g.statement
    return head ++ [consequence] ++ alternative.toList

/-- The clause of a loop over the values of an expression. -/
def rangeClause (g : Grammar) : Reader Node :=
  spanning .rangeClause do
    let left ← maybe do
      let left ← g.expressionList .header
      let _ ← symbol ":=" <|> symbol "="
      return left.as .left
    let _ ← keyword "range"
    return left.toList ++ [(← g.expression .header).as .right]

/-- The clause of a loop with a start, a condition and a step. -/
def forClause (g : Grammar) : Reader Node :=
  spanning .forClause do
    let initializer ← maybe (g.simpleStatement .header .inner)
    let _ ← symbol ";"
    let condition ← maybe (g.expression .inner)
    let _ ← symbol ";"
    let update ← maybe (g.simpleStatement .header .header)
    return (initializer.map (·.as .initializer)).toList ++ condition.toList ++ update.toList

/-- A loop. -/
def forStatement (g : Grammar) : Reader Node :=
  let whole (header : Reader (List Node)) : Reader Node :=
    spanning .forStatement do
      let _ ← keyword "for"
      let header ← header
      return header ++ [(← g.block).as .body]
  let notRange : Reader Unit := check (! ·.isWord "range")
  whole (return [])
    <|> whole (return [← g.rangeClause])
    <|> whole (do notRange; return [← g.forClause])
    <|> whole (do notRange; return [← g.expression .header])

/-! ## Clauses -/

/-- The clause for all other cases. -/
def defaultCase (g : Grammar) : Reader Node :=
  spanning .defaultCase do
    let _ ← keyword "default"
    let _ ← symbol ":"
    g.statementList isClauseStart

/-- A clause that starts with what a reader gives. -/
def caseClause (g : Grammar) (kind : Kind) (head : Reader (List Node)) : Reader Node :=
  spanning kind do
    let _ ← keyword "case"
    let head ← head
    let _ ← symbol ":"
    let statements ← g.statementList isClauseStart
    return head ++ statements

/-- Clauses between braces. -/
def clauses (g : Grammar) (clause : Reader Node) : Reader (List Node) := do
  let _ ← symbol "\x7b"
  let clauses ← many (clause <|> g.defaultCase)
  let _ ← symbol "\x7d"
  return clauses

/-- The mark of a switch over types. -/
def typeMark : Reader Unit := do
  let _ ← symbol "."
  let _ ← symbol "("
  let _ ← keyword "type"
  let _ ← symbol ")"

/-- What a switch over types is about: a value, perhaps with a name for it. -/
def typeSubject? (statement : Node) : Option (List Node) :=
  match statement.kind, statement.children with
  | .expressionStatement, [value] => some [value.as .value]
  | .shortVarDeclaration, [names, values] =>
    match values.children with
    | [value] => some [names.as .switchName, value.as .value]
    | _ => none
  | _, _ => none

/-- What a switch is about, given the simple statement that stands there. -/
def switchSubject (statement : Node) : Reader (Kind × List Node) := do
  if (← maybe typeMark).isSome then
    match typeSubject? statement with
    | some subject => return (.typeSwitchStatement, subject)
    | none => failure
  else if statement.kind = .expressionStatement then
    return (.expressionSwitchStatement, statement.children.map (·.as .value))
  else failure

/-- The header of a switch: what it is about, perhaps after a simple statement. -/
def switchHeader (g : Grammar) : Reader (Kind × List Node) := do
  let simple := g.simpleStatement .switchHeader .switchValue
  match ← maybe simple with
  | none => return (.expressionSwitchStatement, [])
  | some first =>
    match ← maybe (symbol ";") with
    | none => switchSubject first
    | some _ =>
      let initializer := first.as .initializer
      match ← maybe simple with
      | none => return (.expressionSwitchStatement, [initializer])
      | some second =>
        let (kind, subject) ← switchSubject second
        return (kind, initializer :: subject)

/-- A switch over types or values. -/
def switchStatement (g : Grammar) : Reader Node := do
  let start ← keyword "switch"
  let (kind, header) ← g.switchHeader
  let clause :=
    if kind = .typeSwitchStatement then
      g.caseClause .typeCase do
        return (← commaList false (g.type false)).map (·.as .type)
    else
      g.caseClause .expressionCase (return [(← g.expressionList .inner).as .value])
  let clauses ← g.clauses clause
  return ⟨kind, .plain, start.start, (← get).stop, header ++ clauses⟩

/-- What a clause of a selection waits for. -/
def communication (g : Grammar) : Reader Node :=
  let send := spanning .sendStatement do
    let channel ← g.expression Mode.inner.first
    let _ ← symbol "<-"
    return [channel, (← g.expression .inner).as .value]
  let receive := spanning .receiveStatement do
    let left ← maybe do
      let left ← g.expressionList .inner
      let _ ← symbol ":=" <|> symbol "="
      return left.as .left
    return left.toList ++ [(← g.expression .inner).as .right]
  send <|> receive

/-- A selection among communications. -/
def selectStatement (g : Grammar) : Reader Node :=
  spanning .selectStatement do
    let _ ← keyword "select"
    g.clauses (g.caseClause .communicationCase (return [← g.communication]))

/-! ## All statements -/

/-- A statement behind a label. -/
def labeledStatement (g : Grammar) : Reader Node :=
  spanning .labeledStatement do
    let label ← label
    check (! isClauseStart ·)
    return [label, ← g.statement]

/-- A word, perhaps with a label on the same line. -/
def jump (kind : Kind) : Reader Node :=
  spanning kind do
    let _ ← word
    let label ← maybe do
      leaf .labelName <$> take fun t => t.kind = .word && !t.newline && !isClauseStart t
    return label.toList

/-- A word and what a reader gives after it. -/
def afterWord (kind : Kind) (rest : Reader (List Node)) : Reader Node :=
  spanning kind do
    let _ ← word
    rest

/-- A statement that starts with a keyword of its own. -/
def keywordStatement (g : Grammar) : String → Reader Node
  | "var" => g.varDeclaration
  | "const" => g.constDeclaration
  | "type" => g.typeDeclaration
  | "if" => g.ifStatement
  | "for" => g.forStatement
  | "switch" => g.switchStatement
  | "select" => g.selectStatement
  | "return" =>
    afterWord .returnStatement <| maybeNodes do
      check fun t => !t.newline && !isClauseStart t
      return [← g.expressionList .statement]
  | "go" => afterWord .goStatement (return [← g.expression .statement])
  | "defer" => afterWord .deferStatement (return [← g.expression .statement])
  | "break" => jump .breakStatement
  | "continue" => jump .continueStatement
  | "goto" => afterWord .gotoStatement (return [← name .labelName])
  | "fallthrough" => afterWord .fallthroughStatement (return [])
  | _ => failure

/-- The words that start statements. -/
def statementKeywords : List String :=
  ["var", "const", "type", "if", "for", "switch", "select", "return", "go", "defer", "break",
   "continue", "goto", "fallthrough"]

/-- A statement. -/
def anyStatement (g : Grammar) : Reader Node := do
  match ← peek? with
  | none => failure
  | some t =>
    if t.isSymbol "\x7b" then g.block
    else if t.isSymbol ";" then leaf .emptyStatement <$> symbol ";"
    else if t.kind = .word && statementKeywords.contains t.text then g.keywordStatement t.text
    else if ← atLabel then g.labeledStatement
    else g.simpleStatement .statement .statement

end FieldAudit.Go.Grammar
