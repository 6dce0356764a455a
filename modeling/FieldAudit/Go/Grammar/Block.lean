import FieldAudit.Go.Grammar

/-! # Statement lists

Terminators stand between statements, and one may follow the last.  The last statement may also be
a label with nothing after it. -/

namespace FieldAudit.Go.Grammar

open Reader

/-- A label with its colon. -/
def label : Reader Node := do
  let label ← name .labelName
  let _ ← following true ":"
  return label

/-- Whether the next tokens are a label with its colon. -/
def atLabel : Reader Bool :=
  fun s => some ((label s).isSome, s)

/-- The words that start a clause of a switch or a selection. -/
def isClauseStart (token : Token) : Bool :=
  token.isWord "case" || token.isWord "default"

/-- A list of statements.  The tokens that `stops` picks start no statement, and the start of a
clause starts none after the first. -/
def statementList (g : Grammar) (stops : Token → Bool) : Reader (List Node) :=
  let emptyLabel := spanning .labeledStatement (return [← label])
  let later (reader : Reader Node) : Reader Node := do
    terminator
    check (! isClauseStart ·)
    reader
  let list : Reader (List Node) := do
    let first ← g.statement
    let rest ← many (later g.statement)
    let last ← maybe (later emptyLabel)
    let _ ← maybe terminator
    return first :: rest ++ last.toList
  (do check (! stops ·); list <|> return [← emptyLabel]) <|> return []

/-- Statements between braces. -/
def block (g : Grammar) : Reader Node :=
  spanning .block do
    let _ ← symbol "\x7b"
    let statements ← g.statementList fun _ => false
    let _ ← symbol "\x7d"
    return statements

end FieldAudit.Go.Grammar
