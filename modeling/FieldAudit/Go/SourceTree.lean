import FieldAudit.Go.Grammar.Statement
import FieldAudit.Go.Parser

/-! # Syntax trees of whole files

The grammar of this library makes a parser, which a run can use.  Nothing else depends on it.

A file is a list of statements and declarations, each with a terminator.  The readers of a grammar
are nested as deep as the file has tokens, since each level takes at least one.  Comments are put
into the tree afterwards, each under the smallest node that covers it. -/

namespace FieldAudit.Go

open Reader

/-! ## Files -/

/-- The grammar whose readers go to a given depth. -/
def Grammar.ofDepth : Nat → Grammar
  | 0 => Grammar.empty
  | depth + 1 =>
    let g := Grammar.ofDepth depth
    { type := g.typeExpression
      operand := g.operandExpression
      expression := g.wholeExpression
      literalBody := g.literalValue
      statement := g.anyStatement }

/-- A declaration that can only stand at the top of a file. -/
def Grammar.topLevelDeclaration (g : Grammar) : Reader Node := do
  match ← peek? with
  | none => failure
  | some t =>
    if t.isWord "package" then packageClause
    else if t.isWord "import" then importDeclaration
    else if t.isWord "func" then g.functionDeclaration <|> g.methodDeclaration
    else failure

/-- A statement at the top of a file. -/
def Grammar.topLevelStatement (g : Grammar) : Reader Node := do
  check fun t => !(t.isWord "package" || t.isWord "import")
  g.statement

/-- The declarations and statements of a file. -/
def Grammar.sourceFile (g : Grammar) : Reader (List Node) :=
  many ((g.topLevelDeclaration <|> g.topLevelStatement) <* terminator)

/-! ## Comments -/

/-- Whether a node covers a comment. -/
def Node.covers (node : Node) (comment : Comment) : Bool :=
  node.start ≤ comment.start && comment.stop ≤ node.stop

/-- A comment as a node. -/
def Comment.toNode (comment : Comment) : Node :=
  ⟨.comment, .plain, comment.start, comment.stop, []⟩

mutual

/-- The node with the comments that it covers. -/
def Node.withComments (comments : List Comment) : Node → Node
  | ⟨kind, role, start, stop, children⟩ =>
    ⟨kind, role, start, stop, Node.insertComments comments children⟩

/-- The children of a node with its comments among them.  A comment goes into the child that covers
it, else before the first child that starts after it. -/
def Node.insertComments (comments : List Comment) : List Node → List Node
  | [] => comments.map Comment.toNode
  | child :: rest =>
    let before := comments.takeWhile (·.start < child.start)
    let after := comments.dropWhile (·.start < child.start)
    let inside := after.takeWhile (child.covers ·)
    let later := after.dropWhile (child.covers ·)
    before.map Comment.toNode
      ++ Node.withComments inside child :: Node.insertComments later rest

end

/-- The syntax tree of a text, unless it is no Go file. -/
def Node.ofSource? (source : List Char) : Option Node := do
  let list ← tokenize source
  let depth := 3 * list.tokens.length + 3
  let (items, rest) ← (Grammar.ofDepth depth).sourceFile ⟨list.tokens, 0⟩
  if rest.tokens.isEmpty then
    let root : Node := ⟨.sourceFile, .plain, 0, Text.byteLength source, items⟩
    return root.withComments list.comments
  else none

/-- The tree of a text that is no Go file: one error. -/
def Node.ofFaulty (source : List Char) : Node :=
  let stop := Text.byteLength source
  ⟨.sourceFile, .plain, 0, stop, [⟨.error, .plain, 0, stop, []⟩]⟩

/-- The parser of the grammar. -/
def Grammar.parser : Parser where
  fault := none
  tree? source := some ((Node.ofSource? source).getD (Node.ofFaulty source))

end FieldAudit.Go
