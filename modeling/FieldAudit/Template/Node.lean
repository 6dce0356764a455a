import FieldAudit.Template.Token

/-! # Template trees

A template is a block of nodes: text, actions, branches and calls of other templates.  Actions and
branches hold a pipe, a pipe holds commands, and a command holds its arguments, which are nodes
again.  Each node knows the byte offset at which it was read. -/

namespace FieldAudit.Template

/-- A use or a declaration of a variable: its name, and the fields taken from it. -/
structure Variable where
  pos : Nat
  path : List String
  deriving DecidableEq, Repr

/-- A command: a function or value with its arguments. -/
structure Command (α : Type) where
  pos : Nat
  args : List α
  deriving DecidableEq, Repr

/-- A pipe: declared variables and a chain of commands. -/
structure Pipe (α : Type) where
  pos : Nat
  decls : List Variable
  commands : List (Command α)
  deriving DecidableEq, Repr

/-- A sequence of nodes. -/
structure Block (α : Type) where
  pos : Nat
  nodes : List α
  deriving DecidableEq, Repr

/-- The kinds of branches. -/
inductive BranchKind where
  | ifBranch
  | rangeBranch
  | withBranch
  deriving DecidableEq, Repr

/-- The keyword that opens a branch. -/
def BranchKind.keyword : BranchKind → Keyword
  | .ifBranch => .ifKw
  | .rangeBranch => .rangeKw
  | .withBranch => .withKw

/-- Whether an `else` may go on with another branch of the same kind. -/
def BranchKind.chains : BranchKind → Bool
  | .rangeBranch => false
  | _ => true

/-- The nodes of a template. -/
inductive Node where
  | text (pos : Nat) (text : List Char)
  | action (pos : Nat) (pipe : Pipe Node)
  | pipe (pipe : Pipe Node)
  | command (command : Command Node)
  /-- Fields taken from a value that is neither a field nor a variable. -/
  | chain (pos : Nat) (inner : Node) (fields : List String)
  /-- Fields taken from the data: `.A.B` has the path `A`, `B`. -/
  | field (pos : Nat) (path : List String)
  | identifier (pos : Nat) (name : String) (isFunction : Bool)
  /-- A variable with the fields taken from it: `$x.A` has the path `$x`, `A`. -/
  | variable (v : Variable)
  | dot (pos : Nat)
  | nil (pos : Nat)
  | bool (pos : Nat) (value : Bool)
  | number (pos : Nat) (literal : List Char)
  | string (pos : Nat) (literal : List Char)
  | branch (kind : BranchKind) (pos : Nat) (pipe : Pipe Node) (body : Block Node)
      (alternative : Option (Block Node))
  | template (pos : Nat) (name : String) (pipe : Option (Pipe Node))
  | breakLoop (pos : Nat)
  | continueLoop (pos : Nat)
  | list (block : Block Node)
  deriving Repr

/-- The byte offset of a node. -/
def Node.pos : Node → Nat
  | .text pos _ => pos
  | .action pos _ => pos
  | .pipe p => p.pos
  | .command c => c.pos
  | .chain pos _ _ => pos
  | .field pos _ => pos
  | .identifier pos _ _ => pos
  | .variable v => v.pos
  | .dot pos => pos
  | .nil pos => pos
  | .bool pos _ => pos
  | .number pos _ => pos
  | .string pos _ => pos
  | .branch _ pos _ _ _ => pos
  | .template pos _ _ => pos
  | .breakLoop pos => pos
  | .continueLoop pos => pos
  | .list b => b.pos

/-- A template defined inside another. -/
structure Definition where
  name : String
  root : Block Node
  deriving Repr

/-- A template with the templates defined in it. -/
structure Tree where
  root : Block Node
  defines : List Definition
  deriving Repr

end FieldAudit.Template
