import FieldAudit.Template.Node

/-! # Walking a template tree

`walk` visits a node and everything below it, each node before the nodes below it, and stops at
the first visit that fails; `Block.visited` is a walk that collects answers and never fails.
`Node.preorder` lists the nodes in the same order. -/

namespace FieldAudit.Template

variable {σ ε α : Type}

mutual

/-- Visits a node and everything below it. -/
def walk (visit : σ → Node → Except ε σ) (s : σ) : Node → Except ε σ
  | .action pos pipe => do walkPipe visit (← visit s (.action pos pipe)) pipe
  | .pipe pipe => walkPipe visit s pipe
  | .command command => walkCommand visit s command
  | .chain pos inner fields => do walk visit (← visit s (.chain pos inner fields)) inner
  | .branch kind pos pipe body alternative => do
    let s ← visit s (.branch kind pos pipe body alternative)
    let s ← walkPipe visit s pipe
    let s ← walkBlock visit s body
    walkBlock? visit s alternative
  | .template pos name pipe => do walkPipe? visit (← visit s (.template pos name pipe)) pipe
  | .list block => walkBlock visit s block
  | .text pos text => visit s (.text pos text)
  | .field pos path => visit s (.field pos path)
  | .identifier pos name isFunction => visit s (.identifier pos name isFunction)
  | .variable v => visit s (.variable v)
  | .dot pos => visit s (.dot pos)
  | .nil pos => visit s (.nil pos)
  | .bool pos value => visit s (.bool pos value)
  | .number pos literal => visit s (.number pos literal)
  | .string pos literal => visit s (.string pos literal)
  | .breakLoop pos => visit s (.breakLoop pos)
  | .continueLoop pos => visit s (.continueLoop pos)

/-- Visits a pipe, its declarations and its commands. -/
def walkPipe (visit : σ → Node → Except ε σ) (s : σ) : Pipe Node → Except ε σ
  | ⟨pos, decls, commands⟩ => do
    let s ← visit s (.pipe ⟨pos, decls, commands⟩)
    let s ← decls.foldlM (fun s v => visit s (.variable v)) s
    walkCommands visit s commands

/-- Visits a pipe that may be absent. -/
def walkPipe? (visit : σ → Node → Except ε σ) (s : σ) : Option (Pipe Node) → Except ε σ
  | none => .ok s
  | some pipe => walkPipe visit s pipe

/-- Visits commands in order. -/
def walkCommands (visit : σ → Node → Except ε σ) (s : σ) : List (Command Node) → Except ε σ
  | [] => .ok s
  | command :: rest => do walkCommands visit (← walkCommand visit s command) rest

/-- Visits a command and its arguments. -/
def walkCommand (visit : σ → Node → Except ε σ) (s : σ) : Command Node → Except ε σ
  | ⟨pos, args⟩ => do walkAll visit (← visit s (.command ⟨pos, args⟩)) args

/-- Visits a block and its nodes. -/
def walkBlock (visit : σ → Node → Except ε σ) (s : σ) : Block Node → Except ε σ
  | ⟨pos, nodes⟩ => do walkAll visit (← visit s (.list ⟨pos, nodes⟩)) nodes

/-- Visits a block that may be absent. -/
def walkBlock? (visit : σ → Node → Except ε σ) (s : σ) : Option (Block Node) → Except ε σ
  | none => .ok s
  | some block => walkBlock visit s block

/-- Visits nodes in order. -/
def walkAll (visit : σ → Node → Except ε σ) (s : σ) : List Node → Except ε σ
  | [] => .ok s
  | node :: rest => do walkAll visit (← walk visit s node) rest

end

/-- Adds the answer of a node, if it has one. -/
def collect (answer : Node → Option α) (seen : Array α) (node : Node) : Array α :=
  match answer node with
  | some a => seen.push a
  | none => seen

/-- The answers of the nodes that a walk over a block visits, in the order of the visits. -/
def Block.visited (answer : Node → Option α) (block : Block Node) : List α :=
  match walk (ε := Empty) (fun seen node => .ok (collect answer seen node)) #[] (.list block) with
  | .ok seen => seen.toList

mutual

/-- A node and everything below it, each node before the nodes below it. -/
def Node.preorder : Node → List Node
  | .action pos p => .action pos p :: pipePreorder p
  | .pipe p => pipePreorder p
  | .command c => commandPreorder c
  | .chain pos inner fields => .chain pos inner fields :: inner.preorder
  | .branch kind pos p body alternative =>
    .branch kind pos p body alternative ::
      (pipePreorder p ++ blockPreorder body ++ block?Preorder alternative)
  | .template pos name p => .template pos name p :: pipe?Preorder p
  | .list b => blockPreorder b
  | .text pos t => [.text pos t]
  | .field pos path => [.field pos path]
  | .identifier pos name isFunction => [.identifier pos name isFunction]
  | .variable v => [.variable v]
  | .dot pos => [.dot pos]
  | .nil pos => [.nil pos]
  | .bool pos value => [.bool pos value]
  | .number pos literal => [.number pos literal]
  | .string pos literal => [.string pos literal]
  | .breakLoop pos => [.breakLoop pos]
  | .continueLoop pos => [.continueLoop pos]

/-- The nodes of a pipe in order. -/
def pipePreorder : Pipe Node → List Node
  | ⟨pos, decls, commands⟩ =>
    .pipe ⟨pos, decls, commands⟩ :: (decls.map .variable ++ commandsPreorder commands)

/-- The nodes of a pipe that may be absent. -/
def pipe?Preorder : Option (Pipe Node) → List Node
  | none => []
  | some pipe => pipePreorder pipe

/-- The nodes of commands in order. -/
def commandsPreorder : List (Command Node) → List Node
  | [] => []
  | command :: rest => commandPreorder command ++ commandsPreorder rest

/-- The nodes of a command in order. -/
def commandPreorder : Command Node → List Node
  | ⟨pos, args⟩ => .command ⟨pos, args⟩ :: nodesPreorder args

/-- The nodes of a block in order. -/
def blockPreorder : Block Node → List Node
  | ⟨pos, nodes⟩ => .list ⟨pos, nodes⟩ :: nodesPreorder nodes

/-- The nodes of a block that may be absent. -/
def block?Preorder : Option (Block Node) → List Node
  | none => []
  | some block => blockPreorder block

/-- The nodes of a list of nodes in order. -/
def nodesPreorder : List Node → List Node
  | [] => []
  | node :: rest => node.preorder ++ nodesPreorder rest

end

/-- All nodes of a block, the block itself first. -/
def Block.preorder (block : Block Node) : List Node :=
  blockPreorder block

end FieldAudit.Template
