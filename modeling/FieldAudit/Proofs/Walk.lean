import FieldAudit.Template.Node.Walk

/-! # Walks and preorders

A walk visits the nodes of the preorder one after the other (`walk_eq_foldlM`).  So what a walk
collects can be read off the preorder: `Block.visited` are the answers of the nodes of the preorder
(`Block.visited_eq`). -/

namespace FieldAudit.Template

variable {σ ε α : Type}

mutual

/-- A walk is a fold over the preorder, which stops at the first visit that fails. -/
theorem walk_eq_foldlM (visit : σ → Node → Except ε σ) (s : σ) :
    (node : Node) → walk visit s node = node.preorder.foldlM visit s
  | .action pos p => by
    simp only [walk, Node.preorder, List.foldlM_cons, walkPipe_eq_foldlM visit _ p]
  | .pipe p => by rw [walk, Node.preorder, walkPipe_eq_foldlM visit s p]
  | .command c => by rw [walk, Node.preorder, walkCommand_eq_foldlM visit s c]
  | .chain pos inner fields => by
    simp only [walk, Node.preorder, List.foldlM_cons, walk_eq_foldlM visit _ inner]
  | .branch kind pos p body alternative => by
    simp only [walk, Node.preorder, List.foldlM_cons, List.foldlM_append, bind_assoc,
      walkPipe_eq_foldlM visit _ p, walkBlock_eq_foldlM visit _ body,
      walkBlock?_eq_foldlM visit _ alternative]
  | .template pos name p => by
    simp only [walk, Node.preorder, List.foldlM_cons, walkPipe?_eq_foldlM visit _ p]
  | .list b => by rw [walk, Node.preorder, walkBlock_eq_foldlM visit s b]
  | .text .. | .field .. | .identifier .. | .variable .. | .dot .. | .nil .. | .bool ..
  | .number .. | .string .. | .breakLoop .. | .continueLoop .. => by simp [walk, Node.preorder]

/-- The walk of a pipeline visits its preorder. -/
theorem walkPipe_eq_foldlM (visit : σ → Node → Except ε σ) (s : σ) :
    (p : Pipe Node) → walkPipe visit s p = (pipePreorder p).foldlM visit s
  | ⟨pos, decls, commands⟩ => by
    simp only [walkPipe, pipePreorder, List.foldlM_cons, List.foldlM_append, List.foldlM_map,
      walkCommands_eq_foldlM visit _ commands]

/-- The walk of an optional pipeline visits its preorder. -/
theorem walkPipe?_eq_foldlM (visit : σ → Node → Except ε σ) (s : σ) :
    (p : Option (Pipe Node)) → walkPipe? visit s p = (pipe?Preorder p).foldlM visit s
  | none => rfl
  | some p => by rw [walkPipe?, pipe?Preorder, walkPipe_eq_foldlM visit s p]

/-- The walk of commands visits their preorder. -/
theorem walkCommands_eq_foldlM (visit : σ → Node → Except ε σ) (s : σ) :
    (cs : List (Command Node)) →
      walkCommands visit s cs = (commandsPreorder cs).foldlM visit s
  | [] => rfl
  | c :: rest => by
    simp only [walkCommands, commandsPreorder, List.foldlM_append,
      walkCommand_eq_foldlM visit s c, walkCommands_eq_foldlM visit _ rest]

/-- The walk of a command visits its preorder. -/
theorem walkCommand_eq_foldlM (visit : σ → Node → Except ε σ) (s : σ) :
    (c : Command Node) → walkCommand visit s c = (commandPreorder c).foldlM visit s
  | ⟨pos, args⟩ => by
    simp only [walkCommand, commandPreorder, List.foldlM_cons, walkAll_eq_foldlM visit _ args]

/-- The walk of a block visits its preorder. -/
theorem walkBlock_eq_foldlM (visit : σ → Node → Except ε σ) (s : σ) :
    (b : Block Node) → walkBlock visit s b = (blockPreorder b).foldlM visit s
  | ⟨pos, nodes⟩ => by
    simp only [walkBlock, blockPreorder, List.foldlM_cons, walkAll_eq_foldlM visit _ nodes]

/-- The walk of an optional block visits its preorder. -/
theorem walkBlock?_eq_foldlM (visit : σ → Node → Except ε σ) (s : σ) :
    (b : Option (Block Node)) → walkBlock? visit s b = (block?Preorder b).foldlM visit s
  | none => rfl
  | some b => by rw [walkBlock?, block?Preorder, walkBlock_eq_foldlM visit s b]

/-- The walk of a list of nodes visits its preorder. -/
theorem walkAll_eq_foldlM (visit : σ → Node → Except ε σ) (s : σ) :
    (nodes : List Node) → walkAll visit s nodes = (nodesPreorder nodes).foldlM visit s
  | [] => rfl
  | node :: rest => by
    simp only [walkAll, nodesPreorder, List.foldlM_append, walk_eq_foldlM visit s node,
      walkAll_eq_foldlM visit _ rest]

end

/-- Collecting the answers of nodes adds those that there are to the ones before. -/
theorem foldlM_collect (answer : Node → Option α) (seen : Array α) (nodes : List Node) :
    nodes.foldlM (m := Except ε) (fun seen node => .ok (collect answer seen node)) seen =
      .ok (seen ++ nodes.filterMap answer) := by
  induction nodes generalizing seen with
  | nil => simp [pure, Except.pure]
  | cons node rest ih =>
    rw [List.foldlM_cons]
    show List.foldlM _ (collect answer seen node) rest = _
    rw [ih, collect]
    cases h : answer node with
    | none => rw [List.filterMap_cons_none h]
    | some a =>
      rw [List.filterMap_cons_some h]
      simp

/-- A walk over a block collects the answers of its preorder. -/
theorem Block.visited_eq (answer : Node → Option α) (block : Block Node) :
    block.visited answer = block.preorder.filterMap answer := by
  rw [Block.visited, walk_eq_foldlM, Node.preorder, foldlM_collect]
  simp [Block.preorder]

end FieldAudit.Template
