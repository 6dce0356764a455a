import FieldAudit.Proofs.Reading.Passage
import FieldAudit.Template.Node.Walk

/-! # The nodes that are read

The nodes of a phrase and of a passage, in preorder.  Pipes hold few kinds of nodes
(`Phrase.Reads.isInner`), and outside pipes a passage adds few others, so what holds of these and of
the nodes of all pipes holds of all nodes that are read (`Passage.Reads.forall_preorder`). -/

namespace FieldAudit.Template

/-- Preorders of lists are put one behind the other. -/
theorem nodesPreorder_append (left right : List Node) :
    nodesPreorder (left ++ right) = nodesPreorder left ++ nodesPreorder right := by
  induction left with
  | nil => rfl
  | cons node rest ih => rw [List.cons_append, nodesPreorder, nodesPreorder, ih, List.append_assoc]

@[simp] theorem nodesPreorder_singleton (node : Node) :
    nodesPreorder [node] = node.preorder := by
  rw [nodesPreorder, nodesPreorder, List.append_nil]

/-- What a phrase holds, in preorder. -/
def Phrase.preorder : Phrase → List Node
  | .pipe _ _ p => pipePreorder p
  | .commands _ cs => commandsPreorder cs
  | .arguments as => nodesPreorder as
  | .operand a => nodesPreorder a.toList

/-- What a passage holds, in preorder. -/
def Passage.preorder : Passage → List Node
  | .items _ nodes _ => nodesPreorder nodes
  | .item _ (.node n) => n.preorder
  | .item _ (.ending _) => []
  | .branch _ _ n => n.preorder
  | .block _ n => n.preorder
  | .body _ root => root.preorder
  | .definition => []
  | .document nodes => nodesPreorder nodes

/-- Whether a node stands in blocks, and not in pipes. -/
def Node.isOuter : Node → Bool
  | .text .. | .action .. | .branch .. | .template .. | .list .. | .breakLoop ..
  | .continueLoop .. => true
  | _ => false

/-- Whether a node can be read in a pipe, where every identifier is a function. -/
def Node.isInner : Node → Bool
  | .identifier _ _ isFunction => isFunction
  | .pipe .. | .command .. | .chain .. | .field .. | .variable .. | .dot .. | .nil .. | .bool ..
  | .number .. | .string .. => true
  | _ => false

/-! ## Nodes of pipes -/

/-- Trailing fields keep a node within a command. -/
theorem withFields_isInner {node node' : Node} {s s' : Input}
    (hf : withFields node s = .ok (node', s')) (hn : ∀ n ∈ node.preorder, n.isInner) :
    ∀ n ∈ node'.preorder, n.isInner := by
  rcases withFields_cases hf with ⟨-, rfl, -⟩ | ⟨first, rest, -, -, -, rfl, -⟩
  · exact hn
  · unfold Node.select
    split
    next => exact List.forall_mem_singleton.2 rfl
    next => exact List.forall_mem_singleton.2 rfl
    next => exact List.forall_mem_cons.2 ⟨rfl, hn⟩

/-- An atom stands within a command. -/
theorem atom?_isInner {scope : List String} {t : Token} {node : Node}
    (h : atom? scope t = .ok (some node)) : ∀ n ∈ node.preorder, n.isInner := by
  rcases atom?_cases h with ⟨-, rfl⟩ | ⟨-, -, rfl⟩ | ⟨-, rfl⟩ | ⟨-, hl⟩
  · exact List.forall_mem_singleton.2 rfl
  · exact List.forall_mem_singleton.2 rfl
  · exact List.forall_mem_singleton.2 rfl
  · unfold Node.isLiteral at hl
    split at hl
    all_goals first | exact List.forall_mem_singleton.2 rfl | cases hl

/-- A pipe holds neither blocks nor actions, and its identifiers are functions. -/
theorem Phrase.Reads.isInner {phrase : Phrase} {s s' : Input} (h : phrase.Reads s s') :
    ∀ n ∈ phrase.preorder, n.isInner := by
  induction h with
  | @pipe context close s s₁ s₂ decls commands hd hc hp ih =>
    have hdecls : ∀ n ∈ decls.map Node.variable, n.isInner := by
      rintro n hn
      obtain ⟨v, -, rfl⟩ := List.mem_map.1 hn
      rfl
    exact List.forall_mem_cons.2 ⟨rfl, List.forall_mem_append.2 ⟨hdecls, ih⟩⟩
  | close => exact List.forall_mem_nil _
  | command hk hs ha hn hl hc iha ihc =>
    show ∀ n ∈ commandsPreorder (_ :: _), n.isInner
    rw [commandsPreorder]
    exact List.forall_mem_append.2 ⟨List.forall_mem_cons.2 ⟨rfl, iha⟩, ihc⟩
  | spaced ho hk hl ha iho iha =>
    show ∀ n ∈ nodesPreorder (_ ++ _), n.isInner
    rw [nodesPreorder_append]
    exact List.forall_mem_append.2 ⟨iho, iha⟩
  | closed ho hk ih => exact ih
  | piped ho hk ih => exact ih
  | parenthesis hk hp hf ih =>
    show ∀ n ∈ nodesPreorder [_], n.isInner
    rw [nodesPreorder_singleton]
    exact withFields_isInner hf ih
  | atom ha hf =>
    show ∀ n ∈ nodesPreorder [_], n.isInner
    rw [nodesPreorder_singleton]
    exact withFields_isInner hf (atom?_isInner ha)
  | absent hk ha => exact List.forall_mem_nil _

/-! ## Nodes of passages -/

/-- What holds of the nodes of all pipes that are read and of all nodes that stand in blocks holds
of all nodes of a passage. -/
theorem Passage.Reads.forall_preorder {P : Node → Prop} (houter : ∀ n : Node, n.isOuter → P n)
    (hpipe : ∀ {context : Context} {p : Pipe Node} {s s' : Input},
      (Phrase.pipe context .rightDelim p).Reads s s' → ∀ n ∈ pipePreorder p, P n)
    {passage : Passage} {s s' : State} (h : passage.Reads s s') :
    ∀ n ∈ passage.preorder, P n := by
  -- What a passage reads is made of nodes outside pipes, each built in one of three ways, and of
  -- pipes.
  have single (n : Node) (ho : n.isOuter) (hp : n.preorder = [n]) : ∀ m ∈ n.preorder, P m := by
    rw [hp]
    simpa using houter n ho
  have block (pos : Nat) {nodes : List Node} (hn : ∀ n ∈ nodesPreorder nodes, P n) :
      ∀ n ∈ blockPreorder ⟨pos, nodes⟩, P n := by
    rw [blockPreorder]
    exact List.forall_mem_cons.2 ⟨houter _ rfl, hn⟩
  have branch (kind : BranchKind) (pos bodyPos : Nat) {p : Pipe Node} {nodes : List Node}
      {alternative : Option (Block Node)} (hp : ∀ n ∈ pipePreorder p, P n)
      (hn : ∀ n ∈ nodesPreorder nodes, P n) (ha : ∀ n ∈ block?Preorder alternative, P n) :
      ∀ n ∈ (Node.branch kind pos p ⟨bodyPos, nodes⟩ alternative).preorder, P n := by
    rw [Node.preorder]
    refine List.forall_mem_cons.2 ⟨houter _ rfl, ?_⟩
    exact List.forall_mem_append.2 ⟨List.forall_mem_append.2 ⟨hp, block bodyPos hn⟩, ha⟩
  induction h with
  | last hk hi ih => exact List.forall_mem_nil _
  | more hk hi hl hr ihi ihr =>
    show ∀ n ∈ nodesPreorder (_ :: _), P n
    rw [nodesPreorder]
    exact List.forall_mem_append.2 ⟨ihi, ihr⟩
  | text hk => exact single _ rfl rfl
  | branch ho hb ih => exact ih
  | block ho hb ih => exact ih
  | endAction ho hr => exact List.forall_mem_nil _
  | elseAction ho hr => exact List.forall_mem_nil _
  | elseBranch ho hb => exact List.forall_mem_nil _
  | breakAction ho hr hd => exact single _ rfl rfl
  | continueAction ho hr hd => exact single _ rfl rfl
  | bareCall ho hn hr => exact single _ rfl rfl
  | call ho hn hr hp =>
    show ∀ n ∈ (Node.template _ _ _).preorder, P n
    rw [Node.preorder]
    exact List.forall_mem_cons.2 ⟨houter _ rfl, hpipe hp⟩
  | action ho hw hp =>
    show ∀ n ∈ (Node.action _ _).preorder, P n
    rw [Node.preorder]
    exact List.forall_mem_cons.2 ⟨houter _ rfl, hpipe hp⟩
  | single hp hi ih => exact branch _ _ _ (hpipe hp) ih (List.forall_mem_nil _)
  | chained hp hi hl hk hb ihi ihb =>
    refine branch _ _ _ (hpipe hp) ihi (block _ ?_)
    rw [nodesPreorder_singleton]
    exact ihb
  | double hp hi hl hk ha ihi iha => exact branch _ _ _ (hpipe hp) ihi (block _ iha)
  | blockCall hn hp hb hd ih =>
    show ∀ n ∈ (Node.template _ _ _).preorder, P n
    rw [Node.preorder]
    exact List.forall_mem_cons.2 ⟨houter _ rfl, hpipe hp⟩
  | body hi ih => exact block _ ih
  | definition hn hr hb hd ih => exact List.forall_mem_nil _
  | finished hk => exact List.forall_mem_nil _
  | defined hk hw hd hl hr ihd ihr => exact ihr
  | node hk hn hi hl hr ihi ihr =>
    show ∀ n ∈ nodesPreorder (_ :: _), P n
    rw [nodesPreorder]
    exact List.forall_mem_append.2 ⟨ihi, ihr⟩

end FieldAudit.Template
