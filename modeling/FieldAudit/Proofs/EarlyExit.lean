import FieldAudit.Proofs.Walk

/-! # Walks that stop at an error

A visitor may keep a state of its own, change it on every visit, and fail.  A walk with it visits
the nodes of the preorder, up to and with the first one on which it fails (`walk_exits_early`).  To
see which nodes a walk visits, the visitor is made to record them (`Visitor.recorded`). -/

namespace FieldAudit.Template

variable {σ ε : Type}

/-! ## The preorder by children -/

/-- The nodes directly below a node, in order. -/
def Node.children : Node → List Node
  | .list block => block.nodes
  | .action _ p => [.pipe p]
  | .pipe p => p.decls.map .variable ++ p.commands.map .command
  | .command c => c.args
  | .chain _ inner _ => [inner]
  | .branch _ _ p body alternative => .pipe p :: .list body :: (alternative.map .list).toList
  | .template _ _ p => (p.map .pipe).toList
  | _ => []

/-- The nodes below a list are those below its members in turn. -/
theorem nodesPreorder_eq_flatMap (nodes : List Node) :
    nodesPreorder nodes = nodes.flatMap Node.preorder := by
  induction nodes with
  | nil => rfl
  | cons node rest ih => rw [nodesPreorder, ih, List.flatMap_cons]

/-- The nodes below a list of commands are those below its members in turn. -/
theorem commandsPreorder_eq_flatMap (commands : List (Command Node)) :
    commandsPreorder commands = (commands.map Node.command).flatMap Node.preorder := by
  induction commands with
  | nil => rfl
  | cons c rest ih => rw [commandsPreorder, ih, List.map_cons, List.flatMap_cons, Node.preorder]

/-- A declared variable has nothing below it. -/
theorem flatMap_preorder_variable (decls : List Variable) :
    (decls.map Node.variable).flatMap Node.preorder = decls.map Node.variable := by
  induction decls with
  | nil => rfl
  | cons v rest ih => rw [List.map_cons, List.flatMap_cons, ih, Node.preorder]; rfl

/-- A node comes before what is below its children, child by child. -/
theorem preorder_eq_children (node : Node) :
    node.preorder = node :: node.children.flatMap Node.preorder := by
  cases node with
  | list block => rw [Node.preorder, blockPreorder, nodesPreorder_eq_flatMap]; rfl
  | command c => rw [Node.preorder, commandPreorder, nodesPreorder_eq_flatMap]; rfl
  | pipe p =>
    rw [Node.preorder, pipePreorder, commandsPreorder_eq_flatMap, Node.children,
      List.flatMap_append, flatMap_preorder_variable]
  | action pos p => simp [Node.preorder, Node.children]
  | chain pos inner fields => simp [Node.preorder, Node.children]
  | branch kind pos p body alternative =>
    cases alternative <;> simp [Node.preorder, Node.children, block?Preorder]
  | template pos name p => cases p <;> simp [Node.preorder, Node.children, pipe?Preorder]
  | _ => rfl

/-! ## Visitors -/

/-- A visitor: the result of a visit and the state after it, which may have changed also where the
visit fails. -/
def Visitor (σ ε : Type) : Type :=
  σ → Node → Except ε Unit × σ

namespace Visitor

/-- The state after some nodes have been visited. -/
def after (v : Visitor σ ε) : σ → List Node → σ :=
  List.foldl fun s node => (v s node).2

/-- Some nodes can be visited one after the other, and no visit fails. -/
def Accepts (v : Visitor σ ε) : σ → List Node → Prop
  | _, [] => True
  | s, node :: rest => (v s node).1 = .ok () ∧ v.Accepts (v s node).2 rest

/-- A visit in the list of those that are accepted succeeds. -/
theorem Accepts.of_append {v : Visitor σ ε} {s : σ} {before : List Node} {node : Node}
    {rest : List Node} (h : v.Accepts s (before ++ node :: rest)) :
    (v (v.after s before) node).1 = .ok () := by
  induction before generalizing s with
  | nil => exact h.1
  | cons first before ih => exact ih h.2

/-- The visitor that also records the nodes it is called with. -/
def recorded (v : Visitor σ ε) (record : List Node × σ) (node : Node) :
    Except (ε × List Node × σ) (List Node × σ) :=
  match v record.2 node with
  | (.ok (), s) => .ok (record.1 ++ [node], s)
  | (.error e, s) => .error (e, record.1 ++ [node], s)

/-- A visit that goes on records its node and keeps the visitor's state. -/
theorem recorded_of_ok {v : Visitor σ ε} {s : σ} {node : Node} (h : (v s node).1 = .ok ())
    (seen : List Node) : v.recorded (seen, s) node = .ok (seen ++ [node], (v s node).2) := by
  rw [recorded]
  split
  next hv => rw [hv]
  next hv => rw [hv] at h; cases h

/-- A visit that fails records its node too, and ends there. -/
theorem recorded_of_error {v : Visitor σ ε} {s : σ} {node : Node} {e : ε}
    (h : (v s node).1 = .error e) (seen : List Node) :
    v.recorded (seen, s) node = .error (e, seen ++ [node], (v s node).2) := by
  rw [recorded]
  split
  next hv => rw [hv] at h; cases h
  next hv => rw [hv] at h ⊢; cases h; rfl

/-- The visits of some nodes in order all succeed, or they stop at the first that fails. -/
theorem foldlM_recorded (v : Visitor σ ε) (seen : List Node) (s : σ) (nodes : List Node) :
    (v.Accepts s nodes ∧
      nodes.foldlM v.recorded (seen, s) = .ok (seen ++ nodes, v.after s nodes)) ∨
    ∃ before node rest e, nodes = before ++ node :: rest ∧ v.Accepts s before ∧
      (v (v.after s before) node).1 = .error e ∧
      nodes.foldlM v.recorded (seen, s) =
        .error (e, seen ++ (before ++ [node]), v.after s (before ++ [node])) := by
  -- A failing visit ends the walk with its node recorded; otherwise the rest is walked with one
  -- more node in the record.
  induction nodes generalizing seen s with
  | nil => exact .inl ⟨trivial, by rw [List.append_nil]; rfl⟩
  | cons node rest ih =>
    rw [List.foldlM_cons]
    cases hv : (v s node).1 with
    | error e =>
      rw [recorded_of_error hv]
      exact .inr ⟨[], node, rest, e, rfl, trivial, hv, rfl⟩
    | ok =>
      rw [recorded_of_ok hv]
      rcases ih (seen ++ [node]) (v s node).2 with
        ⟨ha, hf⟩ | ⟨before, last, others, e, rfl, ha, he, hf⟩
      · refine .inl ⟨⟨hv, ha⟩, ?_⟩
        rw [List.append_assoc] at hf
        exact hf
      · refine .inr ⟨node :: before, last, others, e, rfl, ⟨hv, ha⟩, he, ?_⟩
        rw [List.append_assoc] at hf
        exact hf

end Visitor

/-- What comes out of a walk: the nodes that were visited, the state of the visitor at the end, and
the result. -/
structure Walked (σ ε : Type) where
  visited : List Node
  state : σ
  result : Except ε Unit

/-- Walks with a visitor over a node and everything below it. -/
def Visitor.walk (v : Visitor σ ε) (s : σ) (node : Node) : Walked σ ε :=
  match Template.walk v.recorded ([], s) node with
  | .ok (visited, s) => ⟨visited, s, .ok ()⟩
  | .error (e, visited, s) => ⟨visited, s, .error e⟩

/-- A walk visits a node, and then what is below its children in order: these are the nodes of the
preorder, each visited once.  The walk goes on to the end, or up to and with the first node on which
the visitor fails, and then gives back that error; so it succeeds just if no visit fails. -/
theorem walk_exits_early (node : Node) :
    node.preorder = node :: node.children.flatMap Node.preorder ∧
    ∀ (σ ε : Type) (v : Visitor σ ε) (s : σ),
      ((v.walk s node).result = .ok () ↔ v.Accepts s node.preorder) ∧
      (v.Accepts s node.preorder ∧
          v.walk s node = ⟨node.preorder, v.after s node.preorder, .ok ()⟩ ∨
        ∃ before last rest e, node.preorder = before ++ last :: rest ∧ v.Accepts s before ∧
          (v (v.after s before) last).1 = .error e ∧
          v.walk s node = ⟨before ++ [last], v.after s (before ++ [last]), .error e⟩) := by
  refine ⟨preorder_eq_children node, fun σ ε v s => ?_⟩
  have hwalk := walk_eq_foldlM v.recorded ([], s) node
  rcases v.foldlM_recorded [] s node.preorder with
    ⟨ha, hf⟩ | ⟨before, last, rest, e, hp, ha, he, hf⟩
  · have hout : v.walk s node = ⟨node.preorder, v.after s node.preorder, .ok ()⟩ := by
      rw [Visitor.walk, hwalk, hf]
      rfl
    rw [hout]
    exact ⟨iff_of_true rfl ha, .inl ⟨ha, rfl⟩⟩
  · have hout : v.walk s node = ⟨before ++ [last], v.after s (before ++ [last]), .error e⟩ := by
      rw [Visitor.walk, hwalk, hf]
      rfl
    have hnot : ¬ v.Accepts s node.preorder := by
      intro haccepts
      rw [hp] at haccepts
      rw [haccepts.of_append] at he
      cases he
    rw [hout]
    exact ⟨iff_of_false (fun h => by cases h) hnot, .inr ⟨before, last, rest, e, hp, ha, he, rfl⟩⟩

end FieldAudit.Template
