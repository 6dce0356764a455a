import FieldAudit.Proofs.Reading.Preorder
import Mathlib.Data.List.Basic

/-! # Loop control

`break` and `continue` belong into the body of a `range`.  `Node.placed` lists the nodes of a tree
in preorder, each with whether it stands in the body of a `range` of that tree.  While a template is
read, the depth counts the bodies of `range` around the place, so a loop control stands in such a
body (`Passage.Reads.loopControl`).  The depth is kept on the way into the body of a `block` action,
though, and that body becomes a tree of its own: there the `range` may be around the call that the
action leaves behind (`parse_block_break`).  This is the only way out of a loop
(`parse_loopControl`): the template itself holds no loop control outside loops, and a template
defined in it holds one only if it runs inside a loop (`RunsInLoop`). -/

namespace FieldAudit.Template

/-! ## Nodes in loops -/

mutual

/-- The nodes of a tree in preorder, each with whether it stands in the body of a `range`.  A pipe
holds no blocks, so its nodes stand where the pipe does. -/
def Node.placed (inLoop : Bool) : Node → List (Node × Bool)
  | .branch kind pos p body alternative =>
    (.branch kind pos p body alternative, inLoop) ::
      ((pipePreorder p).map (·, inLoop) ++ blockPlaced (inLoop || kind = .rangeBranch) body ++
        block?Placed inLoop alternative)
  | .list b => blockPlaced inLoop b
  | node => node.preorder.map (·, inLoop)

/-- The nodes of a block, with whether they stand in loops. -/
def blockPlaced (inLoop : Bool) : Block Node → List (Node × Bool)
  | ⟨pos, nodes⟩ => (.list ⟨pos, nodes⟩, inLoop) :: nodesPlaced inLoop nodes

/-- The nodes of a block that may be absent, with whether they stand in loops. -/
def block?Placed (inLoop : Bool) : Option (Block Node) → List (Node × Bool)
  | none => []
  | some block => blockPlaced inLoop block

/-- The nodes of a list of nodes, with whether they stand in loops. -/
def nodesPlaced (inLoop : Bool) : List Node → List (Node × Bool)
  | [] => []
  | node :: rest => node.placed inLoop ++ nodesPlaced inLoop rest

end

/-- The nodes of the body of a template, with whether they stand in loops of that body. -/
def Block.placed (block : Block Node) : List (Node × Bool) :=
  blockPlaced false block

/-- Whether a node is a `break` or a `continue`. -/
def Node.isLoopControl : Node → Bool
  | .breakLoop _ | .continueLoop _ => true
  | _ => false

/-- Every loop control among some nodes stands in the body of a `range`. -/
def Confined (placed : List (Node × Bool)) : Prop :=
  ∀ entry ∈ placed, entry.1.isLoopControl = true → entry.2 = true

/-- Every loop control of a template body stands in the body of a `range` of that template body. -/
def Block.LoopsConfined (block : Block Node) : Prop :=
  Confined block.placed

instance (placed : List (Node × Bool)) : Decidable (Confined placed) :=
  inferInstanceAs (Decidable (∀ entry ∈ placed, _))

instance (block : Block Node) : Decidable block.LoopsConfined :=
  inferInstanceAs (Decidable (Confined _))

mutual

/-- Placing the nodes below a node keeps their preorder. -/
theorem Node.map_fst_placed (inLoop : Bool) :
    (node : Node) → (node.placed inLoop).map Prod.fst = node.preorder
  | .branch kind pos p body alternative => by
    simp only [Node.placed, Node.preorder, List.map_cons, List.map_append, List.map_map,
      map_fst_blockPlaced _ body, map_fst_block?Placed _ alternative, Function.comp_def,
      List.map_id_fun', id]
  | .list b => by rw [Node.placed, Node.preorder, map_fst_blockPlaced _ b]
  | .action .. | .pipe .. | .command .. | .chain .. | .template .. | .text .. | .field ..
  | .identifier .. | .variable .. | .dot .. | .nil .. | .bool .. | .number .. | .string ..
  | .breakLoop .. | .continueLoop .. => by simp [Node.placed, Function.comp_def]

/-- Placing the nodes of a block keeps their preorder. -/
theorem map_fst_blockPlaced (inLoop : Bool) :
    (block : Block Node) → (blockPlaced inLoop block).map Prod.fst = blockPreorder block
  | ⟨pos, nodes⟩ => by
    rw [blockPlaced, blockPreorder, List.map_cons, map_fst_nodesPlaced _ nodes]

/-- Placing the nodes of an optional block keeps their preorder. -/
theorem map_fst_block?Placed (inLoop : Bool) :
    (block : Option (Block Node)) →
      (block?Placed inLoop block).map Prod.fst = block?Preorder block
  | none => rfl
  | some block => by rw [block?Placed, block?Preorder, map_fst_blockPlaced _ block]

/-- Placing the nodes of a list keeps their preorder. -/
theorem map_fst_nodesPlaced (inLoop : Bool) :
    (nodes : List Node) → (nodesPlaced inLoop nodes).map Prod.fst = nodesPreorder nodes
  | [] => rfl
  | node :: rest => by
    rw [nodesPlaced, nodesPreorder, List.map_append, Node.map_fst_placed _ node,
      map_fst_nodesPlaced _ rest]

end

/-- A placed node is one of the block's nodes. -/
theorem mem_preorder_of_mem_blockPlaced {inLoop placedIn : Bool} {block : Block Node} {node : Node}
    (h : (node, placedIn) ∈ blockPlaced inLoop block) : node ∈ block.preorder := by
  rw [Block.preorder, ← map_fst_blockPlaced inLoop block]
  exact List.mem_map_of_mem h

namespace Confined

/-- Nothing is confined. -/
theorem nil : Confined [] :=
  List.forall_mem_nil _

/-- A node in front is confined if it leaves no loop outside of one. -/
theorem cons {node : Node} {inLoop : Bool} {placed : List (Node × Bool)}
    (hn : node.isLoopControl = true → inLoop = true) (h : Confined placed) :
    Confined ((node, inLoop) :: placed) :=
  List.forall_mem_cons.2 ⟨hn, h⟩

/-- Confinement is checked on each part. -/
theorem append {left right : List (Node × Bool)} (hl : Confined left) (hr : Confined right) :
    Confined (left ++ right) :=
  List.forall_mem_append.2 ⟨hl, hr⟩

/-- A node alone, in a loop if it is a loop control. -/
theorem single {node : Node} {inLoop : Bool} (h : node.isLoopControl = true → inLoop = true) :
    Confined [(node, inLoop)] :=
  .cons h .nil

end Confined

/-! ## Loop control while reading -/

/-- The nodes of a passage.  They stand in loops if there is a `range` around the passage. -/
def Passage.placed : Passage → List (Node × Bool)
  | .items depth nodes _ => nodesPlaced (depth ≠ 0) nodes
  | .item depth (.node n) => n.placed (depth ≠ 0)
  | .item _ (.ending _) => []
  | .branch depth _ n => n.placed (depth ≠ 0)
  | .block depth n => n.placed (depth ≠ 0)
  | .body depth root => blockPlaced (depth ≠ 0) root
  | .definition => []
  | .document nodes => nodesPlaced false nodes

/-- The depth in the body of a branch is positive where a `range` is around it. -/
theorem depth_ne_zero (kind : BranchKind) (depth : Nat) :
    decide (kind.depth depth ≠ 0) = (decide (depth ≠ 0) || decide (kind = .rangeBranch)) := by
  cases kind <;> simp [BranchKind.depth]

/-- Nothing inside a command leaves a loop. -/
theorem isLoopControl_of_isInner {node : Node} (h : node.isInner = true) :
    node.isLoopControl = false := by
  cases node <;> first | rfl | cases h

/-- A pipe holds no loop control. -/
theorem Phrase.Reads.confined {context : Context} {close : Token.Kind} {p : Pipe Node}
    {s s' : Input} (h : (Phrase.pipe context close p).Reads s s') (inLoop : Bool) :
    Confined ((pipePreorder p).map (·, inLoop)) := by
  intro entry hentry hc
  obtain ⟨node, hnode, rfl⟩ := List.mem_map.1 hentry
  rw [isLoopControl_of_isInner (h.isInner node hnode)] at hc
  cases hc

/-- A branch is confined if its parts are, its body with one more loop around it for a `range`. -/
theorem confined_branch {depth : Nat} {kind : BranchKind} {pos bodyPos : Nat} {pipe : Pipe Node}
    {nodes : List Node} {alternative : Option (Block Node)} {context : Context}
    {close : Token.Kind} {s s' : Input} (hp : (Phrase.pipe context close pipe).Reads s s')
    (hb : Confined (nodesPlaced (kind.depth depth ≠ 0) nodes))
    (ha : Confined (block?Placed (depth ≠ 0) alternative)) :
    Confined ((Node.branch kind pos pipe ⟨bodyPos, nodes⟩ alternative).placed (depth ≠ 0)) := by
  rw [depth_ne_zero] at hb
  rw [Node.placed, blockPlaced]
  exact .cons nofun (.append (.append (hp.confined _) (.cons nofun hb)) ha)

/-- Every loop control that is read stands in a loop of the passage or around it. -/
theorem Passage.Reads.loopControl {passage : Passage} {s s' : State} (h : passage.Reads s s') :
    Confined passage.placed := by
  induction h with
  | last hk hi ih => exact .nil
  | more hk hi hl hr ihi ihr => exact .append ihi ihr
  | text hk => exact .single nofun
  | branch ho hb ih => exact ih
  | block ho hb ih => exact ih
  | endAction ho hr => exact .nil
  | elseAction ho hr => exact .nil
  | elseBranch ho hb => exact .nil
  -- The depth is checked here, and only here.
  | breakAction ho hr hd => exact .single fun _ => decide_eq_true hd
  | continueAction ho hr hd => exact .single fun _ => decide_eq_true hd
  | bareCall ho hn hr => exact .single nofun
  | call ho hn hr hp => exact .cons nofun (hp.confined _)
  | action ho hw hp => exact .cons nofun (hp.confined _)
  | single hp hi ih => exact confined_branch hp ih .nil
  | chained hp hi hl hk hb ihi ihb =>
    exact confined_branch hp ihi (.cons nofun (.append ihb .nil))
  | double hp hi hl hk ha ihi iha => exact confined_branch hp ihi (.cons nofun iha)
  | blockCall hn hp hb hd ih => exact .cons nofun (hp.confined _)
  | body hi ih => exact .cons nofun ih
  | definition hn hr hb hd ih => exact .nil
  | finished hk => exact .nil
  | defined hk hw hd hl hr ihd ihr => exact ihr
  | node hk hn hi hl hr ihi ihr => exact .append ihi ihr

/-! ## Templates that run in loops -/

/-- A template runs in a loop: it is called in one, by the given nodes or by a defined template, or
by a defined template that itself runs in one. -/
inductive RunsInLoop (defines : List Definition) (placed : List (Node × Bool)) : String → Prop
  | called {pos : Nat} {name : String} {pipe : Pipe Node}
      (hc : (.template pos name (some pipe), true) ∈ placed) : RunsInLoop defines placed name
  | calledBy {d : Definition} {pos : Nat} {name : String} {pipe : Pipe Node} (hd : d ∈ defines)
      (hc : (.template pos name (some pipe), true) ∈ d.root.placed) :
      RunsInLoop defines placed name
  | through {d : Definition} {pos : Nat} {name : String} {pipe : Pipe Node} (hd : d ∈ defines)
      (hr : RunsInLoop defines placed d.name)
      (hc : .template pos name (some pipe) ∈ d.root.preorder) : RunsInLoop defines placed name

/-- A template runs in a loop of a template tree. -/
def Tree.RunsInLoop (tree : Tree) (name : String) : Prop :=
  Template.RunsInLoop tree.defines tree.root.placed name

/-- A block with a call in it is not blank. -/
theorem isBlank_of_call {root : Block Node} {pos : Nat} {name : String}
    {pipe : Option (Pipe Node)} (h : .template pos name pipe ∈ root.preorder) :
    root.isBlank = false := by
  obtain ⟨rootPos, nodes⟩ := root
  by_contra hblank
  have hall := List.all_eq_true.1 (Bool.of_not_eq_false hblank)
  -- A blank block holds texts only, and a text has no other nodes in it.
  have htext : ∀ node ∈ nodesPreorder nodes, ∃ pos text, node = .text pos text := by
    clear h hblank
    induction nodes with
    | nil => exact List.forall_mem_nil _
    | cons node rest ih =>
      have hnode := hall node List.mem_cons_self
      split at hnode
      next =>
        refine List.forall_mem_cons.2 ⟨⟨_, _, rfl⟩, ih fun node hmem => ?_⟩
        exact hall node (List.mem_cons_of_mem _ hmem)
      next => cases hnode
  rcases List.mem_cons.1 h with he | hmem
  · cases he
  · obtain ⟨_, _, he⟩ := htext _ hmem
    cases he

section Define

variable {pos : Nat} {name : String} {root : Block Node} {defines defines' : List Definition}

/-- A definition takes away blank templates only. -/
theorem mem_define_of_mem (h : define pos name root defines = .ok defines') {d : Definition}
    (hd : d ∈ defines) (hblank : d.root.isBlank = false) : d ∈ defines' := by
  cases define_enters h with
  | new => exact List.mem_append_left _ hd
  | replaced _ hb =>
    rcases List.mem_append.1 hd with hd | hd
    · exact List.mem_append_left _ hd
    · rcases List.mem_cons.1 hd with rfl | hd
      · rw [hb] at hblank; cases hblank
      · exact List.mem_append_right _ (List.mem_cons_of_mem _ hd)
  | ignored => exact hd

/-- A definition that is not blank is kept. -/
theorem mem_define_self (h : define pos name root defines = .ok defines')
    (hblank : root.isBlank = false) : ⟨name, root⟩ ∈ defines' := by
  cases define_enters h with
  | new => exact List.mem_append_right _ (List.mem_singleton_self _)
  | replaced => exact List.mem_append_right _ List.mem_cons_self
  | ignored _ hb => rw [hb] at hblank; cases hblank

end Define

/-- More templates, and more calls in loops, keep a template in its loop. -/
theorem RunsInLoop.imp {defines defines' : List Definition} {placed placed' : List (Node × Bool)}
    {name : String} (h : RunsInLoop defines placed name)
    (hdefines : ∀ d ∈ defines, d.root.isBlank = false → d ∈ defines')
    (hplaced : ∀ pos name pipe, (Node.template pos name (some pipe), true) ∈ placed →
      RunsInLoop defines' placed' name) : RunsInLoop defines' placed' name := by
  induction h with
  | called hc => exact hplaced _ _ _ hc
  | calledBy hd hc =>
    have hblank := isBlank_of_call (mem_preorder_of_mem_blockPlaced hc)
    exact .calledBy (hdefines _ hd hblank) hc
  | through hd _ hc ih => exact .through (hdefines _ hd (isBlank_of_call hc)) ih hc

/-- What reading does to the defined templates: none but blank ones are lost, and each new one is
confined or runs in a loop. -/
structure Accounts (defines defines' : List Definition) (placed : List (Node × Bool)) : Prop where
  kept : ∀ d ∈ defines, d.root.isBlank = false → d ∈ defines'
  added : ∀ d ∈ defines', d ∈ defines ∨ d.root.LoopsConfined ∨ RunsInLoop defines' placed d.name

namespace Accounts

variable {defines defines₁ defines₂ : List Definition} {placed placed' : List (Node × Bool)}

/-- No new definitions need no account. -/
theorem refl (defines : List Definition) (placed : List (Node × Bool)) :
    Accounts defines defines placed :=
  ⟨fun _ hd _ => hd, fun _ hd => .inl hd⟩

/-- More places account for at least as much. -/
theorem mono (h : Accounts defines defines₁ placed) (hsub : placed ⊆ placed') :
    Accounts defines defines₁ placed' :=
  ⟨h.kept, fun d hd => (h.added d hd).imp_right (.imp_right fun hr =>
    hr.imp (fun _ hd _ => hd) fun _ _ _ hc => .called (hsub hc))⟩

/-- Accounts of two stretches add up. -/
theorem trans (h : Accounts defines defines₁ placed) (h' : Accounts defines₁ defines₂ placed) :
    Accounts defines defines₂ placed := by
  refine ⟨fun d hd hblank => h'.kept d (h.kept d hd hblank) hblank, fun d hd => ?_⟩
  rcases h'.added d hd with hd | hnew
  · refine (h.added d hd).imp_right (.imp_right fun hr => ?_)
    exact hr.imp h'.kept fun _ _ _ hc => .called hc
  · exact .inr hnew

/-- The body of a definition is read with a loop around it only if the definition is called right
there. -/
theorem define {inLoop : Bool} {pos : Nat} {name : String} {root : Block Node}
    (h : Accounts defines defines₁ (blockPlaced inLoop root))
    (hd : Template.define pos name root defines₁ = .ok defines₂)
    (hroot : Confined (blockPlaced inLoop root))
    (hcall : inLoop = true → RunsInLoop defines₂ placed name) :
    Accounts defines defines₂ placed := by
  have hkept : ∀ d ∈ defines₁, d.root.isBlank = false → d ∈ defines₂ :=
    fun d => mem_define_of_mem hd
  refine ⟨fun d hmem hblank => hkept d (h.kept d hmem hblank) hblank, fun d hmem => ?_⟩
  rcases mem_of_define_eq_ok hd hmem with hmem | rfl
  · refine (h.added d hmem).imp_right (.imp_right fun hr => hr.imp hkept ?_)
    intro pos' name' pipe hc
    -- A call in the body of the definition is in a loop there, or the definition is.
    have hself := mem_define_self hd (isBlank_of_call (mem_preorder_of_mem_blockPlaced hc))
    cases inLoop with
    | false => exact .calledBy hself hc
    | true => exact .through hself (hcall rfl) (mem_preorder_of_mem_blockPlaced hc)
  · cases inLoop with
    | false => exact .inr (.inl hroot)
    | true => exact .inr (.inr (hcall rfl))

end Accounts

/-- The nodes of a branch keep their place: those of the body inside the loop the branch may open,
those of the alternative outside of it. -/
theorem nodesPlaced_subset_branch (depth : Nat) (kind : BranchKind) (pos bodyPos : Nat)
    (pipe : Pipe Node) (nodes : List Node) (alternative : Option (Block Node)) :
    nodesPlaced (kind.depth depth ≠ 0) nodes ⊆
        (Node.branch kind pos pipe ⟨bodyPos, nodes⟩ alternative).placed (depth ≠ 0) ∧
      block?Placed (depth ≠ 0) alternative ⊆
        (Node.branch kind pos pipe ⟨bodyPos, nodes⟩ alternative).placed (depth ≠ 0) := by
  rw [depth_ne_zero, Node.placed, blockPlaced]
  constructor
  · intro entry hentry
    simp only [List.mem_cons, List.mem_append]
    exact .inr (.inl (.inr (.inr hentry)))
  · intro entry hentry
    simp only [List.mem_cons, List.mem_append]
    exact .inr (.inr hentry)

/-- Every template that a passage defines is confined or runs in a loop. -/
theorem Passage.Reads.accounts {passage : Passage} {s s' : State} (h : passage.Reads s s') :
    Accounts s.defines s'.defines passage.placed := by
  induction h with
  | last hk hi ih => exact ih
  | more hk hi hl hr ihi ihr =>
    exact (ihi.mono (List.subset_append_left ..)).trans (ihr.mono (List.subset_append_right ..))
  | branch ho hb ih => exact ih
  | block ho hb ih => exact ih
  | @single depth kind pipe nodes pos s s₁ input hp hi ih =>
    exact ih.mono (nodesPlaced_subset_branch ..).1
  | @chained depth kind pipe nodes pos nested s s₁ s₂ input hp hi hl hk hb ihi ihb =>
    obtain ⟨hbody, halternative⟩ := nodesPlaced_subset_branch depth kind pipe.pos
      input.peekWord.pos pipe nodes (some ⟨pos, [nested]⟩)
    refine (ihi.mono hbody).trans (ihb.mono (List.Subset.trans ?_ halternative))
    exact List.subset_cons_of_subset _ (List.subset_append_left ..)
  | @double depth kind pipe nodes others pos pos' s s₁ s₂ input hp hi hl hk ha ihi iha =>
    obtain ⟨hbody, halternative⟩ := nodesPlaced_subset_branch depth kind pipe.pos
      input.peekWord.pos pipe nodes (some ⟨s₁.input.peekWord.pos, others⟩)
    refine (ihi.mono hbody).trans (iha.mono (List.Subset.trans ?_ halternative))
    exact List.subset_cons_self ..
  | @blockCall depth name pipe root defines s s₁ input hn hp hb hd ih =>
    refine ih.define hd hb.loopControl fun hdepth => ?_
    -- The body was read at the depth of the action, and its call stays there.
    have hcall : (Node.template s.input.peekWord.pos name (some pipe), true) ∈
        (Node.template s.input.peekWord.pos name (some pipe)).placed (depth ≠ 0) := by
      rw [hdepth]
      exact List.mem_cons_self
    exact .called hcall
  | body hi ih => exact ih.mono (List.subset_cons_self ..)
  | definition hn hr hb hd ih => exact ih.define hd hb.loopControl nofun
  | defined hk hw hd hl hr ihd ihr => exact (ihd.mono (List.nil_subset _)).trans ihr
  | node hk hn hi hl hr ihi ihr =>
    exact (ihi.mono (List.subset_append_left ..)).trans (ihr.mono (List.subset_append_right ..))
  | _ => exact .refl _ _

/-! ## Whole templates -/

/-- A template holds no loop control outside its loops, and a template defined in it holds one only
if it runs in a loop. -/
theorem parse_loopControl {d : Delimiters} {source : List Char} {tree : Tree}
    (h : parse d source = .ok tree) :
    tree.root.LoopsConfined ∧
      ∀ definition ∈ tree.defines,
        definition.root.LoopsConfined ∨ tree.RunsInLoop definition.name := by
  obtain ⟨tokens, -, htree⟩ := parse_eq_ok h
  obtain ⟨⟨pos, nodes⟩, defines⟩ := tree
  obtain ⟨s, hd, -, rfl⟩ := ofTokens_eq_ok_iff.1 htree
  have hroot : nodesPlaced false nodes ⊆ Block.placed ⟨pos, nodes⟩ := List.subset_cons_self ..
  refine ⟨.cons nofun hd.loopControl, fun definition hmem => ?_⟩
  rcases (hd.accounts.mono hroot).added definition hmem with hold | hnew
  · cases hold
  · exact hnew

/-- A loop around a block with a `break` in it. -/
def breakInBlock : List Char :=
  "\x7b\x7brange .A\x7d\x7d\x7b\x7bblock \x22x\x22 .\x7d\x7d\x7b\x7bbreak\x7d\x7d".toList ++
    "\x7b\x7bend\x7d\x7d\x7b\x7bend\x7d\x7d".toList

/-- The block becomes a template of its own, and the loop stays around its call: a template can be
defined with a loop control that no loop of it is around. -/
theorem parse_block_break :
    ∃ tree, parse {} breakInBlock = .ok tree ∧
      ∃ definition ∈ tree.defines, ¬definition.root.LoopsConfined := by
  have h : (parse {} breakInBlock).toOption.any (fun tree =>
      tree.defines.any fun definition => ¬definition.root.LoopsConfined) = true := by
    decide +kernel
  cases hparse : parse {} breakInBlock with
  | error e => rw [hparse] at h; cases h
  | ok tree =>
    rw [hparse] at h
    obtain ⟨definition, hmem, hloose⟩ := List.any_eq_true.1 h
    exact ⟨tree, rfl, definition, hmem, of_decide_eq_true hloose⟩

/-- A `break` in a block that stands in a loop is read; the definition it makes runs in a loop. -/
theorem parse_loopControl_break :
    ∃ tree, parse {} breakInBlock = .ok tree ∧ tree.root.LoopsConfined ∧
      ∀ definition ∈ tree.defines,
        definition.root.LoopsConfined ∨ tree.RunsInLoop definition.name := by
  have h : (parse {} breakInBlock).toOption.isSome = true := by decide +kernel
  cases hparse : parse {} breakInBlock with
  | error e => rw [hparse] at h; cases h
  | ok tree => exact ⟨tree, rfl, parse_loopControl hparse⟩

end FieldAudit.Template
