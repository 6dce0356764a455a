import FieldAudit.Proofs.Reading.Phrase
import FieldAudit.Template.Tree

/-! # The grammar of templates

`Passage.Reads` is the grammar that `Tree.ofTokens` follows outside pipes: blocks, the actions in
them, branches, calls and definitions.  As for pipes, the readers succeed exactly as the grammar
says (`ofTokens_eq_ok_iff`).  A rule that reads an action starts with `State.Opens`, the left
delimiter and the kind of the word after it. -/

namespace FieldAudit.Template

/-- The first word of the action that starts here. -/
def State.word (s : State) : Token :=
  s.input.next.peekWord

/-- The state after the first word of the action that starts here. -/
def State.afterWord (s : State) : State :=
  s.read s.input.next.next

/-- An action starts here, and its first word is of the given kind. -/
def State.Opens (s : State) (kind : Token.Kind) : Prop :=
  s.input.peekWord.kind = .leftDelim ∧ s.word.kind = kind

/-- Behind the first word of an action less is left to read. -/
theorem State.Opens.size_lt {s : State} {kind : Token.Kind} (ho : s.Opens kind) :
    s.input.next.size < s.size :=
  Input.size_next_lt (by rw [ho.1]; decide)

/-- A state behind the first word of an action is smaller. -/
theorem State.Opens.afterWord_size_lt {s : State} {kind : Token.Kind} (ho : s.Opens kind) :
    s.afterWord.size < s.size :=
  Nat.lt_of_le_of_lt (Input.size_next_le _) ho.size_lt

/-- An action starts with the next token where no space stands before it. -/
theorem State.opens_of_peek {s : State} {kind : Token.Kind} (hk : s.input.peek.kind = .leftDelim)
    (hw : s.input.tail.peekWord.kind = kind) : s.Opens kind ∧ s.input.next = s.input.tail := by
  have hself : s.input.skipSpace = s.input := Input.skipSpace_eq_self (by rw [hk]; decide)
  have hnext : s.input.next = s.input.tail := by rw [Input.next, hself]
  rw [State.Opens, State.word, hnext, Input.peekWord, hself]
  exact ⟨⟨hk, hw⟩, rfl⟩

/-- Whether an action whose first word is of this kind is a pipe. -/
def Token.Kind.opensPipe : Token.Kind → Bool
  | .keyword .defineKw | .keyword .nilKw => true
  | .keyword _ => false
  | _ => true

/-- The number of `range` bodies around the body of a branch. -/
def BranchKind.depth (kind : BranchKind) (depth : Nat) : Nat :=
  if kind = .rangeBranch then depth + 1 else depth

/-- What is read of a template outside pipes. -/
inductive Passage where
  /-- The nodes of a block from some node on, and the action that closes the block. -/
  | items (depth : Nat) (nodes : List Node) (ending : Ending)
  /-- A piece of text or an action. -/
  | item (depth : Nat) (item : Item)
  /-- An `if`, `range` or `with` branch, from the pipe on. -/
  | branch (depth : Nat) (kind : BranchKind) (node : Node)
  /-- A `block` action, from the name on. -/
  | block (depth : Nat) (node : Node)
  /-- The block of a defined template. -/
  | body (depth : Nat) (root : Block Node)
  /-- A `define` action, from the name on. -/
  | definition
  /-- The nodes of a template from some node on. -/
  | document (nodes : List Node)

/-- The rules by which a passage is read in a state, leading to another. -/
inductive Passage.Reads : Passage → State → State → Prop
  /-- A block ends with the action that closes it. -/
  | last {depth : Nat} {ending : Ending} {s s₁ : State} (hk : s.input.peekWord.kind ≠ .eof)
      (hi : Reads (.item depth (.ending ending)) s s₁) : Reads (.items depth [] ending) s s₁
  /-- A node stands before the nodes after it. -/
  | more {depth : Nat} {node : Node} {nodes : List Node} {ending : Ending} {s s₁ s₂ : State}
      (hk : s.input.peekWord.kind ≠ .eof) (hi : Reads (.item depth (.node node)) s s₁)
      (hl : s₁.size < s.size) (hr : Reads (.items depth nodes ending) s₁ s₂) :
      Reads (.items depth (node :: nodes) ending) s s₂
  | text {depth : Nat} {s : State} (hk : s.input.peekWord.kind = .text) :
      Reads (.item depth (.node (.text s.input.peekWord.pos s.input.peekWord.lexeme))) s
        (s.read s.input.next)
  | branch {depth : Nat} {kind : BranchKind} {node : Node} {s s₁ : State}
      (ho : s.Opens (.keyword kind.keyword)) (hb : Reads (.branch depth kind node) s.afterWord s₁) :
      Reads (.item depth (.node node)) s s₁
  | block {depth : Nat} {node : Node} {s s₁ : State} (ho : s.Opens (.keyword .blockKw))
      (hb : Reads (.block depth node) s.afterWord s₁) : Reads (.item depth (.node node)) s s₁
  | endAction {depth : Nat} {s : State} (ho : s.Opens (.keyword .endKw))
      (hr : s.afterWord.input.peekWord.kind = .rightDelim) :
      Reads (.item depth (.ending (.endAction s.afterWord.input.peekWord.pos))) s
        (s.read s.afterWord.input.next)
  | elseAction {depth : Nat} {s : State} (ho : s.Opens (.keyword .elseKw))
      (hr : s.afterWord.input.peekWord.kind = .rightDelim) :
      Reads (.item depth (.ending (.elseAction s.afterWord.input.peekWord.pos))) s
        (s.read s.afterWord.input.next)
  /-- An `else` that goes on with a branch leaves its keyword. -/
  | elseBranch {depth : Nat} {s : State} (ho : s.Opens (.keyword .elseKw))
      (hb : s.afterWord.input.peekWord.kind = .keyword .ifKw ∨
        s.afterWord.input.peekWord.kind = .keyword .withKw) :
      Reads (.item depth (.ending (.elseAction s.afterWord.input.peekWord.pos))) s
        (s.read s.afterWord.input.skipSpace)
  | breakAction {depth : Nat} {s : State} (ho : s.Opens (.keyword .breakKw))
      (hr : s.afterWord.input.peekWord.kind = .rightDelim) (hd : depth ≠ 0) :
      Reads (.item depth (.node (.breakLoop s.word.pos))) s (s.read s.afterWord.input.next)
  | continueAction {depth : Nat} {s : State} (ho : s.Opens (.keyword .continueKw))
      (hr : s.afterWord.input.peekWord.kind = .rightDelim) (hd : depth ≠ 0) :
      Reads (.item depth (.node (.continueLoop s.word.pos))) s (s.read s.afterWord.input.next)
  /-- A call of a template without data. -/
  | bareCall {depth : Nat} {name : String} {s : State} (ho : s.Opens (.keyword .templateKw))
      (hn : templateName .template s.afterWord.input.peekWord = .ok name)
      (hr : s.afterWord.input.next.peekWord.kind = .rightDelim) :
      Reads (.item depth (.node (.template s.afterWord.input.peekWord.pos name none))) s
        (s.read s.afterWord.input.next.next)
  | call {depth : Nat} {name : String} {pipe : Pipe Node} {s : State} {input : Input}
      (ho : s.Opens (.keyword .templateKw))
      (hn : templateName .template s.afterWord.input.peekWord = .ok name)
      (hr : s.afterWord.input.next.peekWord.kind ≠ .rightDelim)
      (hp : (Phrase.pipe .template .rightDelim pipe).Reads s.afterWord.input.next input) :
      Reads (.item depth (.node (.template s.afterWord.input.peekWord.pos name (some pipe)))) s
        (s.read input)
  | action {depth : Nat} {pipe : Pipe Node} {s : State} {input : Input} {kind : Token.Kind}
      (ho : s.Opens kind) (hw : kind.opensPipe = true)
      (hp : (Phrase.pipe .command .rightDelim pipe).Reads s.input.next input) :
      Reads (.item depth (.node (.action s.word.pos pipe))) s (s.read input)
  /-- A branch without an alternative. -/
  | single {depth : Nat} {kind : BranchKind} {pipe : Pipe Node} {nodes : List Node} {pos : Nat}
      {s s₁ : State} {input : Input}
      (hp : (Phrase.pipe (.control kind.keyword) .rightDelim pipe).Reads s.input input)
      (hi : Reads (.items (kind.depth depth) nodes (.endAction pos)) (s.read input) s₁) :
      Reads (.branch depth kind
          (.branch kind pipe.pos pipe ⟨input.peekWord.pos, nodes⟩ none)) s
        (s₁.withScope s.input.scope)
  /-- A branch that goes on with another of its kind, which shares its `end`. -/
  | chained {depth : Nat} {kind : BranchKind} {pipe : Pipe Node} {nodes : List Node} {pos : Nat}
      {nested : Node} {s s₁ s₂ : State} {input : Input}
      (hp : (Phrase.pipe (.control kind.keyword) .rightDelim pipe).Reads s.input input)
      (hi : Reads (.items (kind.depth depth) nodes (.elseAction pos)) (s.read input) s₁)
      (hl : s₁.size < s.size)
      (hk : kind.chains = true ∧ s₁.input.peek.kind = .keyword kind.keyword)
      (hb : Reads (.branch depth kind nested) (s₁.read s₁.input.tail) s₂) :
      Reads (.branch depth kind (.branch kind pipe.pos pipe ⟨input.peekWord.pos, nodes⟩
          (some ⟨pos, [nested]⟩))) s (s₂.withScope s.input.scope)
  /-- A branch with an alternative of its own. -/
  | double {depth : Nat} {kind : BranchKind} {pipe : Pipe Node} {nodes others : List Node}
      {pos pos' : Nat} {s s₁ s₂ : State} {input : Input}
      (hp : (Phrase.pipe (.control kind.keyword) .rightDelim pipe).Reads s.input input)
      (hi : Reads (.items (kind.depth depth) nodes (.elseAction pos)) (s.read input) s₁)
      (hl : s₁.size < s.size)
      (hk : ¬(kind.chains = true ∧ s₁.input.peek.kind = .keyword kind.keyword))
      (ha : Reads (.items depth others (.endAction pos')) s₁ s₂) :
      Reads (.branch depth kind (.branch kind pipe.pos pipe ⟨input.peekWord.pos, nodes⟩
          (some ⟨s₁.input.peekWord.pos, others⟩))) s (s₂.withScope s.input.scope)
  /-- A `block` action defines a template and calls it. -/
  | blockCall {depth : Nat} {name : String} {pipe : Pipe Node} {root : Block Node}
      {defines : List Definition} {s s₁ : State} {input : Input}
      (hn : templateName .block s.input.peekWord = .ok name)
      (hp : (Phrase.pipe .block .rightDelim pipe).Reads s.input.next input)
      (hb : Reads (.body depth root) (s.read input) s₁)
      (hd : define s.input.peekWord.pos name root s₁.defines = .ok defines) :
      Reads (.block depth (.template s.input.peekWord.pos name (some pipe))) s
        ⟨s₁.input, defines⟩
  | body {depth : Nat} {nodes : List Node} {pos : Nat} {s s₁ : State}
      (hi : Reads (.items depth nodes (.endAction pos)) (s.withScope initialScope) s₁) :
      Reads (.body depth ⟨s.input.peekWord.pos, nodes⟩) s (s₁.withScope s.input.scope)
  | definition {name : String} {root : Block Node} {defines : List Definition} {s s₁ : State}
      (hn : templateName .define s.input.peekWord = .ok name)
      (hr : s.input.next.peekWord.kind = .rightDelim)
      (hb : Reads (.body 0 root) (s.read s.input.next.next) s₁)
      (hd : define s.input.peekWord.pos name root s₁.defines = .ok defines) :
      Reads .definition s ⟨s₁.input, defines⟩
  | finished {s : State} (hk : s.input.peek.kind = .eof) : Reads (.document []) s s
  | defined {nodes : List Node} {s s₁ s₂ : State} (hk : s.input.peek.kind = .leftDelim)
      (hw : s.input.tail.peekWord.kind = .keyword .defineKw)
      (hd : Reads .definition (s.read s.input.tail.next) s₁) (hl : s₁.size < s.size)
      (hr : Reads (.document nodes) s₁ s₂) : Reads (.document nodes) s s₂
  | node {node : Node} {nodes : List Node} {s s₁ s₂ : State} (hk : s.input.peek.kind ≠ .eof)
      (hn : ¬(s.input.peek.kind = .leftDelim ∧
        s.input.tail.peekWord.kind = .keyword .defineKw))
      (hi : Reads (.item 0 (.node node)) s s₁) (hl : s₁.size < s.size)
      (hr : Reads (.document nodes) s₁ s₂) : Reads (.document (node :: nodes)) s s₂

/-- A mapped result comes from a result. -/
theorem eq_ok_of_map_eq_ok {ε α β : Type} {f : α → β} {x : Except ε α} {b : β}
    (h : x.map f = .ok b) : ∃ a, x = .ok a ∧ f a = b := by
  cases x with
  | error e => cases h
  | ok a => exact ⟨a, rfl, Except.ok.inj h⟩

/-- Mapping the result changes no error. -/
theorem eq_error_of_map_eq_error {ε α β : Type} {f : α → β} {x : Except ε α} {e : ε}
    (h : x.map f = .error e) : x = .error e := by
  cases x with
  | error e' =>
    cases h
    rfl
  | ok a => cases h

/-! ## Single actions -/

/-- The end of an action is read exactly at a right delimiter. -/
theorem rightDelim_eq_ok_iff {context : Context} {s s' : Input} {t : Token} :
    rightDelim context s = .ok (t, s') ↔
      s.peekWord.kind = .rightDelim ∧ t = s.peekWord ∧ s' = s.next := by
  unfold rightDelim
  by_cases hk : s.peekWord.kind = .rightDelim
  · simp only [hk, if_true, Except.ok.injEq, Prod.mk.injEq, true_and]
    constructor
    · rintro ⟨rfl, rfl⟩; exact ⟨rfl, rfl⟩
    · rintro ⟨rfl, rfl⟩; exact ⟨rfl, rfl⟩
  · simp [hk]

/-- The name of a template is a string, quoted or raw. -/
theorem templateName_kind {context : Context} {t : Token} {name : String}
    (h : templateName context t = .ok name) : t.kind = .string ∨ t.kind = .rawString := by
  by_cases hk : t.kind = .string ∨ t.kind = .rawString
  · exact hk
  · rw [templateName, if_neg hk] at h
    cases h

/-- The name of a template is no token that cannot start an operand. -/
theorem ne_of_templateName {context : Context} {t : Token} {name : String} {kind : Token.Kind}
    (h : templateName context t = .ok name) (hk : kind.startsOperand = false) :
    t.kind ≠ kind := by
  rintro rfl
  rcases templateName_kind h with hs | hs <;> rw [hs] at hk <;> cases hk

/-- An `end` is read exactly in front of a right delimiter. -/
theorem endAction_eq_ok_iff {s s' : Input} {ending : Ending} :
    endAction s = .ok (ending, s') ↔
      s.peekWord.kind = .rightDelim ∧ ending = .endAction s.peekWord.pos ∧ s' = s.next := by
  unfold endAction rightDelim
  by_cases hk : s.peekWord.kind = .rightDelim <;> simp [hk, eq_comm]

/-- An `else` is read in front of a right delimiter, or of the keyword of a chained branch, which it
leaves to be read. -/
theorem elseAction_eq_ok_iff {s s' : Input} {ending : Ending} :
    elseAction s = .ok (ending, s') ↔
      ((s.peekWord.kind = .keyword .ifKw ∨ s.peekWord.kind = .keyword .withKw) ∧
        ending = .elseAction s.peekWord.pos ∧ s' = s.skipSpace) ∨
      (s.peekWord.kind = .rightDelim ∧ ending = .elseAction s.peekWord.pos ∧ s' = s.next) := by
  unfold elseAction rightDelim
  by_cases hb : s.peekWord.kind = .keyword .ifKw ∨ s.peekWord.kind = .keyword .withKw
  · have hk : s.peekWord.kind ≠ .rightDelim := by
      rcases hb with hb | hb <;> rw [hb] <;> decide
    simp [hb, hk, eq_comm]
  · by_cases hk : s.peekWord.kind = .rightDelim <;> simp [hb, hk, eq_comm]

/-- A call is a name, by itself or with a pipeline. -/
theorem templateCall_eq_ok {s s' : Input} {node : Node} (h : templateCall s = .ok (node, s')) :
    ∃ name, templateName .template s.peekWord = .ok name ∧
      ((s.next.peekWord.kind = .rightDelim ∧ node = .template s.peekWord.pos name none ∧
          s' = s.next.next) ∨
        (s.next.peekWord.kind ≠ .rightDelim ∧ ∃ pipe,
          node = .template s.peekWord.pos name (some pipe) ∧
          (Phrase.pipe .template .rightDelim pipe).Reads s.next s')) := by
  unfold templateCall at h
  dsimp only at h
  split at h
  next => cases h
  next name hn =>
    refine ⟨name, hn, ?_⟩
    split at h
    next hr => cases h; exact .inl ⟨hr, rfl, rfl⟩
    next hr =>
      split at h
      next => cases h
      next pipe s₁ hp => cases h; exact .inr ⟨hr, pipe, rfl, pipeline_reads hp⟩

/-- An action is a pipeline, told at its first word. -/
theorem pipeAction_eq_ok {s s' : Input} {node : Node} (h : pipeAction s = .ok (node, s')) :
    ∃ pipe, node = .action s.peekWord.pos pipe ∧
      (Phrase.pipe .command .rightDelim pipe).Reads s s' := by
  unfold pipeAction at h
  split at h
  next => cases h
  next pipe s₁ hp => cases h; exact ⟨pipe, rfl, pipeline_reads hp⟩

/-- A loop is left exactly within a loop and in front of a right delimiter. -/
theorem loopControl_eq_ok_iff {depth pos : Nat} {keyword : Keyword} {s s' : Input} :
    loopControl depth keyword pos s = .ok s' ↔
      s.peekWord.kind = .rightDelim ∧ depth ≠ 0 ∧ s' = s.next := by
  unfold loopControl rightDelim
  by_cases hk : s.peekWord.kind = .rightDelim
  · by_cases hd : depth = 0 <;> simp [hk, hd, eq_comm]
  · simp [hk]

/-! ## What the readers read -/

/-- The result of the reader for a passage: it succeeds with that passage. -/
def Passage.IsResult : Passage → State → State → Prop
  | .items depth nodes ending, s, s' => Template.items depth s = .ok (nodes, ending, s')
  | .item depth i, s, s' => Template.item depth s = .ok (i, s')
  | .branch depth kind n, s, s' => Template.branch depth kind s = .ok (n, s')
  | .block depth n, s, s' => Template.block depth s = .ok (n, s')
  | .body depth root, s, s' => ∀ context, definitionBody context depth s = .ok (root, s')
  | .definition, s, s' => Template.definition s = .ok s'
  | .document nodes, s, s' => Template.document s = .ok (nodes, s')

/-- Reads an action by the kind of its first word. -/
def actionItem (depth : Nat) (s : State) : Token.Kind → Except Error (Item × State)
  | .keyword .ifKw => (branch depth .ifBranch s.afterWord).map Item.ofNode
  | .keyword .rangeKw => (branch depth .rangeBranch s.afterWord).map Item.ofNode
  | .keyword .withKw => (branch depth .withBranch s.afterWord).map Item.ofNode
  | .keyword .blockKw => (block depth s.afterWord).map Item.ofNode
  | .keyword .endKw =>
    (endAction s.afterWord.input).map fun (ending, input) => (.ending ending, s.read input)
  | .keyword .elseKw =>
    (elseAction s.afterWord.input).map fun (ending, input) => (.ending ending, s.read input)
  | .keyword .breakKw =>
    (loopControl depth .breakKw s.word.pos s.afterWord.input).map fun input =>
      (.node (.breakLoop s.word.pos), s.read input)
  | .keyword .continueKw =>
    (loopControl depth .continueKw s.word.pos s.afterWord.input).map fun input =>
      (.node (.continueLoop s.word.pos), s.read input)
  | .keyword .templateKw =>
    (templateCall s.afterWord.input).map fun (node, input) => (.node node, s.read input)
  | _ => (pipeAction s.input.next).map fun (node, input) => (.node node, s.read input)

/-- An action is read by the kind of its first word. -/
theorem item_of_opens {depth : Nat} {s : State} {kind : Token.Kind} (ho : s.Opens kind) :
    item depth s = actionItem depth s kind := by
  obtain ⟨hk, rfl⟩ := ho
  rw [item, if_neg (by rw [hk]; decide), dif_pos hk]
  rfl

/-- An action that no keyword claims is a pipe. -/
theorem actionItem_of_opensPipe {depth : Nat} {s : State} {kind : Token.Kind}
    (h : kind.opensPipe = true) :
    actionItem depth s kind =
      (pipeAction s.input.next).map fun (node, input) => (.node node, s.read input) := by
  unfold actionItem
  split <;> first | rfl | cases h

/-- The readers find whatever the grammar allows. -/
theorem isResult_of_passage_reads {passage : Passage} {s s' : State} (h : passage.Reads s s') :
    passage.IsResult s s' := by
  -- A rule is one way through a reader: its conditions choose the branches of the definition, and
  -- the induction hypotheses are the results of the calls.
  induction h with
  | last hk hi ih =>
    show items _ _ = _
    rw [items, if_neg hk, show item _ _ = _ from ih]
  | more hk hi hl hr ihi ihr =>
    show items _ _ = _
    rw [items, if_neg hk, show item _ _ = _ from ihi]
    simp only [show items _ _ = _ from ihr]
    rw [dif_pos hl]
  | text hk =>
    show item _ _ = _
    rw [item, if_pos hk]
  | @branch depth kind node s s₁ ho hb ih =>
    have hb : branch depth kind s.afterWord = .ok (node, s₁) := ih
    show item _ _ = _
    rw [item_of_opens ho]
    cases kind <;> rw [BranchKind.keyword, actionItem, hb] <;> rfl
  | block ho hb ih =>
    show item _ _ = _
    rw [item_of_opens ho, actionItem, show block _ _ = _ from ih]
    rfl
  | endAction ho hr =>
    show item _ _ = _
    rw [item_of_opens ho, actionItem, endAction_eq_ok_iff.2 ⟨hr, rfl, rfl⟩]
    rfl
  | elseAction ho hr =>
    show item _ _ = _
    rw [item_of_opens ho, actionItem, elseAction_eq_ok_iff.2 (.inr ⟨hr, rfl, rfl⟩)]
    rfl
  | elseBranch ho hb =>
    show item _ _ = _
    rw [item_of_opens ho, actionItem, elseAction_eq_ok_iff.2 (.inl ⟨hb, rfl, rfl⟩)]
    rfl
  | breakAction ho hr hd =>
    show item _ _ = _
    rw [item_of_opens ho, actionItem, loopControl_eq_ok_iff.2 ⟨hr, hd, rfl⟩]
    rfl
  | continueAction ho hr hd =>
    show item _ _ = _
    rw [item_of_opens ho, actionItem, loopControl_eq_ok_iff.2 ⟨hr, hd, rfl⟩]
    rfl
  | bareCall ho hn hr =>
    show item _ _ = _
    rw [item_of_opens ho, actionItem, templateCall, hn]
    simp only [hr, if_true]
    rfl
  | call ho hn hr hp =>
    show item _ _ = _
    rw [item_of_opens ho, actionItem, templateCall, hn]
    simp only [hr, if_false, pipeline_eq_ok_iff.2 hp]
    rfl
  | @action depth pipe s input kind ho hw hp =>
    show item _ _ = _
    rw [item_of_opens ho, actionItem_of_opensPipe hw, pipeAction, pipeline_eq_ok_iff.2 hp]
    rfl
  | @single depth kind pipe nodes pos s s₁ input hp hi ih =>
    have hi : items (if kind = .rangeBranch then depth + 1 else depth) (s.read input)
        = .ok (nodes, .endAction pos, s₁) := ih
    show branch _ _ _ = _
    rw [branch, pipeline_eq_ok_iff.2 hp]
    simp only [hi]
  | @chained depth kind pipe nodes pos nested s s₁ s₂ input hp hi hl hk hb ihi ihb =>
    have hi : items (if kind = .rangeBranch then depth + 1 else depth) (s.read input)
        = .ok (nodes, .elseAction pos, s₁) := ihi
    show branch _ _ _ = _
    rw [branch, pipeline_eq_ok_iff.2 hp]
    simp only [hi, if_pos hk, show branch _ _ _ = _ from ihb]
    rw [dif_pos hl]
  | @double depth kind pipe nodes others pos pos' s s₁ s₂ input hp hi hl hk ha ihi iha =>
    have hi : items (if kind = .rangeBranch then depth + 1 else depth) (s.read input)
        = .ok (nodes, .elseAction pos, s₁) := ihi
    show branch _ _ _ = _
    rw [branch, pipeline_eq_ok_iff.2 hp]
    simp only [hi, if_neg hk, show items _ _ = _ from iha]
    rw [dif_pos hl]
  | blockCall hn hp hb hd ih =>
    show block _ _ = _
    rw [block, hn]
    dsimp only
    rw [pipeline_eq_ok_iff.2 hp]
    simp only [ih .block, hd]
  | body hi ih =>
    intro context
    rw [definitionBody, show items _ _ = _ from ih]
  | definition hn hr hb hd ih =>
    show definition _ = _
    rw [definition, hn]
    simp only [rightDelim_eq_ok_iff.2 ⟨hr, rfl, rfl⟩, ih .define, hd, Except.map]
  | finished hk =>
    show document _ = _
    rw [document, if_pos hk]
  | defined hk hw hd hl hr ihd ihr =>
    show document _ = _
    rw [document, if_neg (by rw [hk]; decide), if_pos ⟨hk, hw⟩, show definition _ = _ from ihd]
    simp only [show document _ = _ from ihr]
    rw [dif_pos hl]
  | node hk hn hi hl hr ihi ihr =>
    show document _ = _
    rw [document, if_neg hk, if_neg hn, show item _ _ = _ from ihi]
    simp only [show document _ = _ from ihr]
    rw [dif_pos hl]

-- As for pipes, the proofs recurse as the readers do.
mutual

/-- The items that are read form a passage. -/
theorem items_reads {depth : Nat} {s s' : State} {nodes : List Node} {ending : Ending}
    (h : items depth s = .ok (nodes, ending, s')) :
    (Passage.items depth nodes ending).Reads s s' := by
  rw [items] at h
  split at h
  next => cases h
  next hk =>
    split at h
    next => cases h
    next last s₁ hi => cases h; exact .last hk (item_reads hi)
    next node s₁ hi =>
      split at h
      next hl =>
        split at h
        next => cases h
        next rest last s₂ hr => cases h; exact .more hk (item_reads hi) hl (items_reads hr)
      next => cases h
termination_by 4 * s.size + 1

/-- The item that is read forms a passage. -/
theorem item_reads {depth : Nat} {s : State} {result : Item × State}
    (h : item depth s = .ok result) : (Passage.item depth result.1).Reads s result.2 := by
  by_cases ht : s.input.peekWord.kind = .text
  · rw [item, if_pos ht] at h
    cases h
    exact .text ht
  · by_cases hk : s.input.peekWord.kind = .leftDelim
    · have hsize := State.Opens.afterWord_size_lt ⟨hk, rfl⟩
      have hbranch (kind : BranchKind) (hw : s.word.kind = .keyword kind.keyword)
          (h : (branch depth kind s.afterWord).map Item.ofNode = .ok result) :
          (Passage.item depth result.1).Reads s result.2 := by
        obtain ⟨⟨node, s₁⟩, hb, rfl⟩ := eq_ok_of_map_eq_ok h
        exact .branch ⟨hk, hw⟩ (branch_reads hb)
      rw [item_of_opens ⟨hk, rfl⟩] at h
      -- By the first word of the action, in the order of `actionItem`.
      unfold actionItem at h
      split at h
      next hw => exact hbranch .ifBranch hw h
      next hw => exact hbranch .rangeBranch hw h
      next hw => exact hbranch .withBranch hw h
      next hw =>
        obtain ⟨⟨node, s₁⟩, hb, rfl⟩ := eq_ok_of_map_eq_ok h
        exact .block ⟨hk, hw⟩ (block_reads hb)
      next hw =>
        obtain ⟨⟨ending, input⟩, he, rfl⟩ := eq_ok_of_map_eq_ok h
        obtain ⟨hr, rfl, rfl⟩ := endAction_eq_ok_iff.1 he
        exact .endAction ⟨hk, hw⟩ hr
      next hw =>
        obtain ⟨⟨ending, input⟩, he, rfl⟩ := eq_ok_of_map_eq_ok h
        rcases elseAction_eq_ok_iff.1 he with ⟨hb, rfl, rfl⟩ | ⟨hr, rfl, rfl⟩
        · exact .elseBranch ⟨hk, hw⟩ hb
        · exact .elseAction ⟨hk, hw⟩ hr
      next hw =>
        obtain ⟨input, hl, rfl⟩ := eq_ok_of_map_eq_ok h
        obtain ⟨hr, hd, rfl⟩ := loopControl_eq_ok_iff.1 hl
        exact .breakAction ⟨hk, hw⟩ hr hd
      next hw =>
        obtain ⟨input, hl, rfl⟩ := eq_ok_of_map_eq_ok h
        obtain ⟨hr, hd, rfl⟩ := loopControl_eq_ok_iff.1 hl
        exact .continueAction ⟨hk, hw⟩ hr hd
      next hw =>
        obtain ⟨⟨node, input⟩, hc, rfl⟩ := eq_ok_of_map_eq_ok h
        obtain ⟨name, hn, ⟨hr, rfl, rfl⟩ | ⟨hr, pipe, rfl, hp⟩⟩ := templateCall_eq_ok hc
        · exact .bareCall ⟨hk, hw⟩ hn hr
        · exact .call ⟨hk, hw⟩ hn hr hp
      next =>
        obtain ⟨⟨node, input⟩, ha, rfl⟩ := eq_ok_of_map_eq_ok h
        obtain ⟨pipe, rfl, hp⟩ := pipeAction_eq_ok ha
        -- The keywords have all been asked for.
        have hw : s.word.kind.opensPipe = true := by
          cases hw : s.word.kind with
          | keyword w => cases w <;> first | rfl | simp_all
          | _ => rfl
        exact .action ⟨hk, rfl⟩ hw hp
    · rw [item, if_neg ht, dif_neg hk] at h
      cases h
termination_by 4 * s.size

/-- The branch that is read forms a passage. -/
theorem branch_reads {depth : Nat} {kind : BranchKind} {s s' : State} {node : Node}
    (h : branch depth kind s = .ok (node, s')) :
    (Passage.branch depth kind node).Reads s s' := by
  rw [branch] at h
  split at h
  next => cases h
  next pipe input hp =>
    have hsize : input.size ≤ s.size := pipeline_size hp
    split at h
    next => cases h
    next nodes pos s₁ hi =>
      cases h
      exact .single (pipeline_reads hp) (items_reads hi)
    next nodes pos s₁ hi =>
      -- Behind an `else` the same kind of branch goes on, or the block of the alternative.
      split at h
      next hl =>
        have htail := Input.size_tail_le s₁.input
        split at h
        next hk =>
          split at h
          next => cases h
          next nested s₂ hb =>
            cases h
            exact .chained (pipeline_reads hp) (items_reads hi) hl hk (branch_reads hb)
        next hk =>
          split at h
          next => cases h
          next others pos' s₂ ha =>
            cases h
            exact .double (pipeline_reads hp) (items_reads hi) hl hk (items_reads ha)
          next => cases h
      next => cases h
termination_by 4 * s.size + 2
decreasing_by
  all_goals simp only [State.size, State.read] at *; omega

/-- The block that is read forms a passage. -/
theorem block_reads {depth : Nat} {s s' : State} {node : Node}
    (h : block depth s = .ok (node, s')) : (Passage.block depth node).Reads s s' := by
  rw [block] at h
  split at h
  next => cases h
  next name hn =>
    split at h
    next => cases h
    next pipe input hp =>
      have hsize : input.size ≤ s.input.size :=
        Nat.le_trans (pipeline_size hp) (Input.size_next_le s.input)
      split at h
      next => cases h
      next root s₁ hb =>
        split at h
        next => cases h
        next defines hd =>
          cases h
          exact .blockCall hn (pipeline_reads hp) (definitionBody_reads hb) hd
termination_by 4 * s.size + 3
decreasing_by
  simp only [State.size, State.read] at *
  omega

/-- The body of the definition that is read forms a passage. -/
theorem definitionBody_reads {context : Context} {depth : Nat} {s s' : State} {root : Block Node}
    (h : definitionBody context depth s = .ok (root, s')) :
    (Passage.body depth root).Reads s s' := by
  rw [definitionBody] at h
  split at h
  next => cases h
  next nodes pos s₁ hi => cases h; exact .body (items_reads hi)
  next => cases h
termination_by 4 * s.size + 2
decreasing_by
  simp only [State.size_withScope]
  omega

end

/-- The definition that is read forms a passage. -/
theorem definition_reads {s s' : State} (h : definition s = .ok s') :
    Passage.definition.Reads s s' := by
  unfold definition at h
  dsimp only at h
  split at h
  next => cases h
  next name hn =>
    split at h
    next => cases h
    next t input hr =>
      obtain ⟨hk, -, rfl⟩ := rightDelim_eq_ok_iff.1 hr
      split at h
      next => cases h
      next root s₁ hb =>
        obtain ⟨defines, hd, rfl⟩ := eq_ok_of_map_eq_ok h
        exact .definition hn hk (definitionBody_reads hb) hd

/-- The document that is read forms a passage. -/
theorem document_reads {s s' : State} {nodes : List Node} (h : document s = .ok (nodes, s')) :
    (Passage.document nodes).Reads s s' := by
  rw [document] at h
  split at h
  next hk => cases h; exact .finished hk
  next hk =>
    split at h
    next hw =>
      split at h
      next => cases h
      next s₁ hd =>
        split at h
        next hl => exact .defined hw.1 hw.2 (definition_reads hd) hl (document_reads h)
        next => cases h
    next hn =>
      split at h
      next => cases h
      next => cases h
      next node s₁ hi =>
        split at h
        next hl =>
          split at h
          next => cases h
          next rest s₂ hr => cases h; exact .node hk hn (item_reads hi) hl (document_reads hr)
        next => cases h
termination_by s.size

/-- The state in which the reading of a template starts. -/
def State.start (tokens : List Token) : State :=
  ⟨⟨tokens, initialScope⟩, []⟩

/-- A template is read exactly when the grammar has it. -/
theorem ofTokens_eq_ok_iff {tokens : List Token} {tree : Tree} :
    Tree.ofTokens tokens = .ok tree ↔
      ∃ s, (Passage.document tree.root.nodes).Reads (.start tokens) s ∧
        tree.root.pos = (State.start tokens).input.peek.pos ∧ tree.defines = s.defines := by
  constructor
  · intro h
    obtain ⟨⟨nodes, s⟩, hd, rfl⟩ := eq_ok_of_map_eq_ok h
    exact ⟨s, document_reads hd, rfl, rfl⟩
  · rintro ⟨s, hd, hp, hs⟩
    have hd : document (.start tokens) = _ := isResult_of_passage_reads hd
    obtain ⟨⟨pos, nodes⟩, defines⟩ := tree
    subst hp hs
    show (document (.start tokens)).map _ = _
    rw [hd]
    rfl

/-- Parsing is reading the tokens of the source. -/
theorem parse_eq_ok {d : Delimiters} {source : List Char} {tree : Tree}
    (h : parse d source = .ok tree) :
    ∃ tokens, tokenize d source = .ok tokens ∧ Tree.ofTokens tokens = .ok tree := by
  unfold parse at h
  split at h
  next => cases h
  next tokens ht => exact ⟨tokens, ht, h⟩

/-! ## What is left -/

/-- Behind a word there is a suffix of the tokens. -/
theorem State.afterWord_suffix (s : State) : s.afterWord.input.tokens <:+ s.input.tokens :=
  (Input.next_suffix _).trans (Input.next_suffix _)

/-- A passage is read from the front of the tokens. -/
theorem Passage.Reads.suffix {passage : Passage} {s s' : State} (h : passage.Reads s s') :
    s'.input.tokens <:+ s.input.tokens := by
  induction h with
  | last hk hi ih => exact ih
  | more hk hi hl hr ihi ihr => exact ihr.trans ihi
  | text hk => exact Input.next_suffix _
  | branch ho hb ih => exact ih.trans (State.afterWord_suffix _)
  | block ho hb ih => exact ih.trans (State.afterWord_suffix _)
  | endAction ho hr => exact (Input.next_suffix _).trans (State.afterWord_suffix _)
  | elseAction ho hr => exact (Input.next_suffix _).trans (State.afterWord_suffix _)
  | elseBranch ho hb => exact (Input.skipSpace_suffix _).trans (State.afterWord_suffix _)
  | breakAction ho hr hd => exact (Input.next_suffix _).trans (State.afterWord_suffix _)
  | continueAction ho hr hd => exact (Input.next_suffix _).trans (State.afterWord_suffix _)
  | bareCall ho hn hr =>
    exact (Input.next_suffix _).trans ((Input.next_suffix _).trans (State.afterWord_suffix _))
  | call ho hn hr hp =>
    exact hp.suffix.trans ((Input.next_suffix _).trans (State.afterWord_suffix _))
  | action ho hw hp => exact hp.suffix.trans (Input.next_suffix _)
  | single hp hi ih => exact ih.trans hp.suffix
  | chained hp hi hl hk hb ihi ihb =>
    exact ihb.trans ((Input.tail_suffix _).trans (ihi.trans hp.suffix))
  | double hp hi hl hk ha ihi iha => exact iha.trans (ihi.trans hp.suffix)
  | blockCall hn hp hb hd ih => exact ih.trans (hp.suffix.trans (Input.next_suffix _))
  | body hi ih => exact ih
  | definition hn hr hb hd ih =>
    exact ih.trans ((Input.next_suffix _).trans (Input.next_suffix _))
  | finished hk => exact List.suffix_rfl
  | defined hk hw hd hl hr ihd ihr =>
    exact ihr.trans (ihd.trans ((Input.next_suffix _).trans (Input.tail_suffix _)))
  | node hk hn hi hl hr ihi ihr => exact ihr.trans ihi

/-- A template is read to its end. -/
theorem Passage.Reads.peek_eof {nodes : List Node} {s s' : State}
    (h : (Passage.document nodes).Reads s s') : s'.input.peek.kind = .eof := by
  generalize hp : Passage.document nodes = passage at h
  induction h generalizing nodes with
  | finished hk => exact hk
  | defined hk hw hd hl hr ihd ihr => exact ihr hp
  | node hk hn hi hl hr ihi ihr => cases hp; exact ihr rfl
  | _ => cases hp

/-! ## Defined templates -/

section Define

variable {pos : Nat} {name : String} {root : Block Node} {defines defines' : List Definition}

/-- A definition looks for its name from the front on. -/
theorem define_append {front : List Definition} (h : name ∉ front.map Definition.name)
    (rest : List Definition) :
    define pos name root (front ++ rest) = (define pos name root rest).map (front ++ ·) := by
  induction front with
  | nil =>
    rw [List.nil_append]
    cases define pos name root rest <;> rfl
  | cons d front ih =>
    rw [List.map_cons, List.mem_cons, not_or] at h
    rw [List.cons_append, define, if_neg (Ne.symm h.1), ih h.2]
    cases define pos name root rest <;> rfl

/-- A template with a new name is defined after those defined before. -/
theorem define_of_not_mem (h : name ∉ defines.map Definition.name) :
    define pos name root defines = .ok (defines ++ [⟨name, root⟩]) := by
  have happend : define pos name root (defines ++ []) = _ := define_append h []
  rwa [List.append_nil] at happend

/-- What a definition does to the templates defined before. -/
inductive Enters (name : String) (root : Block Node) : List Definition → List Definition → Prop
  /-- A template with a new name comes last. -/
  | new {defines : List Definition} (hn : name ∉ defines.map Definition.name) :
      Enters name root defines (defines ++ [⟨name, root⟩])
  /-- It takes the place of a blank one. -/
  | replaced {front back : List Definition} {blank : Block Node}
      (hn : name ∉ front.map Definition.name) (hb : blank.isBlank = true) :
      Enters name root (front ++ ⟨name, blank⟩ :: back) (front ++ ⟨name, root⟩ :: back)
  /-- It is blank, and the one before stays. -/
  | ignored {defines : List Definition} (hn : name ∈ defines.map Definition.name)
      (hb : root.isBlank = true) : Enters name root defines defines

/-- A name enters the table behind definitions of other names. -/
theorem Enters.cons {d : Definition} (hd : d.name ≠ name) (h : Enters name root defines defines') :
    Enters name root (d :: defines) (d :: defines') := by
  cases h with
  | new hn => exact @new name root (d :: defines) (by simp [hd.symm, hn])
  | @replaced front back blank hn hb =>
    exact @replaced name root (d :: front) back blank (by simp [hd.symm, hn]) hb
  | ignored hn hb => exact .ignored (List.mem_cons_of_mem _ hn) hb

/-- Defining a name enters it. -/
theorem define_enters (h : define pos name root defines = .ok defines') :
    Enters name root defines defines' := by
  fun_induction define pos name root defines generalizing defines' with
  | case1 => cases h; exact @Enters.new name root [] List.not_mem_nil
  | case2 d rest hd hb =>
    obtain ⟨_, blank⟩ := d
    cases hd
    cases h
    exact @Enters.replaced _ root [] rest blank List.not_mem_nil hb
  | case3 d rest hd _ hr => cases h; exact .ignored (List.mem_map.2 ⟨d, List.mem_cons_self, hd⟩) hr
  | case4 => cases h
  | case5 => cases h
  | case6 d rest hd defines hr ih => cases h; exact (ih hr).cons hd

/-- Defining fails only where the name is taken. -/
theorem define_eq_error {e : Error} (h : define pos name root defines = .error e) :
    e = ⟨pos, .multipleDefinition name⟩ := by
  fun_induction define pos name root defines with
  | case1 => cases h
  | case2 => cases h
  | case3 => cases h
  | case4 => cases h; rfl
  | case5 d rest hne e' hr ih => cases h; exact ih hr
  | case6 => cases h

/-- A definition keeps the templates defined before, but for one that gives way to the new. -/
theorem mem_of_define_eq_ok (h : define pos name root defines = .ok defines') {d : Definition}
    (hd : d ∈ defines') : d ∈ defines ∨ d = ⟨name, root⟩ := by
  cases define_enters h with
  | new => simpa using hd
  | replaced =>
    rcases List.mem_append.1 hd with hd | hd
    · exact .inl (List.mem_append_left _ hd)
    · rcases List.mem_cons.1 hd with rfl | hd
      · exact .inr rfl
      · exact .inl (List.mem_append_right _ (List.mem_cons_of_mem _ hd))
  | ignored => exact .inl hd

end Define

/-- What holds of every block that is read from some tokens for a defined template holds of all
templates that a passage defines there. -/
theorem Passage.Reads.forall_defines_of_suffix {P : Block Node → Prop} {tokens : List Token}
    (hP : ∀ depth root s s', s.input.tokens <:+ tokens → (Passage.body depth root).Reads s s' →
      P root)
    {passage : Passage} {s s' : State} (h : passage.Reads s s') (ht : s.input.tokens <:+ tokens)
    (hs : ∀ d ∈ s.defines, P d.root) : ∀ d ∈ s'.defines, P d.root := by
  have added {pos : Nat} {name : String} {root : Block Node} {defines defines' : List Definition}
      (hd : define pos name root defines = .ok defines') (hroot : P root)
      (hall : ∀ d ∈ defines, P d.root) : ∀ d ∈ defines', P d.root := by
    intro d hmem
    rcases mem_of_define_eq_ok hd hmem with hmem | hnew
    · exact hall d hmem
    · rw [hnew]; exact hroot
  -- Only the rules for `block` and `define` change the table; the others hand it on.
  induction h with
  | last hk hi ih => exact ih ht hs
  | more hk hi hl hr ihi ihr => exact ihr (hi.suffix.trans ht) (ihi ht hs)
  | branch ho hb ih => exact ih ((State.afterWord_suffix _).trans ht) hs
  | block ho hb ih => exact ih ((State.afterWord_suffix _).trans ht) hs
  | single hp hi ih => exact ih (hp.suffix.trans ht) hs
  | chained hp hi hl hk hb ihi ihb =>
    have hbody := hp.suffix.trans ht
    exact ihb ((Input.tail_suffix _).trans (hi.suffix.trans hbody)) (ihi hbody hs)
  | double hp hi hl hk ha ihi iha =>
    have hbody := hp.suffix.trans ht
    exact iha (hi.suffix.trans hbody) (ihi hbody hs)
  | body hi ih => exact ih ht hs
  | defined hk hw hd hl hr ihd ihr =>
    have hinside := (Input.next_suffix _).trans ((Input.tail_suffix _).trans ht)
    exact ihr (hd.suffix.trans hinside) (ihd hinside hs)
  | node hk hn hi hl hr ihi ihr => exact ihr (hi.suffix.trans ht) (ihi ht hs)
  | blockCall hn hp hb hd ih =>
    have hbody := hp.suffix.trans ((Input.next_suffix _).trans ht)
    exact added hd (hP _ _ _ _ hbody hb) (ih hbody hs)
  | definition hn hr hb hd ih =>
    have hbody := (Input.next_suffix _).trans ((Input.next_suffix _).trans ht)
    exact added hd (hP _ _ _ _ hbody hb) (ih hbody hs)
  | _ => exact hs

/-- What holds of every block that is read for a defined template holds of all templates that a
passage defines. -/
theorem Passage.Reads.forall_defines {P : Block Node → Prop}
    (hP : ∀ depth root s s', (Passage.body depth root).Reads s s' → P root) {passage : Passage}
    {s s' : State} (h : passage.Reads s s') (hs : ∀ d ∈ s.defines, P d.root) :
    ∀ d ∈ s'.defines, P d.root :=
  h.forall_defines_of_suffix (fun depth root s s' _ => hP depth root s s') List.suffix_rfl hs

/-- Whether a passage is itself a definition. -/
def Passage.isDefinition : Passage → Bool
  | .block .. | .definition => true
  | _ => false

/-- Where no word defines a template, reading leaves the defined templates as they are. -/
theorem Passage.Reads.defines_eq {passage : Passage} {s s' : State} (h : passage.Reads s s')
    (hp : passage.isDefinition = false)
    (hno : ∀ t ∈ s.input.tokens, t.kind ≠ .keyword .defineKw ∧ t.kind ≠ .keyword .blockKw) :
    s'.defines = s.defines := by
  -- A passage that is no definition itself goes into one only behind `define` or `block`.
  induction h with
  | last hk hi ih => exact ih rfl hno
  | more hk hi hl hr ihi ihr =>
    exact (ihr rfl fun t ht => hno t (hi.suffix.subset ht)).trans (ihi rfl hno)
  | @branch depth kind node s s₁ ho hb ih =>
    exact ih rfl fun t ht => hno t (s.afterWord_suffix.subset ht)
  | @block depth node s s₁ ho hb ih =>
    have hw : s.input.next.peekWord.kind = .keyword .blockKw := ho.2
    have hmem : s.input.next.peekWord ∈ s.input.tokens :=
      (Input.next_suffix _).subset (Input.peekWord_mem (by rw [hw]; simp))
    exact absurd hw (hno _ hmem).2
  | single hr hi ih => exact ih rfl fun t ht => hno t (hr.suffix.subset ht)
  | chained hr hi hl hk hb ihi ihb =>
    have hbody := fun t ht => hno t (hr.suffix.subset ht)
    exact (ihb rfl fun t ht => hbody t (hi.suffix.subset ((Input.tail_suffix _).subset ht))).trans
      (ihi rfl hbody)
  | double hr hi hl hk ha ihi iha =>
    have hbody := fun t ht => hno t (hr.suffix.subset ht)
    exact (iha rfl fun t ht => hbody t (hi.suffix.subset ht)).trans (ihi rfl hbody)
  | blockCall => cases hp
  | body hi ih => exact ih rfl hno
  | definition => cases hp
  | @defined nodes s s₁ s₂ hk hw hd hl hr ihd ihr =>
    have hmem : s.input.tail.peekWord ∈ s.input.tokens :=
      (Input.tail_suffix _).subset (Input.peekWord_mem (by rw [hw]; simp))
    exact absurd hw (hno _ hmem).1
  | node hk hn hi hl hr ihi ihr =>
    exact (ihr rfl fun t ht => hno t (hi.suffix.subset ht)).trans (ihi rfl hno)
  | _ => rfl

end FieldAudit.Template
