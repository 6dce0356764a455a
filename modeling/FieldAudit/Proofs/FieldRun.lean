import FieldAudit.Proofs.Reading.Preorder
import Mathlib.Algebra.Order.Group.Multiset

/-! # Runs of field tokens

A field such as `.A.B` is a run of field tokens.  A run right after a variable, an identifier or a
closing parenthesis belongs to that operand; every other run is a reference to the data.
`fieldRuns` finds these runs in the tokens alone, without the grammar.

Reading a pipe takes the runs off the front of the tokens, one for each field node and in the same
order (`Phrase.Reads.uses_append`).  Outside pipes a field node goes into the tree or into one of
the templates defined on the way: together they hold each run once, and the tree holds its own in
the order of the tokens (`Passage.Reads.takes`). -/

namespace FieldAudit.Template

/-! ## Runs and uses -/

/-- Whether the fields right after a token of this kind belong to it. -/
def Token.Kind.takesFields : Token.Kind → Bool
  | .variable | .rightParen | .identifier => true
  | _ => false

/-- The longest runs of field tokens, without those that belong to the token before them.  `taken`
says whether the fields at the very start belong to a token before. -/
def fieldRuns (taken : Bool) : List Token → List (List Token)
  | [] => []
  | t :: rest =>
    if t.kind = .field then
      let later := fieldRuns false (rest.dropWhile (·.kind = .field))
      if taken then later else (t :: rest.takeWhile (·.kind = .field)) :: later
    else fieldRuns t.kind.takesFields rest
termination_by tokens => tokens.length
decreasing_by
  · exact Nat.lt_succ_of_le (List.dropWhile_suffix _).length_le
  · exact Nat.lt_succ_self _

/-- The name of a field token, without its point. -/
def Token.fieldName (t : Token) : String :=
  String.ofList t.lexeme.tail

/-- A reference to the data, by its place and its path. -/
structure FieldUse where
  pos : Nat
  path : List String
  deriving DecidableEq, Repr

/-- The reference that a run of field tokens makes.  A run of several stands where its second token
does. -/
def FieldUse.ofRun : List Token → FieldUse
  | [] => ⟨0, []⟩
  | [t] => ⟨t.pos, [t.fieldName]⟩
  | t :: u :: rest => ⟨u.pos, t.fieldName :: u.fieldName :: rest.map Token.fieldName⟩

/-- The reference that a node makes by itself. -/
def Node.fieldUse? : Node → Option FieldUse
  | .field pos path => some ⟨pos, path⟩
  | _ => none

/-- The references among nodes, in order. -/
def fieldUses (nodes : List Node) : List FieldUse :=
  nodes.filterMap Node.fieldUse?

@[simp] theorem fieldUses_nil : fieldUses [] = [] := rfl

@[simp] theorem fieldUses_append (left right : List Node) :
    fieldUses (left ++ right) = fieldUses left ++ fieldUses right :=
  List.filterMap_append

/-- The uses of a list are those of its first node, if any, and of the others. -/
theorem fieldUses_cons (node : Node) (rest : List Node) :
    fieldUses (node :: rest) = node.fieldUse?.toList ++ fieldUses rest := by
  unfold fieldUses
  cases h : node.fieldUse? with
  | none => rw [List.filterMap_cons_none h]; rfl
  | some use => rw [List.filterMap_cons_some h]; rfl

/-- Variables are no references to the data. -/
@[simp] theorem fieldUses_map_variable (vs : List Variable) :
    fieldUses (vs.map Node.variable) = [] := by
  induction vs with
  | nil => rfl
  | cons v rest ih => rw [List.map_cons, fieldUses_cons, ih]; rfl

/-! ## Runs at the front of the tokens -/

@[simp] theorem fieldRuns_nil (taken : Bool) : fieldRuns taken [] = [] := by
  rw [fieldRuns]

/-- A field begins a run that goes on as far as fields follow. -/
theorem fieldRuns_cons_field {t : Token} (ht : t.kind = .field) (rest : List Token) :
    fieldRuns false (t :: rest) =
      (t :: rest.takeWhile (·.kind = .field)) ::
        fieldRuns false (rest.dropWhile (·.kind = .field)) := by
  rw [fieldRuns, if_pos ht]
  rfl

/-- A token that is no field begins no run, and decides whether the fields behind it are its own. -/
theorem fieldRuns_cons_of_ne {t : Token} (ht : t.kind ≠ .field) (taken : Bool)
    (rest : List Token) : fieldRuns taken (t :: rest) = fieldRuns t.kind.takesFields rest := by
  rw [fieldRuns, if_neg ht]

/-- Fields that belong to the token before them are passed over. -/
theorem fieldRuns_taken (tokens : List Token) :
    fieldRuns true tokens = fieldRuns false (tokens.dropWhile (·.kind = .field)) := by
  cases tokens with
  | nil => rw [List.dropWhile_nil, fieldRuns_nil, fieldRuns_nil]
  | cons t rest =>
    by_cases ht : t.kind = .field
    · rw [fieldRuns, if_pos ht, List.dropWhile_cons_of_pos (by simp [ht])]
      rfl
    · rw [List.dropWhile_cons_of_neg (by simp [ht]), fieldRuns_cons_of_ne ht,
        fieldRuns_cons_of_ne ht]

namespace Input

/-- The references that are left to read, `taken` as for `fieldRuns`. -/
def uses (s : Input) (taken : Bool) : List FieldUse :=
  (fieldRuns taken s.tokens).map FieldUse.ofRun

/-- A token that is no field is passed over. -/
theorem uses_tail {s : Input} (h : s.peek.kind ≠ .field) (taken : Bool) :
    s.uses taken = s.tail.uses s.peek.kind.takesFields := by
  obtain ⟨tokens, scope⟩ := s
  cases tokens with
  | nil => simp [uses, tail]
  | cons t rest => exact congrArg _ (fieldRuns_cons_of_ne h taken rest)

/-- A token that takes no fields is passed over. -/
theorem uses_tail_of_free {s : Input} {kind : Token.Kind} (hk : s.peek.kind = kind)
    (hf : kind ≠ .field) (ht : kind.takesFields = false) (taken : Bool) :
    s.tail.uses false = s.uses taken := by
  subst hk
  rw [uses_tail hf, ht]

/-- Where no field stands, it does not matter what the token before takes. -/
theorem uses_of_ne {s : Input} (h : s.peek.kind ≠ .field) (taken : Bool) :
    s.uses taken = s.uses false := by
  rw [uses_tail h, ← uses_tail h]

/-- Spaces in front change nothing about the uses to come. -/
theorem uses_skipSpace (s : Input) : s.skipSpace.uses false = s.uses false := by
  obtain ⟨tokens, scope⟩ := s
  induction tokens with
  | nil => rfl
  | cons t rest ih =>
    by_cases ht : t.kind = .space
    · have htail : uses ⟨t :: rest, scope⟩ false = uses ⟨rest, scope⟩ t.kind.takesFields :=
        uses_tail (by show t.kind ≠ .field; rw [ht]; decide) false
      rw [skipSpace_of_space ht, ih, htail, ht]
      rfl
    · rw [skipSpace_of_ne ht]

/-- A token that is no field is passed over with the spaces before it. -/
theorem uses_next {s : Input} (h : s.peekWord.kind ≠ .field) (taken : Bool) :
    s.uses taken = s.next.uses s.peekWord.kind.takesFields := by
  have hword : s.skipSpace.uses false = s.next.uses s.peekWord.kind.takesFields := uses_tail h false
  rw [← hword, uses_skipSpace]
  -- A field at the very front would be the next token that is no space.
  refine uses_of_ne (fun hp => h ?_) taken
  rw [peekWord, skipSpace_eq_self (by rw [hp]; decide), hp]

/-- A token that takes no fields is passed over with the spaces before it. -/
theorem uses_next_of_free {s : Input} {kind : Token.Kind} (hk : s.peekWord.kind = kind)
    (hf : kind ≠ .field) (ht : kind.takesFields = false) (taken : Bool) :
    s.next.uses false = s.uses taken := by
  subst hk
  rw [uses_next hf, ht]

end Input

/-! ## Runs in pipes -/

/-- The marks between the parts of a pipeline take no fields. -/
theorem takesFields_of_isMark {kind : Token.Kind} (h : kind.isMark = true) :
    kind.takesFields = false := by
  cases kind <;> first | rfl | cases h

/-- Declarations use no fields. -/
theorem declarations_uses {context : Context} {more : Nat} {s s' : Input}
    {decls : List Variable} (h : declarations context more s = .ok (decls, s')) :
    s'.uses false = s.uses false := by
  refine (declarations_eq_ok_iff.1 h).passes (R := fun s s' => s'.uses false = s.uses false)
    (fun _ => rfl) fun {s s'} hv hm ih => ih.trans ?_
  -- A declared variable is followed by its mark, so it takes no field.
  show s.next.next.uses false = _
  rw [Input.uses_next_of_free rfl (ne_of_isMark hm rfl) (takesFields_of_isMark hm) true,
    Input.uses_next (by rw [hv]; decide) false, hv]
  rfl

/-- A literal makes no reference. -/
theorem preorder_of_isLiteral {node : Node} (h : node.isLiteral = true) :
    node.preorder = [node] ∧ node.fieldUse? = none := by
  unfold Node.isLiteral at h
  split at h
  all_goals first | exact ⟨rfl, rfl⟩ | cases h

/-- A token that is read as an operand is a field, or it makes no reference and the fields right
after it are its own. -/
theorem atom?_uses {scope : List String} {t : Token} {node : Node}
    (h : atom? scope t = .ok (some node)) :
    (t.kind = .field ∧ node = .field t.pos [t.fieldName]) ∨
      (t.kind ≠ .field ∧ fieldUses node.preorder = [] ∧ node.fieldUse? = none ∧
        (t.kind.takesFields = true ∨ node.isLiteral = true)) := by
  rcases atom?_cases h with ⟨hk, rfl⟩ | ⟨hk, -, rfl⟩ | ⟨hk, rfl⟩ | ⟨hk, hl⟩
  · exact .inr ⟨by rw [hk]; decide, rfl, rfl, .inl (by rw [hk]; rfl)⟩
  · exact .inr ⟨by rw [hk]; decide, rfl, rfl, .inl (by rw [hk]; rfl)⟩
  · exact .inl ⟨hk, rfl⟩
  · obtain ⟨hp, hu⟩ := preorder_of_isLiteral hl
    refine .inr ⟨hk, ?_, hu, .inr hl⟩
    rw [hp, fieldUses_cons, hu]
    rfl

/-- Fields taken from a node that is no field are no references. -/
theorem fieldUses_select {node : Node} (h : node.fieldUse? = none) (pos : Nat)
    (fields : List String) :
    fieldUses (node.select pos fields).preorder = fieldUses node.preorder := by
  unfold Node.select
  split
  next => cases h
  next => rfl
  next => rw [Node.preorder, fieldUses_cons]; rfl

/-- The fields after a node that is no field are its own. -/
theorem withFields_uses {node node' : Node} {s s' : Input} {taken : Bool}
    (h : withFields node s = .ok (node', s')) (hn : node.fieldUse? = none)
    (ht : taken = true ∨ node.isLiteral = true) :
    s.uses taken = s'.uses false ∧ fieldUses node'.preorder = fieldUses node.preorder := by
  rcases withFields_cases h with ⟨hp, rfl, rfl⟩ | ⟨first, rest, -, -, hl, rfl, rfl⟩
  · exact ⟨Input.uses_of_ne hp taken, rfl⟩
  · rcases ht with rfl | ht
    · exact ⟨congrArg _ (fieldRuns_taken s.tokens), fieldUses_select hn ..⟩
    · rw [hl] at ht
      cases ht

/-- A field token and the fields right after it are one reference. -/
theorem withFields_field_uses {t : Token} {node : Node} {s s' : Input} (ht : t.kind = .field)
    (h : withFields (.field t.pos [t.fieldName]) s = .ok (node, s')) :
    (fieldRuns false (t :: s.tokens)).map FieldUse.ofRun =
      fieldUses node.preorder ++ s'.uses false := by
  rw [fieldRuns_cons_field ht, List.map_cons]
  rcases withFields_cases h with ⟨hp, rfl, rfl⟩ | ⟨first, rest, hfields, -, -, rfl, rfl⟩
  · obtain ⟨htake, hdrop⟩ := Input.span_field_of_ne hp
    rw [htake, hdrop]
    rfl
  · rw [hfields]
    rfl

/-- The kind of the token that a phrase is closed by.  Arguments and operands take no closing token,
which is as if they were closed by a space. -/
def Phrase.closeKind : Phrase → Token.Kind
  | .pipe _ close _ => close
  | .commands close _ => close
  | .arguments _ => .space
  | .operand _ => .space

/-- A phrase is read with exactly the references at the front of the tokens. -/
theorem Phrase.Reads.uses_append {phrase : Phrase} {s s' : Input} (h : phrase.Reads s s')
    (hc : phrase.closeKind ≠ .field) :
    s.uses false = fieldUses phrase.preorder ++ s'.uses phrase.closeKind.takesFields := by
  induction h with
  | @pipe context close s s₁ s₂ decls commands hd hr hp ih =>
    rw [← declarations_uses hd, ih hc]
    show _ = fieldUses (pipePreorder _) ++ _
    rw [pipePreorder, fieldUses_cons, fieldUses_append, fieldUses_map_variable]
    rfl
  | close => exact Input.uses_next hc false
  | @command close s s₁ s₂ args rest hk hs ha hn hl hr iha ihr =>
    show _ = fieldUses (commandsPreorder (_ :: rest)) ++ _
    rw [iha (by simp [closeKind]), commandsPreorder, commandPreorder, fieldUses_append,
      fieldUses_cons, List.append_assoc, List.append_assoc]
    exact congrArg _ (ihr hc)
  | @spaced s s₁ s₂ arg args ho hk hl ha iho iha =>
    have hspace : s₁.tail.uses false = s₁.uses false :=
      Input.uses_tail_of_free hk (by decide) rfl false
    show _ = fieldUses (nodesPreorder (arg.toList ++ args)) ++ _
    rw [← Input.uses_skipSpace, iho hc, nodesPreorder_append, fieldUses_append, List.append_assoc]
    exact congrArg _ (hspace.symm.trans (iha hc))
  | closed ho hk ih =>
    rw [← Input.uses_skipSpace, ih hc]
    rfl
  | @piped s s₁ arg ho hk ih =>
    have hmark : s₁.tail.uses false = s₁.uses false :=
      Input.uses_tail_of_free hk (by decide) rfl false
    rw [← Input.uses_skipSpace, ih hc]
    exact congrArg _ hmark.symm
  | @parenthesis s s₁ s₂ pipe node hk hp hf ih =>
    -- The fields after the closing parenthesis are those taken from the pipe.
    have hfields : s₁.uses true = s₂.uses false ∧ fieldUses node.preorder = _ :=
      withFields_uses hf rfl (.inl rfl)
    obtain ⟨huses, hnode⟩ := hfields
    show _ = fieldUses (nodesPreorder [node]) ++ _
    rw [← Input.uses_next_of_free hk (by decide) rfl false, ih (by simp [closeKind]),
      nodesPreorder_singleton, hnode]
    exact congrArg _ huses
  | @atom s s₁ base node ha hf =>
    show _ = fieldUses (nodesPreorder [node]) ++ s₁.uses false
    rw [nodesPreorder_singleton]
    rcases atom?_uses ha with ⟨hk, rfl⟩ | ⟨hk, hbase, hn, ht⟩
    · rw [← Input.uses_skipSpace, ← withFields_field_uses hk hf, Input.uses,
        Input.skipSpace_tokens (by rw [hk]; decide)]
    · obtain ⟨huses, hnode⟩ := withFields_uses hf hn ht
      rw [Input.uses_next hk, huses, hnode, hbase]
      rfl
  | absent hk ha => exact (Input.uses_skipSpace _).symm

/-! ## Runs in templates -/

/-- The uses of a block are those of its nodes. -/
theorem fieldUses_block (pos : Nat) (nodes : List Node) :
    fieldUses (blockPreorder ⟨pos, nodes⟩) = fieldUses (nodesPreorder nodes) := by
  rw [blockPreorder, fieldUses_cons]
  rfl

/-- A blank block uses no fields. -/
theorem fieldUses_of_isBlank {root : Block Node} (h : root.isBlank = true) :
    fieldUses root.preorder = [] := by
  obtain ⟨pos, nodes⟩ := root
  have hall : ∀ node ∈ nodes, fieldUses node.preorder = [] := by
    intro node hmem
    have hnode := List.all_eq_true.1 h node hmem
    split at hnode
    next => rfl
    next => cases hnode
  have hnodes : fieldUses (nodesPreorder nodes) = [] := by
    clear h
    induction nodes with
    | nil => rfl
    | cons node rest ih =>
      rw [nodesPreorder, fieldUses_append, hall node List.mem_cons_self,
        ih fun node hmem => hall node (List.mem_cons_of_mem _ hmem)]
      rfl
  rw [Block.preorder, fieldUses_block, hnodes]

/-- The references in defined templates. -/
def definedUses (defines : List Definition) : Multiset FieldUse :=
  (defines.flatMap fun d => fieldUses d.root.preorder : List FieldUse)

theorem definedUses_nil : definedUses [] = 0 := rfl

/-- The uses of definitions add up over concatenation. -/
theorem definedUses_append (front back : List Definition) :
    definedUses (front ++ back) = definedUses front + definedUses back := by
  rw [definedUses, List.flatMap_append, ← Multiset.coe_add]
  rfl

/-- The uses of definitions are those of the first and of the others. -/
theorem definedUses_cons (d : Definition) (rest : List Definition) :
    definedUses (d :: rest) = fieldUses d.root.preorder + definedUses rest := by
  rw [definedUses, List.flatMap_cons, ← Multiset.coe_add]
  rfl

/-- A definition adds the references of its block.  Where two definitions share a name the blank one
goes, and it holds no reference. -/
theorem definedUses_define {pos : Nat} {name : String} {root : Block Node}
    {defines defines' : List Definition} (h : define pos name root defines = .ok defines') :
    definedUses defines' = fieldUses root.preorder + definedUses defines := by
  cases define_enters h with
  | new => rw [definedUses_append, definedUses_cons, definedUses_nil, add_zero, add_comm]
  | replaced _ hb =>
    rw [definedUses_append, definedUses_append, definedUses_cons, definedUses_cons,
      fieldUses_of_isBlank hb, Multiset.coe_nil, zero_add, add_left_comm]
  | ignored _ hb => rw [fieldUses_of_isBlank hb, Multiset.coe_nil, zero_add]

namespace State

/-- The references that are left to read. -/
def uses (s : State) : List FieldUse :=
  s.input.uses false

/-- The references that are left to read, with those in the templates defined so far. -/
def allUses (s : State) : Multiset FieldUse :=
  definedUses s.defines + s.uses

/-- Going from one state to another takes these references out of the tokens, in order.  References
that are not among them have gone into defined templates. -/
structure Takes (s : State) (uses : List FieldUse) (s' : State) : Prop where
  count : (uses + s'.allUses : Multiset FieldUse) = s.allUses
  sublist : (uses ++ s'.uses).Sublist s.uses

namespace Takes

/-- What is passed over without a reference takes none. -/
theorem skip {s s' : State} (hu : s'.uses = s.uses) (hd : s'.defines = s.defines) :
    s.Takes [] s' := by
  refine ⟨?_, ?_⟩
  · rw [allUses, allUses, hu, hd, Multiset.coe_nil, zero_add]
  · rw [hu, List.nil_append]

/-- What is taken in two stretches is taken in the order of the stretches. -/
theorem trans {s s₁ s₂ : State} {uses uses' : List FieldUse} (h : s.Takes uses s₁)
    (h' : s₁.Takes uses' s₂) : s.Takes (uses ++ uses') s₂ := by
  constructor
  · rw [← Multiset.coe_add, add_assoc, h'.count, h.count]
  · rw [List.append_assoc]
    exact (h'.sublist.append_left uses).trans h.sublist

/-- The token at the front of the tokens is passed over. -/
theorem tail {s : State} {kind : Token.Kind} (hk : s.input.peek.kind = kind)
    (hf : kind ≠ .field) (ht : kind.takesFields = false) : s.Takes [] (s.read s.input.tail) :=
  skip (Input.uses_tail_of_free hk hf ht false) rfl

/-- The word at the front of the tokens is passed over. -/
theorem next {s : State} {kind : Token.Kind} (hk : s.input.peekWord.kind = kind)
    (hf : kind ≠ .field) (ht : kind.takesFields = false) : s.Takes [] (s.read s.input.next) :=
  skip (Input.uses_next_of_free hk hf ht false) rfl

/-- The delimiter and the keyword of an action are passed over. -/
theorem keyword {s : State} {k : Keyword} (ho : s.Opens (.keyword k)) : s.Takes [] s.afterWord :=
  (next ho.1 (by decide) rfl).trans (next ho.2 (by simp) rfl)

/-- The end of an action takes no fields. -/
theorem rightDelim {s : State} (hr : s.input.peekWord.kind = .rightDelim) :
    s.Takes [] (s.read s.input.next) :=
  next hr (by decide) rfl

/-- A pipeline takes the uses of its nodes. -/
theorem pipe {context : Context} {p : Pipe Node} {s : State} {input : Input}
    (h : (Phrase.pipe context .rightDelim p).Reads s.input input) :
    s.Takes (fieldUses (pipePreorder p)) (s.read input) := by
  have huses : s.uses = fieldUses (pipePreorder p) ++ (s.read input).uses :=
    h.uses_append (by simp [Phrase.closeKind])
  constructor
  · rw [allUses, allUses, huses, ← Multiset.coe_add, add_left_comm]
    rfl
  · rw [huses]

/-- The scope has no part in what is taken. -/
theorem withScope {s s₁ : State} {uses : List FieldUse} (h : s.Takes uses s₁)
    (scope : List String) : s.Takes uses (s₁.withScope scope) :=
  ⟨h.count, h.sublist⟩

/-- The references in the block of a defined template go into the defined templates. -/
theorem define {s s₁ : State} {pos : Nat} {name : String} {root : Block Node}
    {defines : List Definition} (h : s.Takes (fieldUses root.preorder) s₁)
    (hd : Template.define pos name root s₁.defines = .ok defines) :
    s.Takes [] ⟨s₁.input, defines⟩ := by
  constructor
  · rw [Multiset.coe_nil, zero_add, ← h.count, allUses, allUses, definedUses_define hd, add_assoc]
    rfl
  · exact (List.sublist_append_right _ _).trans h.sublist

end Takes

end State

/-- The name of a template takes no fields. -/
theorem State.Takes.name {s : State} {context : Context} {name : String}
    (h : templateName context s.input.peekWord = .ok name) :
    s.Takes [] (s.read s.input.next) := by
  rcases templateName_kind h with hk | hk
  · exact next hk (by decide) rfl
  · exact next hk (by decide) rfl

/-- The uses of a branch are those of its pipeline, its body and its alternative. -/
theorem fieldUses_branch (kind : BranchKind) (pos : Nat) (pipe : Pipe Node) (bodyPos : Nat)
    (nodes : List Node) (alternative : Option (Block Node)) :
    fieldUses (Node.branch kind pos pipe ⟨bodyPos, nodes⟩ alternative).preorder =
      fieldUses (pipePreorder pipe) ++ fieldUses (nodesPreorder nodes) ++
        fieldUses (block?Preorder alternative) := by
  rw [Node.preorder, fieldUses_cons, fieldUses_append, fieldUses_append, fieldUses_block]
  rfl

/-- Reading a passage takes the references it holds. -/
theorem Passage.Reads.takes {passage : Passage} {s s' : State} (h : passage.Reads s s') :
    s.Takes (fieldUses passage.preorder) s' := by
  induction h with
  | last hk hi ih => exact ih
  | @more depth node nodes ending s s₁ s₂ hk hi hl hr ihi ihr =>
    show s.Takes (fieldUses (nodesPreorder (node :: nodes))) s₂
    rw [nodesPreorder, fieldUses_append]
    exact ihi.trans ihr
  | text hk => exact .next hk (by decide) rfl
  | branch ho hb ih => exact (State.Takes.keyword ho).trans ih
  | block ho hb ih => exact (State.Takes.keyword ho).trans ih
  | endAction ho hr => exact (State.Takes.keyword ho).trans (.rightDelim hr)
  | elseAction ho hr => exact (State.Takes.keyword ho).trans (.rightDelim hr)
  | elseBranch ho hb => exact (State.Takes.keyword ho).trans (.skip (Input.uses_skipSpace _) rfl)
  | breakAction ho hr hd => exact (State.Takes.keyword ho).trans (.rightDelim hr)
  | continueAction ho hr hd => exact (State.Takes.keyword ho).trans (.rightDelim hr)
  | bareCall ho hn hr => exact ((State.Takes.keyword ho).trans (.name hn)).trans (.rightDelim hr)
  | call ho hn hr hp => exact ((State.Takes.keyword ho).trans (.name hn)).trans (.pipe hp)
  | action ho hw hp => exact (State.Takes.next ho.1 (by simp) rfl).trans (.pipe hp)
  | @single depth kind pipe nodes pos s s₁ input hp hi ih =>
    show s.Takes (fieldUses (Node.preorder _)) (s₁.withScope s.input.scope)
    rw [fieldUses_branch, block?Preorder, fieldUses_nil, List.append_nil]
    exact ((State.Takes.pipe hp).trans ih).withScope _
  | @chained depth kind pipe nodes pos nested s s₁ s₂ input hp hi hl hk hb ihi ihb =>
    show s.Takes (fieldUses (Node.preorder _)) (s₂.withScope s.input.scope)
    rw [fieldUses_branch, block?Preorder, fieldUses_block, nodesPreorder_singleton]
    have hword : s₁.Takes [] (s₁.read s₁.input.tail) := .tail hk.2 (by simp) rfl
    exact (((State.Takes.pipe hp).trans ihi).trans (hword.trans ihb)).withScope _
  | @double depth kind pipe nodes others pos pos' s s₁ s₂ input hp hi hl hk ha ihi iha =>
    show s.Takes (fieldUses (Node.preorder _)) (s₂.withScope s.input.scope)
    rw [fieldUses_branch, block?Preorder, fieldUses_block]
    exact (((State.Takes.pipe hp).trans ihi).trans iha).withScope _
  | blockCall hn hp hb hd ih =>
    -- The references in the block stay with its definition, those of the pipe with the call.
    have htaken := ((State.Takes.name hn).trans (.pipe hp)).trans (ih.define hd)
    rw [List.append_nil] at htaken
    exact htaken
  | @body depth nodes pos s s₁ hi ih =>
    show s.Takes (fieldUses (Block.preorder _)) (s₁.withScope s.input.scope)
    rw [Block.preorder, fieldUses_block]
    exact ⟨ih.count, ih.sublist⟩
  | definition hn hr hb hd ih =>
    exact ((State.Takes.name hn).trans (.rightDelim hr)).trans (ih.define hd)
  | finished hk => exact .skip rfl rfl
  | @defined nodes s s₁ s₂ hk hw hd hl hr ihd ihr =>
    have hopen : s.Takes [] (s.read s.input.tail) := .tail hk (by simp) rfl
    exact ((hopen.trans (.next hw (by simp) rfl)).trans ihd).trans ihr
  | @node node nodes s s₁ s₂ hk hn hi hl hr ihi ihr =>
    show s.Takes (fieldUses (nodesPreorder (node :: nodes))) s₂
    rw [nodesPreorder, fieldUses_append]
    exact ihi.trans ihr

end FieldAudit.Template
