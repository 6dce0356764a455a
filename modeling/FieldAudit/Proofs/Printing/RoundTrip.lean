import FieldAudit.Proofs.Printing.Pipe

/-! # Reading written templates

Reading undoes writing: from the words of a well-formed tree, at whatever offsets they stand, a tree
of the same shape is read (`ofTokens_words`).  As for pipes, the proof builds a reading by the
grammar, one kind of node after the other. -/

namespace FieldAudit.Template

/-! ## Single actions -/

section Actions

variable {depth : Nat} (rest : List Token) (scope : List String) (defines : List Definition)

/-- The first word of an action, and what stands after it. -/
theorem opens_cons {opening word : Token} (ho : opening.kind = .leftDelim)
    (hw : word.kind ≠ .space) :
    (State.mk ⟨opening :: word :: rest, scope⟩ defines).Opens word.kind ∧
      (State.mk ⟨opening :: word :: rest, scope⟩ defines).afterWord = ⟨⟨rest, scope⟩, defines⟩ := by
  have hne : opening.kind ≠ .space := by rw [ho]; decide
  have hnext : (Input.mk (opening :: word :: rest) scope).next = ⟨word :: rest, scope⟩ :=
    Input.next_of_ne hne
  refine ⟨⟨?_, ?_⟩, ?_⟩
  · show (Input.mk (opening :: word :: rest) scope).peekWord.kind = _
    rw [Input.peekWord_of_ne hne, ho]
  · show (Input.mk (opening :: word :: rest) scope).next.peekWord.kind = _
    rw [hnext, Input.peekWord_of_ne hw]
  · show State.mk (Input.mk (opening :: word :: rest) scope).next.next defines = _
    rw [hnext, Input.next_of_ne hw]

/-- An action that is a keyword alone opens with the keyword and closes right after it. -/
theorem keywordAction_opens {tokens : List Token} {k : Keyword}
    (hw : tokens.map Token.word = keywordAction k) :
    (State.mk ⟨tokens ++ rest, scope⟩ defines).Opens (.keyword k) ∧
      (State.mk ⟨tokens ++ rest, scope⟩ defines).afterWord.input.peekWord.kind = .rightDelim ∧
      (State.mk ⟨tokens ++ rest, scope⟩ defines).afterWord.input.next = ⟨rest, scope⟩ := by
  obtain ⟨opening, _, rfl, ho, hw⟩ := List.map_eq_cons_iff.1 hw
  obtain ⟨word, _, rfl, hk, hw⟩ := List.map_eq_cons_iff.1 hw
  obtain ⟨closing, rfl, hc⟩ := List.map_eq_singleton_iff.1 hw
  have ho : opening.kind = .leftDelim := congrArg Word.kind ho
  have hk : word.kind = .keyword k := congrArg Word.kind hk
  have hc : closing.kind = .rightDelim := congrArg Word.kind hc
  have hword : word.kind ≠ .space := by rw [hk]; simp
  have hne : closing.kind ≠ .space := by rw [hc]; decide
  obtain ⟨hopens, hafter⟩ := opens_cons (closing :: rest) scope defines ho hword
  rw [hk] at hopens
  rw [List.cons_append, List.cons_append, List.cons_append, List.nil_append, hafter]
  exact ⟨hopens, by rw [Input.peekWord_of_ne hne, hc], Input.next_of_ne hne⟩

/-- The words of an `end` are read as the end of a block. -/
theorem end_words {tokens : List Token} (hw : tokens.map Token.word = keywordAction .endKw) :
    ∃ pos, (Passage.item depth (.ending (.endAction pos))).Reads ⟨⟨tokens ++ rest, scope⟩, defines⟩
      ⟨⟨rest, scope⟩, defines⟩ := by
  obtain ⟨hopens, hclose, hnext⟩ := keywordAction_opens rest scope defines hw
  have h : (Passage.item depth _).Reads _ _ := .endAction hopens hclose
  rw [State.read, hnext] at h
  exact ⟨_, h⟩

/-- The words of an `else` are read as the end of a body. -/
theorem else_words {tokens : List Token} (hw : tokens.map Token.word = keywordAction .elseKw) :
    ∃ pos, (Passage.item depth (.ending (.elseAction pos))).Reads ⟨⟨tokens ++ rest, scope⟩, defines⟩
      ⟨⟨rest, scope⟩, defines⟩ := by
  obtain ⟨hopens, hclose, hnext⟩ := keywordAction_opens rest scope defines hw
  have h : (Passage.item depth _).Reads _ _ := .elseAction hopens hclose
  rw [State.read, hnext] at h
  exact ⟨_, h⟩

/-- A node of the given shape is read from the tokens, and the rest of them is left. -/
def ItemRead (depth : Nat) (n : Node) (tokens rest : List Token) (scope scope' : List String)
    (defines : List Definition) : Prop :=
  ∃ read : Node, read.shape = n.shape ∧
    (Passage.item depth (.node read)).Reads ⟨⟨tokens ++ rest, scope⟩, defines⟩
      ⟨⟨rest, scope'⟩, defines⟩

/-- The words of a `break` are read as one within a loop. -/
theorem break_words {tokens : List Token} (hd : depth ≠ 0) {pos : Nat}
    (hw : tokens.map Token.word = (Node.breakLoop pos).words) :
    ItemRead depth (.breakLoop pos) tokens rest scope scope defines := by
  obtain ⟨hopens, hclose, hnext⟩ := keywordAction_opens rest scope defines hw
  have h : (Passage.item depth _).Reads _ _ := .breakAction hopens hclose hd
  rw [State.read, hnext] at h
  refine ⟨_, ?_, h⟩
  rfl

/-- The words of a `continue` are read as one within a loop. -/
theorem continue_words {tokens : List Token} (hd : depth ≠ 0) {pos : Nat}
    (hw : tokens.map Token.word = (Node.continueLoop pos).words) :
    ItemRead depth (.continueLoop pos) tokens rest scope scope defines := by
  obtain ⟨hopens, hclose, hnext⟩ := keywordAction_opens rest scope defines hw
  have h : (Passage.item depth _).Reads _ _ := .continueAction hopens hclose hd
  rw [State.read, hnext] at h
  refine ⟨_, ?_, h⟩
  rfl

/-- The words of a text are read as that text. -/
theorem text_words {tokens : List Token} {pos : Nat} {text : List Char}
    (hw : tokens.map Token.word = (Node.text pos text).words) :
    ItemRead depth (.text pos text) tokens rest scope scope defines := by
  obtain ⟨t, rfl, ht⟩ := List.map_eq_singleton_iff.1 hw
  have hk : t.kind = .text := congrArg Word.kind ht
  have hl : t.lexeme = text := congrArg Word.lexeme ht
  have hne : t.kind ≠ .space := by rw [hk]; decide
  have h : (Passage.item depth _).Reads (State.mk ⟨t :: rest, scope⟩ defines) _ :=
    .text (by rw [Input.peekWord_of_ne hne, hk])
  rw [State.read, Input.peekWord_of_ne hne, Input.next_of_ne hne] at h
  refine ⟨_, ?_, h⟩
  rw [Node.shape, Node.shape, hl]

variable {scope' : List String}

/-- What starts an operand opens a pipeline. -/
theorem opensPipe_of_startsOperand {kind : Token.Kind} (h : kind.startsOperand = true) :
    kind.opensPipe = true := by
  cases kind with
  | keyword k => cases k <;> first | rfl | cases h
  | _ => rfl

/-- A pipeline behind a left delimiter is an action. -/
theorem action_of_pipe {opening : Token} {inner : List Token} {p : Pipe Node}
    (ho : opening.kind = .leftDelim)
    (hstart : StartsOperand inner)
    (hp : (Phrase.pipe .command .rightDelim p).Reads ⟨inner, scope⟩ ⟨rest, scope'⟩) :
    ∃ pos, (Passage.item depth (.node (.action pos p))).Reads ⟨⟨opening :: inner, scope⟩, defines⟩
      ⟨⟨rest, scope'⟩, defines⟩ := by
  obtain ⟨t, others, rfl, hk⟩ := hstart
  obtain ⟨hopens, -⟩ := opens_cons others scope defines ho (ne_space_of_startsOperand hk)
  have hne : opening.kind ≠ .space := by rw [ho]; decide
  refine ⟨_, .action hopens (opensPipe_of_startsOperand hk) ?_⟩
  show (Phrase.pipe _ _ p).Reads (Input.mk (opening :: t :: others) scope).next _
  rw [Input.next_of_ne hne]
  exact hp

/-- The words of an action are read as that action. -/
theorem action_words {tokens : List Token} {pos : Nat} {p : Pipe Node}
    (hf : pipeFits 1 p = true) (hs : pipeScope? scope p = some scope')
    (hw : tokens.map Token.word = (Node.action pos p).words) :
    ItemRead depth (.action pos p) tokens rest scope scope' defines := by
  obtain ⟨opening, _, rfl, ho, hw⟩ := List.map_eq_cons_iff.1 hw
  obtain ⟨inner, closing, rfl, hinner, hc⟩ := List.map_eq_append_iff.1 hw
  obtain ⟨close, rfl, hclose⟩ := List.map_eq_singleton_iff.1 hc
  obtain ⟨read, hshape, hread⟩ := pipe_words p .command (Nat.le_refl 1) hf hs hinner
    (congrArg Word.kind hclose) (.inl rfl) rest
  obtain ⟨pos', haction⟩ := action_of_pipe rest scope defines (congrArg Word.kind ho)
    ((StartsOperand.of_pipe hf hinner).append _) hread
  refine ⟨.action pos' read, ?_, ?_⟩
  · rw [Node.shape, Node.shape, hshape]
  · simpa using haction

/-- The word of a name is read as that name. -/
theorem templateName_words {context : Context} {t : Token} {name : String}
    (ht : t.word = .name name) : templateName context t = .ok name := by
  have hk : t.kind = .string := congrArg Word.kind ht
  have hl : t.lexeme = Literal.quote name.toList := congrArg Word.lexeme ht
  have hu : unquoteToken t = .ok name.toList := by
    rw [unquoteToken, hl, Literal.unquote_quote]
    rfl
  rw [templateName, if_pos (.inl hk), hu]
  dsimp only
  rw [String.ofList_toList]

/-- A space before a pipe does not count. -/
theorem Phrase.Reads.after_space {context : Context} {close : Token.Kind} {p : Pipe Node}
    {space : Token} {tokens : List Token} (hs : space.kind = .space)
    (h : (Phrase.pipe context close p).Reads ⟨tokens, scope⟩ ⟨rest, scope'⟩) :
    (Phrase.pipe context close p).Reads ⟨space :: tokens, scope⟩ ⟨rest, scope'⟩ :=
  h.of_skipSpace (Input.skipSpace_of_space hs) (Nat.le_succ _)

/-- The name after the first word of an action, and what stands after the name. -/
theorem name_after_space {space t : Token} (hs : space.kind = .space) {name : String}
    (ht : t.word = .name name) :
    (Input.mk (space :: t :: rest) scope).peekWord = t ∧
      (Input.mk (space :: t :: rest) scope).next = ⟨rest, scope⟩ := by
  have hne : t.kind ≠ .space := by
    rw [show t.kind = .string from congrArg Word.kind ht]
    decide
  constructor
  · rw [Input.peekWord, Input.skipSpace_of_space hs]
    exact Input.peekWord_of_ne hne
  · rw [Input.next, Input.skipSpace_of_space hs]
    exact Input.next_of_ne hne

/-- A name by itself is a call without an argument. -/
theorem bareCall_of_name {opening word space t close : Token} {name : String}
    (ho : opening.kind = .leftDelim) (hk : word.kind = .keyword .templateKw)
    (hs : space.kind = .space) (ht : t.word = .name name) (hc : close.kind = .rightDelim) :
    (Passage.item depth (.node (.template t.pos name none))).Reads
      ⟨⟨opening :: word :: space :: t :: close :: rest, scope⟩, defines⟩
      ⟨⟨rest, scope⟩, defines⟩ := by
  have hword : word.kind ≠ .space := by rw [hk]; simp
  have hne : close.kind ≠ .space := by rw [hc]; decide
  obtain ⟨hopens, hafter⟩ := opens_cons (space :: t :: close :: rest) scope defines ho hword
  obtain ⟨hpeek, hnext⟩ := name_after_space (close :: rest) scope hs ht
  rw [hk] at hopens
  have hread : (Passage.item depth _).Reads _ _ := .bareCall hopens
    (by rw [hafter, hpeek]; exact templateName_words ht)
    (by rw [hafter, hnext, Input.peekWord_of_ne hne, hc])
  rw [State.read, hafter, hpeek, hnext, Input.next_of_ne hne] at hread
  exact hread

/-- A name with a pipeline behind it is a call with an argument. -/
theorem call_of_pipe {opening word space t space' : Token} {name : String} {p : Pipe Node}
    {inner : List Token} (ho : opening.kind = .leftDelim) (hk : word.kind = .keyword .templateKw)
    (hs : space.kind = .space) (ht : t.word = .name name) (hs' : space'.kind = .space)
    (hstart : StartsOperand inner)
    (hp : (Phrase.pipe .template .rightDelim p).Reads ⟨inner, scope⟩ ⟨rest, scope'⟩) :
    (Passage.item depth (.node (.template t.pos name (some p)))).Reads
      ⟨⟨opening :: word :: space :: t :: space' :: inner, scope⟩, defines⟩
      ⟨⟨rest, scope'⟩, defines⟩ := by
  have hword : word.kind ≠ .space := by rw [hk]; simp
  obtain ⟨hopens, hafter⟩ := opens_cons (space :: t :: space' :: inner) scope defines ho hword
  obtain ⟨hpeek, hnext⟩ := name_after_space (space' :: inner) scope hs ht
  rw [hk] at hopens
  -- Behind the name stands an operand, so the call is read with data.
  have hdata : (Input.mk (space' :: inner) scope).peekWord.kind ≠ .rightDelim := by
    obtain ⟨u, others, rfl, hu⟩ := hstart
    rw [Input.peekWord, Input.skipSpace_of_space hs',
      Input.skipSpace_of_ne (ne_space_of_startsOperand hu)]
    show u.kind ≠ .rightDelim
    intro hr
    rw [hr] at hu
    cases hu
  have hread : (Passage.item depth _).Reads _ _ := .call hopens
    (by rw [hafter, hpeek]; exact templateName_words ht)
    (by rw [hafter, hnext]; exact hdata)
    (by rw [hafter, hnext]; exact hp.after_space rest scope hs')
  rw [hafter, hpeek] at hread
  exact hread

/-- The words of a call are read as that call. -/
theorem call_words {tokens : List Token} {pos : Nat} {name : String} {p : Option (Pipe Node)}
    (hf : pipe?Fits p = true) (hs : pipe?Scope? scope p = some scope')
    (hw : tokens.map Token.word = (Node.template pos name p).words) :
    ItemRead depth (.template pos name p) tokens rest scope scope' defines := by
  obtain ⟨opening, _, rfl, ho, hw⟩ := List.map_eq_cons_iff.1 hw
  obtain ⟨word, _, rfl, hk, hw⟩ := List.map_eq_cons_iff.1 hw
  obtain ⟨space, _, rfl, hspace, hw⟩ := List.map_eq_cons_iff.1 hw
  obtain ⟨t, _, rfl, ht, hw⟩ := List.map_eq_cons_iff.1 hw
  obtain ⟨data, closing, rfl, hdata, hc⟩ := List.map_eq_append_iff.1 hw
  obtain ⟨close, rfl, hclose⟩ := List.map_eq_singleton_iff.1 hc
  have ho : opening.kind = .leftDelim := congrArg Word.kind ho
  have hk : word.kind = .keyword .templateKw := congrArg Word.kind hk
  have hspace : space.kind = .space := congrArg Word.kind hspace
  have hclose : close.kind = .rightDelim := congrArg Word.kind hclose
  cases p with
  | none =>
    cases hs
    obtain rfl := List.map_eq_nil_iff.1 hdata
    exact ⟨.template t.pos name none, rfl,
      bareCall_of_name rest scope defines ho hk hspace ht hclose⟩
  | some p =>
    obtain ⟨space', inner, rfl, hspace', hinner⟩ := List.map_eq_cons_iff.1 hdata
    obtain ⟨read, hshape, hread⟩ :=
      pipe_words p .template (Nat.le_refl 1) hf hs hinner hclose (.inl rfl) rest
    have hstart : StartsOperand (inner ++ close :: rest) :=
      (StartsOperand.of_pipe hf hinner).append _
    refine ⟨.template t.pos name (some read), ?_, ?_⟩
    · simp only [Node.shape, pipe?Shape, hshape]
    · have htokens : opening :: word :: space :: t :: (space' :: inner ++ [close]) ++ rest =
          opening :: word :: space :: t :: space' :: (inner ++ close :: rest) := by simp
      rw [htokens]
      exact call_of_pipe rest scope defines ho hk hspace ht (congrArg Word.kind hspace') hstart
        hread

end Actions

/-! ## Blocks -/

/-- The tokens start with a text or with an action that is no definition. -/
def StartsItem (tokens : List Token) : Prop :=
  ∃ t others, tokens = t :: others ∧ (t.kind = .text ∨ t.kind = .leftDelim ∧
    ∃ word others', others = word :: others' ∧ word.kind ≠ .space ∧
      word.kind ≠ .keyword .defineKw)

namespace StartsItem

variable {tokens : List Token}

/-- What starts an item still does with more behind it. -/
theorem append (h : StartsItem tokens) (rest : List Token) : StartsItem (tokens ++ rest) := by
  obtain ⟨t, others, rfl, ht⟩ := h
  refine ⟨t, others ++ rest, rfl, ht.imp id ?_⟩
  rintro ⟨hk, word, others', rfl, hw⟩
  exact ⟨hk, word, others' ++ rest, rfl, hw⟩

/-- An item starts with a text or a left delimiter. -/
theorem peek_eq (h : StartsItem tokens) (scope : List String) :
    (Input.mk tokens scope).peek.kind = .text ∨ (Input.mk tokens scope).peek.kind = .leftDelim := by
  obtain ⟨t, others, rfl, ht⟩ := h
  exact ht.imp id And.left

/-- An item does not start with the end of the tokens. -/
theorem peek_ne_eof (h : StartsItem tokens) (scope : List String) :
    (Input.mk tokens scope).peek.kind ≠ .eof := by
  rcases h.peek_eq scope with hk | hk <;> rw [hk] <;> decide

/-- The first word of an item is not the end of the tokens. -/
theorem peekWord_ne_eof (h : StartsItem tokens) (scope : List String) :
    (Input.mk tokens scope).peekWord.kind ≠ .eof := by
  have hself : (Input.mk tokens scope).skipSpace = ⟨tokens, scope⟩ := by
    apply Input.skipSpace_eq_self
    rcases h.peek_eq scope with hk | hk <;> rw [hk] <;> decide
  rw [Input.peekWord, hself]
  exact h.peek_ne_eof scope

/-- An item is no definition. -/
theorem not_define (h : StartsItem tokens) (scope : List String) :
    ¬((Input.mk tokens scope).peek.kind = .leftDelim ∧
      (Input.mk tokens scope).tail.peekWord.kind = .keyword .defineKw) := by
  rintro ⟨hk, hw⟩
  obtain ⟨t, others, rfl, ht | ⟨-, word, others', rfl, hs, hd⟩⟩ := h
  · have hk : t.kind = .leftDelim := hk
    rw [ht] at hk
    cases hk
  · have hw : (Input.mk (word :: others') scope).peekWord.kind = .keyword .defineKw := hw
    rw [Input.peekWord_of_ne hs] at hw
    exact hd hw

/-- An item has a token. -/
theorem length_pos (h : StartsItem tokens) : 0 < tokens.length := by
  obtain ⟨t, others, rfl, -⟩ := h
  exact Nat.succ_pos _

/-- A keyword other than `define` starts an item. -/
theorem of_keyword {k : Keyword} (hk : k ≠ .defineKw) {words : List Word}
    (hw : tokens.map Token.word = .opening :: .keyword k :: words) : StartsItem tokens := by
  obtain ⟨opening, _, rfl, ho, hw⟩ := List.map_eq_cons_iff.1 hw
  obtain ⟨word, others, rfl, hword, -⟩ := List.map_eq_cons_iff.1 hw
  have hword : word.kind = .keyword k := congrArg Word.kind hword
  refine ⟨opening, _, rfl, .inr ⟨congrArg Word.kind ho, word, others, rfl, ?_⟩⟩
  rw [hword]
  exact ⟨by simp, fun h => hk (Token.Kind.keyword.inj h)⟩

/-- Every node of a block is written as a text or an action. -/
theorem of_words {inRange : Bool} {n : Node} (hf : n.fitsBlock inRange = true)
    (hw : tokens.map Token.word = n.words) : StartsItem tokens := by
  cases n with
  | text pos text =>
    obtain ⟨t, rfl, ht⟩ := List.map_eq_singleton_iff.1 hw
    exact ⟨t, [], rfl, .inl (congrArg Word.kind ht)⟩
  | action pos p =>
    obtain ⟨opening, _, rfl, ho, hw⟩ := List.map_eq_cons_iff.1 hw
    obtain ⟨inner, _, rfl, hinner, -⟩ := List.map_eq_append_iff.1 hw
    obtain ⟨t, others, rfl, ht⟩ := StartsOperand.of_pipe hf hinner
    refine ⟨opening, _, rfl, .inr ⟨congrArg Word.kind ho, t, _, rfl, ?_⟩⟩
    refine ⟨ne_space_of_startsOperand ht, ?_⟩
    intro hd
    rw [hd] at ht
    cases ht
  | branch kind pos p body alternative => exact of_keyword (by cases kind <;> decide) hw
  | template pos name p => exact of_keyword (by decide) hw
  | breakLoop pos => exact of_keyword (by decide) hw
  | continueLoop pos => exact of_keyword (by decide) hw
  | _ => cases hf

/-- The words of nodes in front of an item start an item. -/
theorem of_nodesWords {inRange : Bool} {nodes : List Node} (hf : nodesFit inRange nodes = true)
    (hw : tokens.map Token.word = nodesWords nodes) {rest : List Token} (hr : StartsItem rest) :
    StartsItem (tokens ++ rest) := by
  cases nodes with
  | nil =>
    obtain rfl := List.map_eq_nil_iff.1 hw
    exact hr
  | cons n nodes =>
    obtain ⟨first, others, rfl, hfirst, -⟩ := List.map_eq_append_iff.1 hw
    rw [nodesFit, Bool.and_eq_true] at hf
    rw [List.append_assoc]
    exact (of_words hf.1 hfirst).append _

end StartsItem

/-- Nodes of the given shapes are read from the tokens, whatever action closes the block. -/
def NodesRead (depth : Nat) (nodes : List Node) (tokens : List Token)
    (scope scope' : List String) : Prop :=
  ∀ {tail : List Token} {defines : List Definition} {ending : Ending} {s : State},
    StartsItem tail → (Passage.item depth (.ending ending)).Reads ⟨⟨tail, scope'⟩, defines⟩ s →
    ∃ read : List Node, nodesShape read = nodesShape nodes ∧
      (Passage.items depth read ending).Reads ⟨⟨tokens ++ tail, scope⟩, defines⟩ s

/-- No words are read as no nodes. -/
theorem nodesRead_nil (depth : Nat) (scope : List String) :
    NodesRead depth [] [] scope scope := by
  intro tail defines ending s ht he
  exact ⟨[], rfl, .last (ht.peekWord_ne_eof scope) he⟩

/-- The words of a list are read as its first node and then the others. -/
theorem nodesRead_cons {depth : Nat} {n : Node} {nodes : List Node} {first others : List Token}
    {scope scope₁ scope₂ : List String} (hs : StartsItem first)
    (hn : ∀ rest defines, ItemRead depth n first rest scope scope₁ defines)
    (hr : NodesRead depth nodes others scope₁ scope₂) :
    NodesRead depth (n :: nodes) (first ++ others) scope scope₂ := by
  intro tail defines ending s ht he
  obtain ⟨node, hshape, hread⟩ := hn (others ++ tail) defines
  obtain ⟨read, hshapes, hreads⟩ := hr ht he
  refine ⟨node :: read, ?_, ?_⟩
  · rw [nodesShape, nodesShape, hshape, hshapes]
  · rw [List.append_assoc]
    refine .more ((hs.append _).peekWord_ne_eof scope) hread ?_ hreads
    show (others ++ tail).length < (first ++ (others ++ tail)).length
    have hfirst := hs.length_pos
    simp only [List.length_append]
    omega

/-! ## Branches -/

section Branches

variable {depth : Nat} {kind : BranchKind} {p : Pipe Node} {nodes : List Node}
  {scope inside inside' : List String}

/-- The parts of a written branch. -/
theorem branch_words_cases {tokens : List Token} {pos : Nat} {body : Block Node}
    {alternative : Option (Block Node)}
    (hw : tokens.map Token.word = (Node.branch kind pos p body alternative).words) :
    ∃ opening word space inner close block other last,
      tokens = opening :: word :: space :: (inner ++ close :: (block ++ (other ++ last))) ∧
      opening.kind = .leftDelim ∧ word.kind = .keyword kind.keyword ∧ space.kind = .space ∧
      inner.map Token.word = pipeWords p ∧ close.kind = .rightDelim ∧
      block.map Token.word = blockWords body ∧
      other.map Token.word = alternativeWords alternative ∧
      last.map Token.word = keywordAction .endKw := by
  obtain ⟨opening, _, rfl, ho, hw⟩ := List.map_eq_cons_iff.1 hw
  obtain ⟨word, _, rfl, hk, hw⟩ := List.map_eq_cons_iff.1 hw
  obtain ⟨space, _, rfl, hs, hw⟩ := List.map_eq_cons_iff.1 hw
  obtain ⟨inner, _, rfl, hinner, hw⟩ := List.map_eq_append_iff.1 hw
  obtain ⟨close, _, rfl, hc, hw⟩ := List.map_eq_cons_iff.1 hw
  obtain ⟨block, _, rfl, hblock, hw⟩ := List.map_eq_append_iff.1 hw
  obtain ⟨other, last, rfl, hother, hlast⟩ := List.map_eq_append_iff.1 hw
  exact ⟨opening, word, space, inner, close, block, other, last, rfl, congrArg Word.kind ho,
    congrArg Word.kind hk, congrArg Word.kind hs, hinner, congrArg Word.kind hc, hblock, hother,
    hlast⟩

/-- The pipe of a branch may declare as many variables as its keyword lets it. -/
theorem branchPipe_words (hf : pipeFits kind.declarations p = true)
    (hs : pipeScope? scope p = some inside) {space close : Token} {inner : List Token}
    (hsp : space.kind = .space) (hw : inner.map Token.word = pipeWords p)
    (hc : close.kind = .rightDelim) (rest : List Token) :
    ∃ read, pipeShape read = pipeShape p ∧
      (Phrase.pipe (.control kind.keyword) .rightDelim read).Reads
        ⟨space :: (inner ++ close :: rest), scope⟩ ⟨rest, inside⟩ := by
  have hmost : kind.declarations ≤ (Context.control kind.keyword).furtherDeclarations + 1 := by
    cases kind <;> decide
  obtain ⟨read, hshape, hread⟩ := pipe_words p _ hmost hf hs hw hc (.inl rfl) rest
  exact ⟨read, hshape, hread.after_space rest scope hsp⟩

/-- A branch behind its keyword is an item. -/
theorem branch_of_reads {opening word : Token} {tokens : List Token} {node : Node}
    {defines : List Definition} {s : State} (ho : opening.kind = .leftDelim)
    (hk : word.kind = .keyword kind.keyword)
    (h : (Passage.branch depth kind node).Reads ⟨⟨tokens, scope⟩, defines⟩ s) :
    (Passage.item depth (.node node)).Reads ⟨⟨opening :: word :: tokens, scope⟩, defines⟩ s := by
  have hword : word.kind ≠ .space := by rw [hk]; simp
  obtain ⟨hopens, hafter⟩ := opens_cons tokens scope defines ho hword
  rw [hk] at hopens
  exact .branch hopens (by rw [hafter]; exact h)

/-- A branch without an alternative is read back, if its body is. -/
theorem single_words (hf : pipeFits kind.declarations p = true)
    (hs : pipeScope? scope p = some inside)
    (hbody : ∀ {block : List Token}, block.map Token.word = nodesWords nodes →
      NodesRead (kind.depth depth) nodes block inside inside')
    {tokens : List Token} {pos pos' : Nat}
    (hw : tokens.map Token.word = (Node.branch kind pos p ⟨pos', nodes⟩ none).words)
    (rest : List Token) (defines : List Definition) :
    ItemRead depth (.branch kind pos p ⟨pos', nodes⟩ none) tokens rest scope scope defines := by
  obtain ⟨opening, word, space, inner, close, block, other, last, rfl, ho, hk, hsp, hinner, hc,
    hblock, hother, hlast⟩ := branch_words_cases hw
  obtain rfl := List.map_eq_nil_iff.1 hother
  obtain ⟨pipe, hpipe, hp⟩ := branchPipe_words hf hs hsp hinner hc (block ++ (last ++ rest))
  obtain ⟨_, hend⟩ := end_words rest inside' defines hlast
  have hstart : StartsItem last := .of_keyword (by decide) hlast
  obtain ⟨read, hread, hitems⟩ := hbody hblock (hstart.append rest) hend
  have hbranch : (Passage.branch depth kind _).Reads
      ⟨⟨space :: (inner ++ close :: (block ++ (last ++ rest))), scope⟩, defines⟩ _ :=
    .single hp hitems
  have htokens : opening :: word :: space :: (inner ++ close :: (block ++ ([] ++ last))) ++ rest =
      opening :: word :: space :: (inner ++ close :: (block ++ (last ++ rest))) := by simp
  rw [ItemRead, htokens]
  refine ⟨_, ?_, branch_of_reads ho hk hbranch⟩
  simp only [Node.shape, blockShape, block?Shape, hpipe, hread]

/-- A branch with an alternative is read back, if its body and its alternative are. -/
theorem double_words {others : List Node} {inside'' : List String} {inRange : Bool}
    (hf : pipeFits kind.declarations p = true) (hs : pipeScope? scope p = some inside)
    (hbody : ∀ {block : List Token}, block.map Token.word = nodesWords nodes →
      NodesRead (kind.depth depth) nodes block inside inside')
    (hfit : nodesFit inRange others = true)
    (hother : ∀ {block : List Token}, block.map Token.word = nodesWords others →
      NodesRead depth others block inside' inside'')
    {tokens : List Token} {pos pos₁ pos₂ : Nat}
    (hw : tokens.map Token.word =
      (Node.branch kind pos p ⟨pos₁, nodes⟩ (some ⟨pos₂, others⟩)).words)
    (rest : List Token) (defines : List Definition) :
    ItemRead depth (.branch kind pos p ⟨pos₁, nodes⟩ (some ⟨pos₂, others⟩)) tokens rest scope scope
      defines := by
  obtain ⟨opening, word, space, inner, close, block, alternative, last, rfl, ho, hk, hsp, hinner,
    hc, hblock, halternative, hlast⟩ := branch_words_cases hw
  obtain ⟨mark, block', rfl, hmark, hblock'⟩ := List.map_eq_append_iff.1 halternative
  obtain ⟨pipe, hpipe, hp⟩ :=
    branchPipe_words hf hs hsp hinner hc (block ++ (mark ++ (block' ++ (last ++ rest))))
  -- The body up to `else`, then the alternative up to `end`.
  obtain ⟨_, helse⟩ := else_words (block' ++ (last ++ rest)) inside' defines hmark
  have hstart : StartsItem mark := .of_keyword (by decide) hmark
  obtain ⟨read, hread, hitems⟩ := hbody hblock (hstart.append _) helse
  obtain ⟨_, hend⟩ := end_words rest inside'' defines hlast
  have hstart' : StartsItem (last ++ rest) :=
    (StartsItem.of_keyword (by decide) hlast).append rest
  obtain ⟨read', hread', hitems'⟩ := hother hblock' hstart' hend
  have hsize : (block' ++ (last ++ rest)).length <
      (space :: (inner ++ close :: (block ++ (mark ++ (block' ++ (last ++ rest)))))).length := by
    simp only [List.length_cons, List.length_append]
    omega
  -- What follows `else` starts an item, so it is not taken for the keyword of another branch.
  have hkeyword : ¬(kind.chains = true ∧
      (Input.mk (block' ++ (last ++ rest)) inside').peek.kind = .keyword kind.keyword) := by
    rintro ⟨-, hkind⟩
    rcases (StartsItem.of_nodesWords hfit hblock' hstart').peek_eq inside' with hpeek | hpeek
    · cases hpeek.symm.trans hkind
    · cases hpeek.symm.trans hkind
  have hbranch : (Passage.branch depth kind _).Reads
      ⟨⟨space :: (inner ++ close :: (block ++ (mark ++ (block' ++ (last ++ rest))))), scope⟩,
        defines⟩ _ :=
    .double hp hitems hsize hkeyword hitems'
  have htokens : opening :: word :: space ::
        (inner ++ close :: (block ++ (mark ++ block' ++ last))) ++ rest =
      opening :: word :: space ::
        (inner ++ close :: (block ++ (mark ++ (block' ++ (last ++ rest))))) := by simp
  rw [ItemRead, htokens]
  refine ⟨_, ?_, branch_of_reads ho hk hbranch⟩
  simp only [Node.shape, blockShape, block?Shape, hpipe, hread, hread']

end Branches

/-! ## Nodes -/

mutual

/-- A written node of a block is read. -/
theorem item_words : (n : Node) → ∀ (inRange : Bool) (depth : Nat), n.fitsBlock inRange = true →
    (inRange = true → depth ≠ 0) → ∀ {scope scope' : List String},
    n.scopeAfter? scope = some scope' → ∀ {tokens : List Token}, tokens.map Token.word = n.words →
    ∀ rest defines, ItemRead depth n tokens rest scope scope' defines
  | .text pos text => by
    intro inRange depth hf hd scope scope' hs tokens hw rest defines
    cases hs
    exact text_words rest scope defines hw
  | .action pos p => by
    intro inRange depth hf hd scope scope' hs tokens hw rest defines
    exact action_words rest scope defines hf hs hw
  | .branch kind pos p ⟨pos', nodes⟩ alternative => by
    intro inRange depth hf hd scope scope' hs tokens hw rest defines
    simp only [Node.fitsBlock, Bool.and_eq_true] at hf
    obtain ⟨⟨hp, hbody⟩, halternative⟩ := hf
    obtain ⟨inside, hscope, hs⟩ := Option.bind_eq_some_iff.1 hs
    obtain ⟨inside', hscope', hs⟩ := Option.bind_eq_some_iff.1 hs
    obtain ⟨inside'', hscope'', hs⟩ := Option.bind_eq_some_iff.1 hs
    cases hs
    -- Inside the body of a `range` the depth is positive, whatever it is outside.
    have hd' : (inRange || decide (kind = .rangeBranch)) = true → kind.depth depth ≠ 0 := by
      rw [BranchKind.depth, Bool.or_eq_true, decide_eq_true_eq]
      intro h
      split
      next => exact Nat.succ_ne_zero depth
      next hk => exact hd (h.resolve_right hk)
    have hnodes : ∀ {block : List Token}, block.map Token.word = nodesWords nodes →
        NodesRead (kind.depth depth) nodes block inside inside' :=
      nodes_words nodes _ _ hbody hd' hscope'
    -- The alternative stands outside the body: it is read at the depth around the branch, in the
    -- scope that the body leaves.
    match alternative with
    | none => exact single_words hp hscope hnodes hw rest defines
    | some ⟨pos'', others⟩ =>
      exact double_words hp hscope hnodes halternative
        (nodes_words others inRange depth halternative hd hscope'') hw rest defines
  | .template pos name p => by
    intro inRange depth hf hd scope scope' hs tokens hw rest defines
    exact call_words rest scope defines hf hs hw
  | .breakLoop pos => by
    intro inRange depth hf hd scope scope' hs tokens hw rest defines
    cases hs
    exact break_words rest scope defines (hd hf) hw
  | .continueLoop pos => by
    intro inRange depth hf hd scope scope' hs tokens hw rest defines
    cases hs
    exact continue_words rest scope defines (hd hf) hw
  | .pipe _ | .command _ | .chain .. | .field .. | .identifier .. | .variable _ | .dot _ | .nil _
  | .bool .. | .number .. | .string .. | .list _ => by
    intro inRange depth hf
    cases hf

/-- The written nodes of a block are read. -/
theorem nodes_words : (nodes : List Node) → ∀ (inRange : Bool) (depth : Nat),
    nodesFit inRange nodes = true → (inRange = true → depth ≠ 0) → ∀ {scope scope' : List String},
    nodesScope? scope nodes = some scope' → ∀ {tokens : List Token},
    tokens.map Token.word = nodesWords nodes → NodesRead depth nodes tokens scope scope'
  | [] => by
    intro inRange depth hf hd scope scope' hs tokens hw
    cases hs
    obtain rfl := List.map_eq_nil_iff.1 hw
    exact nodesRead_nil depth scope
  | n :: nodes => by
    intro inRange depth hf hd scope scope' hs tokens hw
    rw [nodesFit, Bool.and_eq_true] at hf
    rw [nodesScope?] at hs
    obtain ⟨scope₁, hn, hs⟩ := Option.bind_eq_some_iff.1 hs
    obtain ⟨first, others, rfl, hfirst, hothers⟩ := List.map_eq_append_iff.1 hw
    exact nodesRead_cons (.of_words hf.1 hfirst) (item_words n inRange depth hf.1 hd hn hfirst)
      (nodes_words nodes inRange depth hf.2 hd hs hothers)

end

/-! ## Templates -/

/-- The nodes of a template are read up to its end. -/
theorem document_words {nodes : List Node} (hf : nodesFit false nodes = true)
    {scope scope' : List String} (hs : nodesScope? scope nodes = some scope')
    {tokens : List Token} (hw : tokens.map Token.word = nodesWords nodes) {last : Token}
    (hl : last.kind = .eof) (defines : List Definition) :
    ∃ read, nodesShape read = nodesShape nodes ∧
      (Passage.document read).Reads ⟨⟨tokens ++ [last], scope⟩, defines⟩
        ⟨⟨[last], scope'⟩, defines⟩ := by
  induction nodes generalizing scope tokens with
  | nil =>
    cases hs
    obtain rfl := List.map_eq_nil_iff.1 hw
    exact ⟨[], rfl, .finished hl⟩
  | cons n nodes ih =>
    rw [nodesFit, Bool.and_eq_true] at hf
    rw [nodesScope?] at hs
    obtain ⟨scope₁, hn, hs⟩ := Option.bind_eq_some_iff.1 hs
    obtain ⟨first, others, rfl, hfirst, hothers⟩ := List.map_eq_append_iff.1 hw
    have hstart := StartsItem.of_words hf.1 hfirst
    obtain ⟨node, hshape, hread⟩ :=
      item_words n false 0 hf.1 nofun hn hfirst (others ++ [last]) defines
    obtain ⟨read, hshapes, hreads⟩ := ih hf.2 hs hothers
    -- An item has a token at least, so the reader goes on behind it.
    have hsize : (others ++ [last]).length < (first ++ (others ++ [last])).length := by
      have hpos := hstart.length_pos
      simp only [List.length_append]
      omega
    refine ⟨node :: read, ?_, ?_⟩
    · rw [nodesShape, nodesShape, hshape, hshapes]
    · rw [List.append_assoc]
      exact .node ((hstart.append _).peek_ne_eof scope) ((hstart.append _).not_define scope) hread
        hsize hreads

/-- The body of a definition is read with the data alone in scope. -/
theorem body_words {nodes : List Node} (hf : nodesFit false nodes = true) {inside : List String}
    (hs : nodesScope? initialScope nodes = some inside) {block last : List Token}
    (hw : block.map Token.word = nodesWords nodes) (hl : last.map Token.word = keywordAction .endKw)
    (rest : List Token) (scope : List String) (defines : List Definition) :
    ∃ read, blockShape read = ⟨0, nodesShape nodes⟩ ∧
      (Passage.body 0 read).Reads ⟨⟨block ++ (last ++ rest), scope⟩, defines⟩
        ⟨⟨rest, scope⟩, defines⟩ := by
  have hstart : StartsItem last := .of_keyword (by decide) hl
  obtain ⟨_, hend⟩ := end_words rest inside defines hl
  obtain ⟨read, hshape, hread⟩ :=
    nodes_words nodes false 0 hf nofun hs hw (hstart.append rest) hend
  have hbody : (Passage.body 0 _).Reads ⟨⟨block ++ (last ++ rest), scope⟩, defines⟩ _ :=
    .body hread
  refine ⟨_, ?_, hbody⟩
  rw [blockShape, hshape]

/-- A written definition is read and adds a template of its shape. -/
theorem definition_words {d : Definition} (hf : blockFits false d.root = true)
    (hs : d.root.WellScoped) {tokens : List Token} (hw : tokens.map Token.word = d.words)
    {defines : List Definition} (hn : d.name ∉ defines.map Definition.name) (rest : List Token)
    (scope : List String) :
    ∃ read, Definition.shape read = d.shape ∧ ∀ {nodes : List Node} {s : State},
      (Passage.document nodes).Reads ⟨⟨rest, scope⟩, defines ++ [read]⟩ s →
      (Passage.document nodes).Reads ⟨⟨tokens ++ rest, scope⟩, defines⟩ s := by
  obtain ⟨name, pos, nodes⟩ := d
  obtain ⟨inside, hinside⟩ := Option.isSome_iff_exists.1 hs
  obtain ⟨opening, _, rfl, ho, hw⟩ := List.map_eq_cons_iff.1 hw
  obtain ⟨word, _, rfl, hk, hw⟩ := List.map_eq_cons_iff.1 hw
  obtain ⟨space, _, rfl, hsp, hw⟩ := List.map_eq_cons_iff.1 hw
  obtain ⟨t, _, rfl, ht, hw⟩ := List.map_eq_cons_iff.1 hw
  obtain ⟨close, _, rfl, hc, hw⟩ := List.map_eq_cons_iff.1 hw
  obtain ⟨block, last, rfl, hblock, hlast⟩ := List.map_eq_append_iff.1 hw
  have ho : opening.kind = .leftDelim := congrArg Word.kind ho
  have hk : word.kind = .keyword .defineKw := congrArg Word.kind hk
  have hc : close.kind = .rightDelim := congrArg Word.kind hc
  have hword : word.kind ≠ .space := by rw [hk]; simp
  have hne : close.kind ≠ .space := by rw [hc]; decide
  obtain ⟨read, hshape, hbody⟩ := body_words hf hinside hblock hlast rest scope defines
  obtain ⟨hpeek, hnext⟩ :=
    name_after_space (close :: (block ++ (last ++ rest))) scope (congrArg Word.kind hsp) ht
  rw [← Input.next_of_ne hne, ← hnext] at hbody
  have hdefinition : Passage.definition.Reads
      ⟨⟨space :: t :: close :: (block ++ (last ++ rest)), scope⟩, defines⟩ _ :=
    .definition (by rw [hpeek]; exact templateName_words ht)
      (by rw [hnext, Input.peekWord_of_ne hne, hc]) hbody (define_of_not_mem hn)
  refine ⟨⟨name, read⟩, ?_, ?_⟩
  · rw [Definition.shape, hshape]
    rfl
  · intro nodes s hrest
    have htokens : opening :: word :: space :: t :: close :: (block ++ last) ++ rest =
        opening :: word :: space :: t :: close :: (block ++ (last ++ rest)) := by simp
    rw [htokens]
    refine .defined ho ?_ ?_ ?_ hrest
    · show (Input.mk (word :: space :: t :: close :: (block ++ (last ++ rest))) scope).peekWord.kind
        = _
      rw [Input.peekWord_of_ne hword, hk]
    · show Passage.definition.Reads
        ⟨(Input.mk (word :: space :: t :: close :: (block ++ (last ++ rest))) scope).next,
          defines⟩ _
      rw [Input.next_of_ne hword]
      exact hdefinition
    · show rest.length <
        (opening :: word :: space :: t :: close :: (block ++ (last ++ rest))).length
      simp only [List.length_cons, List.length_append]
      omega

/-- Written definitions with distinct names are read one after the other. -/
theorem definitions_words {ds : List Definition} (hf : ∀ d ∈ ds, blockFits false d.root)
    (hs : ∀ d ∈ ds, d.root.WellScoped) {tokens : List Token}
    (hw : tokens.map Token.word = ds.flatMap Definition.words) {defines : List Definition}
    (hn : (defines.map Definition.name ++ ds.map Definition.name).Nodup) (rest : List Token)
    (scope : List String) :
    ∃ read, read.map Definition.shape = ds.map Definition.shape ∧
      ∀ {nodes : List Node} {s : State},
        (Passage.document nodes).Reads ⟨⟨rest, scope⟩, defines ++ read⟩ s →
        (Passage.document nodes).Reads ⟨⟨tokens ++ rest, scope⟩, defines⟩ s := by
  induction ds generalizing tokens defines with
  | nil =>
    obtain rfl := List.map_eq_nil_iff.1 hw
    refine ⟨[], rfl, ?_⟩
    intro nodes s h
    rwa [List.append_nil] at h
  | cons d ds ih =>
    rw [List.flatMap_cons] at hw
    obtain ⟨first, others, rfl, hfirst, hothers⟩ := List.map_eq_append_iff.1 hw
    have hnew : d.name ∉ defines.map Definition.name := by
      intro hmem
      exact (List.nodup_append.1 hn).2.2 _ hmem _ List.mem_cons_self rfl
    obtain ⟨r, hshape, hread⟩ := definition_words (hf d List.mem_cons_self)
      (hs d List.mem_cons_self) hfirst hnew (others ++ rest) scope
    -- The name read is the name written, so the names to come stay distinct from those so far.
    have hname : r.name = d.name := by
      show r.shape.name = d.shape.name
      rw [hshape]
    have hn' : ((defines ++ [r]).map Definition.name ++ ds.map Definition.name).Nodup := by
      simpa [hname] using hn
    obtain ⟨reads, hshapes, hreads⟩ := ih (fun d hd => hf d (List.mem_cons_of_mem _ hd))
      (fun d hd => hs d (List.mem_cons_of_mem _ hd)) hothers hn'
    refine ⟨r :: reads, ?_, ?_⟩
    · rw [List.map_cons, List.map_cons, hshape, hshapes]
    · intro nodes s h
      rw [List.append_assoc]
      apply hread
      apply hreads
      rwa [List.append_assoc]

/-- Reading undoes writing: from the words of a well-formed tree, wherever they stand, a tree of the
same shape is read. -/
theorem ofTokens_words {tree : Tree} (hw : tree.WellFormed) {tokens : List Token}
    (ht : tokens.map Token.word = tree.words) :
    ∃ read, Tree.ofTokens tokens = .ok read ∧ read.shape = tree.shape := by
  obtain ⟨⟨pos, nodes⟩, defines⟩ := tree
  obtain ⟨inside, hinside⟩ := Option.isSome_iff_exists.1 hw.rootScope
  obtain ⟨front, _, rfl, hfront, ht⟩ := List.map_eq_append_iff.1 ht
  obtain ⟨block, _, rfl, hblock, ht⟩ := List.map_eq_append_iff.1 ht
  obtain ⟨last, rfl, hlast⟩ := List.map_eq_singleton_iff.1 ht
  have hdistinct : (([] : List Definition).map Definition.name ++
      defines.map Definition.name).Nodup := hw.distinct
  obtain ⟨reads, hshapes, hfirst⟩ :=
    definitions_words hw.defines hw.definesScope hfront hdistinct (block ++ [last]) initialScope
  obtain ⟨read, hshape, hread⟩ :=
    document_words hw.root hinside hblock (congrArg Word.kind hlast) reads
  have hdocument := hfirst hread
  refine ⟨⟨⟨_, read⟩, reads⟩, ofTokens_eq_ok_iff.2 ⟨_, hdocument, rfl, rfl⟩, ?_⟩
  simp only [Tree.shape, blockShape, hshape, hshapes]

/-- A template that lists items, each with its number, and calls another where there are none. -/
def listing : Tree where
  root := ⟨0, [
    .text 0 "Items:".toList,
    .branch .rangeBranch 0 ⟨0, [⟨0, ["$i"]⟩, ⟨0, ["$item"]⟩], [⟨0, [.field 0 ["Order", "Items"]]⟩]⟩
      ⟨0, [
        .action 0 ⟨0, [], [⟨0, [.variable ⟨0, ["$item", "Name"]⟩]⟩,
          ⟨0, [.identifier 0 "printf" true, .string 0 "\"%s\"".toList, .variable ⟨0, ["$i"]⟩]⟩]⟩,
        .breakLoop 0]⟩
      (some ⟨0, [.template 0 "none" (some ⟨0, [], [⟨0, [.dot 0]⟩]⟩)]⟩)]⟩
  defines := [⟨"none", ⟨0, [.text 0 "No items".toList]⟩⟩]

/-- A listing with a loop, a declaration and a call is read back from its words. -/
theorem ofTokens_words_listing :
    listing.WellFormed ∧ ∃ read,
      Tree.ofTokens (listing.words.map fun word => ⟨word.kind, word.lexeme, 0⟩) = .ok read ∧
        read.shape = listing.shape := by
  have hw : listing.WellFormed := ⟨by decide +kernel, by decide, by decide, by decide, by decide⟩
  refine ⟨hw, ofTokens_words hw ?_⟩
  rw [List.map_map]
  exact List.map_id _

end FieldAudit.Template
