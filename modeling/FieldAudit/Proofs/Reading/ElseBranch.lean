import FieldAudit.Proofs.Printing.RoundTrip
import FieldAudit.Proofs.Reading.Splice

/-! # An `else` with a branch after it

An `else` may go on with a branch of the kind of the action it belongs to, and the two share their
`end`.  The same can be written with an `else` of its own and a branch in it, with an `end` each.
From tokens written in the one way a tree is read if and only if one is read from tokens written
in the other way, and it has the same shape (`ofTokens_elseBranch`). -/

namespace FieldAudit.Template

/-! ## Items at the front of the tokens -/

section Items

variable {depth : Nat} {i i' : Item} {s t t' : State} {tokens front back : List Token}

/-- Reading an item is what the item reader does. -/
theorem item_reads_iff : (Passage.item depth i).Reads s t ↔ item depth s = .ok (i, t) :=
  ⟨fun h => isResult_of_passage_reads h, fun h => item_reads h⟩

/-- At most one item is read. -/
theorem item_reads_unique (h : (Passage.item depth i).Reads s t)
    (h' : (Passage.item depth i').Reads s t') : i = i' ∧ t = t' := by
  rw [item_reads_iff] at h h'
  rw [h] at h'
  exact Prod.mk.inj (Except.ok.inj h')

/-- Spaces before an item do not matter. -/
theorem item_reads_of_skipSpace (h : s.input.skipSpace.tokens = tokens)
    (hi : (Passage.item depth i).Reads ⟨⟨tokens, s.input.scope⟩, s.defines⟩ t) :
    (Passage.item depth i).Reads s t := by
  have hword : s.input.skipSpace.peekWord = s.input.peekWord :=
    Input.peekWord_of_skipSpace_eq s.input.skipSpace_skipSpace
  have hnext : s.input.skipSpace.next = s.input.next :=
    Input.next_of_skipSpace_eq s.input.skipSpace_skipSpace
  have hitem : item depth (s.read s.input.skipSpace) = item depth s := by
    rw [item, item]
    simp only [State.read, hword, hnext]
  subst h
  rw [item_reads_iff] at hi ⊢
  exact hitem ▸ hi

/-- At the words of an `end`, with or without a space in front, the end of a block is read. -/
theorem end_at (depth : Nat) (hw : front.map Token.word = keywordAction .endKw)
    (h : s.input.skipSpace.tokens = front ++ back) :
    ∃ pos, (Passage.item depth (.ending (.endAction pos))).Reads s
      ⟨⟨back, s.input.scope⟩, s.defines⟩ := by
  obtain ⟨pos, hi⟩ := end_words back s.input.scope s.defines hw
  exact ⟨pos, item_reads_of_skipSpace h hi⟩

/-- At the words of an `else`, with or without a space in front, the end of a body is read. -/
theorem else_at (depth : Nat) (hw : front.map Token.word = keywordAction .elseKw)
    (h : s.input.skipSpace.tokens = front ++ back) :
    ∃ pos, (Passage.item depth (.ending (.elseAction pos))).Reads s
      ⟨⟨back, s.input.scope⟩, s.defines⟩ := by
  obtain ⟨pos, hi⟩ := else_words back s.input.scope s.defines hw
  exact ⟨pos, item_reads_of_skipSpace h hi⟩

/-- The first word of an action whose words are given. -/
theorem kind_of_opens {k : Keyword} {ws : List Word}
    (hw : front.map Token.word = .opening :: .keyword k :: ws)
    (h : s.input.skipSpace.tokens = front ++ back) {kind : Token.Kind} (ho : s.Opens kind) :
    kind = .keyword k := by
  obtain ⟨opening, _, rfl, hopening, hw⟩ := List.map_eq_cons_iff.1 hw
  obtain ⟨word, _, rfl, hk, hw⟩ := List.map_eq_cons_iff.1 hw
  have hword : word.kind = .keyword k := congrArg Word.kind hk
  have hnext : s.input.next.tokens = word :: _ := congrArg List.tail h
  rw [← ho.2, State.word, ← hword]
  generalize s.input.next = inside at hnext ⊢
  obtain ⟨tokens, scope⟩ := inside
  obtain rfl : tokens = _ := hnext
  rw [Input.peekWord_of_ne (by rw [hword]; simp)]

/-- An action starts on both sides of the seam. -/
theorem Seam.of_words {front' back' : List Token} {ws ws' : List Word}
    (h : front.map Token.word = .opening :: ws) (h' : front'.map Token.word = .opening :: ws') :
    Seam (front ++ back) (front' ++ back') := by
  obtain ⟨opening, _, rfl, hopening, -⟩ := List.map_eq_cons_iff.1 h
  obtain ⟨opening', _, rfl, hopening', -⟩ := List.map_eq_cons_iff.1 h'
  refine ⟨congrArg some (hopening.trans hopening'.symm), fun t ht => ?_⟩
  cases ht
  exact congrArg Word.kind hopening

end Items

/-! ## A branch up to its end -/

/-- The open actions after a head that does not close the outermost of them. -/
def Head.within (stack : List Frame) (head : Head) : Option (List Frame) :=
  (head.step stack).filter fun open' => !open'.isEmpty

/-- Actions that are open further out do not matter for a head that can stand without them. -/
theorem Head.onward_append {head : Head} {stack stack' : List Frame}
    (h : head.step stack = some stack') (base : List Frame) :
    head.onward (stack ++ base) = stack' ++ base := by
  cases head with
  | branch | block | other => cases h; rfl
  | define =>
    cases stack with
    | nil => cases h; rfl
    | cons frame rest => cases h
  | elseBranch kind =>
    dsimp only [step] at h
    split at h
    next => split at h <;> cases h; rfl
    next => cases h
  | elseAlone =>
    dsimp only [step] at h
    split at h
    next => cases h; rfl
    next => cases h
  | endAction =>
    cases stack with
    | nil => cases h
    | cons frame rest => cases h; rfl

/-- Two texts with an `end` at the seam.  The outermost open action is the branch that it closes. -/
def Splice.atEnd (kind : BranchKind) (hasElse : Bool) (last last' rest rest' : List Token) :
    Splice where
  back := last ++ rest
  back' := last' ++ rest'
  Ahead hs stack := stack ≠ [] ∧ hs.foldlM Head.within stack = some [.branch kind hasElse]
  Behind stack tokens tokens' := stack = [] ∧ tokens = rest ∧ tokens' = rest'

/-- Within an opened passage something is open. -/
theorem Passage.Opened.ne_nil {passage : Passage} {stack open' : List Frame}
    (h : passage.Opened stack open') : open' ≠ [] := by
  cases passage with
  | items | item | document => exact h.1 ▸ h.2
  | branch =>
    obtain ⟨hasElse, rfl⟩ := h
    simp
  | block | body | definition => exact h ▸ List.cons_ne_nil _ _

/-- A splice at the end of a branch is sound. -/
theorem Splice.atEnd_sound (kind : BranchKind) (hasElse : Bool) (rest rest' : List Token)
    {last last' : List Token} (hlast : last.map Token.word = keywordAction .endKw)
    (hlast' : last'.map Token.word = keywordAction .endKw) :
    (Splice.atEnd kind hasElse last last' rest rest').Sound where
  seam := .of_words hlast hlast'
  onward {head hs stack} h := by
    have hfold : (head :: hs).foldlM Head.within stack = _ := h.2
    rw [List.foldlM_cons] at hfold
    obtain ⟨stack', hstep, hfold⟩ := Option.bind_eq_some_iff.1 hfold
    obtain ⟨hstep, hne⟩ := Option.filter_eq_some_iff.1 hstep
    have honward := Head.onward_append hstep []
    rw [List.append_nil, List.append_nil] at honward
    rw [honward]
    exact ⟨by simpa using hne, hfold⟩
  closes hback ho := .inl (kind_of_opens hlast hback ho)
  endAction {depth pos frame stack s s' t} h hat hi := by
    obtain ⟨pos₁, hend⟩ := end_at depth hlast hat.tokens.1
    obtain ⟨pos', hend'⟩ := end_at depth hlast' hat.tokens.2
    obtain ⟨-, rfl⟩ := item_reads_unique hi hend
    obtain ⟨-, rfl⟩ : frame = .branch kind hasElse ∧ stack = [] :=
      List.cons.inj (Option.some.inj h.2)
    exact ⟨pos', _, hend', hat.scope, .inl ⟨rfl, rfl, rfl⟩, hat.defines⟩
  elseAction := by
    intro depth pos kind hasElse stack other s s' t u h hat hi
    obtain ⟨pos', hend⟩ := end_at (kind.depth depth) hlast hat.tokens.1
    cases (item_reads_unique hi hend).1
  -- Nothing is open behind the `end`, and every passage is read inside something.
  behind_tail h := by cases h.1
  behind _ hopened h := absurd h.tokens.1 hopened.ne_nil

/-- A branch is read up to its `end` in the same way, whatever follows. -/
theorem branch_of_clause {depth : Nat} {kind : BranchKind} {hasElse : Bool} {node : Node}
    {clause clause' last last' rest rest' : List Token} {s t : State} (s' : State)
    (hr : (Passage.branch depth kind node).Reads s t)
    (hs : s.Like (fun tokens tokens' => tokens = clause ++ (last ++ rest) ∧
      tokens' = clause' ++ (last' ++ rest')) s')
    (hw : SameWords clause clause')
    (hclause : (heads clause).foldlM Head.within [.branch kind false] = some [.branch kind hasElse])
    (hlast : last.map Token.word = keywordAction .endKw)
    (hlast' : last'.map Token.word = keywordAction .endKw) :
    ∃ node' t', (Passage.branch depth kind node').Reads s' t' ∧ node'.shape = node.shape ∧
      t.Like (fun tokens tokens' => tokens = rest ∧ tokens' = rest') t' := by
  have hsound := Splice.atEnd_sound kind hasElse rest rest' hlast hlast'
  have hbefore : s.Like ((Splice.atEnd kind hasElse last last' rest rest').Before
      [.branch kind false]) s' := by
    refine ⟨hs.scope, ⟨heads clause, ?_, by simp, hclause⟩, hs.defines⟩
    rw [hs.tokens.1, hs.tokens.2]
    exact .of_words hsound.seam hw
  obtain ⟨node', t', hr', hnode, ht⟩ :=
    (hsound.copies hr ⟨false, rfl⟩ hbefore).resolve_right id
  refine ⟨node', t', hr', hnode, ht.mono fun tokens tokens' hrest => ?_⟩
  rcases hrest with hbehind | ⟨hs, -, hne, -⟩
  · exact hbehind.2
  · exact absurd rfl hne

/-! ## An `else` at the seam -/

/-- The words before the pipe of a branch. -/
def BranchKind.opening (kind : BranchKind) : List Word :=
  [.opening, .keyword kind.keyword]

/-- The words before the pipe of a branch that goes on from an `else`. -/
def BranchKind.elseOpening (kind : BranchKind) : List Word :=
  [.opening, .keyword .elseKw, .space, .keyword kind.keyword]

/-- An `else` that goes on with a branch, and the `end` that it shares. -/
inductive ChainedTail (kind : BranchKind) (clause rest : List Token) : List Token → Prop
  | mk {opening last : List Token} (ho : opening.map Token.word = kind.elseOpening)
      (hl : last.map Token.word = keywordAction .endKw) :
      ChainedTail kind clause rest (opening ++ (clause ++ (last ++ rest)))

/-- An `else` with a branch in it, which has an `end` of its own. -/
inductive NestedTail (kind : BranchKind) (clause rest : List Token) : List Token → Prop
  | mk {alone opening last last' : List Token} (ha : alone.map Token.word = keywordAction .elseKw)
      (ho : opening.map Token.word = kind.opening)
      (hl : last.map Token.word = keywordAction .endKw)
      (hl' : last'.map Token.word = keywordAction .endKw) :
      NestedTail kind clause rest (alone ++ (opening ++ (clause ++ (last ++ (last' ++ rest)))))

/-- Two texts with an `else` at the seam, which belongs to a branch of the given kind.  The
template as a whole counts as the outermost open action. -/
def Splice.atElse (kind : BranchKind) (stack : List Frame) (back back' : List Token) :
    Splice where
  back := back
  back' := back'
  Ahead hs open' := ∃ inner, open' = inner ++ [.template] ∧
    hs.foldlM Head.step inner = some (.branch kind false :: stack)
  Behind _ := SameWords

/-- A splice at an `else` is sound if the branches behind it are copied. -/
theorem Splice.atElse_sound {kind : BranchKind} {stack : List Frame}
    {front front' back back' : List Token} {ws ws' : List Word}
    (hw : front.map Token.word = .opening :: .keyword .elseKw :: ws)
    (hw' : front'.map Token.word = .opening :: .keyword .elseKw :: ws')
    (helse : (Splice.atElse kind stack (front ++ back) (front' ++ back')).CopiesElse) :
    (Splice.atElse kind stack (front ++ back) (front' ++ back')).Sound where
  seam := .of_words hw hw'
  onward {head hs open'} h := by
    obtain ⟨inner, rfl, hfold⟩ := h
    rw [List.foldlM_cons] at hfold
    obtain ⟨inner', hstep, hfold⟩ := Option.bind_eq_some_iff.1 hfold
    exact ⟨inner', Head.onward_append hstep _, hfold⟩
  closes hback ho := .inr (kind_of_opens hw hback ho)
  endAction h hat hi := by
    cases hi with
    | endAction ho hr => cases kind_of_opens hw hat.tokens.1 ho
  elseAction := helse
  behind_tail {frame stack tokens tokens'} h := by
    refine ⟨?_, ?_⟩
    · rw [← List.head?_map, ← List.head?_map]
      exact congrArg List.head? h
    · show tokens.tail.map _ = tokens'.tail.map _
      rw [List.map_tail, List.map_tail]
      exact congrArg List.tail h
  behind hr hopened h := (hr.of_sameWords hopened h).mono fun _ _ _ hw => .inl hw

/-- At the seam, the branch that the `else` belongs to is of the given kind. -/
theorem Splice.atElse_kind {kind kind' : BranchKind} {hasElse : Bool} {stack stack' : List Frame}
    {back back' : List Token}
    (h : (Splice.atElse kind stack back back').Ahead [] (.branch kind' hasElse :: stack')) :
    kind' = kind := by
  obtain ⟨inner, hinner, hfold⟩ := h
  cases hfold
  exact (Frame.branch.inj (List.cons.inj hinner).1).1

/-- An `else` that goes on with a branch leaves the keyword of the branch. -/
theorem elseOpening_at (depth : Nat) {kind : BranchKind} (hchains : kind.chains = true)
    {front back : List Token} {s : State} (hw : front.map Token.word = kind.elseOpening)
    (h : s.input.skipSpace.tokens = front ++ back) :
    ∃ pos word, word.kind = .keyword kind.keyword ∧
      (Passage.item depth (.ending (.elseAction pos))).Reads s
        ⟨⟨word :: back, s.input.scope⟩, s.defines⟩ := by
  obtain ⟨opening, _, rfl, ho, hw⟩ := List.map_eq_cons_iff.1 hw
  obtain ⟨elseWord, _, rfl, he, hw⟩ := List.map_eq_cons_iff.1 hw
  obtain ⟨space, _, rfl, hs, hw⟩ := List.map_eq_cons_iff.1 hw
  obtain ⟨word, rfl, hk⟩ := List.map_eq_singleton_iff.1 hw
  have hopening : opening.kind = .leftDelim := congrArg Word.kind ho
  have helse : elseWord.kind = .keyword .elseKw := congrArg Word.kind he
  have hspace : space.kind = .space := congrArg Word.kind hs
  have hword : word.kind = .keyword kind.keyword := congrArg Word.kind hk
  obtain ⟨hopens, hafter⟩ :=
    opens_cons (space :: word :: back) s.input.scope s.defines hopening
      (show elseWord.kind ≠ .space by rw [helse]; simp)
  rw [helse] at hopens
  have hskip : (Input.mk (space :: word :: back) s.input.scope).skipSpace =
      ⟨word :: back, s.input.scope⟩ := by
    rw [Input.skipSpace_of_space hspace, Input.skipSpace_of_ne (by rw [hword]; simp)]
  have hkind : kind.keyword = .ifKw ∨ kind.keyword = .withKw := by
    cases kind with
    | ifBranch => exact .inl rfl
    | withBranch => exact .inr rfl
    | rangeBranch => cases hchains
  have hread : (Passage.item depth _).Reads _ _ := .elseBranch hopens (by
    rw [hafter, Input.peekWord, hskip]
    exact hkind.imp (hword.trans <| congrArg _ ·) (hword.trans <| congrArg _ ·))
  rw [hafter, hskip] at hread
  exact ⟨_, word, hword, item_reads_of_skipSpace h hread⟩

/-- A branch is read after the words it opens with. -/
theorem opening_words {kind : BranchKind} {tokens : List Token}
    (hw : tokens.map Token.word = kind.opening) (rest : List Token) (scope : List String)
    (defines : List Definition) :
    (State.mk ⟨tokens ++ rest, scope⟩ defines).Opens (.keyword kind.keyword) ∧
      (State.mk ⟨tokens ++ rest, scope⟩ defines).afterWord = ⟨⟨rest, scope⟩, defines⟩ := by
  obtain ⟨opening, _, rfl, ho, hw⟩ := List.map_eq_cons_iff.1 hw
  obtain ⟨word, rfl, hk⟩ := List.map_eq_singleton_iff.1 hw
  have hopening : opening.kind = .leftDelim := congrArg Word.kind ho
  have hword : word.kind = .keyword kind.keyword := congrArg Word.kind hk
  rw [← hword]
  exact opens_cons rest scope defines hopening (by rw [hword]; simp)

/-- The opening of a branch begins with a left delimiter. -/
theorem peek_of_opening {kind : BranchKind} {opening rest : List Token} {scope : List String}
    (ho : opening.map Token.word = kind.opening) :
    (Input.mk (opening ++ rest) scope).peek.kind = .leftDelim := by
  obtain ⟨first, _, rfl, hfirst, -⟩ := List.map_eq_cons_iff.1 ho
  exact congrArg Word.kind hfirst

/-- A block with one branch in it is closed by the `end` right after the branch. -/
theorem items_of_branch {depth : Nat} {kind : BranchKind} {node : Node}
    {opening last rest inside : List Token} {scope : List String} {defines : List Definition}
    {s₁ : State} (ho : opening.map Token.word = kind.opening)
    (hb : (Passage.branch depth kind node).Reads ⟨⟨inside, scope⟩, defines⟩ s₁)
    (hl : last.map Token.word = keywordAction .endKw) (hs₁ : s₁.input.tokens = last ++ rest) :
    ∃ pos, (Passage.items depth [node] (.endAction pos)).Reads
      ⟨⟨opening ++ inside, scope⟩, defines⟩ ⟨⟨rest, s₁.input.scope⟩, s₁.defines⟩ := by
  obtain ⟨hopens, hafter⟩ := opening_words ho inside scope defines
  have hi : (Passage.item depth (.node node)).Reads ⟨⟨opening ++ inside, scope⟩, defines⟩ s₁ :=
    .branch hopens (hafter ▸ hb)
  obtain ⟨⟨tokens, scope₁⟩, defines₁⟩ := s₁
  obtain rfl : tokens = _ := hs₁
  obtain ⟨pos, hend⟩ : ∃ pos, (Passage.item depth (.ending (.endAction pos))).Reads _ _ :=
    end_words rest scope₁ defines₁ hl
  have hk := (keywordAction_opens rest scope₁ defines₁ hl).1.1
  exact ⟨pos, .more (by rw [hopens.1]; decide) hi hi.item_progress
    (.last (by rw [hk]; decide) hend)⟩

/-- A block that starts with a branch has the branch as its first node. -/
theorem branch_of_items {depth : Nat} {kind : BranchKind} {nodes : List Node} {ending : Ending}
    {opening inside : List Token} {scope : List String} {defines : List Definition} {t : State}
    (ho : opening.map Token.word = kind.opening)
    (h : (Passage.items depth nodes ending).Reads ⟨⟨opening ++ inside, scope⟩, defines⟩ t) :
    ∃ node nodes' s₁, nodes = node :: nodes' ∧
      (Passage.branch depth kind node).Reads ⟨⟨inside, scope⟩, defines⟩ s₁ ∧
      (Passage.items depth nodes' ending).Reads s₁ t := by
  obtain ⟨hopens, hafter⟩ := opening_words ho inside scope defines
  have hbranch {i : Item} {s₁ : State}
      (hi : (Passage.item depth i).Reads ⟨⟨opening ++ inside, scope⟩, defines⟩ s₁) :
      ∃ node, i = .node node ∧
        (Passage.branch depth kind node).Reads ⟨⟨inside, scope⟩, defines⟩ s₁ := by
    have haction (s : State) : actionItem depth s (.keyword kind.keyword) =
        (Template.branch depth kind s.afterWord).map Item.ofNode := by cases kind <;> rfl
    rw [item_reads_iff, item_of_opens hopens, haction, hafter] at hi
    obtain ⟨⟨node, s₂⟩, hb, hresult⟩ := eq_ok_of_map_eq_ok hi
    cases hresult
    exact ⟨node, rfl, branch_reads hb⟩
  cases h with
  | last hk hi =>
    obtain ⟨node, hnode, -⟩ := hbranch hi
    cases hnode
  | more hk hi hl hr =>
    obtain ⟨node, hnode, hb⟩ := hbranch hi
    cases hnode
    exact ⟨_, _, _, rfl, hb, hr⟩

/-- At an `end` there are no nodes left to read. -/
theorem items_of_end {depth : Nat} {nodes : List Node} {ending : Ending} {last rest : List Token}
    {s t : State} (hl : last.map Token.word = keywordAction .endKw)
    (hs : s.input.tokens = last ++ rest) (h : (Passage.items depth nodes ending).Reads s t) :
    nodes = [] ∧ t = ⟨⟨rest, s.input.scope⟩, s.defines⟩ := by
  obtain ⟨⟨tokens, scope⟩, defines⟩ := s
  obtain rfl : tokens = _ := hs
  obtain ⟨pos, hend⟩ : ∃ pos, (Passage.item depth (.ending (.endAction pos))).Reads _ _ :=
    end_words rest scope defines hl
  cases h with
  | last hk hi => exact ⟨rfl, (item_reads_unique hi hend).2⟩
  | more hk hi => cases (item_reads_unique hi hend).1

/-! ## Trees -/

/-- Tokens with the same words have the same head. -/
theorem SameWords.head_eq {tokens tokens' : List Token} (h : SameWords tokens tokens') :
    Head.ofTokens tokens = Head.ofTokens tokens' := by
  have hj : (Input.mk tokens []).Joined [] [] (heads tokens) ⟨tokens', []⟩ := ⟨rfl, h.joined⟩
  have hhead := (Input.mk tokens []).headOfTokens_eq
  have hhead' := (Input.mk tokens' []).headOfTokens_eq
  rw [← hj.kind_eq .nil] at hhead'
  rw [hhead, hhead']
  by_cases hk : (Input.mk tokens []).peekWord.kind = .leftDelim
  · rw [hk]
    rfl
  · rw [(hj.next .nil hk).kind_eq .nil]

/-- Heads do not depend on places. -/
theorem SameWords.heads_eq {tokens tokens' : List Token} (h : SameWords tokens tokens') :
    heads tokens = heads tokens' := by
  induction tokens generalizing tokens' with
  | nil =>
    obtain rfl : tokens' = [] := by simpa [SameWords] using h.symm
    rfl
  | cons t rest ih =>
    obtain ⟨t', rest', rfl, hw, hrest⟩ := List.map_eq_cons_iff.1 (Eq.symm h)
    have hrest : SameWords rest rest' := hrest.symm
    rw [heads, heads, Token.kind_of_word hw, hrest.head_eq, ih hrest]

/-- Readers that agree on what they accept, up to shape, give the same shapes. -/
theorem toOption_shape_eq {ε : Type} {x y : Except ε Tree}
    (h : ∀ tree, x = .ok tree → ∃ tree', y = .ok tree' ∧ tree'.shape = tree.shape)
    (h' : ∀ tree, y = .ok tree → ∃ tree', x = .ok tree' ∧ tree'.shape = tree.shape) :
    x.toOption.map Tree.shape = y.toOption.map Tree.shape := by
  cases x with
  | ok tree =>
    obtain ⟨tree', rfl, hshape⟩ := h tree rfl
    exact congrArg some hshape.symm
  | error e =>
    cases y with
    | error e' => rfl
    | ok tree =>
      obtain ⟨tree', hx, -⟩ := h' tree rfl
      cases hx

section Tails

variable {kind : BranchKind} {hasElse : Bool} {stack : List Frame}
  {clause clause' rest rest' back back' : List Token}

/-- A branch after an `else` is read in the same way in an alternative of its own. -/
theorem ChainedTail.copiesElse (stack : List Frame) (hchains : kind.chains = true)
    (hb : ChainedTail kind clause rest back) (hb' : NestedTail kind clause' rest' back')
    (hw : SameWords clause clause') (hrest : SameWords rest rest')
    (hclause : (heads clause).foldlM Head.within [.branch kind false] =
      some [.branch kind hasElse]) :
    (Splice.atElse kind stack back back').CopiesElse := by
  intro depth pos kind' _ outer other s s' t u hahead hat hi hother
  obtain rfl := Splice.atElse_kind hahead
  obtain @⟨opening, last, ho, hl⟩ := hb
  obtain @⟨alone, opening', last', last'', ha', ho', hl', hl''⟩ := hb'
  -- The `else` leaves the keyword of the branch, so a branch is read after it.
  obtain ⟨pos₁, word, hword, hread⟩ :=
    elseOpening_at (kind'.depth depth) hchains ho hat.tokens.1
  obtain ⟨-, rfl⟩ := item_reads_unique hi hread
  cases hother with
  | own hk ha => exact absurd ⟨hchains, hword⟩ hk
  | @chained nested _ _ hk hbranch =>
    obtain ⟨nested', v, hbranch', hnested, hv⟩ :=
      branch_of_clause ⟨⟨clause' ++ (last' ++ (last'' ++ rest')), s'.input.scope⟩, s'.defines⟩
        hbranch ⟨hat.scope, ⟨rfl, rfl⟩, hat.defines⟩ hw hclause hl hl'
    obtain ⟨pos', hitems⟩ := items_of_branch ho' hbranch' hl'' hv.tokens.2
    obtain ⟨pos₂, helse⟩ := else_at (kind'.depth depth) ha' hat.tokens.2
    refine ⟨pos₂, _, _, _, helse, .own ?_ hitems, ?_, ?_⟩
    · rw [peek_of_opening ho']
      simp
    · simp only [blockShape, nodesShape, hnested]
    · exact ⟨hv.scope, .inl (hv.tokens.1 ▸ hrest), hv.defines⟩

/-- A branch alone in the alternative of another is read in the same way right after the `else`. -/
theorem NestedTail.copiesElse (stack : List Frame) (hchains : kind.chains = true)
    (hb : NestedTail kind clause rest back) (hb' : ChainedTail kind clause' rest' back')
    (hw : SameWords clause clause') (hrest : SameWords rest rest')
    (hclause : (heads clause).foldlM Head.within [.branch kind false] =
      some [.branch kind hasElse]) :
    (Splice.atElse kind stack back back').CopiesElse := by
  intro depth pos kind' _ outer other s s' t u hahead hat hi hother
  obtain rfl := Splice.atElse_kind hahead
  obtain @⟨alone, opening, last, last', ha, ho, hl, hl'⟩ := hb
  obtain @⟨opening', last'', ho', hl''⟩ := hb'
  obtain ⟨pos₁, hread⟩ := else_at (kind'.depth depth) ha hat.tokens.1
  obtain ⟨-, rfl⟩ := item_reads_unique hi hread
  cases hother with
  | chained hk hbranch =>
    rw [peek_of_opening ho] at hk
    cases hk.2
  | @own others pos₂ _ _ hk hitems =>
    -- The alternative is a branch, and the next `end` closes the alternative.
    obtain ⟨nested, nodes, v, rfl, hbranch, hnodes⟩ := branch_of_items ho hitems
    obtain ⟨nested', v', hbranch', hnested, hv⟩ :=
      branch_of_clause ⟨⟨clause' ++ (last'' ++ rest'), s'.input.scope⟩, s'.defines⟩ hbranch
         ⟨hat.scope, ⟨rfl, rfl⟩, hat.defines⟩ hw hclause hl hl''
    obtain ⟨rfl, rfl⟩ := items_of_end hl' hv.tokens.1 hnodes
    obtain ⟨pos', word, hword, helse⟩ :=
      elseOpening_at (kind'.depth depth) hchains ho' hat.tokens.2
    refine ⟨pos', _, _, v', helse, .chained ⟨hchains, hword⟩ hbranch', ?_, hv.scope, .inl ?_,
      hv.defines⟩
    · simp only [blockShape, nodesShape, hnested]
    · show SameWords rest v'.input.tokens
      rw [hv.tokens.2]
      exact hrest

/-- A tree is read from tokens with a branch right after an `else` exactly if one is read from
tokens with the branch in an alternative of its own, and the shapes are the same. -/
theorem ofTokens_elseBranch (hchains : kind.chains = true) {front front' : List Token}
    (hfront : SameWords front front')
    (hopen : (heads front).foldlM Head.step [] = some (.branch kind false :: stack))
    (hb : ChainedTail kind clause rest back) (hb' : NestedTail kind clause' rest' back')
    (hw : SameWords clause clause') (hrest : SameWords rest rest')
    (hclause : (heads clause).foldlM Head.within [.branch kind false] =
      some [.branch kind hasElse]) :
    (Tree.ofTokens (front ++ back)).toOption.map Tree.shape =
      (Tree.ofTokens (front' ++ back')).toOption.map Tree.shape := by
  have hopen' := hopen
  rw [hfront.heads_eq] at hopen'
  have helse := hb.copiesElse stack hchains hb' hw hrest hclause
  rw [hw.heads_eq] at hclause
  have helse' := hb'.copiesElse stack hchains hb hw.symm hrest.symm hclause
  obtain @⟨opening, last, ho, hl⟩ := hb
  obtain @⟨alone, opening', last', last'', ha', ho', hl', hl''⟩ := hb'
  -- The splice can be turned round, so each list is read if the other is.
  have hsound := Splice.atElse_sound ho ha' helse
  have hsound' := Splice.atElse_sound ha' ho helse'
  refine toOption_shape_eq (fun tree h => ?_) fun tree h => ?_
  · exact hsound.ofTokens (.of_words hsound.seam hfront) ⟨[], rfl, hopen⟩ h
  · exact hsound'.ofTokens (.of_words hsound'.seam hfront.symm) ⟨[], rfl, hopen'⟩ h

end Tails

end FieldAudit.Template
