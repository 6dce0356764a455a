import FieldAudit.Proofs.Reading.Seam

/-! # Templates with a seam

Two templates that have the same words up to a seam are read in the same way up to there.  What is
read on one side is read on the other with the same shape, as long as this goes on to hold from the
seam on: `Splice.Sound` says what has to be shown about the actions at the seam and about the
tokens behind them.  The open actions are followed by the heads before the seam, so that a splice
can say which action is open at the seam. -/

namespace FieldAudit.Template

/-! ## Names and definitions up to places -/

/-- The name of a template is told by the word. -/
theorem templateName_of_word {context : Context} {t t' : Token} {name : String}
    (hw : t.word = t'.word) (h : templateName context t = .ok name) :
    templateName context t' = .ok name := by
  have hkind := templateName_kind h
  rw [templateName, if_pos hkind] at h
  rw [templateName, if_pos (by rwa [← Token.kind_of_word hw])]
  split at h
  next => cases h
  next text htext =>
    have htext' : unquoteToken t' = .ok text := by
      rw [unquoteToken_eq_ok_iff] at htext ⊢
      rwa [← Token.lexeme_of_word hw]
    rw [htext']
    exact h

/-- Joined inputs read the same name, and stay joined. -/
theorem Input.Joined.name {back back' : List Token} {hs : List Head} {s s' : Input}
    (hseam : Seam back back') (h : s.Joined back back' hs s') {context : Context} {name : String}
    (hn : templateName context s.peekWord = .ok name) :
    templateName context s'.peekWord = .ok name ∧ s.next.Joined back back' hs s'.next :=
  ⟨templateName_of_word (h.peekWord_word hseam) hn, h.next hseam (ne_of_templateName hn rfl)⟩

/-- A shape is blank exactly if its block is. -/
theorem isBlank_shape (b : Block Node) : (blockShape b).isBlank = b.isBlank := by
  obtain ⟨pos, nodes⟩ := b
  rw [blockShape]
  induction nodes with
  | nil => rfl
  | cons node rest ih =>
    simp only [Block.isBlank] at ih ⊢
    rw [nodesShape, List.all_cons, List.all_cons, ih]
    cases node <;> rw [Node.shape]

/-- What a definition does to the defined templates depends on shapes alone. -/
theorem define_of_shape {pos pos' : Nat} {name : String} {root root' : Block Node}
    {defines defines' added : List Definition} (hroot : blockShape root' = blockShape root)
    (hd : defines.map Definition.shape = defines'.map Definition.shape)
    (h : define pos name root defines = .ok added) :
    ∃ added', define pos' name root' defines' = .ok added' ∧
      added.map Definition.shape = added'.map Definition.shape := by
  -- Names and blankness show in the shapes, so `define` takes the same way through both tables.
  have hblank : root'.isBlank = root.isBlank := by
    rw [← isBlank_shape, hroot, isBlank_shape]
  induction defines generalizing defines' added with
  | nil =>
    cases h
    obtain rfl : defines' = [] := by simpa using hd.symm
    exact ⟨_, rfl, by simp [Definition.shape, hroot]⟩
  | cons d rest ih =>
    obtain ⟨d', rest', rfl, hfirst, hrest⟩ := List.map_eq_cons_iff.1 hd.symm
    obtain ⟨hname, hshape⟩ : d'.name = d.name ∧ blockShape d'.root = blockShape d.root :=
      Definition.mk.inj hfirst
    have hblank' : d'.root.isBlank = d.root.isBlank := by
      rw [← isBlank_shape, hshape, isBlank_shape]
    rw [define] at h ⊢
    rw [hname, hblank', hblank]
    split at h
    next hn =>
      rw [if_pos hn]
      split at h
      next hb =>
        cases h
        rw [if_pos hb]
        exact ⟨_, rfl, by simp [Definition.shape, hroot, hrest]⟩
      next hb =>
        rw [if_neg hb]
        split at h
        next hr =>
          cases h
          rw [if_pos hr]
          exact ⟨_, rfl, by simp [hfirst, hrest]⟩
        next => cases h
    next hn =>
      rw [if_neg hn]
      split at h
      next => cases h
      next others hothers =>
        cases h
        obtain ⟨others', hothers', hshapes⟩ := ih hrest.symm hothers
        rw [hothers']
        exact ⟨_, rfl, by simp [hfirst, hshapes]⟩

/-! ## Alternatives of a branch -/

/-- What is read of a branch after the `else` at the given place: another branch of its kind, which
shares its `end`, or an alternative of its own. -/
inductive AlternativeReads (depth : Nat) (kind : BranchKind) (pos : Nat) :
    Block Node → State → State → Prop
  | chained {nested : Node} {s s₁ : State}
      (hk : kind.chains = true ∧ s.input.peek.kind = .keyword kind.keyword)
      (hb : (Passage.branch depth kind nested).Reads (s.read s.input.tail) s₁) :
      AlternativeReads depth kind pos ⟨pos, [nested]⟩ s s₁
  | own {others : List Node} {pos' : Nat} {s s₁ : State}
      (hk : ¬(kind.chains = true ∧ s.input.peek.kind = .keyword kind.keyword))
      (ha : (Passage.items depth others (.endAction pos')).Reads s s₁) :
      AlternativeReads depth kind pos ⟨s.input.peekWord.pos, others⟩ s s₁

/-- A branch with an alternative is its pipe, its block and the alternative. -/
theorem AlternativeReads.branch {depth pos : Nat} {kind : BranchKind} {pipe : Pipe Node}
    {nodes : List Node} {other : Block Node} {s s₁ s₂ : State} {input : Input}
    (ha : AlternativeReads depth kind pos other s₁ s₂)
    (hp : (Phrase.pipe (.control kind.keyword) .rightDelim pipe).Reads s.input input)
    (hi : (Passage.items (kind.depth depth) nodes (.elseAction pos)).Reads (s.read input) s₁) :
    (Passage.branch depth kind (.branch kind pipe.pos pipe ⟨input.peekWord.pos, nodes⟩
      (some other))).Reads s (s₂.withScope s.input.scope) := by
  have hlt : s₁.size < s.size := Nat.lt_of_lt_of_le hi.items_progress hp.size_le
  cases ha with
  | chained hk hb => exact .chained hp hi hlt hk hb
  | own hk ha => exact .double hp hi hlt hk ha

/-! ## Where a definition stands -/

/-- No item of a block starts with the word `define`. -/
theorem Passage.Reads.not_opens_define {depth : Nat} {i : Item} {s t : State}
    (h : (Passage.item depth i).Reads s t) : ¬s.Opens (.keyword .defineKw) := by
  intro hdefine
  have other {k : Keyword} (ho : s.Opens (.keyword k)) : k = .defineKw :=
    Token.Kind.keyword.inj (ho.2.symm.trans hdefine.2)
  cases h with
  | text hk => cases hk.symm.trans hdefine.1
  | @branch _ kind _ _ _ ho => cases kind <;> cases other ho
  | block ho | endAction ho | elseAction ho | elseBranch ho | breakAction ho | continueAction ho
  | bareCall ho | call ho => cases other ho
  | action ho hw hp =>
    have hword := hp.pipe_word
    rw [show s.input.next.peekWord.kind = _ from hdefine.2] at hword
    rcases hword with hword | hword <;> cases hword

/-! ## Copies -/

/-- The open actions after a head, wherever it stands. -/
def Head.onward (stack : List Frame) : Head → List Frame
  | .branch kind => .branch kind false :: stack
  | .block | .define => .template :: stack
  | .elseBranch _ | .other => stack
  | .elseAlone =>
    match stack with
    | .branch top _ :: rest => .branch top true :: rest
    | _ => stack
  | .endAction => stack.tail

/-- Two states have the same variables in scope, templates of the same shapes and related tokens. -/
structure State.Like (R : List Token → List Token → Prop) (s s' : State) : Prop where
  scope : s.input.scope = s'.input.scope
  tokens : R s.input.tokens s'.input.tokens
  defines : s.defines.map Definition.shape = s'.defines.map Definition.shape

/-- States that are alike stay so in another scope. -/
theorem State.Like.withScope {R : List Token → List Token → Prop} {s s' : State}
    (h : s.Like R s') (scope : List String) : (s.withScope scope).Like R (s'.withScope scope) :=
  ⟨rfl, h.tokens, h.defines⟩

/-- Two blocks are closed by actions with the same keyword.  The tokens after them are related as
is due for the actions that are open then. -/
def Ending.IsCopied (R : List Frame → List Token → List Token → Prop) (stack : List Frame)
    (t t' : State) : Ending → Ending → Prop
  | .endAction _, .endAction _ => t.Like (R stack.tail) t'
  | .elseAction _, .elseAction _ =>
    t.Like (R (Head.elseAlone.onward stack)) t' ∨ t.Like (R stack) t'
  | _, _ => False

/-- A passage of the same shape is read on the other side, and the tokens after it are related as
is due for the open actions. -/
def Passage.IsCopied (R : List Frame → List Token → List Token → Prop) (stack : List Frame)
    (s' t : State) : Passage → Prop
  | .items depth nodes ending =>
    ∃ nodes' ending' t', (Passage.items depth nodes' ending').Reads s' t' ∧
      nodesShape nodes' = nodesShape nodes ∧ ending.IsCopied R stack t t' ending'
  | .item depth (.ending ending) =>
    ∃ ending' t', (Passage.item depth (.ending ending')).Reads s' t' ∧
      ending.IsCopied R stack t t' ending'
  | .item depth (.node node) =>
    ∃ node' t', (Passage.item depth (.node node')).Reads s' t' ∧ node'.shape = node.shape ∧
      t.Like (R stack) t'
  | .branch depth kind node =>
    ∃ node' t', (Passage.branch depth kind node').Reads s' t' ∧ node'.shape = node.shape ∧
      t.Like (R stack) t'
  | .block depth node =>
    ∃ node' t', (Passage.block depth node').Reads s' t' ∧ node'.shape = node.shape ∧
      t.Like (R stack) t'
  | .body depth root =>
    ∃ root' t', (Passage.body depth root').Reads s' t' ∧ blockShape root' = blockShape root ∧
      t.Like (R stack) t'
  | .definition => ∃ t', Passage.definition.Reads s' t' ∧ t.Like (R stack) t'
  | .document nodes =>
    ∃ nodes' t', (Passage.document nodes').Reads s' t' ∧ nodesShape nodes' = nodesShape nodes ∧
      t.defines.map Definition.shape = t'.defines.map Definition.shape

/-- The open actions where a passage starts, given those that are open around it.  A block is
always read inside some action, or in the template as a whole. -/
def Passage.Opened (stack : List Frame) : Passage → List Frame → Prop
  | .items .., open' | .item .., open' | .document _, open' => open' = stack ∧ stack ≠ []
  | .branch _ kind _, open' => ∃ hasElse, open' = .branch kind hasElse :: stack
  | .block .., open' | .body .., open' | .definition, open' => open' = .template :: stack

/-! ## Splices -/

/-- Two ways to go on from a seam. -/
structure Splice where
  back : List Token
  back' : List Token
  /-- Whether the seam can be ahead, with heads before it and actions that are open now. -/
  Ahead : List Head → List Frame → Prop
  /-- How tokens behind the seam are related, with actions that are open now. -/
  Behind : List Frame → List Token → List Token → Prop

namespace Splice

variable (p : Splice)

/-- The tokens are joined, and the seam is ahead. -/
def Before (stack : List Frame) (tokens tokens' : List Token) : Prop :=
  ∃ hs, Joined p.back p.back' hs tokens tokens' ∧ p.Ahead hs stack

/-- The seam is behind or ahead. -/
def Rest (stack : List Frame) (tokens tokens' : List Token) : Prop :=
  p.Behind stack tokens tokens' ∨ p.Before stack tokens tokens'

/-- Only spaces stand before the seam. -/
def AtSeam (tokens tokens' : List Token) : Prop :=
  tokens.dropWhile (·.kind = .space) = p.back ∧ tokens'.dropWhile (·.kind = .space) = p.back'

/-- After an `else` at the seam, alternatives of the same shape are read. -/
def CopiesElse : Prop :=
  ∀ ⦃depth pos : Nat⦄ ⦃kind : BranchKind⦄ ⦃hasElse : Bool⦄ ⦃stack : List Frame⦄
    ⦃other : Block Node⦄ ⦃s s' t u : State⦄,
    p.Ahead [] (.branch kind hasElse :: stack) → s.Like p.AtSeam s' →
    (Passage.item (kind.depth depth) (.ending (.elseAction pos))).Reads s t →
    AlternativeReads depth kind pos other t u →
    ∃ pos' other' t' u',
      (Passage.item (kind.depth depth) (.ending (.elseAction pos'))).Reads s' t' ∧
      AlternativeReads depth kind pos' other' t' u' ∧ blockShape other' = blockShape other ∧
      u.Like (p.Rest stack) u'

/-- What has to hold at the seam, and behind it, for templates to be read alike. -/
structure Sound : Prop where
  seam : Seam p.back p.back'
  onward : ∀ {head : Head} {hs : List Head} {stack : List Frame},
    p.Ahead (head :: hs) stack → p.Ahead hs (head.onward stack)
  /-- The action at the seam closes a block. -/
  closes : ∀ {s : State} {kind : Token.Kind}, s.input.skipSpace.tokens = p.back → s.Opens kind →
    kind = .keyword .endKw ∨ kind = .keyword .elseKw
  /-- An `end` at the seam is one on the other side as well. -/
  endAction : ∀ {depth pos : Nat} {frame : Frame} {stack : List Frame} {s s' t : State},
    p.Ahead [] (frame :: stack) → s.Like p.AtSeam s' →
    (Passage.item depth (.ending (.endAction pos))).Reads s t →
    ∃ pos' t', (Passage.item depth (.ending (.endAction pos'))).Reads s' t' ∧
      t.Like (p.Rest stack) t'
  elseAction : p.CopiesElse
  behind_tail : ∀ {frame : Frame} {stack : List Frame} {tokens tokens' : List Token},
    p.Behind (frame :: stack) tokens tokens' →
    tokens.head?.map Token.word = tokens'.head?.map Token.word ∧
      p.Behind (frame :: stack) tokens.tail tokens'.tail
  /-- Behind the seam, templates are read alike. -/
  behind : ∀ {passage : Passage} {stack open' : List Frame} {s s' t : State},
    passage.Reads s t → passage.Opened stack open' → s.Like (p.Behind open') s' →
    passage.IsCopied p.Rest stack s' t

variable {p : Splice}

/-- At the seam a block is closed by an `else`.  Up to there the block is read on the other side,
and is closed there by whatever closes a block at the seam. -/
def Stops (p : Splice) (stack : List Frame) (s s' t : State) : Passage → Prop
  | .items depth nodes (.elseAction pos) =>
    ∃ nodes' r r', nodesShape nodes' = nodesShape nodes ∧ r.Like p.AtSeam r' ∧ p.Ahead [] stack ∧
      (Passage.item depth (.ending (.elseAction pos))).Reads r t ∧
      ∀ ending t', (Passage.item depth (.ending ending)).Reads r' t' →
        (Passage.items depth nodes' ending).Reads s' t'
  | .item _ (.ending (.elseAction _)) => s.Like p.AtSeam s' ∧ p.Ahead [] stack
  | _ => False

section Steps

variable {hs : List Head} {stack : List Frame} {s s' : State} {input input' : Input}

/-- States before the seam have joined inputs. -/
theorem joined_of_before (h : s.Like (p.Before stack) s') :
    ∃ hs, s.input.Joined p.back p.back' hs s'.input ∧ p.Ahead hs stack := by
  obtain ⟨hs, hj, ha⟩ := h.tokens
  exact ⟨hs, ⟨h.scope, hj⟩, ha⟩

/-- Joined inputs ahead of the seam make states that are before it. -/
theorem Before.like (hj : input.Joined p.back p.back' hs input') (ha : p.Ahead hs stack)
    (hd : s.defines.map Definition.shape = s'.defines.map Definition.shape) :
    (s.read input).Like (p.Before stack) (s'.read input') :=
  ⟨hj.scope, ⟨hs, hj.tokens, ha⟩, hd⟩

/-- Joined inputs ahead of the seam make states with the rest to come. -/
theorem Rest.like (hj : input.Joined p.back p.back' hs input') (ha : p.Ahead hs stack)
    (hd : s.defines.map Definition.shape = s'.defines.map Definition.shape) :
    (s.read input).Like (p.Rest stack) (s'.read input') :=
  ⟨hj.scope, .inr ⟨hs, hj.tokens, ha⟩, hd⟩

/-- An action starts at the seam, or it starts on both sides and its head is read. -/
theorem Sound.opens (hp : p.Sound) (h : s.Like (p.Before stack) s') {kind : Token.Kind}
    (ho : s.Opens kind) :
    (s.Like p.AtSeam s' ∧ p.Ahead [] stack) ∨
      (s'.Opens kind ∧ ∃ hs,
        p.Ahead hs ((Head.ofKinds kind s.afterWord.input.peekWord.kind).onward stack) ∧
        s.input.next.Joined p.back p.back' hs s'.input.next) := by
  obtain ⟨hs, hinput, ha⟩ := joined_of_before h
  rcases hinput.opening hp.seam ho.1 with ⟨rfl, hback, hback'⟩ | ⟨hs', rfl, hnext⟩
  · exact .inl ⟨⟨h.scope, ⟨hback, hback'⟩, h.defines⟩, ha⟩
  · refine .inr ⟨⟨?_, ?_⟩, hs', ?_, hnext⟩
    · rw [← hinput.kind_eq hp.seam, ho.1]
    · rw [State.word, ← hnext.kind_eq hp.seam]
      exact ho.2
    · rw [show s.input.next.peekWord.kind = kind from ho.2] at ha
      exact hp.onward ha

/-- A keyword is read at the seam, or on both sides in front of it, which takes a step towards the
seam. -/
theorem Sound.opens_keyword (hp : p.Sound) (h : s.Like (p.Before stack) s') {k : Keyword}
    (ho : s.Opens (.keyword k)) :
    (s.Like p.AtSeam s' ∧ p.Ahead [] stack) ∨
      (s'.Opens (.keyword k) ∧ ∃ hs,
        p.Ahead hs ((Head.ofKinds (.keyword k) s.afterWord.input.peekWord.kind).onward stack) ∧
        s.afterWord.input.Joined p.back p.back' hs s'.afterWord.input) := by
  refine (hp.opens h ho).imp_right fun ⟨ho', hs, ha, hj⟩ => ⟨ho', hs, ha, hj.next hp.seam ?_⟩
  rw [show s.input.next.peekWord.kind = _ from ho.2]
  simp

/-- An action that closes no block is not at the seam. -/
theorem Sound.opens_inside (hp : p.Sound) (h : s.Like (p.Before stack) s') {k : Keyword}
    (ho : s.Opens (.keyword k)) (hend : k ≠ .endKw) (helse : k ≠ .elseKw) :
    s'.Opens (.keyword k) ∧ ∃ hs,
      p.Ahead hs ((Head.ofKinds (.keyword k) s.afterWord.input.peekWord.kind).onward stack) ∧
      s.afterWord.input.Joined p.back p.back' hs s'.afterWord.input := by
  rcases hp.opens_keyword h ho with ⟨hat, -⟩ | hinside
  · have hk := hp.closes hat.tokens.1 ho
    simp_all
  · exact hinside

/-- What holds of a passage before the seam holds of it anywhere. -/
theorem Sound.rest (hp : p.Sound) {passage : Passage} {open' : List Frame} {t : State}
    (hr : passage.Reads s t) (hopened : passage.Opened stack open')
    (h : s.Like (p.Rest open') s')
    (hbefore : s.Like (p.Before open') s' →
      passage.IsCopied p.Rest stack s' t ∨ p.Stops stack s s' t passage) :
    passage.IsCopied p.Rest stack s' t ∨ p.Stops stack s s' t passage := by
  rcases h.tokens with hbehind | hahead
  · exact .inl (hp.behind hr hopened ⟨h.scope, hbehind, h.defines⟩)
  · exact hbefore ⟨h.scope, hahead, h.defines⟩

end Steps

/-- A passage before the seam is read on the other side, unless it stops at the seam. -/
def Copies (p : Splice) (passage : Passage) (s t : State) : Prop :=
  ∀ ⦃stack open' : List Frame⦄ ⦃s' : State⦄, passage.Opened stack open' →
    s.Like (p.Before open') s' →
    passage.IsCopied p.Rest stack s' t ∨ p.Stops stack s s' t passage

/-! ### Blocks -/

/-- Items that end at once are copied if their end is. -/
theorem Sound.copies_last (hp : p.Sound) {depth : Nat} {ending : Ending} {s t : State}
    (hk : s.input.peekWord.kind ≠ .eof)
    (hi : (Passage.item depth (.ending ending)).Reads s t)
    (ih : p.Copies (.item depth (.ending ending)) s t) :
    p.Copies (.items depth [] ending) s t := by
  intro stack open' s' hopened h
  obtain ⟨hs, hj, -⟩ := joined_of_before h
  have hk' : s'.input.peekWord.kind ≠ .eof := by rwa [← hj.kind_eq hp.seam]
  rcases ih hopened h with ⟨ending', t', hi', hending⟩ | hstops
  · exact .inl ⟨[], ending', t', .last hk' hi', rfl, hending⟩
  · cases ending with
    | endAction pos => exact hstops.elim
    | elseAction pos =>
      exact .inr ⟨[], s, s', rfl, hstops.1, hstops.2, hi, fun ending' t' hi' => .last hk' hi'⟩

/-- Items are copied if the first and the others are. -/
theorem Sound.copies_more (hp : p.Sound) {depth : Nat} {node : Node} {nodes : List Node}
    {ending : Ending} {s s₁ t : State} (hk : s.input.peekWord.kind ≠ .eof)
    (hr : (Passage.items depth nodes ending).Reads s₁ t)
    (ihi : p.Copies (.item depth (.node node)) s s₁)
    (ihr : p.Copies (.items depth nodes ending) s₁ t) :
    p.Copies (.items depth (node :: nodes) ending) s t := by
  intro stack open' s' hopened h
  obtain ⟨hs, hj, -⟩ := joined_of_before h
  have hk' : s'.input.peekWord.kind ≠ .eof := by rwa [← hj.kind_eq hp.seam]
  obtain ⟨node', s₁', hi', hnode, h₁⟩ := (ihi hopened h).resolve_right id
  obtain ⟨rfl, hne⟩ := hopened
  rcases hp.rest hr ⟨rfl, hne⟩ h₁ (ihr ⟨rfl, hne⟩) with
    ⟨nodes', ending', t', hr', hnodes, hending⟩ | hstops
  · refine .inl ⟨node' :: nodes', ending', t', .more hk' hi' hi'.item_progress hr', ?_, hending⟩
    rw [nodesShape, nodesShape, hnode, hnodes]
  · cases ending with
    | endAction pos => exact hstops.elim
    | elseAction pos =>
      -- The rest stops at an `else` at the seam, whatever is then read there on the other side.
      obtain ⟨nodes', r, r', hnodes, hat, ha, hi, hclose⟩ := hstops
      refine .inr ⟨node' :: nodes', r, r', ?_, hat, ha, hi, fun ending' t' hi'' => ?_⟩
      · rw [nodesShape, nodesShape, hnode, hnodes]
      · exact .more hk' hi' hi'.item_progress (hclose ending' t' hi'')

/-! ### Branches -/

/-- Where a branch is open, the next word is the same on both sides. -/
theorem Sound.rest_tail (hp : p.Sound) {frame : Frame} {stack : List Frame} {s s' : State}
    (h : s.Like (p.Rest (frame :: stack)) s') :
    s.input.peek.kind = s'.input.peek.kind ∧ (s.input.peek.kind ≠ .leftDelim →
      (s.read s.input.tail).Like (p.Rest (frame :: stack)) (s'.read s'.input.tail)) := by
  rcases h.tokens with hbehind | ⟨hs, hj, ha⟩
  · obtain ⟨hhead, htail⟩ := hp.behind_tail hbehind
    exact ⟨Token.kind_of_word (Input.peek_word_of_head hhead),
      fun _ => ⟨h.scope, .inl htail, h.defines⟩⟩
  · have hinput : s.input.Joined p.back p.back' hs s'.input := ⟨h.scope, hj⟩
    exact ⟨Token.kind_of_word (hinput.peek_word hp.seam),
      fun hk => Rest.like (hinput.tail hp.seam hk) ha h.defines⟩

/-- The alternative after an `else` is read on the other side. -/
def CopiesAlternative (p : Splice) (depth : Nat) (kind : BranchKind) (other : Block Node)
    (s t : State) : Prop :=
  ∀ ⦃hasElse : Bool⦄ ⦃stack : List Frame⦄ ⦃s' : State⦄,
    s.Like (p.Rest (.branch kind hasElse :: stack)) s' →
    ∀ pos', ∃ other' t', AlternativeReads depth kind pos' other' s' t' ∧
      blockShape other' = blockShape other ∧ t.Like (p.Rest stack) t'

/-- A chained branch is copied as an alternative. -/
theorem Sound.copies_chained (hp : p.Sound) {depth pos : Nat} {kind : BranchKind} {nested : Node}
    {s t : State} (hk : kind.chains = true ∧ s.input.peek.kind = .keyword kind.keyword)
    (hb : (Passage.branch depth kind nested).Reads (s.read s.input.tail) t)
    (ih : p.Copies (.branch depth kind nested) (s.read s.input.tail) t) :
    p.CopiesAlternative depth kind ⟨pos, [nested]⟩ s t := by
  intro hasElse stack s' h pos'
  obtain ⟨hkind, htail⟩ := hp.rest_tail h
  have hopened : (Passage.branch depth kind nested).Opened stack (.branch kind hasElse :: stack) :=
    ⟨hasElse, rfl⟩
  obtain ⟨nested', t', hb', hnested, ht⟩ :=
    (hp.rest hb hopened (htail (by rw [hk.2]; simp)) (ih hopened)).resolve_right id
  refine ⟨⟨pos', [nested']⟩, t', .chained ⟨hk.1, hkind ▸ hk.2⟩ hb', ?_, ht⟩
  simp only [blockShape, nodesShape, hnested]

/-- An alternative with items of its own is copied if they are. -/
theorem Sound.copies_own (hp : p.Sound) {depth pos pos' : Nat} {kind : BranchKind}
    {others : List Node} {s t : State}
    (hk : ¬(kind.chains = true ∧ s.input.peek.kind = .keyword kind.keyword))
    (ha : (Passage.items depth others (.endAction pos')).Reads s t)
    (ih : p.Copies (.items depth others (.endAction pos')) s t) :
    p.CopiesAlternative depth kind ⟨pos, others⟩ s t := by
  intro hasElse stack s' h _
  have hopened : (Passage.items depth others (.endAction pos')).Opened
      (.branch kind hasElse :: stack) (.branch kind hasElse :: stack) := ⟨rfl, by simp⟩
  obtain ⟨others', ending', t', ha', hothers, hending⟩ :=
    (hp.rest ha hopened h (ih hopened)).resolve_right id
  cases ending' with
  | elseAction pos'' => exact hending.elim
  | endAction pos'' =>
    refine ⟨_, t', .own (by rwa [← (hp.rest_tail h).1]) ha', ?_, hending⟩
    simp only [blockShape, hothers]

/-- A branch without an alternative. -/
theorem Sound.copies_single (hp : p.Sound) {depth pos : Nat} {kind : BranchKind}
    {pipe : Pipe Node} {nodes : List Node} {s s₁ : State} {input : Input}
    (hpipe : (Phrase.pipe (.control kind.keyword) .rightDelim pipe).Reads s.input input)
    (ih : p.Copies (.items (kind.depth depth) nodes (.endAction pos)) (s.read input) s₁) :
    p.Copies (.branch depth kind (.branch kind pipe.pos pipe ⟨input.peekWord.pos, nodes⟩ none)) s
      (s₁.withScope s.input.scope) := by
  rintro stack _ s' ⟨hasElse, rfl⟩ h
  obtain ⟨hs, hj, ha⟩ := joined_of_before h
  obtain ⟨pipe', input', hpipe', hshape, hj'⟩ :=
    hpipe.joined hp.seam (by simp [Phrase.closeKind]) hj
  obtain ⟨nodes', ending', t', hi', hnodes, hending⟩ :=
    (ih ⟨rfl, by simp⟩ (Before.like hj' ha h.defines)).resolve_right id
  cases ending' with
  | elseAction pos' => exact hending.elim
  | endAction pos' =>
    refine .inl ⟨_, _, .single hpipe' hi', ?_, ?_⟩
    · simp only [Node.shape, blockShape, block?Shape, hshape, hnodes]
    · rw [← h.scope]
      exact State.Like.withScope hending _

/-- A branch with an alternative is read on the other side, also where its alternative starts at
the seam. -/
theorem Sound.copies_branch (hp : p.Sound) {depth pos : Nat} {kind : BranchKind}
    {pipe : Pipe Node} {nodes : List Node} {other : Block Node} {s s₁ s₂ : State} {input : Input}
    (hpipe : (Phrase.pipe (.control kind.keyword) .rightDelim pipe).Reads s.input input)
    (ih : p.Copies (.items (kind.depth depth) nodes (.elseAction pos)) (s.read input) s₁)
    (hother : AlternativeReads depth kind pos other s₁ s₂)
    (ihother : p.CopiesAlternative depth kind other s₁ s₂) :
    p.Copies (.branch depth kind (.branch kind pipe.pos pipe ⟨input.peekWord.pos, nodes⟩
      (some other))) s (s₂.withScope s.input.scope) := by
  rintro stack _ s' ⟨hasElse, rfl⟩ h
  obtain ⟨hs, hj, ha⟩ := joined_of_before h
  obtain ⟨pipe', input', hpipe', hshape, hj'⟩ :=
    hpipe.joined hp.seam (by simp [Phrase.closeKind]) hj
  -- It is enough to read the block and an alternative of the same shape on the other side.
  suffices ∃ nodes' pos' other' t₁ t₂, nodesShape nodes' = nodesShape nodes ∧
      (Passage.items (kind.depth depth) nodes' (.elseAction pos')).Reads (s'.read input') t₁ ∧
      AlternativeReads depth kind pos' other' t₁ t₂ ∧ blockShape other' = blockShape other ∧
      s₂.Like (p.Rest stack) t₂ by
    obtain ⟨nodes', pos', other', t₁, t₂, hnodes, hi', hother', hshape', ht⟩ := this
    refine .inl ⟨_, _, hother'.branch hpipe' hi', ?_, ?_⟩
    · rw [Node.shape, Node.shape, blockShape, blockShape, block?Shape, block?Shape, hshape, hnodes,
        hshape']
    · rw [← h.scope]
      exact State.Like.withScope ht _
  rcases ih ⟨rfl, by simp⟩ (Before.like hj' ha h.defines) with
    ⟨nodes', ending', t₁, hi', hnodes, hending⟩ | ⟨nodes', r, r', hnodes, hat, ha, hi, hclose⟩
  · cases ending' with
    | endAction pos' => exact hending.elim
    | elseAction pos' =>
      -- Whichever `else` it is, the branch is still open.
      obtain ⟨hasElse', ht₁⟩ :
          ∃ hasElse', s₁.Like (p.Rest (.branch kind hasElse' :: stack)) t₁ :=
        hending.elim (fun ht => ⟨true, ht⟩) fun ht => ⟨hasElse, ht⟩
      obtain ⟨other', t₂, hother', hshape', ht₂⟩ := ihother ht₁ pos'
      exact ⟨nodes', pos', other', t₁, t₂, hnodes, hi', hother', hshape', ht₂⟩
  · obtain ⟨pos', other', t₁, t₂, hi', hother', hshape', ht⟩ := hp.elseAction ha hat hi hother
    exact ⟨nodes', pos', other', t₁, t₂, hnodes, hclose _ _ hi', hother', hshape', ht⟩

/-! ### Actions -/

/-- An `end` is copied. -/
theorem Sound.copies_endAction (hp : p.Sound) {depth : Nat} {s : State}
    (ho : s.Opens (.keyword .endKw)) (hr : s.afterWord.input.peekWord.kind = .rightDelim) :
    p.Copies (.item depth (.ending (.endAction s.afterWord.input.peekWord.pos))) s
      (s.read s.afterWord.input.next) := by
  rintro _ stack s' ⟨rfl, hne⟩ h
  rcases hp.opens_keyword h ho with ⟨hat, ha⟩ | ⟨ho', hs, ha, hj⟩
  · obtain ⟨frame, stack, rfl⟩ := List.exists_cons_of_ne_nil hne
    have hi : (Passage.item depth _).Reads s _ := .endAction ho hr
    obtain ⟨pos', t', hi', ht⟩ := hp.endAction ha hat hi
    exact .inl ⟨.endAction pos', t', hi', ht⟩
  · obtain ⟨hr', hnext⟩ := hj.step hp.seam hr (by decide)
    exact .inl ⟨_, _, .endAction ho' hr', Rest.like hnext ha h.defines⟩

/-- An `else` with a branch keyword is copied. -/
theorem Sound.copies_elseBranch (hp : p.Sound) {depth : Nat} {s : State}
    (ho : s.Opens (.keyword .elseKw))
    (hb : s.afterWord.input.peekWord.kind = .keyword .ifKw ∨
      s.afterWord.input.peekWord.kind = .keyword .withKw) :
    p.Copies (.item depth (.ending (.elseAction s.afterWord.input.peekWord.pos))) s
      (s.read s.afterWord.input.skipSpace) := by
  rintro _ stack s' ⟨rfl, -⟩ h
  rcases hp.opens_keyword h ho with hat | ⟨ho', hs, ha, hj⟩
  · exact .inr hat
  · -- The branch has no `else` of its own yet, so the open actions stay as they are.
    have hstack : (Head.ofKinds (.keyword .elseKw) s.afterWord.input.peekWord.kind).onward stack
        = stack := by rcases hb with hb | hb <;> rw [hb] <;> rfl
    rw [hstack] at ha
    rw [hj.kind_eq hp.seam] at hb
    exact .inl ⟨_, _, .elseBranch ho' hb, .inr (Rest.like (hj.skipSpace hp.seam) ha h.defines)⟩

/-- A call with an argument is copied. -/
theorem Sound.copies_call (hp : p.Sound) {depth : Nat} {name : String} {pipe : Pipe Node}
    {s : State} {input : Input} (ho : s.Opens (.keyword .templateKw))
    (hn : templateName .template s.afterWord.input.peekWord = .ok name)
    (hr : s.afterWord.input.next.peekWord.kind ≠ .rightDelim)
    (hpipe : (Phrase.pipe .template .rightDelim pipe).Reads s.afterWord.input.next input) :
    p.Copies (.item depth (.node (.template s.afterWord.input.peekWord.pos name (some pipe)))) s
      (s.read input) := by
  rintro _ stack s' ⟨rfl, -⟩ h
  obtain ⟨ho', hs, ha, hj⟩ := hp.opens_inside h ho (by decide) (by decide)
  obtain ⟨hn', hname⟩ := hj.name hp.seam hn
  obtain ⟨pipe', input', hpipe', hshape, hnext⟩ :=
    hpipe.joined hp.seam (by simp [Phrase.closeKind]) hname
  rw [hname.kind_eq hp.seam] at hr
  refine .inl ⟨_, _, .call ho' hn' hr hpipe', ?_, Rest.like hnext ha h.defines⟩
  simp only [Node.shape, pipe?Shape, hshape]

/-- An action is copied. -/
theorem Sound.copies_action (hp : p.Sound) {depth : Nat} {pipe : Pipe Node} {s : State}
    {input : Input} {kind : Token.Kind} (ho : s.Opens kind) (hw : kind.opensPipe = true)
    (hpipe : (Phrase.pipe .command .rightDelim pipe).Reads s.input.next input) :
    p.Copies (.item depth (.node (.action s.word.pos pipe))) s (s.read input) := by
  rintro _ stack s' ⟨rfl, -⟩ h
  rcases hp.opens h ho with ⟨hat, -⟩ | ⟨ho', hs, ha, hj⟩
  · rcases hp.closes hat.tokens.1 ho with rfl | rfl <;> cases hw
  · obtain ⟨pipe', input', hpipe', hshape, hnext⟩ :=
      hpipe.joined hp.seam (by simp [Phrase.closeKind]) hj
    have hword : kind = .rightDelim ∨ kind.startsOperand = true := ho.2 ▸ hpipe.pipe_word
    rw [Head.ofKinds_of_operand hword] at ha
    refine .inl ⟨_, _, .action ho' hw hpipe', ?_, Rest.like hnext ha h.defines⟩
    simp only [Node.shape, hshape]

/-! ### Definitions and documents -/

/-- A block is copied if its body is. -/
theorem Sound.copies_blockCall (hp : p.Sound) {depth : Nat} {name : String} {pipe : Pipe Node}
    {root : Block Node} {defines : List Definition} {s s₁ : State} {input : Input}
    (hn : templateName .block s.input.peekWord = .ok name)
    (hpipe : (Phrase.pipe .block .rightDelim pipe).Reads s.input.next input)
    (ih : p.Copies (.body depth root) (s.read input) s₁)
    (hd : define s.input.peekWord.pos name root s₁.defines = .ok defines) :
    p.Copies (.block depth (.template s.input.peekWord.pos name (some pipe))) s
      ⟨s₁.input, defines⟩ := by
  rintro stack _ s' rfl h
  obtain ⟨hs, hj, ha⟩ := joined_of_before h
  obtain ⟨hn', hname⟩ := hj.name hp.seam hn
  obtain ⟨pipe', input', hpipe', hshape, hnext⟩ :=
    hpipe.joined hp.seam (by simp [Phrase.closeKind]) hname
  obtain ⟨root', t', hb', hroot, ht⟩ :=
    (ih rfl (Before.like hnext ha h.defines)).resolve_right id
  obtain ⟨defines', hd', hdefines⟩ := define_of_shape hroot ht.defines hd
  refine .inl ⟨_, _, .blockCall hn' hpipe' hb' hd', ?_, ht.scope, ht.tokens, hdefines⟩
  simp only [Node.shape, pipe?Shape, hshape]

/-- A body is copied if its items are, for the scope is its own. -/
theorem copies_body {depth pos : Nat} {nodes : List Node} {s s₁ : State}
    (ih : p.Copies (.items depth nodes (.endAction pos)) (s.withScope initialScope) s₁) :
    p.Copies (.body depth ⟨s.input.peekWord.pos, nodes⟩) s (s₁.withScope s.input.scope) := by
  rintro stack _ s' rfl h
  obtain ⟨nodes', ending', t', hi', hnodes, hending⟩ :=
    (ih ⟨rfl, by simp⟩ (h.withScope initialScope)).resolve_right id
  cases ending' with
  | elseAction pos' => exact hending.elim
  | endAction pos' =>
    refine .inl ⟨_, _, .body hi', ?_, ?_⟩
    · rw [blockShape, blockShape, hnodes]
    · rw [← h.scope]
      exact State.Like.withScope hending _

/-- A definition is copied if its body is. -/
theorem Sound.copies_definition (hp : p.Sound) {name : String} {root : Block Node}
    {defines : List Definition} {s s₁ : State}
    (hn : templateName .define s.input.peekWord = .ok name)
    (hr : s.input.next.peekWord.kind = .rightDelim)
    (ih : p.Copies (.body 0 root) (s.read s.input.next.next) s₁)
    (hd : define s.input.peekWord.pos name root s₁.defines = .ok defines) :
    p.Copies .definition s ⟨s₁.input, defines⟩ := by
  rintro stack _ s' rfl h
  obtain ⟨hs, hj, ha⟩ := joined_of_before h
  obtain ⟨hn', hname⟩ := hj.name hp.seam hn
  obtain ⟨hr', hnext⟩ := hname.step hp.seam hr (by decide)
  obtain ⟨root', t', hb', hroot, ht⟩ :=
    (ih rfl (Before.like hnext ha h.defines)).resolve_right id
  obtain ⟨defines', hd', hdefines⟩ := define_of_shape hroot ht.defines hd
  exact .inl ⟨_, .definition hn' hr' hb' hd', ht.scope, ht.tokens, hdefines⟩

/-- A document that begins with a definition is copied if its parts are. -/
theorem Sound.copies_defined (hp : p.Sound) {nodes : List Node} {s s₁ t : State}
    (hk : s.input.peek.kind = .leftDelim)
    (hw : s.input.tail.peekWord.kind = .keyword .defineKw)
    (hr : (Passage.document nodes).Reads s₁ t)
    (ihd : p.Copies .definition (s.read s.input.tail.next) s₁)
    (ihr : p.Copies (.document nodes) s₁ t) : p.Copies (.document nodes) s t := by
  rintro _ stack s' ⟨rfl, hne⟩ h
  obtain ⟨hs, hj, -⟩ := joined_of_before h
  obtain ⟨ho, htail⟩ := State.opens_of_peek hk hw
  obtain ⟨ho', hs, ha, hj'⟩ := hp.opens_inside h ho (by decide) (by decide)
  rw [Token.kind_of_word (hj.peek_word hp.seam)] at hk
  have htail' := (State.opens_of_peek hk rfl).2
  have hw' : s'.input.tail.peekWord.kind = .keyword .defineKw := htail' ▸ ho'.2
  rw [State.afterWord, State.afterWord, htail, htail'] at hj'
  -- The definition may end behind the seam, so what follows it starts anywhere.
  obtain ⟨s₁', hd', h₁⟩ := (ihd rfl (Before.like hj' ha h.defines)).resolve_right id
  obtain ⟨nodes', t', hr', hnodes, ht⟩ :=
    (hp.rest hr ⟨rfl, hne⟩ h₁ (ihr ⟨rfl, hne⟩)).resolve_right id
  exact .inl ⟨nodes', t', .defined hk hw' hd' (hd'.definition_progress hk) hr', hnodes, ht⟩

/-- A document that begins with an item is copied if its parts are. -/
theorem Sound.copies_node (hp : p.Sound) {node : Node} {nodes : List Node} {s s₁ t : State}
    (hk : s.input.peek.kind ≠ .eof) (hr : (Passage.document nodes).Reads s₁ t)
    (ihi : p.Copies (.item 0 (.node node)) s s₁) (ihr : p.Copies (.document nodes) s₁ t) :
    p.Copies (.document (node :: nodes)) s t := by
  rintro _ stack s' ⟨rfl, hne⟩ h
  obtain ⟨hs, hj, -⟩ := joined_of_before h
  obtain ⟨node', s₁', hi', hnode, h₁⟩ := (ihi ⟨rfl, hne⟩ h).resolve_right id
  obtain ⟨nodes', t', hr', hnodes, ht⟩ :=
    (hp.rest hr ⟨rfl, hne⟩ h₁ (ihr ⟨rfl, hne⟩)).resolve_right id
  rw [Token.kind_of_word (hj.peek_word hp.seam)] at hk
  have hn' : ¬(s'.input.peek.kind = .leftDelim ∧
      s'.input.tail.peekWord.kind = .keyword .defineKw) :=
    fun hdefine => hi'.not_opens_define (State.opens_of_peek hdefine.1 hdefine.2).1
  refine .inl ⟨node' :: nodes', t', .node hk hn' hi' hi'.item_progress hr', ?_, ht⟩
  rw [nodesShape, nodesShape, hnode, hnodes]

/-! ### All passages -/

/-- What is read before the seam is read on the other side, unless it stops at the seam. -/
theorem Sound.copies (hp : p.Sound) {passage : Passage} {s t : State} (h : passage.Reads s t) :
    p.Copies passage s t := by
  -- By induction on the rules.  Only a rule for an `end` or an `else` can apply at the seam: for
  -- any other, its action starts before the seam, and so does what is read inside.
  induction h with
  | last hk hi ih => exact hp.copies_last hk hi ih
  | more hk hi hl hr ihi ihr => exact hp.copies_more hk hr ihi ihr
  | @text depth s hk =>
    rintro _ stack s' ⟨rfl, -⟩ h
    obtain ⟨hs, hj, ha⟩ := joined_of_before h
    obtain ⟨hk', hnext⟩ := hj.step hp.seam hk (by decide)
    refine .inl ⟨_, _, .text hk', ?_, Rest.like hnext ha h.defines⟩
    rw [Node.shape, Node.shape, Token.lexeme_of_word (hj.peekWord_word hp.seam)]
  | @branch depth kind node s t ho hb ih =>
    rintro _ stack s' ⟨rfl, -⟩ h
    obtain ⟨ho', hs, ha, hj⟩ :=
      hp.opens_inside h ho (by cases kind <;> decide) (by cases kind <;> decide)
    have hhead (next : Token.Kind) :
        Head.ofKinds (.keyword kind.keyword) next = .branch kind := by cases kind <;> rfl
    rw [hhead] at ha
    have hbody : s.afterWord.Like (p.Before (.branch kind false :: stack)) s'.afterWord :=
      Before.like hj ha h.defines
    obtain ⟨node', t', hb', hnode, ht⟩ := (ih ⟨false, rfl⟩ hbody).resolve_right id
    exact .inl ⟨node', t', .branch ho' hb', hnode, ht⟩
  | @block depth node s t ho hb ih =>
    rintro _ stack s' ⟨rfl, -⟩ h
    obtain ⟨ho', hs, ha, hj⟩ := hp.opens_inside h ho (by decide) (by decide)
    have hbody : s.afterWord.Like (p.Before (.template :: stack)) s'.afterWord :=
      Before.like hj ha h.defines
    obtain ⟨node', t', hb', hnode, ht⟩ := (ih rfl hbody).resolve_right id
    exact .inl ⟨node', t', .block ho' hb', hnode, ht⟩
  | endAction ho hr => exact hp.copies_endAction ho hr
  | @elseAction depth s ho hr =>
    rintro _ stack s' ⟨rfl, -⟩ h
    rcases hp.opens_keyword h ho with hat | ⟨ho', hs, ha, hj⟩
    · exact .inr hat
    · obtain ⟨hr', hnext⟩ := hj.step hp.seam hr (by decide)
      rw [hr] at ha
      exact .inl ⟨_, _, .elseAction ho' hr', .inl (Rest.like hnext ha h.defines)⟩
  | elseBranch ho hb => exact hp.copies_elseBranch ho hb
  | @breakAction depth s ho hr hd =>
    rintro _ stack s' ⟨rfl, -⟩ h
    obtain ⟨ho', hs, ha, hj⟩ := hp.opens_inside h ho (by decide) (by decide)
    obtain ⟨hr', hnext⟩ := hj.step hp.seam hr (by decide)
    exact .inl ⟨_, _, .breakAction ho' hr' hd, rfl, Rest.like hnext ha h.defines⟩
  | @continueAction depth s ho hr hd =>
    rintro _ stack s' ⟨rfl, -⟩ h
    obtain ⟨ho', hs, ha, hj⟩ := hp.opens_inside h ho (by decide) (by decide)
    obtain ⟨hr', hnext⟩ := hj.step hp.seam hr (by decide)
    exact .inl ⟨_, _, .continueAction ho' hr' hd, rfl, Rest.like hnext ha h.defines⟩
  | @bareCall depth name s ho hn hr =>
    rintro _ stack s' ⟨rfl, -⟩ h
    obtain ⟨ho', hs, ha, hj⟩ := hp.opens_inside h ho (by decide) (by decide)
    obtain ⟨hn', hname⟩ := hj.name hp.seam hn
    obtain ⟨hr', hnext⟩ := hname.step hp.seam hr (by decide)
    exact .inl ⟨_, _, .bareCall ho' hn' hr', rfl, Rest.like hnext ha h.defines⟩
  | call ho hn hr hpipe => exact hp.copies_call ho hn hr hpipe
  | action ho hw hpipe => exact hp.copies_action ho hw hpipe
  | single hpipe hi ih => exact hp.copies_single hpipe ih
  | chained hpipe hi hl hk hb ihi ihb =>
    exact hp.copies_branch hpipe ihi (.chained hk hb) (hp.copies_chained hk hb ihb)
  | double hpipe hi hl hk ha ihi iha =>
    exact hp.copies_branch hpipe ihi (.own hk ha) (hp.copies_own hk ha iha)
  | blockCall hn hpipe hb hd ih => exact hp.copies_blockCall hn hpipe ih hd
  | body hi ih => exact copies_body ih
  | definition hn hr hb hd ih => exact hp.copies_definition hn hr ih hd
  | @finished s hk =>
    rintro _ stack s' ⟨rfl, -⟩ h
    obtain ⟨hs, hj, ha⟩ := joined_of_before h
    rw [Token.kind_of_word (hj.peek_word hp.seam)] at hk
    exact .inl ⟨[], s', .finished hk, rfl, h.defines⟩
  | defined hk hw hd hl hr ihd ihr => exact hp.copies_defined hk hw hr ihd ihr
  | node hk hn hi hl hr ihi ihr => exact hp.copies_node hk hr ihi ihr

/-- Whatever stops, stops at an `else` at the seam. -/
theorem Stops.exists_else {passage : Passage} {stack : List Frame} {s s' t : State}
    (h : p.Stops stack s s' t passage) (hr : passage.Reads s t) :
    ∃ depth pos r, r.input.skipSpace.tokens = p.back ∧
      (Passage.item depth (.ending (.elseAction pos))).Reads r t := by
  cases passage with
  | items depth nodes ending =>
    cases ending with
    | endAction pos => exact h.elim
    | elseAction pos =>
      obtain ⟨nodes', r, r', -, hat, -, hi, -⟩ := h
      exact ⟨depth, pos, r, hat.tokens.1, hi⟩
  | item depth i =>
    cases i with
    | node node => exact h.elim
    | ending ending =>
      cases ending with
      | endAction pos => exact h.elim
      | elseAction pos => exact ⟨depth, pos, s, h.1.tokens.1, hr⟩
  | branch | block | body | definition | document => exact h.elim

/-- What is read on one side of a splice is read on the other, with the same shape. -/
theorem Sound.ofTokens (hp : p.Sound) {hs : List Head} {tokens tokens' : List Token} {tree : Tree}
    (hj : Joined p.back p.back' hs tokens tokens') (ha : p.Ahead hs [.template])
    (h : Tree.ofTokens tokens = .ok tree) :
    ∃ tree', Tree.ofTokens tokens' = .ok tree' ∧ tree'.shape = tree.shape := by
  obtain ⟨t, hd, -, hdefines⟩ := ofTokens_eq_ok_iff.1 h
  have hstart : (State.start tokens).Like (p.Before [.template]) (.start tokens') :=
    ⟨rfl, ⟨hs, hj, ha⟩, rfl⟩
  obtain ⟨nodes', t', hd', hnodes, ht⟩ := (hp.copies hd ⟨rfl, by simp⟩ hstart).resolve_right id
  refine ⟨⟨⟨_, nodes'⟩, t'.defines⟩, ofTokens_eq_ok_iff.2 ⟨t', hd', rfl, rfl⟩, ?_⟩
  rw [Tree.shape, Tree.shape, blockShape, blockShape, hnodes, hdefines, ht]

end Splice

/-! ## The same words -/

/-- Tokens with the same words. -/
def SameWords (tokens tokens' : List Token) : Prop :=
  tokens.map Token.word = tokens'.map Token.word

/-- Lists of tokens without a seam. -/
def Splice.none : Splice where
  back := []
  back' := []
  Ahead _ _ := True
  Behind _ _ _ := False

/-- Where no tokens are left, the next word is the end. -/
theorem Input.peekWord_of_nil {s : Input} (h : s.skipSpace.tokens = []) :
    s.peekWord.kind = .eof := by
  rw [peekWord, peek, h]
  rfl

/-- No item is read where no tokens are left. -/
theorem Passage.Reads.skipSpace_ne_nil {depth : Nat} {i : Item} {s t : State}
    (h : (Passage.item depth i).Reads s t) : s.input.skipSpace.tokens ≠ [] := by
  intro hnil
  have heof := Input.peekWord_of_nil hnil
  cases h with
  | text hk => cases hk.symm.trans heof
  | branch ho | block ho | endAction ho | elseAction ho | elseBranch ho | breakAction ho
  | continueAction ho | bareCall ho | call ho | action ho => cases ho.1.symm.trans heof

/-- Nothing is a seam. -/
theorem Seam.nil : Seam [] [] :=
  ⟨rfl, fun t ht => by cases ht⟩

/-- The splice of nothing is sound. -/
theorem Splice.none_sound : Splice.none.Sound where
  seam := .nil
  onward _ := trivial
  closes hback ho := by cases ho.1.symm.trans (Input.peekWord_of_nil hback)
  endAction _ hat hi := absurd hat.tokens.1 hi.skipSpace_ne_nil
  elseAction := fun _ _ _ _ _ _ _ _ _ _ _ hat hi => absurd hat.tokens.1 hi.skipSpace_ne_nil
  behind_tail h := h.elim
  behind _ _ h := h.tokens.elim

/-- Tokens joined with nothing behind them have the same words. -/
theorem Joined.sameWords {hs : List Head} {tokens tokens' : List Token}
    (h : Joined [] [] hs tokens tokens') : SameWords tokens tokens' := by
  induction h with
  | seam => rfl
  | word hw hk h ih => exact congrArg₂ List.cons hw ih
  | opening hw hk h ih => exact congrArg₂ List.cons hw ih

/-- Tokens of the same words are joined with nothing behind them. -/
theorem SameWords.joined {tokens tokens' : List Token} (h : SameWords tokens tokens') :
    Joined [] [] (heads tokens) tokens tokens' := by
  have hj := Joined.of_words Seam.nil h
  rwa [List.append_nil, List.append_nil] at hj

section Monotone

variable {R R' : List Frame → List Token → List Token → Prop}

/-- States that are alike in one way are so in every weaker one. -/
theorem State.Like.mono {R R' : List Token → List Token → Prop} {s s' : State} (h : s.Like R s')
    (hR : ∀ tokens tokens', R tokens tokens' → R' tokens tokens') : s.Like R' s' :=
  ⟨h.scope, hR _ _ h.tokens, h.defines⟩

/-- An ending copied in one way is copied in every weaker one. -/
theorem Ending.IsCopied.mono (hR : ∀ stack tokens tokens', R stack tokens tokens' →
    R' stack tokens tokens') {stack : List Frame} {t t' : State} {ending ending' : Ending}
    (h : ending.IsCopied R stack t t' ending') : ending.IsCopied R' stack t t' ending' := by
  cases ending with
  | endAction pos =>
    cases ending' with
    | endAction pos' => exact State.Like.mono h (hR _)
    | elseAction pos' => exact h
  | elseAction pos =>
    cases ending' with
    | endAction pos' => exact h
    | elseAction pos' => exact Or.imp (·.mono (hR _)) (·.mono (hR _)) h

/-- A passage copied in one way is copied in every weaker one. -/
theorem Passage.IsCopied.mono (hR : ∀ stack tokens tokens', R stack tokens tokens' →
    R' stack tokens tokens') {stack : List Frame} {s' t : State} {passage : Passage}
    (h : passage.IsCopied R stack s' t) : passage.IsCopied R' stack s' t := by
  cases passage with
  | items depth nodes ending =>
    obtain ⟨nodes', ending', t', hr, hnodes, hending⟩ := h
    exact ⟨nodes', ending', t', hr, hnodes, hending.mono hR⟩
  | item depth i =>
    cases i with
    | ending ending =>
      obtain ⟨ending', t', hr, hending⟩ := h
      exact ⟨ending', t', hr, hending.mono hR⟩
    | node node =>
      obtain ⟨node', t', hr, hnode, ht⟩ := h
      exact ⟨node', t', hr, hnode, ht.mono (hR _)⟩
  | branch depth kind node | block depth node | body depth node =>
    obtain ⟨node', t', hr, hnode, ht⟩ := h
    exact ⟨node', t', hr, hnode, ht.mono (hR _)⟩
  | definition =>
    obtain ⟨t', hr, ht⟩ := h
    exact ⟨t', hr, ht.mono (hR _)⟩
  | document nodes => exact h

end Monotone

/-- Places do not matter: a passage is read alike from tokens with the same words. -/
theorem Passage.Reads.of_sameWords {passage : Passage} {stack open' : List Frame} {s s' t : State}
    (h : passage.Reads s t) (hopened : passage.Opened stack open') (hs : s.Like SameWords s') :
    passage.IsCopied (fun _ => SameWords) stack s' t := by
  have hbefore : s.Like (Splice.none.Before open') s' :=
    ⟨hs.scope, ⟨_, hs.tokens.joined, trivial⟩, hs.defines⟩
  rcases Splice.none_sound.copies h hopened hbefore with hcopied | hstops
  · refine hcopied.mono fun stack tokens tokens' hrest => ?_
    rcases hrest with hbehind | ⟨hs, hj, -⟩
    · exact hbehind.elim
    · exact hj.sameWords
  · obtain ⟨depth, pos, r, hback, hi⟩ := hstops.exists_else h
    exact absurd hback hi.skipSpace_ne_nil

end FieldAudit.Template
