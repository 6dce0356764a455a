import FieldAudit.Proofs.FieldRun
import FieldAudit.Proofs.Lossless
import FieldAudit.Proofs.Reading.Progress

/-! # The nesting of control actions

The heads of the actions, read from left to right, say how actions nest: some open a block, some go
on with an alternative, and an `end` closes what is open.  `Head.step` keeps the open actions on a
stack and has no result where a head cannot stand.  The tree readers keep no stack, and nest by
calling each other.  `Passage.Reads.nests` says what each of them does to the open actions; so the
heads of a template that is read are balanced (`parse_balanced`). -/

namespace FieldAudit.Template

/-! ## Heads -/

/-- What the head of an action says about nesting. -/
inductive Head where
  /-- An `if`, `range` or `with` action. -/
  | branch (kind : BranchKind)
  | block
  | define
  /-- An `else` that goes on with a branch. -/
  | elseBranch (kind : BranchKind)
  /-- An `else` of its own. -/
  | elseAlone
  | endAction
  /-- Any other action. -/
  | other
  deriving DecidableEq, Repr

/-- The head of an action by the kinds of its first two words. -/
def Head.ofKinds : Token.Kind → Token.Kind → Head
  | .keyword .ifKw, _ => .branch .ifBranch
  | .keyword .rangeKw, _ => .branch .rangeBranch
  | .keyword .withKw, _ => .branch .withBranch
  | .keyword .blockKw, _ => .block
  | .keyword .defineKw, _ => .define
  | .keyword .elseKw, .keyword .ifKw => .elseBranch .ifBranch
  | .keyword .elseKw, .keyword .withKw => .elseBranch .withBranch
  | .keyword .elseKw, _ => .elseAlone
  | .keyword .endKw, _ => .endAction
  | _, _ => .other

/-- The tokens that are no spaces. -/
def wordsOf (tokens : List Token) : List Token :=
  tokens.filter (·.kind ≠ .space)

/-- The head of an action, given the tokens after its left delimiter. -/
def Head.ofTokens (tokens : List Token) : Head :=
  .ofKinds ((wordsOf tokens).headD (.eof 0)).kind ((wordsOf tokens).tail.headD (.eof 0)).kind

/-- The heads of the actions among tokens, in order. -/
def heads : List Token → List Head
  | [] => []
  | t :: rest => if t.kind = .leftDelim then .ofTokens rest :: heads rest else heads rest

/-- An action that waits for its `end`. -/
inductive Frame where
  /-- An `if`, `range` or `with`, and whether it has had an `else` of its own. -/
  | branch (kind : BranchKind) (hasElse : Bool)
  /-- A `define` or `block`. -/
  | template
  deriving DecidableEq, Repr

/-- The open actions after a head, the innermost first, unless the head cannot stand there. -/
def Head.step (stack : List Frame) : Head → Option (List Frame)
  | .branch kind => some (.branch kind false :: stack)
  | .block => some (.template :: stack)
  | .define => if stack.isEmpty then some [.template] else none
  | .elseBranch kind =>
    match stack with
    | .branch top false :: _ => if top = kind then some stack else none
    | _ => none
  | .elseAlone =>
    match stack with
    | .branch top false :: rest => some (.branch top true :: rest)
    | _ => none
  | .endAction =>
    match stack with
    | _ :: rest => some rest
    | [] => none
  | .other => some stack

/-! ## Heads that are left to read -/

/-- Only a left delimiter begins an action, so any other token is passed over. -/
theorem heads_cons_of_ne {t : Token} (h : t.kind ≠ .leftDelim) (rest : List Token) :
    heads (t :: rest) = heads rest := by
  rw [heads, if_neg h]

/-- Only left delimiters matter for the heads. -/
theorem heads_dropWhile {p : Token → Bool} (h : ∀ t, p t = true → t.kind ≠ .leftDelim)
    (tokens : List Token) : heads (tokens.dropWhile p) = heads tokens := by
  induction tokens with
  | nil => rfl
  | cons t rest ih =>
    by_cases ht : p t = true
    · rw [List.dropWhile_cons_of_pos ht, ih, heads_cons_of_ne (h t ht)]
    · rw [List.dropWhile_cons_of_neg ht]

namespace Input

/-- Leading spaces are not words. -/
theorem wordsOf_skipSpace (s : Input) : wordsOf s.skipSpace.tokens = wordsOf s.tokens := by
  obtain ⟨tokens, scope⟩ := s
  induction tokens with
  | nil => rfl
  | cons t rest ih =>
    by_cases ht : t.kind = .space
    · rw [skipSpace_of_space ht, ih, wordsOf, wordsOf, List.filter_cons_of_neg (by simp [ht])]
    · rw [skipSpace_of_ne ht]

/-- The words that are left are the next word and the words after it. -/
theorem wordsOf_cases (s : Input) :
    (wordsOf s.tokens).headD (.eof 0) = s.peekWord ∧
      (wordsOf s.tokens).tail = wordsOf s.next.tokens := by
  have hne : s.skipSpace.peek.kind ≠ .space := s.peekWord_ne_space
  rw [← wordsOf_skipSpace, peekWord, next]
  generalize s.skipSpace = word at hne ⊢
  obtain ⟨tokens, scope⟩ := word
  cases tokens with
  | nil => exact ⟨rfl, rfl⟩
  | cons t rest =>
    rw [wordsOf, List.filter_cons_of_pos (by simpa [peek] using hne)]
    exact ⟨rfl, rfl⟩

/-- The head of an action is told by its first two words. -/
theorem headOfTokens_eq (s : Input) :
    Head.ofTokens s.tokens = .ofKinds s.peekWord.kind s.next.peekWord.kind := by
  rw [Head.ofTokens, s.wordsOf_cases.1, s.wordsOf_cases.2, s.next.wordsOf_cases.1]

/-- Leading spaces hide no action. -/
theorem heads_skipSpace (s : Input) : heads s.skipSpace.tokens = heads s.tokens := by
  refine heads_dropWhile (fun t ht => ?_) s.tokens
  rw [of_decide_eq_true ht]
  decide

/-- Dropping a token other than a left delimiter keeps the actions to come. -/
theorem heads_tail {s : Input} {kind : Token.Kind} (hk : s.peek.kind = kind)
    (hne : kind ≠ .leftDelim) : heads s.tail.tokens = heads s.tokens := by
  subst hk
  obtain ⟨tokens, scope⟩ := s
  cases tokens with
  | nil => rfl
  | cons t rest => exact (heads_cons_of_ne hne rest).symm

/-- Reading a word other than a left delimiter keeps the actions to come. -/
theorem heads_next {s : Input} {kind : Token.Kind} (hk : s.peekWord.kind = kind)
    (hne : kind ≠ .leftDelim) : heads s.next.tokens = heads s.tokens :=
  (heads_tail hk hne).trans s.heads_skipSpace

/-- A left delimiter is read with the head of its action. -/
theorem heads_leftDelim {s : Input} (hk : s.peekWord.kind = .leftDelim) :
    heads s.tokens =
      .ofKinds s.next.peekWord.kind s.next.next.peekWord.kind :: heads s.next.tokens := by
  rw [← s.heads_skipSpace, skipSpace_tokens (by rw [hk]; decide), heads, if_pos hk,
    headOfTokens_eq]

end Input

/-! ## Pipes -/

/-- Declarations are read within one action. -/
theorem declarations_heads {context : Context} {more : Nat} {s s' : Input}
    {decls : List Variable} (h : declarations context more s = .ok (decls, s')) :
    heads s'.tokens = heads s.tokens := by
  refine (declarations_eq_ok_iff.1 h).passes (R := fun s s' => heads s'.tokens = heads s.tokens)
    (fun _ => rfl) fun hv hm ih => ?_
  have hmark := Input.heads_next rfl (ne_of_isMark hm rfl)
  exact ih.trans (hmark.trans (Input.heads_next hv (by decide)))

/-- Trailing fields are read within one action. -/
theorem withFields_heads {node node' : Node} {s s' : Input}
    (h : withFields node s = .ok (node', s')) : heads s'.tokens = heads s.tokens := by
  rcases withFields_cases h with ⟨-, -, rfl⟩ | ⟨first, rest, -, -, -, -, rfl⟩
  · rfl
  · refine heads_dropWhile (fun t ht => ?_) s.tokens
    rw [of_decide_eq_true ht]
    decide

/-- No action starts inside a pipe. -/
theorem Phrase.Reads.heads_eq {phrase : Phrase} {s s' : Input} (h : phrase.Reads s s')
    (hc : phrase.closeKind ≠ .leftDelim) : heads s'.tokens = heads s.tokens := by
  induction h with
  | pipe hd hr hp ih => exact (ih hc).trans (declarations_heads hd)
  | close => exact Input.heads_next rfl hc
  | command hk hs ha hn hl hr iha ihr => exact (ihr hc).trans (iha (by simp [closeKind]))
  | spaced ho hk hl ha iho iha =>
    have hspace := Input.heads_tail hk (by decide)
    exact (iha hc).trans (hspace.trans ((iho hc).trans (Input.heads_skipSpace _)))
  | closed ho hk ih => exact (ih hc).trans (Input.heads_skipSpace _)
  | piped ho hk ih =>
    exact (Input.heads_tail hk (by decide)).trans ((ih hc).trans (Input.heads_skipSpace _))
  | parenthesis hk hp hf ih =>
    have hinside := (ih (by simp [closeKind])).trans (Input.heads_next hk (by decide))
    exact (withFields_heads hf).trans hinside
  | atom ha hf => exact (withFields_heads hf).trans (Input.heads_next rfl (ne_of_atom? ha rfl))
  | absent hk ha => exact Input.heads_skipSpace _

/-- A pipe starts with an operand, or is closed at once. -/
theorem Phrase.Reads.pipe_word {context : Context} {close : Token.Kind} {p : Pipe Node}
    {s s' : Input} (h : (Phrase.pipe context close p).Reads s s') :
    s.peekWord.kind = close ∨ s.peekWord.kind.startsOperand = true := by
  cases h with
  | @pipe _ _ _ s₁ _ decls commands hd hc hp =>
    by_cases hv : s.peekWord.kind = .variable
    · right
      rw [hv]
      rfl
    · -- Without a variable in front nothing is declared, and the commands start right here.
      have hs : s₁ = s := by
        rw [declarations, if_neg hv] at hd
        cases hd
        rfl
      subst hs
      cases hc with
      | close => exact .inl rfl
      | command _ hs => exact .inr hs

/-! ## Passages -/

/-- A word that an operand can start with, or that closes a pipe, does not matter for nesting. -/
theorem Head.ofKinds_of_operand {kind next : Token.Kind}
    (h : kind = .rightDelim ∨ kind.startsOperand = true) : Head.ofKinds kind next = .other := by
  rcases h with rfl | h
  · rfl
  · cases kind with
    | keyword word => cases word <;> first | rfl | cases h
    | _ => rfl

/-- Different branches have different keywords. -/
theorem BranchKind.keyword_injective {first second : BranchKind}
    (h : first.keyword = second.keyword) : first = second := by
  cases first <;> cases second <;> first | rfl | cases h

/-- What becomes of open actions with the heads that are left to read. -/
def State.nest (s : State) (stack : List Frame) : Option (List Frame) :=
  (heads s.input.tokens).foldlM Head.step stack

namespace State

variable {s : State}

/-- Reading that stays within an action has no part in the nesting. -/
theorem nest_read {input : Input} (h : heads input.tokens = heads s.input.tokens)
    (stack : List Frame) : s.nest stack = (s.read input).nest stack := by
  show _ = (heads input.tokens).foldlM Head.step stack
  rw [nest, h]

/-- Reading a word within an action has no part in the nesting. -/
theorem nest_next {kind : Token.Kind} (hk : s.input.peekWord.kind = kind)
    (hne : kind ≠ .leftDelim) (stack : List Frame) :
    s.nest stack = (s.read s.input.next).nest stack :=
  nest_read (Input.heads_next hk hne) stack

/-- Reading the end of an action has no part in the nesting. -/
theorem nest_rightDelim (hr : s.input.peekWord.kind = .rightDelim) (stack : List Frame) :
    s.nest stack = (s.read s.input.next).nest stack :=
  nest_next hr (by decide) stack

/-- Reading the name of a template has no part in the nesting. -/
theorem nest_name {context : Context} {name : String}
    (h : templateName context s.input.peekWord = .ok name) (stack : List Frame) :
    s.nest stack = (s.read s.input.next).nest stack :=
  nest_next rfl (ne_of_templateName h rfl) stack

/-- Reading a pipeline has no part in the nesting. -/
theorem nest_pipe {context : Context} {p : Pipe Node} {input : Input}
    (h : (Phrase.pipe context .rightDelim p).Reads s.input input) (stack : List Frame) :
    s.nest stack = (s.read input).nest stack :=
  nest_read (h.heads_eq (by simp [Phrase.closeKind])) stack

/-- The head of an action is the next step. -/
theorem nest_opening (hk : s.input.peekWord.kind = .leftDelim) (stack : List Frame) :
    s.nest stack =
      ((Head.ofKinds s.word.kind s.afterWord.input.peekWord.kind).step stack).bind
        (s.read s.input.next).nest := by
  rw [nest, Input.heads_leftDelim hk, List.foldlM_cons]
  rfl

/-- An action that opens with a keyword takes one step of the nesting, told by the keyword and the
word behind it. -/
theorem nest_keyword {k : Keyword} (ho : s.Opens (.keyword k)) (stack : List Frame) :
    s.nest stack =
      ((Head.ofKinds (.keyword k) s.afterWord.input.peekWord.kind).step stack).bind
        s.afterWord.nest := by
  have hword : (s.read s.input.next).nest = s.afterWord.nest := by
    funext stack
    exact nest_next (s := s.read s.input.next) ho.2 (by simp) stack
  rw [nest_opening ho.1, hword, ho.2]

end State

/-- The head that a block is closed by, given the kind of the token that is left after it. -/
inductive Ending.HeadedBy (next : Token.Kind) : Ending → Head → Prop
  | endAction {pos : Nat} : HeadedBy next (.endAction pos) .endAction
  | elseAlone {pos : Nat} (h : next.isInner = false) : HeadedBy next (.elseAction pos) .elseAlone
  /-- An `else` that goes on with a branch leaves the keyword of the branch. -/
  | elseBranch {pos : Nat} {kind : BranchKind} (h : next = .keyword kind.keyword) :
      HeadedBy next (.elseAction pos) (.elseBranch kind)

/-- The open actions change by the head that closes a block, and by nothing else. -/
def Ending.Closes (s s' : State) (ending : Ending) : Prop :=
  ∃ head, ending.HeadedBy s'.input.peek.kind head ∧
    ∀ stack, s.nest stack = (head.step stack).bind s'.nest

/-- What reading a passage does to the open actions.  Where the passage starts after the head of
its action, that action is on the stack. -/
def Passage.Nests (s s' : State) : Passage → Prop
  | .items _ _ ending => ending.Closes s s'
  | .item _ (.ending ending) => ending.Closes s s'
  | .item _ (.node _) => ∀ stack, s.nest stack = s'.nest stack
  | .branch _ kind _ => ∀ stack, s.nest (.branch kind false :: stack) = s'.nest stack
  | .block .. => ∀ stack, s.nest (.template :: stack) = s'.nest stack
  | .body .. => ∀ stack, s.nest (.template :: stack) = s'.nest stack
  | .definition => ∀ stack, s.nest (.template :: stack) = s'.nest stack
  | .document _ => s.nest [] = s'.nest []

/-- A block that ends with `end` takes the innermost open action off. -/
theorem Ending.Closes.pop {s s' : State} {pos : Nat} (h : (Ending.endAction pos).Closes s s')
    (frame : Frame) (stack : List Frame) : s.nest (frame :: stack) = s'.nest stack := by
  obtain ⟨head, hhead, hstep⟩ := h
  cases hhead
  exact hstep (frame :: stack)

/-- An `else` that goes on with a branch leaves the open branch to the nested one. -/
theorem Ending.Closes.chain {s s₁ s₂ : State} {pos : Nat} {kind : BranchKind}
    (h : (Ending.elseAction pos).Closes s s₁) (hk : s₁.input.peek.kind = .keyword kind.keyword)
    (hnested : ∀ stack, (s₁.read s₁.input.tail).nest (.branch kind false :: stack) = s₂.nest stack)
    (stack : List Frame) : s.nest (.branch kind false :: stack) = s₂.nest stack := by
  obtain ⟨head, hhead, hstep⟩ := h
  rw [hstep]
  cases hhead with
  | elseAlone h => rw [hk] at h; cases h
  | elseBranch h =>
    obtain rfl := BranchKind.keyword_injective (Token.Kind.keyword.inj (hk.symm.trans h))
    have htail := State.nest_read (s := s₁) (Input.heads_tail hk (by simp))
      (.branch kind false :: stack)
    rw [Head.step, if_pos rfl]
    exact htail.trans (hnested stack)

/-- An `else` of its own, with the block after it, takes the open branch off. -/
theorem Ending.Closes.alternative {s s₁ s₂ : State} {pos pos' : Nat} {kind : BranchKind}
    (h : (Ending.elseAction pos).Closes s s₁) (hword : s₁.input.peekWord.kind.isInner = false)
    (hother : (Ending.endAction pos').Closes s₁ s₂) (stack : List Frame) :
    s.nest (.branch kind false :: stack) = s₂.nest stack := by
  obtain ⟨head, hhead, hstep⟩ := h
  rw [hstep]
  cases hhead with
  | elseAlone h => exact hother.pop _ stack
  | elseBranch h =>
    -- A keyword that is left by the `else` would have to start the alternative.
    rw [Input.peekWord, Input.skipSpace_eq_self (by rw [h]; simp), h] at hword
    cases hword

/-- After a right delimiter the text goes on. -/
theorem Input.isInner_next {s : Input} (hc : s.tokens.IsChain Token.MayPrecede)
    (hr : s.peekWord.kind = .rightDelim) : s.next.peek.kind.isInner = false := by
  have hchain := hc.suffix s.skipSpace_suffix
  rw [skipSpace_tokens (by rw [hr]; decide)] at hchain
  have hafter := (List.isChain_cons.1 hchain).1
  rw [peek]
  generalize s.next.tokens = rest at hafter ⊢
  cases rest with
  | nil => rfl
  | cons t rest => exact hafter t rfl hr

/-- What is read in a block starts with a text or an action. -/
theorem Passage.Reads.items_word {depth : Nat} {nodes : List Node} {ending : Ending}
    {s s' : State} (h : (Passage.items depth nodes ending).Reads s s') :
    s.input.peekWord.kind.isInner = false := by
  have hitem {i : Item} {s₁ : State} (hi : (Passage.item depth i).Reads s s₁) :
      s.input.peekWord.kind.isInner = false := by
    cases hi with
    | text hk => rw [hk]; rfl
    | branch ho | block ho | endAction ho | elseAction ho | elseBranch ho | breakAction ho
    | continueAction ho | bareCall ho | call ho | action ho => rw [ho.1]; rfl
  cases h with
  | last hk hi => exact hitem hi
  | more hk hi => exact hitem hi

/-- Reading a passage follows the heads of its actions. -/
theorem Passage.Reads.nests {passage : Passage} {s s' : State} (h : passage.Reads s s')
    (hc : s.input.tokens.IsChain Token.MayPrecede) : passage.Nests s s' := by
  -- The order of tokens goes down to every part, as a part is read from a suffix of the tokens.
  -- Only an `else` of its own needs it: no keyword is left behind its right delimiter.
  induction h with
  | last hk hi ih => exact ih hc
  | @more depth node nodes ending s s₁ s₂ hk hi hl hr ihi ihr =>
    have hnode : ∀ stack, s.nest stack = s₁.nest stack := ihi hc
    obtain ⟨head, hhead, hstep⟩ := ihr (hc.suffix hi.suffix)
    exact ⟨head, hhead, fun stack => (hnode stack).trans (hstep stack)⟩
  | text hk => exact State.nest_next hk (by decide)
  | @branch depth kind node s s₁ ho hb ih =>
    intro stack
    have hbody : ∀ stack, s.afterWord.nest (.branch kind false :: stack) = s₁.nest stack :=
      ih (hc.suffix s.afterWord_suffix)
    rw [← hbody, State.nest_keyword ho]
    cases kind <;> rfl
  | @block depth node s s₁ ho hb ih =>
    intro stack
    have hbody : ∀ stack, s.afterWord.nest (.template :: stack) = s₁.nest stack :=
      ih (hc.suffix s.afterWord_suffix)
    rw [← hbody, State.nest_keyword ho]
    rfl
  | @endAction depth s ho hr =>
    refine ⟨.endAction, .endAction, fun stack => ?_⟩
    rw [State.nest_keyword ho, funext (State.nest_rightDelim (s := s.afterWord) hr)]
    rfl
  | @elseAction depth s ho hr =>
    have hafter := Input.isInner_next (hc.suffix s.afterWord_suffix) hr
    refine ⟨.elseAlone, .elseAlone hafter, fun stack => ?_⟩
    rw [State.nest_keyword ho, hr, funext (State.nest_rightDelim (s := s.afterWord) hr)]
    rfl
  | @elseBranch depth s ho hb =>
    have hskip : s.afterWord.nest = (s.read s.afterWord.input.skipSpace).nest :=
      funext (State.nest_read (s := s.afterWord) (Input.heads_skipSpace _))
    rcases hb with hb | hb
    · refine ⟨.elseBranch .ifBranch, .elseBranch hb, fun stack => ?_⟩
      rw [State.nest_keyword ho, hb, hskip]
      rfl
    · refine ⟨.elseBranch .withBranch, .elseBranch hb, fun stack => ?_⟩
      rw [State.nest_keyword ho, hb, hskip]
      rfl
  | @breakAction depth s ho hr hd =>
    intro stack
    rw [State.nest_keyword ho, funext (State.nest_rightDelim (s := s.afterWord) hr)]
    rfl
  | @continueAction depth s ho hr hd =>
    intro stack
    rw [State.nest_keyword ho, funext (State.nest_rightDelim (s := s.afterWord) hr)]
    rfl
  | @bareCall depth name s ho hn hr =>
    intro stack
    rw [State.nest_keyword ho, funext (State.nest_name (s := s.afterWord) hn)]
    exact State.nest_rightDelim (s := s.read s.afterWord.input.next) hr stack
  | @call depth name pipe s input ho hn hr hp =>
    intro stack
    rw [State.nest_keyword ho, funext (State.nest_name (s := s.afterWord) hn)]
    exact State.nest_pipe (s := s.read s.afterWord.input.next) hp stack
  | @action depth pipe s input kind ho hw hp =>
    intro stack
    -- An action that is a pipe starts with no word that matters for nesting.
    have hword : s.word.kind = .rightDelim ∨ s.word.kind.startsOperand = true := hp.pipe_word
    rw [State.nest_opening ho.1, Head.ofKinds_of_operand hword]
    exact State.nest_pipe (s := s.read s.input.next) hp stack
  | @single depth kind pipe nodes pos s s₁ input hp hi ih =>
    intro stack
    have hbody := ih (hc.suffix hp.suffix)
    rw [State.nest_pipe hp]
    exact hbody.pop _ stack
  | @chained depth kind pipe nodes pos nested s s₁ s₂ input hp hi hl hk hb ihi ihb =>
    intro stack
    have hrest := hc.suffix (hi.suffix.trans hp.suffix)
    have hbody := ihi (hc.suffix hp.suffix)
    rw [State.nest_pipe hp]
    exact hbody.chain hk.2 (ihb (hrest.suffix s₁.input.tail_suffix)) stack
  | @double depth kind pipe nodes others pos pos' s s₁ s₂ input hp hi hl hk ha ihi iha =>
    intro stack
    have hbody := ihi (hc.suffix hp.suffix)
    rw [State.nest_pipe hp]
    exact hbody.alternative ha.items_word (iha (hc.suffix (hi.suffix.trans hp.suffix))) stack
  | @blockCall depth name pipe root defines s s₁ input hn hp hb hd ih =>
    intro stack
    have hbody : ∀ stack, (s.read input).nest (.template :: stack) = s₁.nest stack :=
      ih (hc.suffix (hp.suffix.trans s.input.next_suffix))
    rw [State.nest_name hn, State.nest_pipe (s := s.read s.input.next) hp]
    exact hbody stack
  | @body depth nodes pos s s₁ hi ih => exact fun stack => (ih hc).pop .template stack
  | @definition name root defines s s₁ hn hr hb hd ih =>
    intro stack
    have hbody : ∀ stack, (s.read s.input.next.next).nest (.template :: stack) = s₁.nest stack :=
      ih (hc.suffix (s.input.next.next_suffix.trans s.input.next_suffix))
    rw [State.nest_name hn, State.nest_rightDelim (s := s.read s.input.next) hr]
    exact hbody stack
  | finished hk => rfl
  | @defined nodes s s₁ s₂ hk hw hd hl hr ihd ihr =>
    obtain ⟨ho, hnext⟩ := State.opens_of_peek hk hw
    have hsuffix : s.input.tail.next.tokens <:+ s.input.tokens :=
      s.input.tail.next_suffix.trans s.input.tail_suffix
    have hbody : ∀ stack, (s.read s.input.tail.next).nest (.template :: stack) = s₁.nest stack :=
      ihd (hc.suffix hsuffix)
    have hdocument : s₁.nest [] = s₂.nest [] := ihr (hc.suffix (hd.suffix.trans hsuffix))
    show s.nest [] = s₂.nest []
    rw [← hdocument, ← hbody, State.nest_keyword ho, State.afterWord, hnext]
    rfl
  | @node node nodes s s₁ s₂ hk hn hi hl hr ihi ihr =>
    have hnode : ∀ stack, s.nest stack = s₁.nest stack := ihi hc
    exact (hnode []).trans (ihr (hc.suffix hi.suffix))

/-! ## Whole templates -/

/-- The heads of a template that is read are balanced: each can stand where it does, and all that
is opened is closed. -/
theorem parse_balanced {d : Delimiters} {source : List Char} {tree : Tree}
    (h : parse d source = .ok tree) :
    ∃ tokens, tokenize d source = .ok tokens ∧ (heads tokens).foldlM Head.step [] = some [] := by
  obtain ⟨tokens, htokens, htree⟩ := parse_eq_ok h
  obtain ⟨s, hd, -, -⟩ := ofTokens_eq_ok_iff.1 htree
  have hnest : (State.start tokens).nest [] = s.nest [] :=
    hd.nests (tokenize_startsOutside htokens).after
  -- What is left is the end of the text alone, and has no head.
  have hlast : heads s.input.tokens = [] := by
    have heof := hd.peek_eof
    have hsuffix := hd.suffix
    rw [Input.peek] at heof
    generalize s.input.tokens = rest at heof hsuffix ⊢
    cases rest with
    | nil => rfl
    | cons t rest =>
      have ht : t.kind = .eof := heof
      rw [(tokenize_endsOnce htokens).suffix_of_eof hsuffix ht,
        heads_cons_of_ne (by rw [ht]; decide), heads]
  refine ⟨tokens, htokens, ?_⟩
  show (State.start tokens).nest [] = some []
  rw [hnest, State.nest, hlast]
  rfl

/-- A definition with a chain of branches in it, and a block after it. -/
def nestedActions : List Char :=
  "\x7b\x7bdefine \x22a\x22\x7d\x7d\x7b\x7bif .A\x7d\x7d\x7b\x7belse if .B\x7d\x7d".toList ++
    "\x7b\x7belse\x7d\x7d\x7b\x7bend\x7d\x7d\x7b\x7bend\x7d\x7d".toList ++
    "\x7b\x7bblock \x22b\x22 .\x7d\x7d\x7b\x7bend\x7d\x7d".toList

/-- A chain of branches nested in a loop is read, and its heads balance. -/
theorem parse_balanced_chain :
    ∃ tree, parse {} nestedActions = .ok tree ∧
      ∃ tokens, tokenize {} nestedActions = .ok tokens ∧
        (heads tokens).foldlM Head.step [] = some [] := by
  have h : (parse {} nestedActions).toOption.isSome = true := by decide +kernel
  cases hparse : parse {} nestedActions with
  | error e => rw [hparse] at h; cases h
  | ok tree => exact ⟨tree, rfl, parse_balanced hparse⟩

end FieldAudit.Template
