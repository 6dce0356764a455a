import FieldAudit.Proofs.ControlNesting
import FieldAudit.Proofs.DefinitionTable
import FieldAudit.Proofs.Reading.Failure

/-! # The definitions of a template

Each `define` or `block` action of a text defines one template.  Reading takes their names and
blocks out of the tokens (`Passage.Reads.adds`) and puts them into the table in the order in which
the blocks end.  So the table of a tree is what `defineAll` makes of these definitions, and
`definitions_merge` says what it holds and when there is none. -/

namespace FieldAudit.Template

/-! ## Where names are defined -/

/-- Whether an action with this head defines a template. -/
def Head.defines : Head → Bool
  | .block | .define => true
  | _ => false

/-- What follows each left delimiter among tokens. -/
def openings : List Token → List (List Token)
  | [] => []
  | t :: rest => if t.kind = .leftDelim then rest :: openings rest else openings rest

/-- The place of the name that an action defines, given the tokens after its left delimiter. -/
def nameSite? (inside : List Token) : Option Nat :=
  if (Head.ofTokens inside).defines then some ((wordsOf inside).tail.headD (.eof 0)).pos else none

/-- The places of the names that the actions among tokens define. -/
def nameSites (tokens : List Token) : List Nat :=
  (openings tokens).filterMap nameSite?

/-- Every head belongs to one opening. -/
theorem length_openings (tokens : List Token) :
    (openings tokens).length = (heads tokens).length := by
  induction tokens with
  | nil => rfl
  | cons t rest ih =>
    rw [openings, heads]
    split
    · rw [List.length_cons, List.length_cons, ih]
    · exact ih

/-- The openings to come are a suffix of all the openings. -/
theorem openings_suffix {rest tokens : List Token} (h : rest <:+ tokens) :
    openings rest <:+ openings tokens := by
  obtain ⟨front, rfl⟩ := h
  induction front with
  | nil => exact List.suffix_rfl
  | cons t front ih =>
    rw [List.cons_append, openings]
    split
    · exact ih.trans (List.suffix_cons _ _)
    · exact ih

/-- Where no action is passed, no name is. -/
theorem nameSites_eq_of_heads {rest tokens : List Token} (h : rest <:+ tokens)
    (hh : heads rest = heads tokens) : nameSites rest = nameSites tokens := by
  have hlength : (openings rest).length = (openings tokens).length := by
    rw [length_openings, length_openings, hh]
  rw [nameSites, nameSites, (openings_suffix h).eq_of_length hlength]

/-- A left delimiter is passed with the name that its action defines. -/
theorem Input.nameSites_leftDelim {s : Input} (hk : s.peekWord.kind = .leftDelim) :
    nameSites s.tokens = (nameSite? s.next.tokens).toList ++ nameSites s.next.tokens := by
  rw [← nameSites_eq_of_heads s.skipSpace_suffix s.heads_skipSpace,
    skipSpace_tokens (by rw [hk]; decide), nameSites, openings, if_pos hk, List.filterMap_cons,
    nameSites]
  cases nameSite? s.next.tokens <;> rfl

/-- The place of the name is that of the second word. -/
theorem Input.nameSite?_next (s : Input) :
    nameSite? s.tokens =
      if (Head.ofKinds s.peekWord.kind s.next.peekWord.kind).defines then
        some s.next.peekWord.pos
      else none := by
  rw [nameSite?, headOfTokens_eq, s.wordsOf_cases.2, s.next.wordsOf_cases.1]

/-! ## Definitions that are read -/

/-- The name and the block of a definition are read from these tokens. -/
def Addition.StandsIn (tokens : List Token) (a : Addition) : Prop :=
  (∃ t ∈ tokens, t.pos = a.pos ∧ ∃ context, templateName context t = .ok a.name) ∧
    ∃ depth s s', s.input.tokens <:+ tokens ∧ (Passage.body depth a.root).Reads s s'

/-- An addition that stands in the rest of the tokens stands in all of them. -/
theorem Addition.StandsIn.mono {rest tokens : List Token} {a : Addition} (h : a.StandsIn rest)
    (hs : rest <:+ tokens) : a.StandsIn tokens := by
  obtain ⟨⟨t, ht, hname⟩, depth, s, s', hbody, hread⟩ := h
  exact ⟨⟨t, hs.subset ht, hname⟩, depth, s, s', hbody.trans hs, hread⟩

/-- The places of the names that are left to define. -/
def State.sites (s : State) : List Nat :=
  nameSites s.input.tokens

/-- Reading from one state to another puts these definitions into the table: they are the ones that
stand between the two, with those whose names are open already. -/
structure State.Adds (s : State) (opened : List Nat) (added : List Addition) (s' : State) :
    Prop where
  suffix : s'.input.tokens <:+ s.input.tokens
  table : defineAll s.defines added = .ok s'.defines
  names : (opened ++ s.sites).Perm (added.map Addition.pos ++ s'.sites)
  stand : ∀ a ∈ added, a.StandsIn s.input.tokens

namespace State.Adds

variable {s s₁ s₂ : State} {opened : List Nat} {added more : List Addition}

/-- Where no action is passed, nothing is defined. -/
theorem skip (hs : s₁.input.tokens <:+ s.input.tokens)
    (hh : heads s₁.input.tokens = heads s.input.tokens) (hd : s₁.defines = s.defines) :
    s.Adds [] [] s₁ where
  suffix := hs
  table := by rw [defineAll_nil, hd]
  names := by
    rw [State.sites, State.sites, nameSites_eq_of_heads hs hh]
    exact .refl _
  stand := List.forall_mem_nil _

/-- What is added in two stretches is added in the order of the stretches. -/
theorem trans (h : s.Adds opened added s₁) (h' : s₁.Adds [] more s₂) :
    s.Adds opened (added ++ more) s₂ where
  suffix := h'.suffix.trans h.suffix
  table := by
    rw [defineAll_append, h.table]
    exact h'.table
  names := by
    rw [List.map_append, List.append_assoc]
    exact h.names.trans (h'.names.append_left _)
  stand := List.forall_mem_append.2 ⟨h.stand, fun a ha => (h'.stand a ha).mono h.suffix⟩

/-- What is passed without an action stays open. -/
theorem after_skip (h : s.Adds [] [] s₁) (h' : s₁.Adds opened added s₂) :
    s.Adds opened added s₂ where
  suffix := h'.suffix.trans h.suffix
  table := by
    have heq : s.defines = s₁.defines := by simpa using h.table
    rw [heq]
    exact h'.table
  names := (h.names.append_left opened).trans h'.names
  stand := fun a ha => (h'.stand a ha).mono h.suffix

/-- The scope has no part in what is added. -/
theorem withScope (h : s.Adds opened added s₁) (scope : List String) :
    s.Adds opened added (s₁.withScope scope) :=
  ⟨h.suffix, h.table, h.names, h.stand⟩

/-- A word that opens no action is passed. -/
theorem next {kind : Token.Kind} (hk : s.input.peekWord.kind = kind) (hne : kind ≠ .leftDelim) :
    s.Adds [] [] (s.read s.input.next) :=
  skip s.input.next_suffix (Input.heads_next hk hne) rfl

/-- Reading the name of a template adds nothing. -/
theorem name {context : Context} {name : String}
    (h : templateName context s.input.peekWord = .ok name) :
    s.Adds [] [] (s.read s.input.next) :=
  next rfl (ne_of_templateName h rfl)

/-- Reading a pipeline adds nothing. -/
theorem pipe {context : Context} {p : Pipe Node} {input : Input}
    (h : (Phrase.pipe context .rightDelim p).Reads s.input input) : s.Adds [] [] (s.read input) :=
  skip h.suffix (h.heads_eq (by simp [Phrase.closeKind])) rfl

/-- The opening of an action that defines nothing is passed. -/
theorem opening (hk : s.input.peekWord.kind = .leftDelim)
    (hd : (Head.ofKinds s.word.kind s.afterWord.input.peekWord.kind).defines = false) :
    s.Adds [] [] (s.read s.input.next) where
  suffix := s.input.next_suffix
  table := rfl
  names := by
    have hnone : nameSite? s.input.next.tokens = none :=
      (Input.nameSite?_next _).trans (if_neg (by rw [← Bool.not_eq_true] at hd; exact hd))
    rw [State.sites, Input.nameSites_leftDelim hk, hnone]
    exact .refl _
  stand := List.forall_mem_nil _

/-- An action with a keyword that defines nothing is passed up to the word after the keyword. -/
theorem keyword {k : Keyword} (ho : s.Opens (.keyword k))
    (hd : (Head.ofKinds (.keyword k) s.afterWord.input.peekWord.kind).defines = false) :
    s.Adds [] [] s.afterWord :=
  (opening ho.1 (by rw [ho.2]; exact hd)).trans (next (s := s.read s.input.next) ho.2 (by simp))

/-- An action that defines a template is passed up to the name, which stays open. -/
theorem ofDefining {k : Keyword} (ho : s.Opens (.keyword k))
    (hd : (Head.ofKinds (.keyword k) s.afterWord.input.peekWord.kind).defines = true)
    (h : s.afterWord.Adds [s.afterWord.input.peekWord.pos] added s₁) : s.Adds [] added s₁ where
  suffix := h.suffix.trans s.afterWord_suffix
  table := h.table
  names := by
    have hsite : nameSite? s.input.next.tokens = some s.afterWord.input.peekWord.pos := by
      have hword : s.input.next.peekWord.kind = .keyword k := ho.2
      rw [Input.nameSite?_next, hword]
      exact if_pos hd
    have hafter : s.afterWord.sites = nameSites s.input.next.tokens :=
      nameSites_eq_of_heads (Input.next_suffix _) (Input.heads_next ho.2 (by simp))
    rw [List.nil_append, State.sites, Input.nameSites_leftDelim ho.1, hsite, ← hafter]
    exact h.names
  stand := fun a ha => (h.stand a ha).mono s.afterWord_suffix

/-- A definition is put into the table after those in its block. -/
theorem define {context : Context} {depth : Nat} {name : String} {root : Block Node}
    {defines : List Definition} {input : Input}
    (hn : templateName context s.input.peekWord = .ok name)
    (hi : s.Adds [] [] (s.read input)) (hb : (Passage.body depth root).Reads (s.read input) s₁)
    (h : (s.read input).Adds [] added s₁)
    (hd : Template.define s.input.peekWord.pos name root s₁.defines = .ok defines) :
    s.Adds [s.input.peekWord.pos] (added ++ [⟨s.input.peekWord.pos, name, root⟩])
      ⟨s₁.input, defines⟩ := by
  have hbody := hi.after_skip h
  have hmem := Input.peekWord_mem (ne_of_templateName hn rfl)
  refine ⟨hbody.suffix, ?_, ?_, ?_⟩
  · rw [defineAll_append, hbody.table]
    show defineAll s₁.defines [_] = _
    rw [defineAll_cons, hd]
    rfl
  · -- The name was open before its block; it is listed behind the definitions in the block.
    rw [List.map_append, List.append_assoc]
    show (s.input.peekWord.pos :: s.sites).Perm
      (added.map Addition.pos ++ s.input.peekWord.pos :: s₁.sites)
    exact (hbody.names.cons _).trans List.perm_middle.symm
  · refine List.forall_mem_append.2 ⟨hbody.stand, List.forall_mem_singleton.2 ⟨?_, ?_⟩⟩
    · exact ⟨_, hmem, rfl, context, hn⟩
    · exact ⟨depth, s.read input, s₁, hi.suffix, hb⟩

end State.Adds

/-- The names that are open where a passage starts. -/
def Passage.opened (s : State) : Passage → List Nat
  | .block .. | .definition => [s.input.peekWord.pos]
  | _ => []

/-- Reading a passage puts the definitions that stand in it into the table. -/
theorem Passage.Reads.adds {passage : Passage} {s s' : State} (h : passage.Reads s s') :
    ∃ added, s.Adds (passage.opened s) added s' := by
  induction h with
  | last hk hi ih => exact ih
  | more hk hi hl hr ihi ihr =>
    obtain ⟨added, ha⟩ := ihi
    obtain ⟨rest, hrest⟩ := ihr
    exact ⟨_, ha.trans hrest⟩
  | text hk => exact ⟨_, .next hk (by decide)⟩
  | @branch depth kind node s s₁ ho hb ih =>
    obtain ⟨added, ha⟩ := ih
    refine ⟨added, (State.Adds.keyword ho ?_).after_skip ha⟩
    cases kind <;> rfl
  | block ho hb ih =>
    obtain ⟨added, ha⟩ := ih
    exact ⟨added, .ofDefining ho rfl ha⟩
  | endAction ho hr =>
    exact ⟨_, (State.Adds.keyword ho rfl).trans (.next hr (by decide))⟩
  | elseAction ho hr =>
    exact ⟨_, (State.Adds.keyword ho (by rw [hr]; rfl)).trans (.next hr (by decide))⟩
  | elseBranch ho hb =>
    have hhead := State.Adds.keyword ho (by rcases hb with hb | hb <;> rw [hb] <;> rfl)
    exact ⟨_, hhead.trans (.skip (Input.skipSpace_suffix _) (Input.heads_skipSpace _) rfl)⟩
  | breakAction ho hr hd => exact ⟨_, (State.Adds.keyword ho rfl).trans (.next hr (by decide))⟩
  | continueAction ho hr hd => exact ⟨_, (State.Adds.keyword ho rfl).trans (.next hr (by decide))⟩
  | @bareCall depth name s ho hn hr =>
    have hname := (State.Adds.keyword ho rfl).trans (.name hn)
    exact ⟨_, hname.trans (.next (s := s.read s.afterWord.input.next) hr (by decide))⟩
  | @call depth name pipe s input ho hn hr hp =>
    have hname := (State.Adds.keyword ho rfl).trans (.name hn)
    exact ⟨_, hname.trans (.pipe (s := s.read s.afterWord.input.next) hp)⟩
  | @action depth pipe s input kind ho hw hp =>
    -- An action that is a pipe starts with no word that defines a template.
    have hword : s.word.kind = .rightDelim ∨ s.word.kind.startsOperand = true := hp.pipe_word
    have hhead := State.Adds.opening ho.1 (by rw [Head.ofKinds_of_operand hword]; rfl)
    exact ⟨_, hhead.trans (.pipe (s := s.read s.input.next) hp)⟩
  | single hp hi ih =>
    obtain ⟨added, ha⟩ := ih
    exact ⟨added, ((State.Adds.pipe hp).after_skip ha).withScope _⟩
  | @chained depth kind pipe nodes pos nested s s₁ s₂ input hp hi hl hk hb ihi ihb =>
    obtain ⟨added, ha⟩ := ihi
    obtain ⟨rest, hrest⟩ := ihb
    have htail : s₁.Adds [] [] (s₁.read s₁.input.tail) :=
      .skip (Input.tail_suffix _) (Input.heads_tail hk.2 (by simp)) rfl
    exact ⟨_, (((State.Adds.pipe hp).after_skip ha).trans (htail.after_skip hrest)).withScope _⟩
  | double hp hi hl hk ha ihi iha =>
    obtain ⟨added, hadded⟩ := ihi
    obtain ⟨rest, hrest⟩ := iha
    exact ⟨_, (((State.Adds.pipe hp).after_skip hadded).trans hrest).withScope _⟩
  | @blockCall depth name pipe root defines s s₁ input hn hp hb hd ih =>
    obtain ⟨added, ha⟩ := ih
    have hpipe : s.Adds [] [] (s.read input) :=
      (State.Adds.name hn).trans (.pipe (s := s.read s.input.next) hp)
    exact ⟨_, .define hn hpipe hb ha hd⟩
  | body hi ih =>
    obtain ⟨added, ha⟩ := ih
    exact ⟨added, ⟨ha.suffix, ha.table, ha.names, ha.stand⟩⟩
  | @definition name root defines s s₁ hn hr hb hd ih =>
    obtain ⟨added, ha⟩ := ih
    have hclose : s.Adds [] [] (s.read s.input.next.next) :=
      (State.Adds.name hn).trans (.next (s := s.read s.input.next) hr (by decide))
    exact ⟨_, .define hn hclose hb ha hd⟩
  | finished hk => exact ⟨[], .skip List.suffix_rfl rfl rfl⟩
  | @defined nodes s s₁ s₂ hk hw hd hl hr ihd ihr =>
    obtain ⟨added, ha⟩ := ihd
    obtain ⟨rest, hrest⟩ := ihr
    obtain ⟨ho, hnext⟩ := State.opens_of_peek hk hw
    rw [← hnext] at ha
    exact ⟨_, (State.Adds.ofDefining ho rfl ha).trans hrest⟩
  | node hk hn hi hl hr ihi ihr =>
    obtain ⟨added, ha⟩ := ihi
    obtain ⟨rest, hrest⟩ := ihr
    exact ⟨_, ha.trans hrest⟩

/-! ## Whole templates -/

/-- Reading stops at a definition that does not go into the table of those read before. -/
theorem State.Fails.adds {s : State} {e : Error} (h : s.Fails e) (he : e.cause.isLocal = false) :
    ∃ added, defineAll s.defines added = .error e ∧ ∀ a ∈ added, a.StandsIn s.input.tokens := by
  -- Tokens that are read before the failing part do no harm: definitions stand in more tokens, too.
  have pass {s : State} {input : Input} (hs : input.tokens <:+ s.input.tokens)
      (h : ∃ added, defineAll s.defines added = .error e ∧
        ∀ a ∈ added, a.StandsIn input.tokens) :
      ∃ added, defineAll s.defines added = .error e ∧ ∀ a ∈ added, a.StandsIn s.input.tokens := by
    obtain ⟨added, hd, hstand⟩ := h
    exact ⟨added, hd, fun a ha => (hstand a ha).mono hs⟩
  induction h with
  | input h => rw [h.isLocal] at he; cases he
  | next hk h ih => exact pass (Input.next_suffix _) (ih he pass)
  | tail hk h ih => exact pass (Input.tail_suffix _) (ih he pass)
  | pipe hp h ih => exact pass hp.suffix (ih he pass)
  | scope h ih => exact ih he pass
  | passage hr h ih =>
    obtain ⟨first, hfirst⟩ := hr.adds
    obtain ⟨added, hd, hstand⟩ := ih he pass
    refine ⟨first ++ added, ?_, List.forall_mem_append.2
      ⟨hfirst.stand, fun a ha => (hstand a ha).mono hfirst.suffix⟩⟩
    rw [defineAll_append, hfirst.table]
    exact hd
  | closing hr hc => rw [Cause.isLocal_of_isPlain hc] at he; cases he
  | @define context depth name root s s₁ input e hn hi hb hd =>
    obtain ⟨first, hfirst⟩ := hb.adds
    have hmem := Input.peekWord_mem (ne_of_templateName hn rfl)
    refine ⟨first ++ [⟨s.input.peekWord.pos, name, root⟩], ?_, List.forall_mem_append.2
      ⟨fun a ha => (hfirst.stand a ha).mono hi, List.forall_mem_singleton.2 ⟨?_, ?_⟩⟩⟩
    · rw [defineAll_append, show defineAll s.defines first = _ from hfirst.table]
      show defineAll s₁.defines [_] = _
      rw [defineAll_cons, hd]
      rfl
    · exact ⟨_, hmem, rfl, context, hn⟩
    · exact ⟨depth, s.read input, s₁, hi, hb⟩

/-- The table of a tree is made of one definition for each name that its tokens define. -/
theorem ofTokens_adds {tokens : List Token} {tree : Tree} (ht : EndsOnce tokens)
    (h : Tree.ofTokens tokens = .ok tree) :
    ∃ added, defineAll [] added = .ok tree.defines ∧
      (added.map Addition.pos).Perm (nameSites tokens) ∧ ∀ a ∈ added, a.StandsIn tokens := by
  obtain ⟨s, hread, -, hdefines⟩ := ofTokens_eq_ok_iff.1 h
  obtain ⟨added, hadds⟩ := hread.adds
  -- What is left is the end of the tokens alone.
  have hlast : s.sites = [] := by
    have heof := hread.peek_eof
    have hsuffix := hread.suffix
    rw [State.sites]
    rw [Input.peek] at heof
    generalize s.input.tokens = rest at heof hsuffix ⊢
    cases rest with
    | nil => rfl
    | cons t rest =>
      have hk : t.kind = .eof := heof
      rw [ht.suffix_of_eof hsuffix hk, nameSites, openings, if_neg (by rw [hk]; decide)]
      rfl
  refine ⟨added, hdefines ▸ hadds.table, ?_, hadds.stand⟩
  have hnames := hadds.names
  rw [hlast, List.append_nil] at hnames
  exact hnames.symm

/-- Definitions of templates merge whatever their order.  A sequence of definitions makes a table
unless two of them are rivals, and stops at the first with a rival before it; in the table each name
stands once, in the order of first definition, with its settled block; and definitions in another
order make a table exactly if these do, with the same blocks where they are not blank.  The
definitions of a text are merged so when it is read. -/
theorem definitions_merge :
    (∀ added e, defineAll [] added = .error e ↔
      ∃ a, FirstRival added a ∧ e = ⟨a.pos, .multipleDefinition a.name⟩) ∧
    (∀ added defines, defineAll [] added = .ok defines ↔
      added.Pairwise (¬ ·.Rivals ·) ∧ Merges added defines) ∧
    (∀ added added', added.Perm added' →
      ((∃ defines, defineAll [] added = .ok defines) ↔
        ∃ defines', defineAll [] added' = .ok defines') ∧
      ∀ defines defines', defineAll [] added = .ok defines → defineAll [] added' = .ok defines' →
        ∀ a ∈ added, a.root.isBlank = false →
          ⟨a.name, a.root⟩ ∈ defines ∧ ⟨a.name, a.root⟩ ∈ defines') ∧
    ∀ d source tokens, tokenize d source = .ok tokens →
      (∀ tree, Tree.ofTokens tokens = .ok tree →
        ∃ added, defineAll [] added = .ok tree.defines ∧
          (added.map Addition.pos).Perm (nameSites tokens) ∧ ∀ a ∈ added, a.StandsIn tokens) ∧
      ∀ pos name, Tree.ofTokens tokens = .error ⟨pos, .multipleDefinition name⟩ →
        ∃ added, defineAll [] added = .error ⟨pos, .multipleDefinition name⟩ ∧
          ∀ a ∈ added, a.StandsIn tokens := by
  refine ⟨fun _ _ => defineAll_eq_error_iff, fun _ _ => defineAll_eq_ok_iff, ?_, ?_⟩
  · intro added added' hperm
    refine ⟨?_, ?_⟩
    · rw [exists_defineAll_iff, exists_defineAll_iff, pairwise_not_rivals_perm hperm]
    · intro defines defines' h h' a ha hfull
      obtain ⟨hp, hm⟩ := defineAll_eq_ok_iff.1 h
      obtain ⟨hp', hm'⟩ := defineAll_eq_ok_iff.1 h'
      exact ⟨hm.mem_of_full hp ha hfull, hm'.mem_of_full hp' (hperm.subset ha) hfull⟩
  · intro d source tokens htokens
    refine ⟨fun tree htree => ofTokens_adds (tokenize_endsOnce htokens) htree, ?_⟩
    intro pos name herror
    exact (ofTokens_fails herror).adds rfl

end FieldAudit.Template
