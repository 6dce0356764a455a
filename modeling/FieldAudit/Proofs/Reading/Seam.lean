import FieldAudit.Proofs.ControlNesting

/-! # Token lists with a seam

Two token lists may have the same words up to some place, the seam, and go on in different ways
from there (`Joined`).  At the seam an action starts on both sides, or both lists end.  No pipe
reaches over the seam, so a pipe that is read before it on one side is read on the other side as
well, with the same shape (`Phrase.Reads.joined`).  Places may differ everywhere. -/

namespace FieldAudit.Template

/-- Two lists can follow a seam: the same left delimiter starts both, or both are empty. -/
structure Seam (back back' : List Token) : Prop where
  word : back.head?.map Token.word = back'.head?.map Token.word
  opens : ∀ t ∈ back.head?, t.kind = .leftDelim

/-- Two lists of tokens have the same words up to the seam.  The heads are those of the actions
that start before it. -/
inductive Joined (back back' : List Token) : List Head → List Token → List Token → Prop
  | seam : Joined back back' [] back back'
  | word {hs : List Head} {t t' : Token} {rest rest' : List Token} (hw : t.word = t'.word)
      (hk : t.kind ≠ .leftDelim) (h : Joined back back' hs rest rest') :
      Joined back back' hs (t :: rest) (t' :: rest')
  | opening {hs : List Head} {t t' : Token} {rest rest' : List Token} (hw : t.word = t'.word)
      (hk : t.kind = .leftDelim) (h : Joined back back' hs rest rest') :
      Joined back back' (.ofTokens rest :: hs) (t :: rest) (t' :: rest')

/-- Two inputs have the same variables in scope, and the same words up to the seam. -/
structure Input.Joined (back back' : List Token) (hs : List Head) (s s' : Input) : Prop where
  scope : s.scope = s'.scope
  tokens : Template.Joined back back' hs s.tokens s'.tokens

/-- Tokens of one word have one kind. -/
theorem Token.kind_of_word {t t' : Token} (h : t.word = t'.word) : t.kind = t'.kind :=
  congrArg Word.kind h

/-- Tokens of one word are spelled alike. -/
theorem Token.lexeme_of_word {t t' : Token} (h : t.word = t'.word) : t.lexeme = t'.lexeme :=
  congrArg Word.lexeme h

/-! ## Words before the seam -/

section Words

variable {back back' : List Token} {hs : List Head}

/-- A seam may be looked at from either side. -/
theorem Seam.symm (h : Seam back back') : Seam back' back where
  word := h.word.symm
  opens t' ht' := by
    obtain ⟨t, ht, hw⟩ := Option.map_eq_some_iff.1 (h.word.trans (congrArg (Option.map _) ht'))
    rw [← Token.kind_of_word hw]
    exact h.opens t ht

/-- Nothing is spanned where the first token is of another kind. -/
theorem span_of_head_ne {kind : Token.Kind} {tokens : List Token}
    (h : ∀ t ∈ tokens.head?, t.kind ≠ kind) :
    tokens.takeWhile (·.kind = kind) = [] ∧ tokens.dropWhile (·.kind = kind) = tokens := by
  cases tokens with
  | nil => exact ⟨rfl, rfl⟩
  | cons t rest => simp [h t rfl]

namespace Joined

variable {tokens tokens' : List Token}

/-- Joined tokens begin with the same word. -/
theorem head_word (hseam : Seam back back') (h : Joined back back' hs tokens tokens') :
    tokens.head?.map Token.word = tokens'.head?.map Token.word := by
  cases h with
  | seam => exact hseam.word
  | word hw hk h => exact congrArg some hw
  | opening hw hk h => exact congrArg some hw

/-- Any word but a left delimiter stands before the seam. -/
theorem tail (hseam : Seam back back') (h : Joined back back' hs tokens tokens')
    (hk : ∀ t ∈ tokens.head?, t.kind ≠ .leftDelim) :
    Joined back back' hs tokens.tail tokens'.tail := by
  cases h with
  | seam =>
    cases back with
    | nil =>
      have hnil : back' = [] := by simpa using hseam.word
      subst hnil
      exact .seam
    | cons t rest => exact absurd (hseam.opens t rfl) (hk t rfl)
  | word hw hk h => exact h
  | opening hw hopens h => exact absurd hopens (hk _ rfl)

/-- Tokens of one kind at the front are the same, and stand before the seam. -/
theorem span (hseam : Seam back back') (kind : Token.Kind) (hne : kind ≠ .leftDelim)
    (h : Joined back back' hs tokens tokens') :
    (tokens.takeWhile (·.kind = kind)).map Token.word =
        (tokens'.takeWhile (·.kind = kind)).map Token.word ∧
      Joined back back' hs (tokens.dropWhile (·.kind = kind))
        (tokens'.dropWhile (·.kind = kind)) := by
  induction h with
  | seam =>
    have hleft := span_of_head_ne fun t ht => by rw [hseam.opens t ht]; exact hne.symm
    have hright := span_of_head_ne fun t ht => by rw [hseam.symm.opens t ht]; exact hne.symm
    rw [hleft.1, hleft.2, hright.1, hright.2]
    exact ⟨rfl, .seam⟩
  | @word hs t t' rest rest' hw hk h ih =>
    have hkind := Token.kind_of_word hw
    by_cases ht : t.kind = kind
    · simp only [List.takeWhile_cons, List.dropWhile_cons, ← hkind, ht, decide_true, if_true,
        List.map_cons, hw, ih.1, true_and]
      exact ih.2
    · simp only [List.takeWhile_cons, List.dropWhile_cons, ← hkind, ht, decide_false,
        Bool.false_eq_true, if_false, true_and]
      exact .word hw hk h
  | opening hw hk h ih =>
    have hkind := Token.kind_of_word hw
    simp only [List.takeWhile_cons, List.dropWhile_cons, ← hkind, hk, hne.symm, decide_false,
      Bool.false_eq_true, if_false, true_and]
    exact .opening hw hk h

end Joined

/-- Inputs whose tokens begin with the same word show the same word. -/
theorem Input.peek_word_of_head {s s' : Input}
    (h : s.tokens.head?.map Token.word = s'.tokens.head?.map Token.word) :
    s.peek.word = s'.peek.word := by
  rw [peek, peek, List.headD_eq_head?_getD, List.headD_eq_head?_getD]
  cases hs : s.tokens.head? with
  | none =>
    rw [hs] at h
    rw [Option.map_eq_none_iff.1 h.symm]
  | some t =>
    rw [hs] at h
    obtain ⟨t', ht', hw⟩ := Option.map_eq_some_iff.1 h.symm
    rw [ht']
    exact hw.symm

namespace Input.Joined

variable {s s' : Input}

/-- Joined inputs show the same word. -/
theorem peek_word (hseam : Seam back back') (h : s.Joined back back' hs s') :
    s.peek.word = s'.peek.word :=
  peek_word_of_head (h.tokens.head_word hseam)

/-- Joined inputs stay joined behind a token that begins no action. -/
theorem tail (hseam : Seam back back') (h : s.Joined back back' hs s')
    (hk : s.peek.kind ≠ .leftDelim) : s.tail.Joined back back' hs s'.tail := by
  refine ⟨h.scope, h.tokens.tail hseam fun t ht => ?_⟩
  rw [peek, List.headD_eq_head?_getD, show s.tokens.head? = some t from ht] at hk
  exact hk

/-- Joined inputs stay joined behind spaces. -/
theorem skipSpace (hseam : Seam back back') (h : s.Joined back back' hs s') :
    s.skipSpace.Joined back back' hs s'.skipSpace :=
  ⟨h.scope, (h.tokens.span hseam .space (by decide)).2⟩

/-- Joined inputs stay joined when both declare a variable. -/
theorem declare (h : s.Joined back back' hs s') (name : String) :
    (s.declare name).Joined back back' hs (s'.declare name) :=
  ⟨congrArg (name :: ·) h.scope, h.tokens⟩

/-- Joined inputs have the same next word. -/
theorem peekWord_word (hseam : Seam back back') (h : s.Joined back back' hs s') :
    s.peekWord.word = s'.peekWord.word :=
  (h.skipSpace hseam).peek_word hseam

/-- The next words of joined inputs are of one kind. -/
theorem kind_eq (hseam : Seam back back') (h : s.Joined back back' hs s') :
    s.peekWord.kind = s'.peekWord.kind :=
  Token.kind_of_word (h.peekWord_word hseam)

/-- Joined inputs stay joined behind a word that begins no action. -/
theorem next (hseam : Seam back back') (h : s.Joined back back' hs s')
    (hk : s.peekWord.kind ≠ .leftDelim) : s.next.Joined back back' hs s'.next :=
  (h.skipSpace hseam).tail hseam hk

/-- A word of a kind is read on both sides. -/
theorem step (hseam : Seam back back') (h : s.Joined back back' hs s') {kind : Token.Kind}
    (hk : s.peekWord.kind = kind) (hne : kind ≠ .leftDelim) :
    s'.peekWord.kind = kind ∧ s.next.Joined back back' hs s'.next :=
  ⟨(h.kind_eq hseam).symm.trans hk, h.next hseam (by rwa [hk])⟩

/-- An action starts at the seam, or it is the next one before the seam. -/
theorem opening (hseam : Seam back back') (h : s.Joined back back' hs s')
    (hk : s.peekWord.kind = .leftDelim) :
    (hs = [] ∧ s.skipSpace.tokens = back ∧ s'.skipSpace.tokens = back') ∨
      ∃ hs', hs = .ofKinds s.next.peekWord.kind s.next.next.peekWord.kind :: hs' ∧
        s.next.Joined back back' hs' s'.next := by
  have hskip := (h.skipSpace hseam).tokens
  have htokens : s.skipSpace.tokens = s.peekWord :: s.next.tokens :=
    skipSpace_tokens (by rw [hk]; decide)
  have htokens' : s'.skipSpace.tokens = s'.peekWord :: s'.next.tokens :=
    skipSpace_tokens (by rw [← h.kind_eq hseam, hk]; decide)
  rw [htokens, htokens'] at hskip ⊢
  generalize hall : s.peekWord :: s.next.tokens = all at hskip
  generalize hall' : s'.peekWord :: s'.next.tokens = all' at hskip
  cases hskip with
  | seam => exact .inl ⟨rfl, rfl, rfl⟩
  | word hw hne hrest =>
    obtain ⟨rfl, -⟩ := List.cons.inj hall
    exact absurd hk hne
  | opening hw hopens hrest =>
    obtain ⟨rfl, rfl⟩ := List.cons.inj hall
    obtain ⟨rfl, rfl⟩ := List.cons.inj hall'
    exact .inr ⟨_, by rw [s.next.headOfTokens_eq], h.scope, hrest⟩

end Input.Joined

/-- The next action, or the end, does not matter for the head of an action before it. -/
theorem Head.ofTokens_append (h : ∀ t ∈ back.head?, t.kind = .leftDelim ∨ t.kind = .eof)
    (front : List Token) : Head.ofTokens (front ++ back) = Head.ofTokens front := by
  -- A left delimiter where a word is looked for says as little as the end.
  have hlast (kind : Token.Kind) : Head.ofKinds kind .leftDelim = Head.ofKinds kind .eof := by
    cases kind with
    | keyword word => cases word <;> rfl
    | _ => rfl
  have hback : wordsOf back = [] ∨
      ∃ t rest, (t.kind = .leftDelim ∨ t.kind = .eof) ∧ wordsOf back = t :: rest := by
    cases back with
    | nil => exact .inl rfl
    | cons t rest =>
      refine .inr ⟨t, wordsOf rest, h t rfl, List.filter_cons_of_pos ?_⟩
      rcases h t rfl with ht | ht <;> simp [ht]
  have happend : wordsOf (front ++ back) = wordsOf front ++ wordsOf back := List.filter_append ..
  rw [ofTokens, ofTokens, happend]
  rcases hback with hnil | ⟨t, rest, ht, hcons⟩
  · rw [hnil, List.append_nil]
  · rw [hcons]
    rcases wordsOf front with _ | ⟨first, _ | ⟨second, others⟩⟩
    · show ofKinds t.kind _ = _
      rcases ht with ht | ht <;> rw [ht] <;> rfl
    · show ofKinds first.kind t.kind = _
      rcases ht with ht | ht
      · rw [ht]
        exact hlast first.kind
      · rw [ht]
        rfl
    · rfl

/-- The heads before an action, or before the end, are those of the text before it. -/
theorem heads_append (h : ∀ t ∈ back.head?, t.kind = .leftDelim ∨ t.kind = .eof)
    (front : List Token) : heads (front ++ back) = heads front ++ heads back := by
  induction front with
  | nil => rfl
  | cons t rest ih =>
    rw [List.cons_append, heads, heads, Head.ofTokens_append h, ih]
    split <;> rfl

/-- Lists that have the same words are joined by whatever can follow a seam. -/
theorem Joined.of_words (hseam : Seam back back') {front front' : List Token}
    (h : front.map Token.word = front'.map Token.word) :
    Joined back back' (heads front) (front ++ back) (front' ++ back') := by
  induction front generalizing front' with
  | nil =>
    obtain rfl : front' = [] := by simpa using h.symm
    exact .seam
  | cons t rest ih =>
    obtain ⟨t', rest', rfl, hw, hrest⟩ := List.map_eq_cons_iff.1 h.symm
    by_cases hk : t.kind = .leftDelim
    · rw [heads, if_pos hk, ← Head.ofTokens_append fun t ht => .inl (hseam.opens t ht)]
      exact .opening hw.symm hk (ih hrest.symm)
    · rw [heads_cons_of_ne hk]
      exact .word hw.symm hk (ih hrest.symm)

end Words

/-! ## Shapes of what single tokens are read as -/

/-- What a token is read as depends on its word alone, up to places. -/
theorem IsAtom.of_word {scope : List String} {t t' : Token} {base : Node} (hw : t.word = t'.word)
    (h : IsAtom scope t base) : ∃ base', IsAtom scope t' base' ∧ base'.shape = base.shape := by
  obtain ⟨kind, lexeme, pos⟩ := t
  obtain ⟨kind', lexeme', pos'⟩ := t'
  obtain ⟨rfl, rfl⟩ : kind = kind' ∧ lexeme = lexeme' := Word.mk.inj hw
  cases h with
  | function hk hb => exact ⟨_, .function hk hb, rfl⟩
  | inScope hk hs => exact ⟨_, .inScope hk hs, rfl⟩
  | field hk => exact ⟨_, .field hk, rfl⟩
  | dot hk => exact ⟨_, .dot hk, rfl⟩
  | nil hk => exact ⟨_, .nil hk, rfl⟩
  | bool hk => exact ⟨_, .bool hk, rfl⟩
  | number hk hn => exact ⟨_, .number hk hn, rfl⟩
  | charConstant hk hu => exact ⟨_, .charConstant hk hu, rfl⟩
  | string hk hu => exact ⟨_, .string hk hu, rfl⟩

/-- The shape of a node with fields is the shape of the node with those fields. -/
theorem select_shape (pos : Nat) (fields : List String) (node : Node) :
    (node.select pos fields).shape = node.shape.select 0 fields := by
  cases node <;> simp only [Node.select, Node.shape, Variable.shape]

/-- Tokens of the same words name the same fields. -/
theorem fieldNames_of_words {tokens tokens' : List Token}
    (h : tokens.map Token.word = tokens'.map Token.word) :
    tokens.map (fun t => String.ofList t.lexeme.tail) =
      tokens'.map (fun t => String.ofList t.lexeme.tail) := by
  have hnames := congrArg (List.map fun w : Word => String.ofList w.lexeme.tail) h
  rwa [List.map_map, List.map_map] at hnames

/-- Whether a pipe passes the check depends on its shape alone. -/
theorem Pipe.check_of_shape_eq {context : Context} {pos pos' : Nat} {decls decls' : List Variable}
    {cs cs' : List (Command Node)} (hshape : commandsShape cs' = commandsShape cs)
    (h : Pipe.check context ⟨pos, decls, cs⟩ = .ok ⟨pos, decls, cs⟩) :
    Pipe.check context ⟨pos', decls', cs'⟩ = .ok ⟨pos', decls', cs'⟩ := by
  obtain ⟨hne, hvalues⟩ := Pipe.fits_of_check h
  exact Pipe.check_of_shape hshape hne hvalues

/-! ## Pipes before the seam -/

section Pipes

variable {back back' : List Token} {hs : List Head} {s s' t : Input}

/-- Joined inputs read the same trailing fields, and stay joined. -/
theorem withFields_joined (hseam : Seam back back') {node base : Node}
    (h : withFields base s = .ok (node, t)) (hj : s.Joined back back' hs s') {base' : Node}
    (hshape : base'.shape = base.shape) :
    ∃ node' t', withFields base' s' = .ok (node', t') ∧ node'.shape = node.shape ∧
      t.Joined back back' hs t' := by
  have hkind := Token.kind_of_word (hj.peek_word hseam)
  rcases withFields_cases h with ⟨hk, rfl, rfl⟩ | ⟨first, rest, hfields, hk, hl, rfl, rfl⟩
  · exact ⟨base', s', withFields_of_ne (by rwa [← hkind]), hshape, hj⟩
  · obtain ⟨hwords, hrest⟩ := hj.tokens.span hseam .field (by decide)
    have hnames := fieldNames_of_words hwords
    have hl' : base'.isLiteral = false := by
      rw [← isLiteral_shape, hshape, isLiteral_shape, hl]
    rw [hfields] at hwords hnames
    obtain ⟨first', rest', hfields', -, -⟩ := List.map_eq_cons_iff.1 hwords.symm
    refine ⟨base'.select first'.pos ((first' :: rest').map fun t => String.ofList t.lexeme.tail),
      { s' with tokens := s'.tokens.dropWhile (·.kind = .field) }, ?_, ?_, hj.scope, hrest⟩
    · simp only [withFields, hfields', hl', Bool.false_eq_true, if_false]
    · rw [select_shape, select_shape, hshape, hnames, hfields']

/-- A variable stands on both sides, and if a mark follows it, so does the rest after the mark. -/
theorem Input.Joined.declared (hseam : Seam back back') (hj : s.Joined back back' hs s')
    (hv : s.peekWord.kind = .variable) :
    s'.peekWord.kind = .variable ∧ s'.next.peekWord.kind = s.next.peekWord.kind ∧
      s'.declared.shape = s.declared.shape ∧
      (s.next.peekWord.kind.isMark = true →
        s.afterDeclared.Joined back back' hs s'.afterDeclared) := by
  have hword := hj.peekWord_word hseam
  have hlexeme := Token.lexeme_of_word hword
  have hnext := hj.next hseam (by rw [hv]; decide)
  refine ⟨(Token.kind_of_word hword).symm.trans hv, (hnext.kind_eq hseam).symm, ?_, fun hm => ?_⟩
  · simp [Input.declared, Variable.shape, hlexeme]
  · rw [Input.afterDeclared, Input.afterDeclared, hlexeme]
    exact (hnext.next hseam (ne_of_isMark hm rfl)).declare _

/-- Joined inputs read the same declarations, and stay joined. -/
theorem Declares.joined (hseam : Seam back back') {more : Nat} {decls : List Variable}
    (h : Declares more decls s t) (hj : s.Joined back back' hs s') :
    ∃ decls' t', Declares more decls' s' t' ∧
      decls'.map Variable.shape = decls.map Variable.shape ∧ t.Joined back back' hs t' := by
  -- Each declaration is one step on both sides, and whether one follows is seen from the mark.
  induction h generalizing s' with
  | none hn =>
    refine ⟨[], s', .none fun hv' => ?_, rfl, hj⟩
    obtain ⟨-, hmark, -, -⟩ := hj.declared hseam ((hj.kind_eq hseam).trans hv')
    rw [hmark]
    exact hn ((hj.kind_eq hseam).trans hv')
  | last hv hm =>
    obtain ⟨hv', hmark, hshape, hafter⟩ := hj.declared hseam hv
    refine ⟨[s'.declared], s'.afterDeclared, .last hv' (by rwa [hmark]), ?_, hafter ?_⟩
    · simp [hshape]
    · rcases hm with hm | hm <;> rw [hm] <;> rfl
  | cons hv hm hk h ih =>
    obtain ⟨hv', hmark, hshape, hafter⟩ := hj.declared hseam hv
    have hafter := hafter (by rw [hm]; rfl)
    obtain ⟨decls', t', h', hshapes, ht⟩ := ih hafter
    refine ⟨s'.declared :: decls', t', .cons hv' (by rwa [hmark]) ?_ h', ?_, ht⟩
    · rwa [← hafter.kind_eq hseam]
    · rw [List.map_cons, List.map_cons, hshape, hshapes]

/-- A phrase of the same shape is read on the other side, up to a place with the same words. -/
def Phrase.IsCopied (R : Input → Input → Prop) (s' t : Input) : Phrase → Prop
  | .pipe context close p =>
    ∃ p' t', (Phrase.pipe context close p').Reads s' t' ∧ pipeShape p' = pipeShape p ∧ R t t'
  | .commands close cs =>
    ∃ cs' t', (Phrase.commands close cs').Reads s' t' ∧ commandsShape cs' = commandsShape cs ∧
      R t t'
  | .arguments args =>
    ∃ args' t', (Phrase.arguments args').Reads s' t' ∧ nodesShape args' = nodesShape args ∧ R t t'
  | .operand arg =>
    ∃ arg' t', (Phrase.operand arg').Reads s' t' ∧ arg'.map Node.shape = arg.map Node.shape ∧
      R t t'

/-- Shapes of lists are put one behind the other. -/
theorem nodesShape_append (first second : List Node) :
    nodesShape (first ++ second) = nodesShape first ++ nodesShape second := by
  induction first with
  | nil => rfl
  | cons node rest ih => rw [List.cons_append, nodesShape, nodesShape, ih, List.cons_append]

/-- Optional nodes of one shape are lists of one shape. -/
theorem nodesShape_toList {arg arg' : Option Node}
    (h : arg'.map Node.shape = arg.map Node.shape) :
    nodesShape arg'.toList = nodesShape arg.toList := by
  cases arg <;> cases arg' <;> simp_all [nodesShape]

/-- A phrase before the seam is read on both sides, with the same shape. -/
theorem Phrase.Reads.joined (hseam : Seam back back') {phrase : Phrase} (h : phrase.Reads s t)
    (hc : phrase.closeKind ≠ .leftDelim) (hj : s.Joined back back' hs s') :
    phrase.IsCopied (Input.Joined back back' hs) s' t := by
  -- By induction on the rules.  Each looks at words before the seam, or at the left delimiter that
  -- stands at the seam on both sides, and none goes past a left delimiter.
  induction h generalizing s' with
  | @pipe context close s s₁ s₂ decls commands hd hr hp ih =>
    obtain ⟨decls', t₁, hd', hdecls, hj₁⟩ := (declarations_eq_ok_iff.1 hd).joined hseam hj
    obtain ⟨commands', t₂, hr', hcommands, hj₂⟩ := ih hc hj₁
    refine ⟨_, t₂, .pipe (declarations_eq_ok_iff.2 hd') hr'
      (Pipe.check_of_shape_eq hcommands hp), ?_, hj₂⟩
    rw [pipeShape, pipeShape, hdecls, hcommands]
  | @close s =>
    refine ⟨[], s'.next, ?_, rfl, hj.next hseam hc⟩
    rw [hj.kind_eq hseam]
    exact .close
  | @command close s s₁ s₂ args rest hk hs' ha hn hl hr iha ihr =>
    obtain ⟨args', t₁, ha', hargs, hj₁⟩ := iha (by simp [closeKind]) hj
    obtain ⟨rest', t₂, hr', hrest, hj₂⟩ := ihr hc hj₁
    rw [hj.kind_eq hseam] at hk hs'
    obtain ⟨hne, hlt⟩ := ha'.arguments_progress hs'
    refine ⟨_, t₂, .command hk hs' ha' hne hlt hr', ?_, hj₂⟩
    rw [commandsShape, commandsShape, commandShape, commandShape, hargs, hrest]
  | @spaced s s₁ s₂ arg args ho hk hl ha iho iha =>
    obtain ⟨arg', t₁, ho', harg, hj₁⟩ := iho hc (hj.skipSpace hseam)
    have hk' : t₁.peek.kind = .space := by
      rw [← Token.kind_of_word (hj₁.peek_word hseam), hk]
    have hlt := ho'.size_afterSpace_lt hk'
    obtain ⟨args', t₂, ha', hargs, hj₂⟩ := iha hc (hj₁.tail hseam (by rw [hk]; decide))
    refine ⟨_, t₂, .spaced ho' hk' hlt ha', ?_, hj₂⟩
    rw [nodesShape_append, nodesShape_append, nodesShape_toList harg, hargs]
  | @closed s s₁ arg ho hk ih =>
    obtain ⟨arg', t₁, ho', harg, hj₁⟩ := ih hc (hj.skipSpace hseam)
    rw [Token.kind_of_word (hj₁.peek_word hseam)] at hk
    exact ⟨_, t₁, .closed ho' hk, nodesShape_toList harg, hj₁⟩
  | @piped s s₁ arg ho hk ih =>
    obtain ⟨arg', t₁, ho', harg, hj₁⟩ := ih hc (hj.skipSpace hseam)
    have hk' : t₁.peek.kind = .pipe := by
      rw [← Token.kind_of_word (hj₁.peek_word hseam), hk]
    exact ⟨_, t₁.tail, .piped ho' hk', nodesShape_toList harg, hj₁.tail hseam (by rw [hk]; decide)⟩
  | @parenthesis s s₁ s₂ pipe node hk hp hf ih =>
    obtain ⟨pipe', t₁, hp', hpipe, hj₁⟩ :=
      ih (by simp [closeKind]) (hj.next hseam (by rw [hk]; decide))
    have hbase : (Node.pipe pipe').shape = (Node.pipe pipe).shape := by
      simp only [Node.shape, hpipe]
    obtain ⟨node', t₂, hf', hnode, hj₂⟩ := withFields_joined hseam hf hj₁ hbase
    rw [hj.kind_eq hseam] at hk
    exact ⟨some node', t₂, .parenthesis hk hp' hf', congrArg some hnode, hj₂⟩
  | @atom s s₁ base node ha hf =>
    obtain ⟨base', ha', hbase⟩ := (atom?_eq_some_iff.1 ha).of_word (hj.peekWord_word hseam)
    have hnext := hj.next hseam (ne_of_atom? ha rfl)
    obtain ⟨node', t₁, hf', hnode, hj₁⟩ := withFields_joined hseam hf hnext hbase
    rw [hj.scope] at ha'
    exact ⟨some node', t₁, .atom (atom?_eq_some_iff.2 ha') hf', congrArg some hnode, hj₁⟩
  | @absent s hk ha =>
    rw [atom?_eq_none_iff, hj.kind_eq hseam, ← atom?_eq_none_iff] at ha
    rw [hj.kind_eq hseam] at hk
    exact ⟨none, s'.skipSpace, .absent hk ha, rfl, hj.skipSpace hseam⟩

end Pipes

end FieldAudit.Template
