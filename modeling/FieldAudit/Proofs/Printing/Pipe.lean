import FieldAudit.Proofs.Printing.Canonical

/-! # Reading written pipes

The words of a pipe that fits can be read, whatever tokens follow its closing token, and what is
read has the shape of the pipe (`pipe_words`).  The proof builds a reading by the grammar, part by
part: operands, arguments, commands and declarations. -/

namespace FieldAudit.Template

/-! ## Spaces and marks -/

namespace Input

variable {t : Token} {tokens : List Token} {scope : List String}

/-- A token that is no space is the next word. -/
theorem peekWord_of_ne (h : t.kind ≠ .space) : peekWord ⟨t :: tokens, scope⟩ = t := by
  rw [peekWord, skipSpace_of_ne h]
  rfl

/-- Reading a token that is no space drops it. -/
theorem next_of_ne (h : t.kind ≠ .space) : next ⟨t :: tokens, scope⟩ = ⟨tokens, scope⟩ := by
  rw [next, skipSpace_of_ne h]
  rfl

/-- The next word stands behind a space. -/
theorem peekWord_of_space {s : Input} (h : s.peek.kind = .space) :
    s.peekWord = s.tail.peekWord := by
  obtain ⟨tokens, scope⟩ := s
  cases tokens with
  | nil => rfl
  | cons t rest =>
    have ht : t.kind = .space := h
    rw [peekWord, skipSpace_of_space ht]
    rfl

/-- Spaces are skipped once. -/
theorem skipSpace_skipSpace (s : Input) : s.skipSpace.skipSpace = s.skipSpace := by
  obtain ⟨tokens, scope⟩ := s
  induction tokens with
  | nil => rfl
  | cons t rest ih =>
    by_cases h : t.kind = .space
    · rw [skipSpace_of_space h, ih]
    · rw [skipSpace_of_ne h, skipSpace_of_ne h]

/-! Inputs that differ in the spaces before the next word have the same words. -/

variable {r s : Input}

/-- Inputs that differ in leading spaces show the same word. -/
theorem peekWord_of_skipSpace_eq (h : r.skipSpace = s.skipSpace) : r.peekWord = s.peekWord :=
  congrArg Input.peek h

/-- Inputs that differ in leading spaces go on alike. -/
theorem next_of_skipSpace_eq (h : r.skipSpace = s.skipSpace) : r.next = s.next :=
  congrArg Input.tail h

/-- Inputs that differ in leading spaces have the same scope. -/
theorem scope_of_skipSpace_eq (h : r.skipSpace = s.skipSpace) : r.scope = s.scope :=
  show r.skipSpace.scope = s.skipSpace.scope by rw [h]

end Input

/-- Whether a token of this kind closes a pipe. -/
def Token.Kind.closesPipe (kind : Token.Kind) : Prop :=
  kind = .rightDelim ∨ kind = .rightParen

/-- What starts an operand is no mark. -/
theorem isMark_of_startsOperand {kind : Token.Kind} (h : kind.startsOperand = true) :
    kind.isMark = false := by
  cases kind <;> first | rfl | cases h

/-- No mark stands where arguments start. -/
theorem Phrase.Reads.isMark_arguments {args : List Node} {s s' : Input}
    (h : (Phrase.arguments args).Reads s s') : s.peekWord.kind.isMark = false := by
  have first {arg : Option Node} {s₁ : Input} (ho : (Phrase.operand arg).Reads s.skipSpace s₁)
      (hk : s₁.peek.kind.isMark = false) : s.peekWord.kind.isMark = false := by
    have hword := Input.peekWord_of_skipSpace_eq s.skipSpace_skipSpace
    cases ho with
    | parenthesis hp => rw [← hword, hp]; rfl
    | atom ha => rw [← hword]; exact isMark_of_startsOperand (atom?_eq_some_iff.1 ha).startsOperand
    | absent => rw [Input.skipSpace_skipSpace] at hk; exact hk
  cases h with
  | spaced ho hk => exact first ho (by rw [hk]; rfl)
  | closed ho hk => exact first ho (by rcases hk with hk | hk <;> rw [hk] <;> rfl)
  | piped ho hk => exact first ho (by rw [hk]; rfl)

/-- A variable that is read as an operand is read alone, or a field follows it. -/
theorem Phrase.Reads.operand_variable {arg : Option Node} {s s' : Input}
    (h : (Phrase.operand arg).Reads s s') (hv : s.peekWord.kind = .variable) :
    s' = s.next ∨ s.next.peek.kind = .field := by
  cases h with
  | parenthesis hk => rw [hv] at hk; cases hk
  | atom ha hf =>
    rcases withFields_cases hf with ⟨-, -, hs⟩ | ⟨first, rest, -, hp, -⟩
    · exact .inl hs
    · exact .inr hp
  | absent hk ha =>
    rw [atom?_eq_none_iff, hv] at ha
    rcases ha with ha | ha <;> cases ha

/-- No mark follows a variable that starts an argument. -/
theorem Phrase.Reads.isMark_next {args : List Node} {s s' : Input}
    (h : (Phrase.arguments args).Reads s s') (hv : s.peekWord.kind = .variable) :
    s.next.peekWord.kind.isMark = false := by
  have hword := Input.peekWord_of_skipSpace_eq s.skipSpace_skipSpace
  have hnext := Input.next_of_skipSpace_eq s.skipSpace_skipSpace
  have after {arg : Option Node} {s₁ : Input} (ho : (Phrase.operand arg).Reads s.skipSpace s₁)
      (hk : s₁.peekWord.kind.isMark = false) : s.next.peekWord.kind.isMark = false := by
    have hcases := ho.operand_variable (by rw [hword, hv])
    rw [hnext] at hcases
    rcases hcases with rfl | hf
    · exact hk
    · rw [Input.peekWord, Input.skipSpace_eq_self (by rw [hf]; decide), hf]
      rfl
  have alone {s₁ : Input} {kind : Token.Kind} (hk : s₁.peek.kind = kind) (hs : kind ≠ .space)
      (hm : kind.isMark = false) : s₁.peekWord.kind.isMark = false := by
    rw [Input.peekWord, Input.skipSpace_eq_self (by rw [hk]; exact hs), hk, hm]
  cases h with
  | spaced ho hk hl ha =>
    refine after ho ?_
    rw [Input.peekWord_of_space hk]
    exact ha.isMark_arguments
  | closed ho hk =>
    rcases hk with hk | hk
    · exact after ho (alone hk (by decide) rfl)
    · exact after ho (alone hk (by decide) rfl)
  | piped ho hk => exact after ho (alone hk (by decide) rfl)

/-- Commands that are read declare no variable. -/
theorem Phrase.Reads.declarations_nil {close : Token.Kind} {cs : List (Command Node)} {s s' : Input}
    (h : (Phrase.commands close cs).Reads s s') (hc : close.closesPipe) (context : Context)
    (more : Nat) : declarations context more s = .ok ([], s) := by
  -- A variable at the front is declared only if a mark follows it.
  refine declarations_eq_ok_iff.2 (.none fun hv => ?_)
  cases h with
  | close => rw [hv] at hc; rcases hc with hc | hc <;> cases hc
  | command hk hs ha => exact ha.isMark_next hv

/-- A token with the word of a name is spelled as that name. -/
theorem lexeme_of_word {t : Token} {kind : Token.Kind} {name : String}
    (h : t.word = ⟨kind, name.toList⟩) : String.ofList t.lexeme = name := by
  rw [show t.lexeme = name.toList from congrArg Word.lexeme h, String.ofList_toList]

/-- Declarations begin with the word of a variable. -/
theorem declarationWords_cons {v : Variable} {rest : List Variable}
    (h : (v :: rest).all (·.path.length = 1) = true) :
    ∃ name words, declarationWords (v :: rest) = ⟨.variable, name⟩ :: words := by
  obtain ⟨pos, path⟩ := v
  have hv : path.length = 1 := by simpa using (List.all_eq_true.1 h) _ List.mem_cons_self
  obtain ⟨name, rfl⟩ := List.length_eq_one_iff.1 hv
  cases rest with
  | nil => exact ⟨_, _, rfl⟩
  | cons u rest => exact ⟨_, _, rfl⟩

/-- Declared variables are read with their marks. -/
theorem declarations_words {context : Context} {decls : List Variable} (hne : decls ≠ [])
    (hpath : decls.all (·.path.length = 1) = true) {more : Nat} (hmore : decls.length ≤ more + 1)
    {tokens : List Token} (hw : tokens.map Token.word = declarationWords decls) (rest : List Token)
    (scope : List String) :
    ∃ read : List Variable, read.map Variable.shape = decls.map Variable.shape ∧
      declarations context more ⟨tokens ++ rest, scope⟩ =
        .ok (read, ⟨rest, declareAll decls scope⟩) := by
  induction decls generalizing more tokens scope with
  | nil => exact absurd rfl hne
  | cons v others ih =>
    obtain ⟨pos, path⟩ := v
    obtain ⟨hv, hothers⟩ : path.length = 1 ∧ others.all (·.path.length = 1) = true := by
      simpa using hpath
    obtain ⟨name, rfl⟩ := List.length_eq_one_iff.1 hv
    cases others with
    | nil =>
      obtain ⟨t, _, rfl, ht, hw⟩ := List.map_eq_cons_iff.1 hw
      obtain ⟨mark, _, rfl, hm, hw⟩ := List.map_eq_cons_iff.1 hw
      obtain rfl := List.map_eq_nil_iff.1 hw
      have hk : t.kind = .variable := congrArg Word.kind ht
      have hd : mark.kind = .declare := congrArg Word.kind hm
      refine ⟨[⟨t.pos, [name]⟩], rfl, ?_⟩
      rw [declarations]
      simp [Input.peekWord_of_ne, Input.next_of_ne, hk, hd, lexeme_of_word ht, Input.declare,
        declareAll]
    | cons u others =>
      obtain ⟨t, _, rfl, ht, hw⟩ := List.map_eq_cons_iff.1 hw
      obtain ⟨mark, tokens, rfl, hm, hw⟩ := List.map_eq_cons_iff.1 hw
      have hk : t.kind = .variable := congrArg Word.kind ht
      have hd : mark.kind = .comma := congrArg Word.kind hm
      obtain ⟨more, rfl⟩ : ∃ m, more = m + 1 := ⟨more - 1, by simp at hmore; omega⟩
      obtain ⟨read, hread, hdecl⟩ := ih (by simp) hothers (by simpa using hmore) hw (name :: scope)
      -- The next variable stands right after the comma.
      have hnext : (Input.mk (tokens ++ rest) (name :: scope)).peekWord.kind = .variable := by
        obtain ⟨next, words, hwords⟩ := declarationWords_cons hothers
        rw [hwords] at hw
        obtain ⟨t', _, rfl, ht', -⟩ := List.map_eq_cons_iff.1 hw
        have hk' : t'.kind = .variable := congrArg Word.kind ht'
        rw [List.cons_append, Input.peekWord_of_ne (by rw [hk']; decide), hk']
      refine ⟨⟨t.pos, [name]⟩ :: read, by rw [List.map_cons, hread]; rfl, ?_⟩
      rw [declarations]
      simp [Input.peekWord_of_ne, Input.next_of_ne, hk, hd, lexeme_of_word ht, Input.declare,
        hnext, hdecl]
      rfl

/-! ## Operands -/

/-- Without a field behind it a node is left as it is. -/
theorem withFields_of_ne {node : Node} {s : Input} (h : s.peek.kind ≠ .field) :
    withFields node s = .ok (node, s) := by
  rw [withFields, (Input.span_field_of_ne h).1]

/-- Tokens with the words of a path are fields, named as the path says. -/
theorem fields_of_words {path : List String} {tokens : List Token}
    (hw : tokens.map Token.word = path.map Word.field) :
    (∀ t ∈ tokens, t.kind = .field) ∧
      tokens.map (fun t => String.ofList t.lexeme.tail) = path := by
  induction path generalizing tokens with
  | nil =>
    obtain rfl := List.map_eq_nil_iff.1 hw
    exact ⟨List.forall_mem_nil _, rfl⟩
  | cons name path ih =>
    obtain ⟨t, tokens, rfl, ht, hw⟩ := List.map_eq_cons_iff.1 hw
    have hk : t.kind = .field := congrArg Word.kind ht
    have hl : t.lexeme = '.' :: name.toList := congrArg Word.lexeme ht
    obtain ⟨hfields, hnames⟩ := ih hw
    refine ⟨List.forall_mem_cons.2 ⟨hk, hfields⟩, ?_⟩
    rw [List.map_cons, hnames, hl, List.tail_cons, String.ofList_toList]

/-- Written fields are taken from the node before them. -/
theorem withFields_words {node : Node} {path : List String} {tokens rest : List Token}
    {scope : List String} (hw : tokens.map Token.word = path.map Word.field)
    (hr : (Input.mk rest scope).peek.kind ≠ .field) (hl : path ≠ [] → node.isLiteral = false) :
    ∃ pos, withFields node ⟨tokens ++ rest, scope⟩ =
      .ok (if path = [] then node else node.select pos path, ⟨rest, scope⟩) := by
  obtain ⟨hfields, hnames⟩ := fields_of_words hw
  have hrest : rest.takeWhile (·.kind = .field) = [] ∧ rest.dropWhile (·.kind = .field) = rest :=
    Input.span_field_of_ne hr
  have htake : (tokens ++ rest).takeWhile (·.kind = .field) = tokens := by
    rw [List.takeWhile_append_of_pos (by simpa using hfields), hrest.1, List.append_nil]
  have hdrop : (tokens ++ rest).dropWhile (·.kind = .field) = rest := by
    rw [List.dropWhile_append_of_pos (by simpa using hfields), hrest.2]
  cases tokens with
  | nil =>
    subst hnames
    exact ⟨0, withFields_of_ne hr⟩
  | cons t tokens =>
    have hne : path ≠ [] := by rw [← hnames]; simp
    refine ⟨t.pos, ?_⟩
    simp only [withFields, htake, hdrop, hnames, hl hne, if_neg hne]
    rfl

/-- A single token and the fields after it are read as an operand. -/
theorem operand_of_atom {t : Token} {tokens rest : List Token} {scope : List String}
    {base node : Node} (ha : atom? scope t = .ok (some base))
    (hf : withFields base ⟨tokens ++ rest, scope⟩ = .ok (node, ⟨rest, scope⟩)) :
    (Phrase.operand (some node)).Reads ⟨t :: tokens ++ rest, scope⟩ ⟨rest, scope⟩ := by
  have hk : t.kind ≠ .space := ne_of_atom? ha rfl
  apply Phrase.Reads.atom
  · rw [List.cons_append, Input.peekWord_of_ne hk]
    exact ha
  · rw [List.cons_append, Input.next_of_ne hk]
    exact hf

/-- An operand of the given shape is read from the tokens, and the rest of them is left. -/
def OperandRead (n : Node) (tokens rest : List Token) (scope scope' : List String) : Prop :=
  ∃ read : Node, read.shape = n.shape ∧
    (Phrase.operand (some read)).Reads ⟨tokens ++ rest, scope⟩ ⟨rest, scope'⟩

section Atoms

variable {tokens rest : List Token} {scope : List String}

/-- A single token with written fields after it is read as an operand. -/
theorem operand_of_fields {t : Token} {base : Node} {path : List String}
    (ha : atom? scope t = .ok (some base)) (hw : tokens.map Token.word = path.map Word.field)
    (hr : (Input.mk rest scope).peek.kind ≠ .field) (hl : path ≠ [] → base.isLiteral = false) :
    ∃ pos, (Phrase.operand (some (if path = [] then base else base.select pos path))).Reads
      ⟨t :: tokens ++ rest, scope⟩ ⟨rest, scope⟩ := by
  obtain ⟨pos, hf⟩ := withFields_words hw hr hl
  exact ⟨pos, operand_of_atom ha hf⟩

/-- The words of a chain of fields are read as that chain. -/
theorem operand_field (pos : Nat) {path : List String} (hne : path ≠ [])
    (hw : tokens.map Token.word = (Node.field pos path).words)
    (hr : (Input.mk rest scope).peek.kind ≠ .field) :
    OperandRead (.field pos path) tokens rest scope scope := by
  cases path with
  | nil => exact absurd rfl hne
  | cons name path =>
    obtain ⟨t, tokens, rfl, ht, hw⟩ := List.map_eq_cons_iff.1 hw
    have hk : t.kind = .field := congrArg Word.kind ht
    have hlex : t.lexeme = '.' :: name.toList := congrArg Word.lexeme ht
    have ha : atom? scope t = .ok (some (.field t.pos [name])) := by
      rw [atom?_eq_some_iff.2 (.field hk), hlex, List.tail_cons, String.ofList_toList]
    obtain ⟨pos', hread⟩ := operand_of_fields ha hw hr fun _ => rfl
    refine ⟨_, ?_, hread⟩
    split
    next hp => rw [hp]; rfl
    next => rfl

/-- The words of a variable in scope are read as that variable. -/
theorem operand_variable {v : Variable} (hs : v.inScope scope = true)
    (hw : tokens.map Token.word = v.words) (hr : (Input.mk rest scope).peek.kind ≠ .field) :
    OperandRead (.variable v) tokens rest scope scope := by
  obtain ⟨pos, path⟩ := v
  cases path with
  | nil => cases hs
  | cons name path =>
    obtain ⟨t, tokens, rfl, ht, hw⟩ := List.map_eq_cons_iff.1 hw
    have hk : t.kind = .variable := congrArg Word.kind ht
    have hin : scope.contains name = true := hs
    have ha : atom? scope t = .ok (some (.variable ⟨t.pos, [name]⟩)) := by
      rw [← lexeme_of_word ht] at hin ⊢
      exact atom?_eq_some_iff.2 (.inScope hk hin)
    obtain ⟨pos', hread⟩ := operand_of_fields ha hw hr fun _ => rfl
    refine ⟨_, ?_, hread⟩
    split
    next hp => rw [hp]; rfl
    next => rfl

/-- The name of a function, with the fields taken from its result. -/
theorem operand_identifier {t : Token} {name : String} {path : List String}
    (hb : builtinFunctions.contains name = true) (ht : t.word = ⟨.identifier, name.toList⟩)
    (hw : tokens.map Token.word = path.map Word.field)
    (hr : (Input.mk rest scope).peek.kind ≠ .field) :
    ∃ pos, (Phrase.operand (some (if path = [] then .identifier t.pos name true
      else .chain pos (.identifier t.pos name true) path))).Reads
        ⟨t :: tokens ++ rest, scope⟩ ⟨rest, scope⟩ := by
  have hk : t.kind = .identifier := congrArg Word.kind ht
  have ha : atom? scope t = .ok (some (.identifier t.pos name true)) := by
    rw [← lexeme_of_word ht] at hb ⊢
    exact atom?_eq_some_iff.2 (.function hk hb)
  exact operand_of_fields ha hw hr fun _ => rfl

/-- A literal is read from its token alone. -/
theorem operand_literal {n base : Node} {t : Token} (ha : atom? scope t = .ok (some base))
    (hb : base.shape = n.shape) (hr : (Input.mk rest scope).peek.kind ≠ .field) :
    OperandRead n [t] rest scope scope :=
  ⟨base, hb, operand_of_atom ha (withFields_of_ne hr)⟩

/-- A literal accepted by the reader has a text. -/
theorem unquote_of_isOk {literal : List Char} (h : (Literal.unquote literal).isOk = true) :
    ∃ text, Literal.unquote literal = .ok text := by
  cases hu : Literal.unquote literal with
  | error e => rw [hu] at h; cases h
  | ok text => exact ⟨text, rfl⟩

/-- Written literals are read. -/
theorem operand_of_isLiteral {n : Node} (hl : n.isLiteral = true) (hf : n.fitsCommand = true)
    (hw : tokens.map Token.word = n.words) (hr : (Input.mk rest scope).peek.kind ≠ .field) :
    OperandRead n tokens rest scope scope := by
  cases n with
  | dot pos =>
    obtain ⟨t, rfl, ht⟩ := List.map_eq_singleton_iff.1 hw
    have hk : t.kind = .dot := congrArg Word.kind ht
    exact operand_literal (atom?_eq_some_iff.2 (.dot hk)) rfl hr
  | nil pos =>
    obtain ⟨t, rfl, ht⟩ := List.map_eq_singleton_iff.1 hw
    have hk : t.kind = .keyword .nilKw := congrArg Word.kind ht
    exact operand_literal (atom?_eq_some_iff.2 (.nil hk)) rfl hr
  | bool pos value =>
    obtain ⟨t, rfl, ht⟩ := List.map_eq_singleton_iff.1 hw
    have hk : t.kind = .bool := congrArg Word.kind ht
    have hv : t.lexeme = if value then "true".toList else "false".toList := congrArg Word.lexeme ht
    refine operand_literal (atom?_eq_some_iff.2 (.bool hk)) ?_ hr
    rw [hv]
    cases value <;> rfl
  | number pos literal =>
    obtain ⟨t, rfl, ht⟩ := List.map_eq_singleton_iff.1 hw
    have hlex : t.lexeme = literal := congrArg Word.lexeme ht
    have ha : IsAtom scope t (.number t.pos t.lexeme) := by
      -- A literal that is no number fits only as a character constant.
      by_cases hn : Literal.isNumber literal = true
      · exact .number ((congrArg Word.kind ht).trans (if_pos hn)) (by rwa [hlex])
      · obtain ⟨text, hu⟩ : ∃ text, Literal.unquote literal = .ok text :=
          unquote_of_isOk (by simpa [Node.fitsCommand, hn] using hf)
        exact .charConstant ((congrArg Word.kind ht).trans (if_neg hn)) (by rwa [hlex])
    exact operand_literal (atom?_eq_some_iff.2 ha) (by rw [hlex]; rfl) hr
  | string pos literal =>
    obtain ⟨t, rfl, ht⟩ := List.map_eq_singleton_iff.1 hw
    have hlex : t.lexeme = literal := congrArg Word.lexeme ht
    have hk : t.kind = .string ∨ t.kind = .rawString := by
      rw [show t.kind = _ from congrArg Word.kind ht]
      dsimp only
      split
      · exact .inr rfl
      · exact .inl rfl
    obtain ⟨text, hu⟩ : ∃ text, Literal.unquote literal = .ok text :=
      unquote_of_isOk (by simpa [Node.fitsCommand] using hf)
    rw [← hlex] at hu
    exact operand_literal (atom?_eq_some_iff.2 (.string hk hu)) (by rw [hlex]; rfl) hr
  | _ => cases hl

end Atoms

/-! ## Pipes -/

/-- The shapes of commands are taken one by one. -/
theorem commandsShape_eq_map (cs : List (Command Node)) :
    commandsShape cs = cs.map commandShape := by
  induction cs with
  | nil => rfl
  | cons c rest ih => rw [commandsShape, ih, List.map_cons]

/-- A shape is a literal exactly if its node is. -/
theorem isLiteral_shape (n : Node) : n.shape.isLiteral = n.isLiteral := by
  cases n <;> rw [Node.shape] <;> rfl

/-- A shape is a value exactly if its command is. -/
theorem isValue_shape (c : Command Node) : (commandShape c).isValue = c.isValue := by
  obtain ⟨pos, args⟩ := c
  rw [commandShape]
  cases args with
  | nil => rfl
  | cons arg rest => rw [nodesShape]; exact isLiteral_shape arg

/-- Among commands that are no values there is no first value. -/
theorem firstValue?_eq_none {cs : List (Command Node)} (h : cs.all (!·.isValue) = true)
    (stage : Nat) : firstValue? stage cs = none := by
  induction cs generalizing stage with
  | nil => rfl
  | cons c rest ih =>
    obtain ⟨hc, hrest⟩ : c.isValue = false ∧ rest.all (!·.isValue) = true := by simpa using h
    rw [firstValue?, hc]
    exact ih hrest (stage + 1)

/-- A pipe passes the check if one of its shape fits. -/
theorem Pipe.check_of_shape {context : Context} {pos : Nat} {decls : List Variable}
    {read cs : List (Command Node)} (hshape : commandsShape read = commandsShape cs) (hne : cs ≠ [])
    (hv : cs.tail.all (!·.isValue) = true) :
    Pipe.check context ⟨pos, decls, read⟩ = .ok ⟨pos, decls, read⟩ := by
  -- The check asks whether stages are values, and that shows in their shapes.
  have hvalues (cs : List (Command Node)) :
      (commandsShape cs).tail.all (!·.isValue) = cs.tail.all (!·.isValue) := by
    rw [commandsShape_eq_map, ← List.map_tail, List.all_map]
    exact congrArg _ (funext fun c => by rw [Function.comp, isValue_shape])
  cases read with
  | nil =>
    cases cs with
    | nil => exact absurd rfl hne
    | cons c rest => cases hshape
  | cons c rest =>
    rw [← hvalues, ← hshape, hvalues] at hv
    have hrest : rest.all (!·.isValue) = true := hv
    rw [Pipe.check]
    dsimp only
    rw [firstValue?_eq_none hrest]

/-- If there is no first value, no command is one. -/
theorem not_isValue_of_firstValue? {stage : Nat} {cs : List (Command Node)}
    (h : firstValue? stage cs = none) : cs.all (!·.isValue) = true := by
  induction cs generalizing stage with
  | nil => rfl
  | cons c rest ih =>
    by_cases hc : c.isValue = true
    · rw [firstValue?, if_pos hc] at h
      cases h
    · rw [firstValue?, if_neg hc] at h
      simp [hc, ih h]

/-- A pipe that passes its check has a command, and no plain value after the first. -/
theorem Pipe.fits_of_check {context : Context} {p checked : Pipe Node}
    (h : Pipe.check context p = .ok checked) :
    p.commands ≠ [] ∧ p.commands.tail.all (!·.isValue) = true := by
  unfold Pipe.check at h
  split at h
  next => cases h
  next first rest hcommands =>
    split at h
    next => cases h
    next hvalue =>
      rw [hcommands]
      exact ⟨List.cons_ne_nil _ _, not_isValue_of_firstValue? hvalue⟩

/-- The first word of an argument. -/
theorem words_of_fitsCommand {n : Node} (h : n.fitsCommand = true) :
    ∃ w words, n.words = w :: words ∧ w.kind.startsOperand = true := by
  unfold Node.fitsCommand at h
  split at h
  next => exact ⟨_, _, rfl, rfl⟩
  next pos inner fields =>
    rw [Bool.and_eq_true] at h
    obtain ⟨hinner, -⟩ := h
    split at hinner
    next => exact ⟨_, _, rfl, rfl⟩
    next => exact ⟨_, _, rfl, rfl⟩
    next => cases hinner
  next pos path =>
    cases path with
    | nil => cases h
    | cons name path => exact ⟨_, _, rfl, rfl⟩
  next => exact ⟨_, _, rfl, rfl⟩
  next v =>
    obtain ⟨pos, path⟩ := v
    cases path with
    | nil => cases h
    | cons name path => exact ⟨_, _, rfl, rfl⟩
  next => exact ⟨_, _, rfl, by dsimp only; split <;> rfl⟩
  next => exact ⟨_, _, rfl, by dsimp only; split <;> rfl⟩
  next => exact ⟨_, _, rfl, rfl⟩
  next => exact ⟨_, _, rfl, rfl⟩
  next => exact ⟨_, _, rfl, rfl⟩
  next => cases h

/-- The tokens start with the first token of an operand. -/
def StartsOperand (tokens : List Token) : Prop :=
  ∃ t others, tokens = t :: others ∧ t.kind.startsOperand = true

namespace StartsOperand

variable {tokens : List Token}

/-- What starts an operand still does with more behind it. -/
theorem append (h : StartsOperand tokens) (rest : List Token) : StartsOperand (tokens ++ rest) := by
  obtain ⟨t, others, rfl, ht⟩ := h
  exact ⟨t, others ++ rest, rfl, ht⟩

/-- The words of a node that fits a command start an operand. -/
theorem of_words {n : Node} (hf : n.fitsCommand = true) (hw : tokens.map Token.word = n.words) :
    StartsOperand tokens := by
  obtain ⟨w, words, hn, hk⟩ := words_of_fitsCommand hf
  rw [hn] at hw
  obtain ⟨t, others, rfl, rfl, -⟩ := List.map_eq_cons_iff.1 hw
  exact ⟨t, others, rfl, hk⟩

/-- The words of a command start an operand. -/
theorem of_command {c : Command Node} (hf : commandFits c = true)
    (hw : tokens.map Token.word = commandWords c) : StartsOperand tokens := by
  obtain ⟨pos, args⟩ := c
  cases args with
  | nil => cases hf
  | cons arg args =>
    have hfirst : arg.fitsCommand = true := by
      simp only [commandFits, argumentsFit, Bool.and_eq_true] at hf
      exact hf.2.1
    obtain ⟨more, hmore⟩ : ∃ more, argumentsWords (arg :: args) = arg.words ++ more := by
      cases args with
      | nil => exact ⟨[], (List.append_nil _).symm⟩
      | cons next args => exact ⟨_, rfl⟩
    rw [commandWords, hmore] at hw
    obtain ⟨first, others, rfl, hwords, -⟩ := List.map_eq_append_iff.1 hw
    exact (of_words hfirst hwords).append others

/-- A pipe starts with a declared variable or with its first command. -/
theorem of_pipe {most : Nat} {p : Pipe Node} (hf : pipeFits most p = true)
    (hw : tokens.map Token.word = pipeWords p) : StartsOperand tokens := by
  obtain ⟨pos, decls, cs⟩ := p
  simp only [pipeFits, Bool.and_eq_true, Bool.not_eq_true', List.isEmpty_eq_false_iff] at hf
  obtain ⟨⟨⟨⟨-, hpath⟩, hne⟩, -⟩, hcs⟩ := hf
  cases decls with
  | cons v decls =>
    obtain ⟨name, words, hwords⟩ := declarationWords_cons hpath
    rw [pipeWords, hwords] at hw
    obtain ⟨t, others, rfl, ht, -⟩ := List.map_eq_cons_iff.1 hw
    have hk : t.kind = .variable := congrArg Word.kind ht
    exact ⟨t, others, rfl, by rw [hk]; rfl⟩
  | nil =>
    cases cs with
    | nil => exact absurd rfl hne
    | cons c cs =>
      have hfirst : commandFits c = true := by
        rw [commandsFit, Bool.and_eq_true] at hcs
        exact hcs.1
      obtain ⟨more, hmore⟩ : ∃ more, commandsWords (c :: cs) = commandWords c ++ more := by
        cases cs with
        | nil => exact ⟨[], (List.append_nil _).symm⟩
        | cons d cs => exact ⟨_, rfl⟩
      rw [pipeWords, declarationWords, List.nil_append, hmore] at hw
      obtain ⟨first, others, rfl, hwords, -⟩ := List.map_eq_append_iff.1 hw
      exact (of_command hfirst hwords).append others

end StartsOperand

/-- A space starts no operand. -/
theorem ne_space_of_startsOperand {kind : Token.Kind} (h : kind.startsOperand = true) :
    kind ≠ .space := by
  rintro rfl
  cases h

/-- A pipe in parentheses, with the fields taken from its value. -/
theorem operand_parenthesis {p : Pipe Node} {opening : Token} {tokens fields rest : List Token}
    {path : List String} {scope scope' : List String} (ho : opening.kind = .leftParen)
    (hp : (Phrase.pipe .parenthesis .rightParen p).Reads ⟨tokens, scope⟩ ⟨fields ++ rest, scope'⟩)
    (hw : fields.map Token.word = path.map Word.field)
    (hr : (Input.mk rest scope').peek.kind ≠ .field) :
    ∃ pos, (Phrase.operand (some (if path = [] then .pipe p else .chain pos (.pipe p) path))).Reads
      ⟨opening :: tokens, scope⟩ ⟨rest, scope'⟩ := by
  have hne : opening.kind ≠ .space := by rw [ho]; decide
  have hl : (Node.pipe p).isLiteral = false := rfl
  obtain ⟨pos, hf⟩ := withFields_words hw hr fun _ => hl
  refine ⟨pos, ?_⟩
  apply Phrase.Reads.parenthesis
  · rw [Input.peekWord_of_ne hne, ho]
  · rw [Input.next_of_ne hne]
    exact hp
  · exact hf

/-- What stands after the arguments of a command, and what is left once they have been read: a mark
between commands is read with the arguments, a closing token is not. -/
def EndsArguments (rest after : List Token) : Prop :=
  ∃ t others, rest = t :: others ∧
    ((t.kind = .rightDelim ∨ t.kind = .rightParen) ∧ after = rest ∨ t.kind = .pipe ∧ after = others)

/-- What ends arguments is no field. -/
theorem EndsArguments.peek_ne_field {rest after : List Token} (h : EndsArguments rest after)
    {scope : List String} : (Input.mk rest scope).peek.kind ≠ .field := by
  obtain ⟨t, others, rfl, ht⟩ := h
  show t.kind ≠ .field
  rcases ht with ⟨ht | ht, -⟩ | ⟨ht, -⟩ <;> rw [ht] <;> decide

/-- An operand in front of the end of the arguments is the last of them. -/
theorem arguments_last {arg : Node} {tokens rest after : List Token} {scope scope' : List String}
    (hstart : StartsOperand tokens)
    (ho : (Phrase.operand (some arg)).Reads ⟨tokens ++ rest, scope⟩ ⟨rest, scope'⟩)
    (hend : EndsArguments rest after) :
    (Phrase.arguments [arg]).Reads ⟨tokens ++ rest, scope⟩ ⟨after, scope'⟩ := by
  obtain ⟨t, others, rfl, hk⟩ := hstart
  obtain ⟨e, left, rfl, hend⟩ := hend
  rw [List.cons_append, ← Input.skipSpace_of_ne (ne_space_of_startsOperand hk)] at ho
  rcases hend with ⟨hclose, rfl⟩ | ⟨hpipe, rfl⟩
  · exact Phrase.Reads.closed ho hclose
  · exact Phrase.Reads.piped ho hpipe

/-- An operand with a space behind it is followed by further arguments. -/
theorem arguments_cons {arg : Node} {args : List Node} {space : Token}
    {tokens others after : List Token} {scope scope₁ scope₂ : List String}
    (hstart : StartsOperand tokens)
    (ho : (Phrase.operand (some arg)).Reads ⟨tokens ++ space :: others, scope⟩
      ⟨space :: others, scope₁⟩)
    (hs : space.kind = .space)
    (ha : (Phrase.arguments args).Reads ⟨others, scope₁⟩ ⟨after, scope₂⟩) :
    (Phrase.arguments (arg :: args)).Reads ⟨tokens ++ space :: others, scope⟩ ⟨after, scope₂⟩ := by
  obtain ⟨t, left, rfl, hk⟩ := hstart
  rw [List.cons_append, ← Input.skipSpace_of_ne (ne_space_of_startsOperand hk)] at ho
  refine Phrase.Reads.spaced ho hs ?_ ha
  simp [Input.size, Input.tail]
  omega

/-- A written pipe is read if its commands are. -/
theorem pipe_of_commands {context : Context} {close : Token.Kind} {most pos : Nat}
    {decls : List Variable} {cs read : List (Command Node)} {scope scope' : List String}
    {tokens left rest : List Token} (hc : close.closesPipe)
    (hf : pipeFits most ⟨pos, decls, cs⟩ = true) (hm : most ≤ context.furtherDeclarations + 1)
    (hw : tokens.map Token.word = declarationWords decls)
    (hshape : commandsShape read = commandsShape cs)
    (hread : (Phrase.commands close read).Reads ⟨left, declareAll decls scope⟩ ⟨rest, scope'⟩) :
    ∃ p, pipeShape p = pipeShape ⟨pos, decls, cs⟩ ∧
      (Phrase.pipe context close p).Reads ⟨tokens ++ left, scope⟩ ⟨rest, scope'⟩ := by
  simp only [pipeFits, Bool.and_eq_true, decide_eq_true_eq, Bool.not_eq_true',
    List.isEmpty_eq_false_iff] at hf
  obtain ⟨⟨⟨⟨hlen, hpath⟩, hne⟩, hvalue⟩, -⟩ := hf
  -- Without declarations the commands must not look as if they started with one.
  have hdecls : ∃ vs : List Variable, vs.map Variable.shape = decls.map Variable.shape ∧
      declarations context context.furtherDeclarations ⟨tokens ++ left, scope⟩ =
        .ok (vs, ⟨left, declareAll decls scope⟩) := by
    by_cases hd : decls = []
    · subst hd
      obtain rfl := List.map_eq_nil_iff.1 hw
      exact ⟨[], rfl, hread.declarations_nil hc _ _⟩
    · exact declarations_words hd hpath (Nat.le_trans hlen hm) hw left scope
  obtain ⟨vs, hvs, hdecl⟩ := hdecls
  refine ⟨_, ?_, .pipe hdecl hread (Pipe.check_of_shape hshape hne hvalue)⟩
  rw [pipeShape, pipeShape, hvs, hshape]

/-- A closing token ends the commands. -/
theorem commands_close {t : Token} {close : Token.Kind} (ht : t.kind = close)
    (hc : close.closesPipe) (rest : List Token) (scope : List String) :
    (Phrase.commands close []).Reads ⟨t :: rest, scope⟩ ⟨rest, scope⟩ := by
  have hne : t.kind ≠ .space := by
    rw [ht]
    rcases hc with rfl | rfl <;> decide
  have hclose := Phrase.Reads.close (s := ⟨t :: rest, scope⟩)
  rw [Input.peekWord_of_ne hne, Input.next_of_ne hne, ht] at hclose
  exact hclose

/-- Written commands are read if the first and the others are. -/
theorem commands_cons {close : Token.Kind} (hc : close.closesPipe) {args : List Node}
    {cs : List (Command Node)} {tokens after left rest : List Token}
    {scope scope₁ scope₂ : List String} (hne : args ≠ [])
    (hstart : StartsOperand tokens)
    (hlen : left.length ≤ after.length)
    (ha : (Phrase.arguments args).Reads ⟨tokens ++ after, scope⟩ ⟨left, scope₁⟩)
    (hr : (Phrase.commands close cs).Reads ⟨left, scope₁⟩ ⟨rest, scope₂⟩) :
    ∃ pos, (Phrase.commands close (⟨pos, args⟩ :: cs)).Reads ⟨tokens ++ after, scope⟩
      ⟨rest, scope₂⟩ := by
  obtain ⟨t, others, rfl, hk⟩ := hstart
  have hword : (Input.mk (t :: others ++ after) scope).peekWord = t :=
    Input.peekWord_of_ne (ne_space_of_startsOperand hk)
  refine ⟨_, .command ?_ ?_ ha hne ?_ hr⟩
  · rw [hword]
    rintro rfl
    rcases hc with hc | hc <;> rw [hc] at hk <;> cases hk
  · rw [hword, hk]
  · simp only [Input.size, List.cons_append, List.length_cons, List.length_append]
    omega

mutual

/-- A written argument is read. -/
theorem operand_words : (n : Node) → n.fitsCommand = true → ∀ {scope scope' : List String},
    n.scopeAfter? scope = some scope' → ∀ {tokens : List Token}, tokens.map Token.word = n.words →
    ∀ rest, (Input.mk rest scope').peek.kind ≠ .field → OperandRead n tokens rest scope scope'
  | .pipe p => by
    intro hf scope scope' hs tokens hw rest hr
    obtain ⟨opening, tokens, rfl, ho, hw⟩ := List.map_eq_cons_iff.1 hw
    obtain ⟨inner, closing, rfl, hp, hc⟩ := List.map_eq_append_iff.1 hw
    obtain ⟨close, rfl, hclose⟩ := List.map_eq_singleton_iff.1 hc
    obtain ⟨read, hshape, hread⟩ := pipe_words p .parenthesis (Nat.le_refl 1) hf hs hp
      (congrArg Word.kind hclose) (.inr rfl) rest
    have hnone : ([] : List Token).map Token.word = ([] : List String).map Word.field := rfl
    obtain ⟨pos, hoperand⟩ := operand_parenthesis (congrArg Word.kind ho) hread hnone hr
    refine ⟨.pipe read, ?_, ?_⟩
    · rw [Node.shape, Node.shape, hshape]
    · simpa using hoperand
  | .chain pos (.pipe p) fields => by
    intro hf scope scope' hs tokens hw rest hr
    obtain ⟨hp, hne⟩ : pipeFits 1 p = true ∧ fields ≠ [] := by
      simpa [Node.fitsCommand] using hf
    obtain ⟨front, names, rfl, hfront, hnames⟩ := List.map_eq_append_iff.1 hw
    obtain ⟨opening, tokens, rfl, ho, hw⟩ := List.map_eq_cons_iff.1 hfront
    obtain ⟨inner, closing, rfl, hinner, hc⟩ := List.map_eq_append_iff.1 hw
    obtain ⟨close, rfl, hclose⟩ := List.map_eq_singleton_iff.1 hc
    obtain ⟨read, hshape, hread⟩ := pipe_words p .parenthesis (Nat.le_refl 1) hp hs hinner
      (congrArg Word.kind hclose) (.inr rfl) (names ++ rest)
    obtain ⟨pos', hoperand⟩ := operand_parenthesis (congrArg Word.kind ho) hread hnames hr
    rw [if_neg hne] at hoperand
    refine ⟨_, ?_, by simpa using hoperand⟩
    simp only [Node.shape, hshape]
  | .chain pos (.identifier pos' name isFunction) fields => by
    intro hf scope scope' hs tokens hw rest hr
    obtain ⟨⟨hfun, hb⟩, hne⟩ : (isFunction = true ∧ builtinFunctions.contains name = true) ∧
        fields ≠ [] := by
      simpa [Node.fitsCommand] using hf
    cases hs
    obtain ⟨t, tokens, rfl, ht, hw⟩ := List.map_eq_cons_iff.1 hw
    obtain ⟨pos'', hoperand⟩ := operand_identifier hb ht hw hr
    rw [if_neg hne] at hoperand
    refine ⟨_, ?_, hoperand⟩
    simp only [Node.shape, hfun]
  | .field pos path => by
    intro hf scope scope' hs tokens hw rest hr
    cases hs
    exact operand_field pos (by simpa [Node.fitsCommand] using hf) hw hr
  | .identifier pos name isFunction => by
    intro hf scope scope' hs tokens hw rest hr
    obtain ⟨hfun, hb⟩ : isFunction = true ∧ builtinFunctions.contains name = true := by
      simpa [Node.fitsCommand] using hf
    cases hs
    obtain ⟨t, rfl, ht⟩ := List.map_eq_singleton_iff.1 hw
    have hnone : ([] : List Token).map Token.word = ([] : List String).map Word.field := rfl
    obtain ⟨pos', hoperand⟩ := operand_identifier hb ht hnone hr
    refine ⟨_, ?_, hoperand⟩
    simp only [Node.shape, hfun, if_true]
  | .variable v => by
    intro hf scope scope' hs tokens hw rest hr
    rw [Node.scopeAfter?] at hs
    split at hs
    next hin => cases hs; exact operand_variable hin hw hr
    next => cases hs
  -- Only a parenthesis or a function can have fields taken from it by a chain.
  | .chain _ (.text ..) _ | .chain _ (.action ..) _ | .chain _ (.command _) _
  | .chain _ (.chain ..) _ | .chain _ (.field ..) _ | .chain _ (.variable _) _ | .chain _ (.dot _) _
  | .chain _ (.nil _) _ | .chain _ (.bool ..) _ | .chain _ (.number ..) _ | .chain _ (.string ..) _
  | .chain _ (.branch ..) _ | .chain _ (.template ..) _ | .chain _ (.breakLoop _) _
  | .chain _ (.continueLoop _) _ | .chain _ (.list _) _ => by
    intro hf
    cases hf
  | .dot _ | .nil _ | .bool .. | .number .. | .string .. => by
    intro hf scope scope' hs tokens hw rest hr
    cases hs
    exact operand_of_isLiteral rfl hf hw hr
  | .text .. | .action .. | .command _ | .branch .. | .template .. | .breakLoop _ | .continueLoop _
  | .list _ => by
    intro hf
    cases hf

/-- A written pipe is read. -/
theorem pipe_words : (p : Pipe Node) → ∀ (context : Context) {most : Nat},
    most ≤ context.furtherDeclarations + 1 → pipeFits most p = true →
    ∀ {scope scope' : List String}, pipeScope? scope p = some scope' →
    ∀ {tokens : List Token}, tokens.map Token.word = pipeWords p →
    ∀ {t : Token} {close : Token.Kind}, t.kind = close → close.closesPipe → ∀ rest,
    ∃ read, pipeShape read = pipeShape p ∧
      (Phrase.pipe context close read).Reads ⟨tokens ++ t :: rest, scope⟩ ⟨rest, scope'⟩
  | ⟨pos, decls, commands⟩ => by
    intro context most hm hf scope scope' hs tokens hw t close ht hc rest
    obtain ⟨first, left, rfl, hfirst, hleft⟩ := List.map_eq_append_iff.1 hw
    have hcommands : commands ≠ [] ∧ commandsFit commands = true := by
      simp only [pipeFits, Bool.and_eq_true, Bool.not_eq_true', List.isEmpty_eq_false_iff] at hf
      exact ⟨hf.1.1.2, hf.2⟩
    obtain ⟨read, hshape, hread⟩ :=
      commands_words commands hcommands.1 hcommands.2 hs hleft ht hc rest
    rw [List.append_assoc]
    exact pipe_of_commands hc hf hm hfirst hshape hread

/-- Written commands are read. -/
theorem commands_words : (cs : List (Command Node)) → cs ≠ [] → commandsFit cs = true →
    ∀ {scope scope' : List String}, commandsScope? scope cs = some scope' →
    ∀ {tokens : List Token}, tokens.map Token.word = commandsWords cs →
    ∀ {t : Token} {close : Token.Kind}, t.kind = close → close.closesPipe → ∀ rest,
    ∃ read, commandsShape read = commandsShape cs ∧
      (Phrase.commands close read).Reads ⟨tokens ++ t :: rest, scope⟩ ⟨rest, scope'⟩
  | [] => fun hne => absurd rfl hne
  | [c] => by
    intro hne hf scope scope' hs tokens hw t close ht hc rest
    have hfirst : commandFits c = true := by simpa [commandsFit] using hf
    have hscope : commandScope? scope c = some scope' := by simpa [commandsScope?] using hs
    have hstart := StartsOperand.of_command hfirst hw
    have hend : EndsArguments (t :: rest) (t :: rest) := ⟨t, rest, rfl, .inl ⟨ht ▸ hc, rfl⟩⟩
    obtain ⟨read, hread, hshape, hargs⟩ := command_words c hfirst hscope hw hend
    obtain ⟨pos, hcommands⟩ :=
      commands_cons hc hread hstart (Nat.le_refl _) hargs (commands_close ht hc rest scope')
    refine ⟨[⟨pos, read⟩], ?_, hcommands⟩
    rw [commandsShape, commandsShape, hshape]
    rfl
  | c :: d :: cs => by
    intro hne hf scope scope' hs tokens hw t close ht hc rest
    obtain ⟨hfirst, hothers⟩ : commandFits c = true ∧ commandsFit (d :: cs) = true := by
      rw [commandsFit, Bool.and_eq_true] at hf
      exact hf
    obtain ⟨scope₁, hscope, hscopes⟩ : ∃ scope₁, commandScope? scope c = some scope₁ ∧
        commandsScope? scope₁ (d :: cs) = some scope' := by
      rw [commandsScope?] at hs
      exact Option.bind_eq_some_iff.1 hs
    obtain ⟨first, left, rfl, hwords, hleft⟩ := List.map_eq_append_iff.1 hw
    obtain ⟨mark, left, rfl, hmark, hleft⟩ := List.map_eq_cons_iff.1 hleft
    have hstart := StartsOperand.of_command hfirst hwords
    -- The bar is read with the arguments that it ends.
    have hend : EndsArguments (mark :: (left ++ t :: rest)) (left ++ t :: rest) :=
      ⟨mark, _, rfl, .inr ⟨congrArg Word.kind hmark, rfl⟩⟩
    obtain ⟨read, hread, hshape, hargs⟩ := command_words c hfirst hscope hwords hend
    obtain ⟨reads, hshapes, hreads⟩ :=
      commands_words (d :: cs) (by simp) hothers hscopes hleft ht hc rest
    rw [List.append_assoc, List.cons_append]
    obtain ⟨pos, hcommands⟩ := commands_cons hc hread hstart (by simp) hargs hreads
    refine ⟨⟨pos, read⟩ :: reads, ?_, hcommands⟩
    show commandShape ⟨pos, read⟩ :: commandsShape reads = commandShape c :: commandsShape (d :: cs)
    rw [hshape, hshapes]

/-- The arguments of a written command are read. -/
theorem command_words : (c : Command Node) → commandFits c = true →
    ∀ {scope scope' : List String}, commandScope? scope c = some scope' →
    ∀ {tokens : List Token}, tokens.map Token.word = commandWords c →
    ∀ {rest after : List Token}, EndsArguments rest after →
    ∃ read, read ≠ [] ∧ (∀ pos, commandShape ⟨pos, read⟩ = commandShape c) ∧
      (Phrase.arguments read).Reads ⟨tokens ++ rest, scope⟩ ⟨after, scope'⟩
  | ⟨pos, args⟩ => by
    intro hf scope scope' hs tokens hw rest after hend
    obtain ⟨hne, hargs⟩ : args ≠ [] ∧ argumentsFit args = true := by
      simpa [commandFits] using hf
    obtain ⟨read, hshape, hread⟩ := arguments_words args hne hargs hs hw hend
    refine ⟨read, ?_, fun pos' => ?_, hread⟩
    · rintro rfl
      cases args with
      | nil => exact hne rfl
      | cons arg args => cases hshape
    · rw [commandShape, commandShape, hshape]

/-- Written arguments are read. -/
theorem arguments_words : (args : List Node) → args ≠ [] → argumentsFit args = true →
    ∀ {scope scope' : List String}, nodesScope? scope args = some scope' →
    ∀ {tokens : List Token}, tokens.map Token.word = argumentsWords args →
    ∀ {rest after : List Token}, EndsArguments rest after →
    ∃ read, nodesShape read = nodesShape args ∧
      (Phrase.arguments read).Reads ⟨tokens ++ rest, scope⟩ ⟨after, scope'⟩
  | [] => fun hne => absurd rfl hne
  | [arg] => by
    intro hne hf scope scope' hs tokens hw rest after hend
    have hfirst : arg.fitsCommand = true := by simpa [argumentsFit] using hf
    have hscope : arg.scopeAfter? scope = some scope' := by simpa [nodesScope?] using hs
    have hstart := StartsOperand.of_words hfirst hw
    obtain ⟨read, hshape, hread⟩ := operand_words arg hfirst hscope hw rest hend.peek_ne_field
    refine ⟨[read], ?_, arguments_last hstart hread hend⟩
    rw [nodesShape, nodesShape, hshape]
    rfl
  | arg :: next :: args => by
    intro hne hf scope scope' hs tokens hw rest after hend
    obtain ⟨hfirst, hothers⟩ : arg.fitsCommand = true ∧ argumentsFit (next :: args) = true := by
      rw [argumentsFit, Bool.and_eq_true] at hf
      exact hf
    obtain ⟨scope₁, hscope, hscopes⟩ : ∃ scope₁, arg.scopeAfter? scope = some scope₁ ∧
        nodesScope? scope₁ (next :: args) = some scope' := by
      rw [nodesScope?] at hs
      exact Option.bind_eq_some_iff.1 hs
    obtain ⟨first, left, rfl, hwords, hleft⟩ := List.map_eq_append_iff.1 hw
    obtain ⟨space, left, rfl, hspace, hleft⟩ := List.map_eq_cons_iff.1 hleft
    -- The space keeps the first operand from taking fields of the next one.
    have hk : space.kind = .space := congrArg Word.kind hspace
    have hstart := StartsOperand.of_words hfirst hwords
    obtain ⟨read, hshape, hread⟩ := operand_words arg hfirst hscope hwords (space :: (left ++ rest))
      (by show space.kind ≠ .field; rw [hk]; decide)
    obtain ⟨reads, hshapes, hreads⟩ :=
      arguments_words (next :: args) (by simp) hothers hscopes hleft hend
    refine ⟨read :: reads, ?_, ?_⟩
    · show read.shape :: nodesShape reads = arg.shape :: nodesShape (next :: args)
      rw [hshape, hshapes]
    · rw [List.append_assoc, List.cons_append]
      exact arguments_cons hstart hread hk hreads

end

/-! ## Spaces before a pipe -/

/-- Leading spaces have no part in declarations, unless there are none to read. -/
theorem Declares.of_skipSpace {more : Nat} {decls : List Variable} {r s s' : Input}
    (h : r.skipSpace = s.skipSpace) (hd : Declares more decls s s') :
    Declares more decls r s' ∨ (s' = s ∧ Declares more decls r r) := by
  have hword := Input.peekWord_of_skipSpace_eq h
  have hnext := Input.next_of_skipSpace_eq h
  have hdeclared : r.declared = s.declared := by rw [Input.declared, hword, Input.declared]
  have hafter : r.afterDeclared = s.afterDeclared := by
    rw [Input.afterDeclared, hword, hnext, Input.afterDeclared]
  cases hd with
  | none hn => exact .inr ⟨rfl, .none (by rwa [hword, hnext])⟩
  | last hv hm =>
    rw [← hdeclared, ← hafter]
    exact .inl (.last (by rwa [hword]) (by rwa [hnext]))
  | cons hv hm hk hd =>
    rw [← hafter] at hk hd
    rw [← hdeclared]
    exact .inl (.cons (by rwa [hword]) (by rwa [hnext]) hk hd)

/-- Spaces before a phrase do not count. -/
theorem Phrase.Reads.of_skipSpace {phrase : Phrase} {s s' : Input} (h : phrase.Reads s s')
    {r : Input} (hr : r.skipSpace = s.skipSpace) (hlen : s.size ≤ r.size) : phrase.Reads r s' := by
  induction h generalizing r with
  | pipe hd hc hp ih =>
    rw [← Input.peekWord_of_skipSpace_eq hr] at hp ⊢
    -- Declarations start with a word, so only a pipe without them begins at the spaces.
    rcases (declarations_eq_ok_iff.1 hd).of_skipSpace hr with hd' | ⟨rfl, hd'⟩
    · exact .pipe (declarations_eq_ok_iff.2 hd') hc hp
    · exact .pipe (declarations_eq_ok_iff.2 hd') (ih hr hlen) hp
  | close =>
    rw [← Input.peekWord_of_skipSpace_eq hr, ← Input.next_of_skipSpace_eq hr]
    exact .close
  | command hk hs ha hn hl hc iha ihc =>
    rw [← Input.peekWord_of_skipSpace_eq hr] at hk hs ⊢
    exact .command hk hs (iha hr hlen) hn (Nat.lt_of_lt_of_le hl hlen) hc
  | spaced ho hk hl ha =>
    rw [← hr] at ho
    exact .spaced ho hk (Nat.lt_of_lt_of_le hl hlen) ha
  | closed ho hk =>
    rw [← hr] at ho
    exact .closed ho hk
  | piped ho hk =>
    rw [← hr] at ho
    exact .piped ho hk
  | parenthesis hk hp hf ih =>
    rw [← Input.peekWord_of_skipSpace_eq hr] at hk
    rw [← Input.next_of_skipSpace_eq hr] at hp
    exact .parenthesis hk hp hf
  | atom ha hf =>
    rw [← Input.peekWord_of_skipSpace_eq hr, ← Input.scope_of_skipSpace_eq hr] at ha
    rw [← Input.next_of_skipSpace_eq hr] at hf
    exact .atom ha hf
  | absent hk ha =>
    rw [← Input.peekWord_of_skipSpace_eq hr] at hk
    rw [← Input.peekWord_of_skipSpace_eq hr, ← Input.scope_of_skipSpace_eq hr] at ha
    rw [← hr]
    exact .absent hk ha

end FieldAudit.Template
