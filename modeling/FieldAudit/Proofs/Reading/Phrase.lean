import FieldAudit.Template.Pipeline

/-! # The grammar of pipes

`Phrase.Reads` is the grammar that `pipeline` and the readers beside it follow: a phrase is what a
reader can give back, and each rule says which parts a phrase is read from and which tokens stand
between them.  The readers succeed exactly as the grammar says (`pipeline_eq_ok_iff`), so what
holds of every pipe that can be read is shown by induction on the rules, with no failing case left
to look at. -/

namespace FieldAudit.Template

/-- What is read inside an action. -/
inductive Phrase where
  /-- A pipe with its closing token. -/
  | pipe (context : Context) (close : Token.Kind) (pipe : Pipe Node)
  /-- The commands of a pipe from some stage on, with the closing token. -/
  | commands (close : Token.Kind) (commands : List (Command Node))
  /-- The arguments of a command from some argument on. -/
  | arguments (args : List Node)
  /-- An operand, or the place where none starts. -/
  | operand (arg : Option Node)

/-- The rules by which a phrase is read from an input, leaving another. -/
inductive Phrase.Reads : Phrase → Input → Input → Prop
  /-- A pipe is its declarations, then its commands. -/
  | pipe {context : Context} {close : Token.Kind} {s s₁ s₂ : Input} {decls : List Variable}
      {commands : List (Command Node)}
      (hd : declarations context context.furtherDeclarations s = .ok (decls, s₁))
      (hc : Reads (.commands close commands) s₁ s₂)
      (hp : Pipe.check context ⟨s.peekWord.pos, decls, commands⟩
        = .ok ⟨s.peekWord.pos, decls, commands⟩) :
      Reads (.pipe context close ⟨s.peekWord.pos, decls, commands⟩) s s₂
  /-- Commands end with the closing token. -/
  | close {s : Input} : Reads (.commands s.peekWord.kind []) s s.next
  /-- A command stands before the commands after it. -/
  | command {close : Token.Kind} {s s₁ s₂ : Input} {args : List Node}
      {rest : List (Command Node)} (hk : s.peekWord.kind ≠ close)
      (hs : s.peekWord.kind.startsOperand = true) (ha : Reads (.arguments args) s s₁)
      (hn : args ≠ []) (hl : s₁.size < s.size) (hc : Reads (.commands close rest) s₁ s₂) :
      Reads (.commands close (⟨s.peekWord.pos, args⟩ :: rest)) s s₂
  /-- A space stands between two arguments, and may stand after the last. -/
  | spaced {s s₁ s₂ : Input} {arg : Option Node} {args : List Node}
      (ho : Reads (.operand arg) s.skipSpace s₁) (hk : s₁.peek.kind = .space)
      (hl : s₁.tail.size < s.size) (ha : Reads (.arguments args) s₁.tail s₂) :
      Reads (.arguments (arg.toList ++ args)) s s₂
  /-- The closing token after the last command is left to the pipe. -/
  | closed {s s₁ : Input} {arg : Option Node} (ho : Reads (.operand arg) s.skipSpace s₁)
      (hk : s₁.peek.kind = .rightDelim ∨ s₁.peek.kind = .rightParen) :
      Reads (.arguments arg.toList) s s₁
  /-- A mark between two commands is read with the first of them. -/
  | piped {s s₁ : Input} {arg : Option Node} (ho : Reads (.operand arg) s.skipSpace s₁)
      (hk : s₁.peek.kind = .pipe) : Reads (.arguments arg.toList) s s₁.tail
  /-- A pipe in parentheses, with the fields taken from it. -/
  | parenthesis {s s₁ s₂ : Input} {pipe : Pipe Node} {node : Node}
      (hk : s.peekWord.kind = .leftParen)
      (hp : Reads (.pipe .parenthesis .rightParen pipe) s.next s₁)
      (hf : withFields (.pipe pipe) s₁ = .ok (node, s₂)) : Reads (.operand (some node)) s s₂
  /-- A single token, with the fields taken from it. -/
  | atom {s s₁ : Input} {base node : Node} (ha : atom? s.scope s.peekWord = .ok (some base))
      (hf : withFields base s.next = .ok (node, s₁)) : Reads (.operand (some node)) s s₁
  /-- No operand starts here. -/
  | absent {s : Input} (hk : s.peekWord.kind ≠ .leftParen)
      (ha : atom? s.scope s.peekWord = .ok none) : Reads (.operand none) s s.skipSpace

/-! ## Words of an input -/

namespace Input

variable {t : Token} {tokens : List Token} {scope : List String}

/-- A space in front is skipped. -/
theorem skipSpace_of_space (h : t.kind = .space) :
    skipSpace ⟨t :: tokens, scope⟩ = skipSpace ⟨tokens, scope⟩ := by
  simp [skipSpace, h]

/-- A token that is no space stops the skipping. -/
theorem skipSpace_of_ne (h : t.kind ≠ .space) :
    skipSpace ⟨t :: tokens, scope⟩ = ⟨t :: tokens, scope⟩ := by
  simp [skipSpace, h]

/-- The next word is the next token, unless that is a space. -/
theorem skipSpace_eq_self {s : Input} (h : s.peek.kind ≠ .space) : s.skipSpace = s := by
  obtain ⟨tokens, scope⟩ := s
  cases tokens with
  | nil => rfl
  | cons t rest => exact skipSpace_of_ne h

/-- Where no field is next, no field stands at the front of the tokens. -/
theorem span_field_of_ne {s : Input} (h : s.peek.kind ≠ .field) :
    s.tokens.takeWhile (·.kind = .field) = [] ∧
      s.tokens.dropWhile (·.kind = .field) = s.tokens := by
  obtain ⟨tokens, scope⟩ := s
  cases tokens with
  | nil => exact ⟨rfl, rfl⟩
  | cons t rest =>
    have ht : t.kind ≠ .field := h
    simp [ht]

end Input

/-! ## Single tokens -/

/-- Unquoting a token is unquoting its lexeme. -/
theorem unquoteToken_eq_ok_iff {t : Token} {text : List Char} :
    unquoteToken t = .ok text ↔ Literal.unquote t.lexeme = .ok text := by
  rw [unquoteToken]
  cases Literal.unquote t.lexeme with
  | error e => constructor <;> intro h <;> cases h
  | ok text' => constructor <;> intro h <;> cases h <;> rfl

/-- The operands that a single token stands for. -/
inductive IsAtom (scope : List String) (t : Token) : Node → Prop
  | function (hk : t.kind = .identifier)
      (hb : builtinFunctions.contains (String.ofList t.lexeme) = true) :
      IsAtom scope t (.identifier t.pos (String.ofList t.lexeme) true)
  | inScope (hk : t.kind = .variable) (hs : scope.contains (String.ofList t.lexeme) = true) :
      IsAtom scope t (.variable ⟨t.pos, [String.ofList t.lexeme]⟩)
  | field (hk : t.kind = .field) : IsAtom scope t (.field t.pos [String.ofList t.lexeme.tail])
  | dot (hk : t.kind = .dot) : IsAtom scope t (.dot t.pos)
  | nil (hk : t.kind = .keyword .nilKw) : IsAtom scope t (.nil t.pos)
  | bool (hk : t.kind = .bool) : IsAtom scope t (.bool t.pos (t.lexeme = "true".toList))
  | number (hk : t.kind = .number) (hn : Literal.isNumber t.lexeme = true) :
      IsAtom scope t (.number t.pos t.lexeme)
  | charConstant {text : List Char} (hk : t.kind = .charConstant)
      (hu : Literal.unquote t.lexeme = .ok text) : IsAtom scope t (.number t.pos t.lexeme)
  | string {text : List Char} (hk : t.kind = .string ∨ t.kind = .rawString)
      (hu : Literal.unquote t.lexeme = .ok text) : IsAtom scope t (.string t.pos t.lexeme)

section Atoms

variable {scope : List String} {t : Token} {node : Node}

/-- The reader's atoms are those of the grammar. -/
theorem atom?_eq_some_iff : atom? scope t = .ok (some node) ↔ IsAtom scope t node := by
  constructor
  · intro h
    unfold atom? at h
    split at h
    case h_1 hk =>
      dsimp only at h
      split at h <;> cases h
      next hb => exact .function hk hb
    case h_2 hk => cases h; exact .dot hk
    case h_3 hk => cases h; exact .nil hk
    case h_4 hk =>
      dsimp only at h
      split at h <;> cases h
      next hs => exact .inScope hk hs
    case h_5 hk => cases h; exact .field hk
    case h_6 hk => cases h; exact .bool hk
    case h_7 hk =>
      split at h <;> cases h
      next hu => exact .charConstant hk (unquoteToken_eq_ok_iff.1 hu)
    case h_8 hk =>
      split at h <;> cases h
      next hn => exact .number hk hn
    case h_9 hk =>
      split at h <;> cases h
      next hu => exact .string (.inl hk) (unquoteToken_eq_ok_iff.1 hu)
    case h_10 hk =>
      split at h <;> cases h
      next hu => exact .string (.inr hk) (unquoteToken_eq_ok_iff.1 hu)
    case h_11 => cases h
  · intro h
    cases h with
    | function hk hb => rw [atom?, hk]; exact if_pos hb
    | inScope hk hs => rw [atom?, hk]; exact if_pos hs
    | number hk hn => rw [atom?, hk]; exact if_pos hn
    | field hk | dot hk | nil hk | bool hk => rw [atom?, hk]
    | charConstant hk hu =>
      rw [atom?, hk]
      dsimp only
      rw [unquoteToken_eq_ok_iff.2 hu]
    | string hk hu =>
      rcases hk with hk | hk <;> rw [atom?, hk] <;> dsimp only <;>
        rw [unquoteToken_eq_ok_iff.2 hu]

/-- An atom starts an operand. -/
theorem IsAtom.startsOperand (h : IsAtom scope t node) : t.kind.startsOperand = true := by
  cases h with
  | string hk => rcases hk with hk | hk <;> rw [hk] <;> rfl
  | function hk | inScope hk | field hk | dot hk | nil hk | bool hk | number hk
  | charConstant hk => rw [hk]; rfl

/-- An atom stands where its token does. -/
theorem IsAtom.pos_eq (h : IsAtom scope t node) : node.pos = t.pos := by
  cases h <;> rfl

/-- A token that starts no operand is none, and an opening parenthesis is none of its own. -/
theorem atom?_eq_none_iff :
    atom? scope t = .ok none ↔ t.kind.startsOperand = false ∨ t.kind = .leftParen := by
  constructor
  · intro h
    unfold atom? at h
    split at h
    case h_1 | h_4 =>
      dsimp only at h
      split at h <;> cases h
    case h_2 | h_3 | h_5 | h_6 => cases h
    case h_7 | h_8 | h_9 | h_10 => split at h <;> cases h
    case h_11 =>
      cases hk : t.kind with
      | leftParen => exact .inr rfl
      | keyword word => cases word <;> simp_all [Token.Kind.startsOperand]
      | _ => simp_all [Token.Kind.startsOperand]
  · intro h
    unfold atom?
    split
    case h_11 => rfl
    all_goals
      rename_i hk
      rw [hk] at h
      rcases h with h | h <;> cases h

/-- A token that is an atom is of no kind that cannot start an operand. -/
theorem ne_of_atom? {kind : Token.Kind} (h : atom? scope t = .ok (some node))
    (hk : kind.startsOperand = false) : t.kind ≠ kind := by
  rintro rfl
  rw [(atom?_eq_some_iff.1 h).startsOperand] at hk
  cases hk

/-- What a single token is read as: a function, a variable in scope, a field, or a literal. -/
theorem atom?_cases (h : atom? scope t = .ok (some node)) :
    (t.kind = .identifier ∧ node = .identifier t.pos (String.ofList t.lexeme) true) ∨
    (t.kind = .variable ∧ scope.contains (String.ofList t.lexeme) = true ∧
      node = .variable ⟨t.pos, [String.ofList t.lexeme]⟩) ∨
    (t.kind = .field ∧ node = .field t.pos [String.ofList t.lexeme.tail]) ∨
    (t.kind ≠ .field ∧ node.isLiteral = true) := by
  cases atom?_eq_some_iff.1 h with
  | function hk => exact .inl ⟨hk, rfl⟩
  | inScope hk hs => exact .inr (.inl ⟨hk, hs, rfl⟩)
  | field hk => exact .inr (.inr (.inl ⟨hk, rfl⟩))
  | dot hk | nil hk | bool hk | number hk | charConstant hk =>
    exact .inr (.inr (.inr ⟨by rw [hk]; decide, rfl⟩))
  | string hk =>
    exact .inr (.inr (.inr ⟨by rcases hk with hk | hk <;> rw [hk] <;> decide, rfl⟩))

end Atoms

/-- A node is read alone where no field follows it, or else with all the fields that follow. -/
theorem withFields_cases {node node' : Node} {s s' : Input}
    (h : withFields node s = .ok (node', s')) :
    (s.peek.kind ≠ .field ∧ node' = node ∧ s' = s) ∨
    (∃ first rest, s.tokens.takeWhile (·.kind = .field) = first :: rest ∧ s.peek.kind = .field ∧
      node.isLiteral = false ∧
      node' = node.select first.pos ((first :: rest).map fun t => String.ofList t.lexeme.tail) ∧
      s' = { s with tokens := s.tokens.dropWhile (·.kind = .field) }) := by
  unfold withFields at h
  dsimp only at h
  split at h
  next hnil =>
    cases h
    refine .inl ⟨?_, rfl, rfl⟩
    intro hfield
    obtain ⟨tokens, scope⟩ := s
    cases tokens with
    | nil => cases hfield
    | cons t rest =>
      have ht : t.kind = .field := hfield
      simp [ht] at hnil
  next first rest hcons =>
    split at h
    next => cases h
    next hl =>
      cases h
      have hfield : s.peek.kind = .field := by
        by_cases hp : s.peek.kind = .field
        · exact hp
        · rw [(Input.span_field_of_ne hp).1] at hcons
          cases hcons
      exact .inr ⟨first, rest, hcons, hfield, by simpa using hl, by rw [hcons], rfl⟩

/-! ## Declarations -/

/-- Whether a token of this kind follows a declared variable. -/
def Token.Kind.isMark : Token.Kind → Bool
  | .assign | .declare | .comma => true
  | _ => false

/-- The marks are the assignments and the comma. -/
theorem isMark_eq_false_iff {kind : Token.Kind} :
    kind.isMark = false ↔ ¬(kind = .assign ∨ kind = .declare) ∧ kind ≠ .comma := by
  cases kind <;> simp [Token.Kind.isMark]

/-- A mark is of no kind that is no mark. -/
theorem ne_of_isMark {kind other : Token.Kind} (h : kind.isMark = true)
    (ho : other.isMark = false) : kind ≠ other := by
  rintro rfl
  rw [h] at ho
  cases ho

namespace Input

/-- The variable that the next word names. -/
def declared (s : Input) : Variable :=
  ⟨s.peekWord.pos, [String.ofList s.peekWord.lexeme]⟩

/-- The input after a variable and its mark, with the variable in scope. -/
def afterDeclared (s : Input) : Input :=
  s.next.next.declare (String.ofList s.peekWord.lexeme)

end Input

/-- The rules by which the variables of a pipe are read from an input, leaving another.  After the
first variable `more` may follow. -/
inductive Declares : Nat → List Variable → Input → Input → Prop
  /-- A variable that no mark follows is left to the commands. -/
  | none {more : Nat} {s : Input}
      (hn : s.peekWord.kind = .variable → s.next.peekWord.kind.isMark = false) :
      Declares more [] s s
  /-- The last variable is set or declared. -/
  | last {more : Nat} {s : Input} (hv : s.peekWord.kind = .variable)
      (hm : s.next.peekWord.kind = .assign ∨ s.next.peekWord.kind = .declare) :
      Declares more [s.declared] s s.afterDeclared
  /-- A comma stands between two variables, and the pipe may also close after it. -/
  | cons {more : Nat} {s s' : Input} {decls : List Variable} (hv : s.peekWord.kind = .variable)
      (hm : s.next.peekWord.kind = .comma)
      (hk : [.variable, .rightDelim, .rightParen].contains s.afterDeclared.peekWord.kind = true)
      (h : Declares more decls s.afterDeclared s') : Declares (more + 1) (s.declared :: decls) s s'

/-- Declarations are read exactly as the rules say. -/
theorem declarations_eq_ok_iff {context : Context} {more : Nat} {s s' : Input}
    {decls : List Variable} :
    declarations context more s = .ok (decls, s') ↔ Declares more decls s s' := by
  constructor
  · intro h
    -- Cases 2, 3 and 5 fail.  In cases 6 and 7 nothing is declared: there is a variable without a
    -- mark behind it, or no variable.
    fun_induction declarations context more s generalizing decls s' with
    | case1 more s _ hv =>
      rename_i hm
      cases h
      exact .last hv hm
    | case2 => cases h
    | case3 => cases h
    | case4 s _ hv _ _ _ _ hm =>
      rename_i hk _ _ hr ih
      cases h
      exact .cons hv hm hk (ih hr)
    | case5 => cases h
    | case6 more s _ hv =>
      rename_i hm hc
      cases h
      exact .none fun _ => isMark_eq_false_iff.2 ⟨hm, hc⟩
    | case7 more s =>
      rename_i hv
      cases h
      exact .none fun hk => absurd hk hv
  · intro h
    induction h with
    | @none more s hn =>
      rw [declarations]
      by_cases hv : s.peekWord.kind = .variable
      · obtain ⟨hm, hc⟩ := isMark_eq_false_iff.1 (hn hv)
        rw [if_pos hv, if_neg hm, if_neg hc]
      · rw [if_neg hv]
    | last hv hm =>
      rw [declarations, if_pos hv, if_pos hm]
      rfl
    | @cons more s s' decls hv hm hk h ih =>
      rw [Input.afterDeclared] at hk ih
      rw [declarations, if_pos hv, if_neg (by rw [hm]; decide), if_pos hm]
      dsimp only
      rw [if_pos hk, ih]
      rfl

/-- What is passed is variables, each with its mark. -/
theorem Declares.passes {R : Input → Input → Prop} (refl : ∀ s, R s s)
    (step : ∀ {s s' : Input}, s.peekWord.kind = .variable →
      s.next.peekWord.kind.isMark = true → R s.afterDeclared s' → R s s')
    {more : Nat} {decls : List Variable} {s s' : Input} (h : Declares more decls s s') :
    R s s' := by
  induction h with
  | none => exact refl _
  | last hv hm => exact step hv (by rcases hm with hm | hm <;> rw [hm] <;> rfl) (refl _)
  | cons hv hm hk h ih => exact step hv (by rw [hm]; rfl) ih

/-! ## What the readers read -/

/-- The result of the reader for a phrase: it succeeds with that phrase. -/
def Phrase.IsResult : Phrase → Input → Input → Prop
  | .pipe context close p, s, s' => pipeline context close s = .ok (p, s')
  | .commands close cs, s, s' => ∀ context, Template.commands context close s = .ok (cs, s')
  | .arguments as, s, s' => Template.arguments s = .ok (as, s')
  | .operand a, s, s' => Template.operand s = .ok (a, s')

/-- The readers find whatever the grammar allows. -/
theorem isResult_of_reads {phrase : Phrase} {s s' : Input} (h : phrase.Reads s s') :
    phrase.IsResult s s' := by
  -- A rule is one way through a reader: its conditions choose the branches of the definition.
  induction h with
  | @pipe context close s s₁ s₂ decls commands hd hc hp ih =>
    show pipeline context close s = _
    rw [pipeline, hd]
    simp only [ih context, hp]
  | close =>
    intro context
    rw [commands, if_pos rfl]
  | command hk hs ha hn hl hc iha ihc =>
    intro context
    rw [commands, if_neg hk, if_pos hs]
    simp only [show arguments _ = _ from iha, ihc context]
    rw [dif_pos ⟨hn, hl⟩]
  | spaced ho hk hl ha iho iha =>
    show arguments _ = _
    rw [arguments, show operand _ = _ from iho]
    simp only [hk, show arguments _ = _ from iha]
    rw [dif_pos hl]
  | closed ho hk ih =>
    show arguments _ = _
    rw [arguments, show operand _ = _ from ih]
    rcases hk with hk | hk <;> simp only [hk]
  | piped ho hk ih =>
    show arguments _ = _
    rw [arguments, show operand _ = _ from ih]
    simp only [hk]
  | parenthesis hk hp hf ih =>
    show operand _ = _
    rw [operand, dif_pos hk, show pipeline _ _ _ = _ from ih]
    simp only [hf]
  | @atom s s₁ base node ha hf =>
    have hk : s.peekWord.kind ≠ .leftParen := by
      intro hk
      rw [atom?_eq_none_iff.2 (.inr hk)] at ha
      cases ha
    show operand _ = _
    rw [operand, dif_neg hk, ha]
    simp only [hf]
  | absent hk ha =>
    show operand _ = _
    rw [operand, dif_neg hk, ha]

-- The readers call each other on shorter inputs, and these proofs recurse as the readers do.
mutual

/-- The pipeline that is read is one of the grammar. -/
theorem pipeline_reads {context : Context} {close : Token.Kind} {s s' : Input} {pipe : Pipe Node}
    (h : pipeline context close s = .ok (pipe, s')) :
    (Phrase.pipe context close pipe).Reads s s' := by
  rw [pipeline] at h
  split at h
  next => cases h
  next decls s₁ hd =>
    have hs : s₁.size ≤ s.size := declarations_size hd
    split at h
    next => cases h
    next cs s₂ hc =>
      split at h
      next => cases h
      next checked hp =>
        obtain rfl := Pipe.check_eq_ok hp
        cases h
        exact .pipe hd (commands_reads hc) hp
termination_by 4 * s.size + 3

/-- The commands that are read are those of the grammar. -/
theorem commands_reads {context : Context} {close : Token.Kind} {s s' : Input}
    {cs : List (Command Node)} (h : commands context close s = .ok (cs, s')) :
    (Phrase.commands close cs).Reads s s' := by
  rw [commands] at h
  split at h
  next hk => cases h; subst hk; exact .close
  next hk =>
    split at h
    next hs =>
      split at h
      next => cases h
      next args s₁ ha =>
        split at h
        next hl =>
          split at h
          next => cases h
          next rest s₂ hc =>
            cases h
            exact .command hk hs (arguments_reads ha) hl.1 hl.2 (commands_reads hc)
        next => cases h
    next => cases h
termination_by 4 * s.size + 2

/-- The arguments that are read are those of the grammar. -/
theorem arguments_reads {s s' : Input} {args : List Node} (h : arguments s = .ok (args, s')) :
    (Phrase.arguments args).Reads s s' := by
  have hsize := s.size_skipSpace_le
  rw [arguments] at h
  split at h
  next => cases h
  next arg s₁ ho =>
    simp only at h
    split at h
    next hk =>
      split at h
      next hl =>
        split at h
        next => cases h
        next rest s₂ ha =>
          cases h
          exact .spaced (operand_reads ho) hk hl (arguments_reads ha)
      next => cases h
    next hk => cases h; exact .closed (operand_reads ho) (.inl hk)
    next hk => cases h; exact .closed (operand_reads ho) (.inr hk)
    next hk => cases h; exact .piped (operand_reads ho) hk
    next => cases h
termination_by 4 * s.size + 1

/-- The operand that is read is one of the grammar. -/
theorem operand_reads {s s' : Input} {arg : Option Node} (h : operand s = .ok (arg, s')) :
    (Phrase.operand arg).Reads s s' := by
  rw [operand] at h
  split at h
  next hk =>
    have hsize := Input.size_next_lt (s := s) (by rw [hk]; decide)
    split at h
    next => cases h
    next pipe s₁ hp =>
      split at h
      next => cases h
      next node s₂ hf => cases h; exact .parenthesis hk (pipeline_reads hp) hf
  next hk =>
    split at h
    next => cases h
    next ha => cases h; exact .absent hk ha
    next base ha =>
      split at h
      next => cases h
      next node s₁ hf => cases h; exact .atom ha hf
termination_by 4 * s.size

end

/-- A pipe is read exactly when the grammar has it. -/
theorem pipeline_eq_ok_iff {context : Context} {close : Token.Kind} {s s' : Input}
    {pipe : Pipe Node} :
    pipeline context close s = .ok (pipe, s') ↔ (Phrase.pipe context close pipe).Reads s s' :=
  ⟨pipeline_reads, isResult_of_reads⟩

/-! ## What is left -/

namespace Input

/-- Skipping spaces leaves a suffix of the tokens. -/
theorem skipSpace_suffix (s : Input) : s.skipSpace.tokens <:+ s.tokens :=
  List.dropWhile_suffix _

/-- Dropping a token leaves a suffix of the tokens. -/
theorem tail_suffix (s : Input) : s.tail.tokens <:+ s.tokens :=
  List.tail_suffix _

/-- Reading a word leaves a suffix of the tokens. -/
theorem next_suffix (s : Input) : s.next.tokens <:+ s.tokens :=
  s.skipSpace.tail_suffix.trans s.skipSpace_suffix

/-- The tokens from the next word on, unless the tokens are used up. -/
theorem skipSpace_tokens {s : Input} (h : s.peekWord.kind ≠ .eof) :
    s.skipSpace.tokens = s.peekWord :: s.next.tokens := by
  show s.skipSpace.tokens = s.skipSpace.peek :: s.skipSpace.tail.tokens
  have h : s.skipSpace.peek.kind ≠ .eof := h
  generalize s.skipSpace = word at h ⊢
  obtain ⟨tokens, scope⟩ := word
  cases tokens with
  | nil => exact absurd rfl h
  | cons t rest => rfl

/-- The next token is one of the tokens, unless they are at their end. -/
theorem peek_mem_of_ne {s : Input} (h : s.peek.kind ≠ .eof) : s.peek ∈ s.tokens := by
  obtain ⟨tokens, scope⟩ := s
  cases tokens with
  | nil => exact absurd rfl h
  | cons t rest => exact List.mem_cons_self

/-- The next word is one of the tokens, unless they are at their end. -/
theorem peekWord_mem {s : Input} (h : s.peekWord.kind ≠ .eof) : s.peekWord ∈ s.tokens :=
  s.skipSpace_suffix.subset (peek_mem_of_ne h)

end Input

/-- Declarations leave a suffix of the tokens. -/
theorem Declares.suffix {more : Nat} {decls : List Variable} {s s' : Input}
    (h : Declares more decls s s') : s'.tokens <:+ s.tokens :=
  h.passes (R := fun s s' => s'.tokens <:+ s.tokens) (fun _ => List.suffix_rfl) fun _ _ ih =>
    ih.trans ((Input.next_suffix _).trans (Input.next_suffix _))

/-- Reading declarations leaves a suffix of the tokens. -/
theorem declarations_suffix {context : Context} {more : Nat} {s s' : Input}
    {decls : List Variable} (h : declarations context more s = .ok (decls, s')) :
    s'.tokens <:+ s.tokens :=
  (declarations_eq_ok_iff.1 h).suffix

/-- Trailing fields leave a suffix of the tokens. -/
theorem withFields_suffix {node node' : Node} {s s' : Input}
    (h : withFields node s = .ok (node', s')) : s'.tokens <:+ s.tokens := by
  rcases withFields_cases h with ⟨-, -, rfl⟩ | ⟨first, rest, -, -, -, -, rfl⟩
  · exact List.suffix_rfl
  · exact List.dropWhile_suffix _

/-- A phrase is read from the front of the tokens. -/
theorem Phrase.Reads.suffix {phrase : Phrase} {s s' : Input} (h : phrase.Reads s s') :
    s'.tokens <:+ s.tokens := by
  induction h with
  | pipe hd hc hp ih => exact ih.trans (declarations_suffix hd)
  | close => exact Input.next_suffix _
  | command hk hs ha hn hl hc iha ihc => exact ihc.trans iha
  | spaced ho hk hl ha iho iha =>
    exact iha.trans ((Input.tail_suffix _).trans (iho.trans (Input.skipSpace_suffix _)))
  | closed ho hk ih => exact ih.trans (Input.skipSpace_suffix _)
  | piped ho hk ih =>
    exact (Input.tail_suffix _).trans (ih.trans (Input.skipSpace_suffix _))
  | parenthesis hk hp hf ih =>
    exact (withFields_suffix hf).trans (ih.trans (Input.next_suffix _))
  | atom ha hf => exact (withFields_suffix hf).trans (Input.next_suffix _)
  | absent hk ha => exact Input.skipSpace_suffix _

end FieldAudit.Template
