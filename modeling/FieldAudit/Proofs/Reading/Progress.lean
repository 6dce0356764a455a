import FieldAudit.Proofs.Printing.Pipe
import FieldAudit.Proofs.Reading.Passage

/-! # Progress of the readers

The readers call themselves on what is left only if it is shorter than what was given, and fail
otherwise.  It always is shorter: an argument takes a token (`Phrase.Reads.arguments_progress`),
and so does an item of a block (`Passage.Reads.item_progress`).  So the readers satisfy equations
without these checks: `commands_eq`, `arguments_eq`, `items_eq`, `branch_eq` and `document_eq`. -/

namespace FieldAudit.Template

/-! ## Pipes -/

/-- The next word is no space. -/
theorem Input.peekWord_ne_space (s : Input) : s.peekWord.kind ≠ .space := by
  obtain ⟨tokens, scope⟩ := s
  induction tokens with
  | nil => show Token.Kind.eof ≠ .space; decide
  | cons t rest ih =>
    by_cases ht : t.kind = .space
    · rw [peekWord, skipSpace_of_space ht]
      exact ih
    · rw [peekWord_of_ne ht]
      exact ht

/-- A phrase leaves no more input than there was. -/
theorem Phrase.Reads.size_le {phrase : Phrase} {s s' : Input} (h : phrase.Reads s s') :
    s'.size ≤ s.size :=
  h.suffix.length_le

/-- A space is a token, so less is left behind an operand and a space. -/
theorem Phrase.Reads.size_afterSpace_lt {arg : Option Node} {s s' : Input}
    (h : (Phrase.operand arg).Reads s.skipSpace s') (hk : s'.peek.kind = .space) :
    s'.tail.size < s.size :=
  Nat.lt_of_lt_of_le (Input.size_tail_lt (by rw [hk]; decide))
    (Nat.le_trans h.size_le s.size_skipSpace_le)

/-- Where an operand starts, one is read. -/
theorem Phrase.Reads.operand_progress {arg : Option Node} {s s' : Input}
    (h : (Phrase.operand arg).Reads s s') (hs : s.peekWord.kind.startsOperand = true) :
    arg ≠ none ∧ s'.size < s.size := by
  have hlt : s.next.size < s.size := by
    refine Input.size_next_lt fun hk => ?_
    rw [hk] at hs
    cases hs
  cases h with
  | parenthesis hk hp hf =>
    exact ⟨by simp, Nat.lt_of_le_of_lt (Nat.le_trans (withFields_size hf) hp.size_le) hlt⟩
  | atom ha hf => exact ⟨by simp, Nat.lt_of_le_of_lt (withFields_size hf) hlt⟩
  | absent hk ha =>
    rw [(atom?_eq_none_iff.1 ha).resolve_right hk] at hs
    cases hs

/-- A command that starts with an operand has an argument. -/
theorem Phrase.Reads.arguments_progress {args : List Node} {s s' : Input}
    (h : (Phrase.arguments args).Reads s s') (hs : s.peekWord.kind.startsOperand = true) :
    args ≠ [] ∧ s'.size < s.size := by
  have first {arg : Option Node} {s₁ : Input} (ho : (Phrase.operand arg).Reads s.skipSpace s₁) :
      arg.toList ≠ [] ∧ s₁.size < s.size := by
    have hword : s.skipSpace.peekWord = s.peekWord :=
      Input.peekWord_of_skipSpace_eq s.skipSpace_skipSpace
    obtain ⟨hsome, hlt⟩ := ho.operand_progress (by rw [hword]; exact hs)
    refine ⟨?_, Nat.lt_of_lt_of_le hlt s.size_skipSpace_le⟩
    cases arg with
    | none => exact absurd rfl hsome
    | some node => simp
  cases h with
  | spaced ho hk hl ha =>
    obtain ⟨hne, hlt⟩ := first ho
    refine ⟨fun hnil => hne (List.append_eq_nil_iff.1 hnil).1, ?_⟩
    exact Nat.lt_of_le_of_lt (Nat.le_trans ha.size_le (Input.size_tail_le _)) hlt
  | closed ho hk => exact first ho
  | piped ho hk =>
    obtain ⟨hne, hlt⟩ := first ho
    exact ⟨hne, Nat.lt_of_le_of_lt (Input.size_tail_le _) hlt⟩

/-- A pipeline is its declarations, then its commands, then a check, in the words of the monad. -/
theorem pipeline_eq (context : Context) (close : Token.Kind) (s : Input) :
    pipeline context close s = do
      let (decls, s₁) ← declarations context context.furtherDeclarations s
      let (commands, s₂) ← commands context close s₁
      let pipe ← Pipe.check context ⟨s.peekWord.pos, decls, commands⟩
      return (pipe, s₂) := by
  rw [pipeline]
  split
  next e hd => rw [hd]; rfl
  next decls s₁ hd =>
    rw [hd]
    show _ = (commands context close s₁).bind _
    cases commands context close s₁ with
    | error e => rfl
    | ok result =>
      show _ = (Pipe.check context ⟨s.peekWord.pos, decls, result.1⟩).bind _
      dsimp only
      cases Pipe.check context ⟨s.peekWord.pos, decls, result.1⟩ <;> rfl

/-- Commands end at the closing token or go on with arguments. -/
theorem commands_eq (context : Context) (close : Token.Kind) (s : Input) :
    commands context close s =
      if s.peekWord.kind = close then .ok ([], s.next)
      else if s.peekWord.kind.startsOperand then do
        let (args, s₁) ← arguments s
        let (rest, s₂) ← commands context close s₁
        return (⟨s.peekWord.pos, args⟩ :: rest, s₂)
      else .error (unexpected s.peekWord context) := by
  rw [commands]
  split
  next => rfl
  next =>
    split
    next hs =>
      cases ha : arguments s with
      | error e => rfl
      | ok result =>
        obtain ⟨args, s₁⟩ := result
        -- An operand starts here, so the arguments take a token and are not none.
        have hprogress := (arguments_reads ha).arguments_progress hs
        dsimp only
        rw [dif_pos hprogress]
        show _ = (commands context close s₁).bind _
        cases commands context close s₁ <;> rfl
    next => rfl

/-- Reads what follows an argument of a command. -/
def afterOperand (arg : Option Node) (s : Input) : Except Error (List Node × Input) :=
  match s.peek.kind with
  | .space => do
    let (args, s₁) ← arguments s.tail
    return (arg.toList ++ args, s₁)
  | .rightDelim => .ok (arg.toList, s)
  | .rightParen => .ok (arg.toList, s)
  | .pipe => .ok (arg.toList, s.tail)
  | _ => .error (unexpected s.peek .operand)

/-- Arguments are an operand and what follows it. -/
theorem arguments_eq (s : Input) :
    arguments s = operand s.skipSpace >>= fun (arg, s₁) => afterOperand arg s₁ := by
  rw [arguments]
  cases ho : operand s.skipSpace with
  | error e => rfl
  | ok result =>
    obtain ⟨arg, s₁⟩ := result
    show _ = afterOperand arg s₁
    rw [afterOperand]
    cases hk : s₁.peek.kind with
    | space =>
      have hlt := (operand_reads ho).size_afterSpace_lt hk
      simp only [hk, dif_pos hlt]
      cases arguments s₁.tail <;> rfl
    | _ => simp only [hk]

/-- A parenthesis is read as a pipeline with trailing fields. -/
theorem operand_parenthesis_eq {s : Input} (h : s.peekWord.kind = .leftParen) :
    operand s = do
      let (pipe, s₁) ← pipeline .parenthesis .rightParen s.next
      let (node, s₂) ← withFields (.pipe pipe) s₁
      return (some node, s₂) := by
  rw [operand, dif_pos h]
  cases pipeline .parenthesis .rightParen s.next with
  | error e => rfl
  | ok result =>
    show _ = (withFields (.pipe result.1) result.2).bind _
    dsimp only
    cases withFields (.pipe result.1) result.2 <;> rfl

/-- Any other operand is read as an atom with trailing fields. -/
theorem operand_atom_eq {s : Input} (h : s.peekWord.kind ≠ .leftParen) :
    operand s = do
      match ← atom? s.scope s.peekWord with
      | none => return (none, s.skipSpace)
      | some base =>
        let (node, s₁) ← withFields base s.next
        return (some node, s₁) := by
  rw [operand, dif_neg h]
  cases atom? s.scope s.peekWord with
  | error e => rfl
  | ok base =>
    cases base with
    | none => rfl
    | some base =>
      show _ = (withFields base s.next).bind _
      dsimp only
      cases withFields base s.next <;> rfl

/-! ## Blocks -/

/-- A passage leaves no more input than there was. -/
theorem Passage.Reads.size_le {passage : Passage} {s s' : State} (h : passage.Reads s s') :
    s'.size ≤ s.size :=
  h.suffix.length_le

/-- An item takes a token. -/
theorem Passage.Reads.item_progress {depth : Nat} {i : Item} {s s' : State}
    (h : (Passage.item depth i).Reads s s') : s'.size < s.size := by
  have after {s : State} {kind : Token.Kind} {input : Input} (ho : s.Opens kind)
      (hs : input.tokens <:+ s.afterWord.input.tokens) : input.size < s.size :=
    Nat.lt_of_le_of_lt hs.length_le ho.afterWord_size_lt
  cases h with
  | text hk => exact Input.size_next_lt (by rw [hk]; decide)
  | branch ho hb => exact after ho hb.suffix
  | block ho hb => exact after ho hb.suffix
  | endAction ho hr => exact after ho (Input.next_suffix _)
  | elseAction ho hr => exact after ho (Input.next_suffix _)
  | elseBranch ho hb => exact after ho (Input.skipSpace_suffix _)
  | breakAction ho hr hd => exact after ho (Input.next_suffix _)
  | continueAction ho hr hd => exact after ho (Input.next_suffix _)
  | bareCall ho hn hr => exact after ho ((Input.next_suffix _).trans (Input.next_suffix _))
  | call ho hn hr hp => exact after ho (hp.suffix.trans (Input.next_suffix _))
  | action ho hw hp => exact Nat.lt_of_le_of_lt hp.size_le ho.size_lt

/-- Items, which end in an action, leave less input than there was. -/
theorem Passage.Reads.items_progress {depth : Nat} {nodes : List Node} {ending : Ending}
    {s s' : State} (h : (Passage.items depth nodes ending).Reads s s') : s'.size < s.size := by
  cases h with
  | last hk hi => exact hi.item_progress
  | more hk hi hl hr => exact Nat.lt_of_le_of_lt hr.size_le hl

/-- The left delimiter and the word of a definition are tokens. -/
theorem State.size_define_lt {s : State} (hk : s.input.peek.kind = .leftDelim) :
    (s.read s.input.tail.next).size < s.size :=
  Nat.lt_of_le_of_lt (Input.size_next_le _) (Input.size_tail_lt (by rw [hk]; decide))

/-- A definition leaves less input than there was. -/
theorem Passage.Reads.definition_progress {s s' : State}
    (h : Passage.definition.Reads (s.read s.input.tail.next) s')
    (hk : s.input.peek.kind = .leftDelim) : s'.size < s.size :=
  Nat.lt_of_le_of_lt h.size_le (State.size_define_lt hk)

/-- Items are read one by one up to the action that ends them. -/
theorem items_eq (depth : Nat) (s : State) :
    items depth s =
      if s.input.peekWord.kind = .eof then .error ⟨s.input.peekWord.pos, .unexpectedEof⟩
      else do
        match ← item depth s with
        | (.ending ending, s₁) => return ([], ending, s₁)
        | (.node node, s₁) =>
          let (nodes, ending, s₂) ← items depth s₁
          return (node :: nodes, ending, s₂) := by
  rw [items]
  dsimp only
  split
  next => rfl
  next =>
    cases hi : item depth s with
    | error e => rfl
    | ok result =>
      obtain ⟨i, s₁⟩ := result
      cases i with
      | ending ending => rfl
      | node node =>
        dsimp only
        rw [dif_pos (item_reads hi).item_progress]
        show _ = (items depth s₁).bind _
        cases items depth s₁ <;> rfl

/-- Reads the alternative of a branch, if the action that closed its body starts one. -/
def alternative (depth : Nat) (kind : BranchKind) (s : State) :
    Ending → Except Error (Option (Block Node) × State)
  | .endAction _ => .ok (none, s)
  | .elseAction pos =>
    if kind.chains ∧ s.input.peek.kind = .keyword kind.keyword then do
      let (nested, s₁) ← branch depth kind (s.read s.input.tail)
      return (some ⟨pos, [nested]⟩, s₁)
    else do
      match ← items depth s with
      | (others, .endAction _, s₁) => return (some ⟨s.input.peekWord.pos, others⟩, s₁)
      | (_, .elseAction pos, _) => .error ⟨pos, .expectedEnd⟩

/-- A branch is its pipeline, its body and its alternative, and ends the scope of what it declares.
-/
theorem branch_eq (depth : Nat) (kind : BranchKind) (s : State) :
    branch depth kind s = do
      let (pipe, input) ← pipeline (.control kind.keyword) .rightDelim s.input
      let (nodes, ending, s₁) ← items (kind.depth depth) (s.read input)
      let (other, s₂) ← alternative depth kind s₁ ending
      return (.branch kind pipe.pos pipe ⟨input.peekWord.pos, nodes⟩ other,
        s₂.withScope s.input.scope) := by
  rw [branch]
  split
  next e hp => rw [hp]; rfl
  next pipe input hp =>
    rw [hp]
    show _ = (items (kind.depth depth) (s.read input)).bind _
    cases hi : items (kind.depth depth) (s.read input) with
    | error e =>
      rw [show items (if kind = .rangeBranch then depth + 1 else depth) _ = _ from hi]
      rfl
    | ok result =>
      rw [show items (if kind = .rangeBranch then depth + 1 else depth) _ = _ from hi]
      obtain ⟨nodes, ending, s₁⟩ := result
      cases ending with
      | endAction pos => rfl
      | elseAction pos =>
        -- The body takes the action that ends it, so the reader may go on.
        have hlt : s₁.size < s.size :=
          Nat.lt_of_lt_of_le (items_reads hi).items_progress (pipeline_size hp)
        show _ = (alternative depth kind s₁ (.elseAction pos)).bind _
        rw [alternative]
        dsimp only
        rw [dif_pos hlt]
        split
        next =>
          cases branch depth kind (s₁.read s₁.input.tail) <;> rfl
        next =>
          cases items depth s₁ with
          | error e => rfl
          | ok result =>
            obtain ⟨others, last, s₂⟩ := result
            cases last <;> rfl

/-- The body of a definition has a scope of its own and ends in an `end`. -/
theorem definitionBody_eq (context : Context) (depth : Nat) (s : State) :
    definitionBody context depth s = (do
      match ← items depth (s.withScope initialScope) with
      | (nodes, .endAction _, s₁) =>
        return (⟨s.input.peekWord.pos, nodes⟩, s₁.withScope s.input.scope)
      | (_, .elseAction pos, _) => .error ⟨pos, .elseInDefinition context⟩) := by
  rw [definitionBody]
  cases items depth (s.withScope initialScope) with
  | error e => rfl
  | ok result =>
    obtain ⟨nodes, ending, s₁⟩ := result
    cases ending <;> rfl

/-- A block is a definition and a call of it. -/
theorem block_eq (depth : Nat) (s : State) :
    block depth s = do
      let name ← templateName .block s.input.peekWord
      let (pipe, input) ← pipeline .block .rightDelim s.input.next
      let (root, s₁) ← definitionBody .block depth (s.read input)
      let defines ← define s.input.peekWord.pos name root s₁.defines
      return (.template s.input.peekWord.pos name (some pipe), ⟨s₁.input, defines⟩) := by
  rw [block]
  dsimp only
  cases templateName .block s.input.peekWord with
  | error e => rfl
  | ok name =>
    dsimp only
    split
    next e hp => rw [hp]; rfl
    next pipe input hp =>
      rw [hp]
      show _ = (definitionBody .block depth (s.read input)).bind _
      cases definitionBody .block depth (s.read input) with
      | error e => rfl
      | ok result =>
        show _ = (define s.input.peekWord.pos name result.1 result.2.defines).bind _
        dsimp only
        cases define s.input.peekWord.pos name result.1 result.2.defines <;> rfl

/-- A document is read one definition or item at a time. -/
theorem document_eq (s : State) :
    document s =
      if s.input.peek.kind = .eof then .ok ([], s)
      else if s.input.peek.kind = .leftDelim ∧
          s.input.tail.peekWord.kind = .keyword .defineKw then do
        let s₁ ← definition (s.read s.input.tail.next)
        document s₁
      else do
        match ← item 0 s with
        | (.ending ending, _) => .error ⟨ending.pos, .strayClosing ending.keyword⟩
        | (.node node, s₁) =>
          let (nodes, s₂) ← document s₁
          return (node :: nodes, s₂) := by
  rw [document]
  dsimp only
  split
  next => rfl
  next =>
    split
    next hw =>
      cases hd : definition (s.read s.input.tail.next) with
      | error e => rfl
      | ok s₁ =>
        dsimp only
        rw [dif_pos ((definition_reads hd).definition_progress hw.1)]
        rfl
    next =>
      cases hi : item 0 s with
      | error e => rfl
      | ok result =>
        obtain ⟨i, s₁⟩ := result
        cases i with
        | ending ending => rfl
        | node node =>
          dsimp only
          rw [dif_pos (item_reads hi).item_progress]
          show _ = (document s₁).bind _
          cases document s₁ <;> rfl

end FieldAudit.Template
