import FieldAudit.Proofs.Reading.Progress
import Mathlib.Data.List.TakeWhile

/-! # The readers without their checks

The readers check that what is left gets shorter before they call themselves on it, and they take
the first character off a field's token whatever it is.  The readers in `Unchecked` do neither: they
call themselves on what is left, and cut the name of a field out of its token from the second byte
on.  There is no outcome where their calls nest deeper than a limit, nor where they cut inside a
character.

On tokens whose fields start with a character of one byte the calls nest no deeper than five times
the number of tokens and a little more, so that there is an outcome.  It is that of the readers with
the checks (`Unchecked.pipeline_eq`, `Unchecked.items_eq`, `Unchecked.ofTokens_eq`). -/

namespace FieldAudit.Template

/-! ## Outcomes -/

/-- The outcome of a reader, if there is one. -/
abbrev Attempt : Type → Type := ExceptT Error Option

namespace Attempt

/-- No outcome. -/
def none {α : Type} : Attempt α :=
  ExceptT.mk Option.none

variable {α β : Type} {x : Attempt α} {y : Except Error α}

/-- One step after another has an outcome if both have. -/
theorem bind_eq {f : α → Attempt β} {g : α → Except Error β} (h : x = liftM y)
    (hf : ∀ a, y = .ok a → f a = liftM (g a)) : x >>= f = liftM (y >>= g) := by
  subst h
  cases y with
  | error e => rfl
  | ok a => exact hf a rfl

/-- An attempt that goes through and then only computes is the lifted computation. -/
theorem bind_pure_eq {f : α → Attempt β} {g : α → β} (h : x = liftM y)
    (hf : ∀ a, f a = pure (g a)) : x >>= f = liftM (y.map g) := by
  subst h
  cases y with
  | error e => rfl
  | ok a => exact hf a

end Attempt

/-! ## Names of fields -/

/-- The text of a token from its second byte on, if a character ends there. -/
def Token.cutName (t : Token) : Attempt String :=
  match t.lexeme with
  | [] => .none
  | c :: name => if c.utf8Size = 1 then return String.ofList name else .none

/-- Every field starts with a character of one byte. -/
def FieldsNamed (tokens : List Token) : Prop :=
  ∀ t ∈ tokens, t.kind = .field → ∃ c ∈ t.lexeme.head?, c.utf8Size = 1

/-- The name of a field is cut behind a first character of one byte. -/
theorem Token.cutName_eq {t : Token} (h : ∃ c ∈ t.lexeme.head?, c.utf8Size = 1) :
    t.cutName = pure (String.ofList t.lexeme.tail) := by
  obtain ⟨c, hc, hsize⟩ := h
  obtain ⟨name, hlexeme⟩ := List.head?_eq_some_iff.1 hc
  rw [cutName, hlexeme]
  exact if_pos hsize

/-- Field tokens with names are all cut. -/
theorem FieldsNamed.mapM_eq {tokens : List Token} (h : FieldsNamed tokens)
    (hf : ∀ t ∈ tokens, t.kind = .field) :
    tokens.mapM Token.cutName = pure (tokens.map fun t => String.ofList t.lexeme.tail) := by
  induction tokens with
  | nil => rfl
  | cons t rest ih =>
    obtain ⟨ht, hrest⟩ := List.forall_mem_cons.1 h
    obtain ⟨hk, hkinds⟩ := List.forall_mem_cons.1 hf
    rw [List.mapM_cons, Token.cutName_eq (ht hk), ih hrest hkinds]
    rfl

/-- The tokens that are left have their names too. -/
theorem FieldsNamed.suffix {tokens rest : List Token} (h : FieldsNamed tokens)
    (hs : rest <:+ tokens) : FieldsNamed rest :=
  fun t ht => h t (hs.subset ht)

namespace Unchecked

/-- `atom?`, with the name of a field cut out of its token. -/
def atom? (scope : List String) (t : Token) : Attempt (Option Node) :=
  if t.kind = .field then return some (.field t.pos [← t.cutName])
  else Template.atom? scope t

/-- `withFields`, with the names of the fields cut out of their tokens. -/
def withFields (node : Node) (s : Input) : Attempt (Node × Input) := do
  let fields := s.tokens.takeWhile (·.kind = .field)
  match fields with
  | [] => return (node, s)
  | first :: _ =>
    let names ← fields.mapM Token.cutName
    if node.isLiteral then throw ⟨first.pos, .fieldAfterLiteral node.literalText⟩
    else
      return (node.select first.pos names,
        { s with tokens := s.tokens.dropWhile (·.kind = .field) })

/-! ## Pipes -/

mutual

/-- Reads a pipe up to and with its closing token. -/
def pipeline : Nat → Context → Token.Kind → Input → Attempt (Pipe Node × Input)
  | 0, _, _, _ => .none
  | limit + 1, context, close, s => do
    let (decls, s₁) ← declarations context context.furtherDeclarations s
    let (commands, s₂) ← commands limit context close s₁
    let pipe ← Pipe.check context ⟨s.peekWord.pos, decls, commands⟩
    return (pipe, s₂)

/-- Reads commands up to and with the closing token. -/
def commands : Nat → Context → Token.Kind → Input → Attempt (List (Command Node) × Input)
  | 0, _, _, _ => .none
  | limit + 1, context, close, s =>
    if s.peekWord.kind = close then return ([], s.next)
    else if s.peekWord.kind.startsOperand then do
      let (args, s₁) ← arguments limit s
      if args.isEmpty then throw ⟨s.peekWord.pos, .emptyCommand⟩
      else
        let (rest, s₂) ← commands limit context close s₁
        return (⟨s.peekWord.pos, args⟩ :: rest, s₂)
    else throw (unexpected s.peekWord context)

/-- Reads the arguments of a command. -/
def arguments : Nat → Input → Attempt (List Node × Input)
  | 0, _ => .none
  | limit + 1, s => do
    let (arg, s₁) ← operand limit s.skipSpace
    match s₁.peek.kind with
    | .space =>
      let (args, s₂) ← arguments limit s₁.tail
      return (arg.toList ++ args, s₂)
    | .rightDelim => return (arg.toList, s₁)
    | .rightParen => return (arg.toList, s₁)
    | .pipe => return (arg.toList, s₁.tail)
    | _ => throw (unexpected s₁.peek .operand)

/-- Reads an operand with the fields taken from it, if one starts here. -/
def operand : Nat → Input → Attempt (Option Node × Input)
  | 0, _ => .none
  | limit + 1, s =>
    if s.peekWord.kind = .leftParen then do
      let (pipe, s₁) ← pipeline limit .parenthesis .rightParen s.next
      let (node, s₂) ← withFields (.pipe pipe) s₁
      return (some node, s₂)
    else do
      match ← atom? s.scope s.peekWord with
      | none => return (none, s.skipSpace)
      | some base =>
        let (node, s₁) ← withFields base s.next
        return (some node, s₁)

end

/-- Atoms are read without a fault. -/
theorem atom?_eq {scope : List String} {t : Token}
    (h : t.kind = .field → ∃ c ∈ t.lexeme.head?, c.utf8Size = 1) :
    atom? scope t = liftM (Template.atom? scope t) := by
  unfold atom?
  split
  next hk =>
    rw [Token.cutName_eq (h hk), Template.atom?, hk]
    rfl
  next => rfl

/-- Trailing fields are read without a fault. -/
theorem withFields_eq (node : Node) {s : Input} (h : FieldsNamed s.tokens) :
    withFields node s = liftM (Template.withFields node s) := by
  have hnames : (s.tokens.takeWhile (·.kind = .field)).mapM Token.cutName =
      pure ((s.tokens.takeWhile (·.kind = .field)).map fun t => String.ofList t.lexeme.tail) := by
    refine FieldsNamed.mapM_eq (fun t ht => h t (List.takeWhile_subset _ ht)) fun t ht => ?_
    simpa using List.mem_takeWhile_imp ht
  unfold withFields Template.withFields
  dsimp only
  rw [hnames]
  cases s.tokens.takeWhile (·.kind = .field) with
  | nil => rfl
  | cons first rest =>
    dsimp only
    split <;> rfl

-- A pipe, its commands, their arguments and an operand follow on each other at the same token, so
-- each needs one call less than the one before.  Back at a pipe, a parenthesis has been read.

mutual

/-- Pipelines are read without a fault, and within the limit. -/
theorem pipeline_eq {limit : Nat} (context : Context) (close : Token.Kind) {s : Input}
    (h : FieldsNamed s.tokens) (hl : 4 * s.size + 3 < limit) :
    pipeline limit context close s = liftM (Template.pipeline context close s) := by
  cases limit with
  | zero => cases hl
  | succ limit =>
    rw [pipeline, Template.pipeline_eq]
    refine Attempt.bind_eq rfl ?_
    rintro ⟨decls, s₁⟩ hd
    have hsize : s₁.size ≤ s.size := declarations_size hd
    have hs₁ := h.suffix (declarations_suffix hd)
    refine Attempt.bind_eq (commands_eq context close hs₁ (by omega)) ?_
    rintro ⟨commands, s₂⟩ -
    exact Attempt.bind_eq rfl fun pipe _ => rfl
termination_by limit
decreasing_by all_goals omega

/-- Commands are read without a fault, and within the limit. -/
theorem commands_eq {limit : Nat} (context : Context) (close : Token.Kind) {s : Input}
    (h : FieldsNamed s.tokens) (hl : 4 * s.size + 2 < limit) :
    commands limit context close s = liftM (Template.commands context close s) := by
  cases limit with
  | zero => cases hl
  | succ limit =>
    rw [commands, Template.commands_eq]
    split
    next => rfl
    next =>
      split
      next hs =>
        refine Attempt.bind_eq (arguments_eq h (by omega)) ?_
        rintro ⟨args, s₁⟩ ha
        have hreads := arguments_reads ha
        obtain ⟨hne, hlt⟩ := hreads.arguments_progress hs
        dsimp only
        rw [if_neg (by simpa using hne)]
        refine Attempt.bind_eq (commands_eq context close (h.suffix hreads.suffix) (by omega)) ?_
        rintro ⟨rest, s₂⟩ -
        rfl
      next => rfl
termination_by limit
decreasing_by all_goals omega

/-- Arguments are read without a fault, and within the limit. -/
theorem arguments_eq {limit : Nat} {s : Input} (h : FieldsNamed s.tokens)
    (hl : 4 * s.size + 1 < limit) : arguments limit s = liftM (Template.arguments s) := by
  cases limit with
  | zero => cases hl
  | succ limit =>
    have hskip := s.size_skipSpace_le
    rw [arguments, Template.arguments_eq]
    refine Attempt.bind_eq (operand_eq (h.suffix s.skipSpace_suffix) (by omega)) ?_
    rintro ⟨arg, s₁⟩ ho
    have hs₁ : FieldsNamed s₁.tokens :=
      h.suffix ((operand_reads ho).suffix.trans s.skipSpace_suffix)
    unfold afterOperand
    dsimp only
    cases hk : s₁.peek.kind with
    | space =>
      have hlt := (operand_reads ho).size_afterSpace_lt hk
      refine Attempt.bind_eq (arguments_eq (hs₁.suffix s₁.tail_suffix) (by omega)) ?_
      rintro ⟨args, s₂⟩ -
      rfl
    | _ => rfl
termination_by limit
decreasing_by all_goals omega

/-- Operands are read without a fault, and within the limit. -/
theorem operand_eq {limit : Nat} {s : Input} (h : FieldsNamed s.tokens)
    (hl : 4 * s.size < limit) : operand limit s = liftM (Template.operand s) := by
  cases limit with
  | zero => cases hl
  | succ limit =>
    rw [operand]
    split
    next hk =>
      have hlt : s.next.size < s.size := Input.size_next_lt (by rw [hk]; decide)
      have hnext := h.suffix s.next_suffix
      rw [operand_parenthesis_eq hk]
      refine Attempt.bind_eq (pipeline_eq .parenthesis .rightParen hnext (by omega)) ?_
      rintro ⟨pipe, s₁⟩ hp
      refine Attempt.bind_eq (withFields_eq _ (hnext.suffix (pipeline_reads hp).suffix)) ?_
      rintro ⟨node, s₂⟩ -
      rfl
    next hk =>
      rw [operand_atom_eq hk]
      refine Attempt.bind_eq (atom?_eq ?_) ?_
      · intro hf
        exact h _ (Input.peekWord_mem (by rw [hf]; decide)) hf
      · rintro base -
        cases base with
        | none => rfl
        | some base =>
          refine Attempt.bind_eq (withFields_eq _ (h.suffix s.next_suffix)) ?_
          rintro ⟨node, s₁⟩ -
          rfl
termination_by limit
decreasing_by all_goals omega

end

/-! ## Blocks -/

/-- Reads the rest of a `template` action. -/
def templateCall (limit : Nat) (s : Input) : Attempt (Node × Input) := do
  let name ← templateName .template s.peekWord
  if s.next.peekWord.kind = .rightDelim then
    return (.template s.peekWord.pos name none, s.next.next)
  else
    let (pipe, s₁) ← pipeline limit .template .rightDelim s.next
    return (.template s.peekWord.pos name (some pipe), s₁)

/-- Reads the rest of an action that is a pipe. -/
def pipeAction (limit : Nat) (s : Input) : Attempt (Node × Input) := do
  let (pipe, s₁) ← pipeline limit .command .rightDelim s
  return (.action s.peekWord.pos pipe, s₁)

mutual

/-- Reads the nodes of a block, and the action that closes it. -/
def items : Nat → Nat → State → Attempt (List Node × Ending × State)
  | 0, _, _ => .none
  | limit + 1, depth, s =>
    if s.input.peekWord.kind = .eof then throw ⟨s.input.peekWord.pos, .unexpectedEof⟩
    else do
      match ← item limit depth s with
      | (.ending ending, s₁) => return ([], ending, s₁)
      | (.node node, s₁) =>
        let (nodes, ending, s₂) ← items limit depth s₁
        return (node :: nodes, ending, s₂)

/-- Reads a piece of text or an action. -/
def item : Nat → Nat → State → Attempt (Item × State)
  | 0, _, _ => .none
  | limit + 1, depth, s =>
    if s.input.peekWord.kind = .text then
      return (.node (.text s.input.peekWord.pos s.input.peekWord.lexeme), s.read s.input.next)
    else if s.input.peekWord.kind = .leftDelim then
      actionItem limit depth s s.word.kind
    else throw (unexpected s.input.peekWord .input)

/-- Reads an action by the kind of its first word. -/
def actionItem : Nat → Nat → State → Token.Kind → Attempt (Item × State)
  | 0, _, _, _ => .none
  | limit + 1, depth, s, kind => do
    match kind with
    | .keyword .ifKw => return Item.ofNode (← branch limit depth .ifBranch s.afterWord)
    | .keyword .rangeKw => return Item.ofNode (← branch limit depth .rangeBranch s.afterWord)
    | .keyword .withKw => return Item.ofNode (← branch limit depth .withBranch s.afterWord)
    | .keyword .blockKw => return Item.ofNode (← block limit depth s.afterWord)
    | .keyword .endKw =>
      let (ending, input) ← endAction s.afterWord.input
      return (.ending ending, s.read input)
    | .keyword .elseKw =>
      let (ending, input) ← elseAction s.afterWord.input
      return (.ending ending, s.read input)
    | .keyword .breakKw =>
      let input ← loopControl depth .breakKw s.word.pos s.afterWord.input
      return (.node (.breakLoop s.word.pos), s.read input)
    | .keyword .continueKw =>
      let input ← loopControl depth .continueKw s.word.pos s.afterWord.input
      return (.node (.continueLoop s.word.pos), s.read input)
    | .keyword .templateKw =>
      let (node, input) ← templateCall limit s.afterWord.input
      return (.node node, s.read input)
    | _ =>
      let (node, input) ← pipeAction limit s.input.next
      return (.node node, s.read input)

/-- Reads the rest of an `if`, `range` or `with` action, its block and its alternative. -/
def branch : Nat → Nat → BranchKind → State → Attempt (Node × State)
  | 0, _, _, _ => .none
  | limit + 1, depth, kind, s => do
    let (pipe, input) ← pipeline limit (.control kind.keyword) .rightDelim s.input
    let (nodes, ending, s₁) ← items limit (kind.depth depth) (s.read input)
    let (other, s₂) ← alternative limit depth kind s₁ ending
    return (.branch kind pipe.pos pipe ⟨input.peekWord.pos, nodes⟩ other,
      s₂.withScope s.input.scope)

/-- Reads the alternative of a branch, if the action that closed its body starts one. -/
def alternative : Nat → Nat → BranchKind → State → Ending →
    Attempt (Option (Block Node) × State)
  | 0, _, _, _, _ => .none
  | limit + 1, depth, kind, s, ending => do
    match ending with
    | .endAction _ => return (none, s)
    | .elseAction pos =>
      if kind.chains ∧ s.input.peek.kind = .keyword kind.keyword then
        let (nested, s₁) ← branch limit depth kind (s.read s.input.tail)
        return (some ⟨pos, [nested]⟩, s₁)
      else
        match ← items limit depth s with
        | (others, .endAction _, s₁) => return (some ⟨s.input.peekWord.pos, others⟩, s₁)
        | (_, .elseAction pos, _) => throw ⟨pos, .expectedEnd⟩

/-- Reads the rest of a `block` action. -/
def block : Nat → Nat → State → Attempt (Node × State)
  | 0, _, _ => .none
  | limit + 1, depth, s => do
    let name ← templateName .block s.input.peekWord
    let (pipe, input) ← pipeline limit .block .rightDelim s.input.next
    let (root, s₁) ← definitionBody limit .block depth (s.read input)
    let defines ← define s.input.peekWord.pos name root s₁.defines
    return (.template s.input.peekWord.pos name (some pipe), ⟨s₁.input, defines⟩)

/-- Reads the block of a defined template up to its `end`. -/
def definitionBody : Nat → Context → Nat → State → Attempt (Block Node × State)
  | 0, _, _, _ => .none
  | limit + 1, context, depth, s => do
    match ← items limit depth (s.withScope initialScope) with
    | (nodes, .endAction _, s₁) =>
      return (⟨s.input.peekWord.pos, nodes⟩, s₁.withScope s.input.scope)
    | (_, .elseAction pos, _) => throw ⟨pos, .elseInDefinition context⟩

end

/-- Reads the rest of a `define` action and the block of the template it defines. -/
def definition (limit : Nat) (s : State) : Attempt State := do
  let name ← templateName .define s.input.peekWord
  let (_, input) ← rightDelim .define s.input.next
  let (root, s₁) ← definitionBody limit .define 0 (s.read input)
  let defines ← define s.input.peekWord.pos name root s₁.defines
  return ⟨s₁.input, defines⟩

/-- Reads the nodes of a template up to its end. -/
def document : Nat → State → Attempt (List Node × State)
  | 0, _ => .none
  | limit + 1, s =>
    if s.input.peek.kind = .eof then return ([], s)
    else if s.input.peek.kind = .leftDelim ∧
        s.input.tail.peekWord.kind = .keyword .defineKw then do
      let s₁ ← definition limit (s.read s.input.tail.next)
      document limit s₁
    else do
      match ← item limit 0 s with
      | (.ending ending, _) => throw ⟨ending.pos, .strayClosing ending.keyword⟩
      | (.node node, s₁) =>
        let (nodes, s₂) ← document limit s₁
        return (node :: nodes, s₂)

/-- The tree of a template given by its tokens. -/
def ofTokens (limit : Nat) (tokens : List Token) : Attempt Tree := do
  let s : State := ⟨⟨tokens, initialScope⟩, []⟩
  let (nodes, s') ← document limit s
  return ⟨⟨s.input.peek.pos, nodes⟩, s'.defines⟩

/-- Calls are read without a fault, and within the limit. -/
theorem templateCall_eq {limit : Nat} {s : Input} (h : FieldsNamed s.tokens)
    (hl : 4 * s.size + 3 < limit) : templateCall limit s = liftM (Template.templateCall s) := by
  have hsize := s.size_next_le
  unfold templateCall Template.templateCall
  dsimp only
  cases templateName .template s.peekWord with
  | error e => rfl
  | ok name =>
    by_cases hk : s.next.peekWord.kind = .rightDelim
    · simp only [if_pos hk]
      rfl
    · simp only [if_neg hk]
      rw [pipeline_eq .template .rightDelim (h.suffix s.next_suffix) (by omega)]
      cases Template.pipeline .template .rightDelim s.next <;> rfl

/-- Actions are read without a fault, and within the limit. -/
theorem pipeAction_eq {limit : Nat} {s : Input} (h : FieldsNamed s.tokens)
    (hl : 4 * s.size + 3 < limit) : pipeAction limit s = liftM (Template.pipeAction s) := by
  rw [pipeAction, Template.pipeAction, pipeline_eq .command .rightDelim h hl]
  cases Template.pipeline .command .rightDelim s <;> rfl

-- An alternative, a branch, its body, the items in it and an action follow on each other in the
-- same way.  Five calls for each token also make room for the four that its pipes take.

mutual

/-- Items are read without a fault, and within the limit. -/
theorem items_eq {limit : Nat} (depth : Nat) {s : State} (h : FieldsNamed s.input.tokens)
    (hl : 5 * s.size + 2 < limit) : items limit depth s = liftM (Template.items depth s) := by
  cases limit with
  | zero => cases hl
  | succ limit =>
    rw [items, Template.items_eq]
    split
    next => rfl
    next =>
      refine Attempt.bind_eq (item_eq depth h (by omega)) ?_
      rintro ⟨i, s₁⟩ hi
      have hreads := item_reads hi
      have hlt : s₁.size < s.size := hreads.item_progress
      cases i with
      | ending ending => rfl
      | node node =>
        refine Attempt.bind_eq (items_eq depth (h.suffix hreads.suffix) (by omega)) ?_
        rintro ⟨nodes, ending, s₂⟩ -
        rfl
termination_by limit
decreasing_by all_goals omega

/-- An item is read without a fault, and within the limit. -/
theorem item_eq {limit : Nat} (depth : Nat) {s : State} (h : FieldsNamed s.input.tokens)
    (hl : 5 * s.size + 1 < limit) : item limit depth s = liftM (Template.item depth s) := by
  cases limit with
  | zero => cases hl
  | succ limit =>
    rw [item]
    split
    next ht =>
      rw [Template.item, if_pos ht]
      rfl
    next ht =>
      split
      next hk =>
        have ho : s.Opens s.word.kind := ⟨hk, rfl⟩
        rw [item_of_opens ho]
        exact actionItem_eq depth ho h (by omega)
      next hk =>
        rw [Template.item, if_neg ht, dif_neg hk]
        rfl
termination_by limit
decreasing_by all_goals omega

/-- An item of any kind is read without a fault, and within the limit. -/
theorem actionItem_eq {limit : Nat} (depth : Nat) {s : State} {kind : Token.Kind}
    (ho : s.Opens kind) (h : FieldsNamed s.input.tokens) (hl : 5 * s.size < limit) :
    actionItem limit depth s kind = liftM (Template.actionItem depth s kind) := by
  cases limit with
  | zero => cases hl
  | succ limit =>
    have hsame : s.afterWord.size = s.afterWord.input.size := rfl
    have hlt : s.input.next.size < s.size := ho.size_lt
    have hle : s.afterWord.input.size ≤ s.input.next.size := Input.size_next_le _
    have hinside := h.suffix s.input.next_suffix
    have hafter := h.suffix s.afterWord_suffix
    rw [actionItem.eq_def]
    cases kind with
    | keyword word =>
      cases word with
      | ifKw | rangeKw | withKw =>
        exact Attempt.bind_pure_eq (branch_eq depth _ hafter (by omega)) fun _ => rfl
      | blockKw => exact Attempt.bind_pure_eq (block_eq depth hafter (by omega)) fun _ => rfl
      | templateKw => exact Attempt.bind_pure_eq (templateCall_eq hafter (by omega)) fun _ => rfl
      | endKw | elseKw | breakKw | continueKw => exact Attempt.bind_pure_eq rfl fun _ => rfl
      | defineKw | nilKw =>
        exact Attempt.bind_pure_eq (pipeAction_eq hinside (by omega)) fun _ => rfl
    | _ => exact Attempt.bind_pure_eq (pipeAction_eq hinside (by omega)) fun _ => rfl
termination_by limit
decreasing_by all_goals omega

/-- Branches are read without a fault, and within the limit. -/
theorem branch_eq {limit : Nat} (depth : Nat) (kind : BranchKind) {s : State}
    (h : FieldsNamed s.input.tokens) (hl : 5 * s.size + 4 < limit) :
    branch limit depth kind s = liftM (Template.branch depth kind s) := by
  cases limit with
  | zero => cases hl
  | succ limit =>
    have hsame : s.input.size = s.size := rfl
    rw [branch, Template.branch_eq]
    refine Attempt.bind_eq (pipeline_eq _ _ h (by omega)) ?_
    rintro ⟨pipe, input⟩ hp
    have hsize : (s.read input).size ≤ s.size := pipeline_size hp
    have hinput : FieldsNamed (s.read input).input.tokens := h.suffix (pipeline_reads hp).suffix
    refine Attempt.bind_eq (items_eq _ hinput (by omega)) ?_
    rintro ⟨nodes, ending, s₁⟩ hi
    have hreads := items_reads hi
    have hlt : s₁.size < s.size := Nat.lt_of_lt_of_le hreads.items_progress hsize
    have hs₁ := hinput.suffix hreads.suffix
    refine Attempt.bind_eq (alternative_eq depth kind ending hs₁ (by omega)) ?_
    rintro ⟨other, s₂⟩ -
    rfl
termination_by limit
decreasing_by all_goals omega

/-- Alternatives are read without a fault, and within the limit. -/
theorem alternative_eq {limit : Nat} (depth : Nat) (kind : BranchKind) {s : State}
    (ending : Ending) (h : FieldsNamed s.input.tokens) (hl : 5 * s.size + 5 < limit) :
    alternative limit depth kind s ending =
      liftM (Template.alternative depth kind s ending) := by
  cases limit with
  | zero => cases hl
  | succ limit =>
    have hsize : (s.read s.input.tail).size ≤ s.size := Input.size_tail_le s.input
    have htail : FieldsNamed (s.read s.input.tail).input.tokens := h.suffix s.input.tail_suffix
    rw [alternative.eq_def]
    cases ending with
    | endAction pos => rfl
    | elseAction pos =>
      rw [Template.alternative]
      dsimp only
      split
      next =>
        refine Attempt.bind_eq (branch_eq depth kind htail (by omega)) ?_
        rintro ⟨nested, s₁⟩ -
        rfl
      next =>
        refine Attempt.bind_eq (items_eq depth h (by omega)) ?_
        rintro ⟨others, last, s₁⟩ -
        cases last <;> rfl
termination_by limit
decreasing_by all_goals omega

/-- Blocks are read without a fault, and within the limit. -/
theorem block_eq {limit : Nat} (depth : Nat) {s : State} (h : FieldsNamed s.input.tokens)
    (hl : 5 * s.size + 4 < limit) : block limit depth s = liftM (Template.block depth s) := by
  cases limit with
  | zero => cases hl
  | succ limit =>
    have hnext : s.input.next.size ≤ s.size := s.input.size_next_le
    rw [block, Template.block_eq]
    refine Attempt.bind_eq rfl ?_
    rintro name -
    refine Attempt.bind_eq (pipeline_eq _ _ (h.suffix s.input.next_suffix) (by omega)) ?_
    rintro ⟨pipe, input⟩ hp
    have hsize : (s.read input).size ≤ s.size := Nat.le_trans (pipeline_size hp) hnext
    have hinput : FieldsNamed (s.read input).input.tokens :=
      h.suffix ((pipeline_reads hp).suffix.trans s.input.next_suffix)
    refine Attempt.bind_eq (definitionBody_eq .block depth hinput (by omega)) ?_
    rintro ⟨root, s₁⟩ -
    exact Attempt.bind_eq rfl fun defines _ => rfl
termination_by limit
decreasing_by all_goals omega

/-- The body of a definition is read without a fault, and within the limit. -/
theorem definitionBody_eq {limit : Nat} (context : Context) (depth : Nat) {s : State}
    (h : FieldsNamed s.input.tokens) (hl : 5 * s.size + 3 < limit) :
    definitionBody limit context depth s =
      liftM (Template.definitionBody context depth s) := by
  cases limit with
  | zero => cases hl
  | succ limit =>
    have hsize : (s.withScope initialScope).size = s.size := s.size_withScope initialScope
    have hscope : FieldsNamed (s.withScope initialScope).input.tokens := h
    rw [definitionBody, Template.definitionBody_eq]
    refine Attempt.bind_eq (items_eq depth hscope (by omega)) ?_
    rintro ⟨nodes, ending, s₁⟩ -
    cases ending <;> rfl
termination_by limit
decreasing_by all_goals omega

end

/-! ## Templates -/

/-- Definitions are read without a fault, and within the limit. -/
theorem definition_eq {limit : Nat} {s : State} (h : FieldsNamed s.input.tokens)
    (hl : 5 * s.size + 3 < limit) : definition limit s = liftM (Template.definition s) := by
  unfold definition Template.definition
  dsimp only
  cases templateName .define s.input.peekWord with
  | error e => rfl
  | ok name =>
    dsimp only
    cases hr : rightDelim .define s.input.next with
    | error e => rfl
    | ok result =>
      obtain ⟨t, input⟩ := result
      obtain ⟨-, -, rfl⟩ := rightDelim_eq_ok_iff.1 hr
      have hsize : (s.read s.input.next.next).size ≤ s.size :=
        Nat.le_trans (Input.size_next_le _) s.input.size_next_le
      have hinput : FieldsNamed (s.read s.input.next.next).input.tokens :=
        h.suffix ((Input.next_suffix _).trans s.input.next_suffix)
      show definitionBody limit .define 0 (s.read s.input.next.next) >>= _ = _
      rw [definitionBody_eq .define 0 hinput (by omega)]
      dsimp only
      cases Template.definitionBody .define 0 (s.read s.input.next.next) with
      | error e => rfl
      | ok result =>
        obtain ⟨root, s₁⟩ := result
        exact Attempt.bind_pure_eq (y := define s.input.peekWord.pos name root s₁.defines) rfl
          fun _ => rfl

/-- Documents are read without a fault, and within the limit. -/
theorem document_eq {limit : Nat} {s : State} (h : FieldsNamed s.input.tokens)
    (hl : 5 * s.size + 2 < limit) : document limit s = liftM (Template.document s) := by
  induction limit generalizing s with
  | zero => cases hl
  | succ limit ih =>
    rw [document, Template.document_eq]
    split
    next => rfl
    next =>
      split
      next hw =>
        have hword : FieldsNamed (s.read s.input.tail.next).input.tokens :=
          h.suffix ((Input.next_suffix _).trans s.input.tail_suffix)
        have hsize := State.size_define_lt hw.1
        refine Attempt.bind_eq (definition_eq hword (by omega)) ?_
        rintro s₁ hd
        have hreads := definition_reads hd
        have hle := hreads.size_le
        exact ih (hword.suffix hreads.suffix) (by omega)
      next =>
        refine Attempt.bind_eq (item_eq 0 h (by omega)) ?_
        rintro ⟨i, s₁⟩ hi
        have hreads := item_reads hi
        have hlt : s₁.size < s.size := hreads.item_progress
        cases i with
        | ending ending => rfl
        | node node =>
          refine Attempt.bind_eq (ih (h.suffix hreads.suffix) (by omega)) ?_
          rintro ⟨nodes, s₂⟩ -
          rfl

/-- The readers come to an end without their checks, with the same outcome. -/
theorem ofTokens_eq {limit : Nat} {tokens : List Token} (h : FieldsNamed tokens)
    (hl : 5 * tokens.length + 2 < limit) :
    ofTokens limit tokens = liftM (Tree.ofTokens tokens) := by
  have hdocument := document_eq (s := ⟨⟨tokens, initialScope⟩, []⟩) h hl
  exact Attempt.bind_pure_eq hdocument fun _ => rfl

end Unchecked

end FieldAudit.Template
