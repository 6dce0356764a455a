import FieldAudit.Template.Pipeline
import FieldAudit.Template.Token.Lexer
import FieldAudit.Text.Blank

/-! # Reading template trees

`Tree.ofTokens` reads a whole template.  Blocks nest: `items` reads the nodes of a block up to the
action that closes it, `branch` reads an `if`, `range` or `with` action with its blocks, and
`definitionBody` reads the block of a defined template.  A variable is visible up to the end of
the branch it was declared in, and a defined template sees none of the variables around it. -/

namespace FieldAudit.Template

/-- What is left to read, and the templates defined so far. -/
structure State where
  input : Input
  defines : List Definition

namespace State

/-- The number of tokens that are left. -/
def size (s : State) : Nat :=
  s.input.size

/-- The state with other input. -/
def read (s : State) (input : Input) : State :=
  { s with input := input }

/-- The state with other variables in scope. -/
def withScope (s : State) (scope : List String) : State :=
  { s with input := { s.input with scope := scope } }

@[simp] theorem size_withScope (s : State) (scope : List String) :
    (s.withScope scope).size = s.size := rfl

@[simp] theorem size_read (s : State) (input : Input) : (s.read input).size = input.size := rfl

end State

/-- The variables that are visible at the start of a template. -/
def initialScope : List String := ["$"]

/-- The action that closes a block, with its byte offset. -/
inductive Ending where
  | endAction (pos : Nat)
  | elseAction (pos : Nat)
  deriving DecidableEq, Repr

/-- The byte offset of the action that closes a block. -/
def Ending.pos : Ending → Nat
  | .endAction pos => pos
  | .elseAction pos => pos

/-- The keyword of the action that closes a block. -/
def Ending.keyword : Ending → Keyword
  | .endAction _ => .endKw
  | .elseAction _ => .elseKw

/-- What stands in a block: a node, or the action that closes it. -/
inductive Item where
  | node (node : Node)
  | ending (ending : Ending)

/-- A node as an item. -/
def Item.ofNode (result : Node × State) : Item × State :=
  (.node result.1, result.2)

/-! ## Single actions -/

/-- Reads a right delimiter. -/
def rightDelim (context : Context) (s : Input) : Except Error (Token × Input) :=
  let t := s.peekWord
  if t.kind = .rightDelim then .ok (t, s.next) else .error (unexpected t context)

/-- The name of a template, which is written as a string. -/
def templateName (context : Context) (t : Token) : Except Error String :=
  if t.kind = .string ∨ t.kind = .rawString then
    match unquoteToken t with
    | .error e => .error e
    | .ok name => .ok (String.ofList name)
  else .error (unexpected t context)

/-- Reads the rest of an `end` action. -/
def endAction (s : Input) : Except Error (Ending × Input) :=
  match rightDelim (.control .endKw) s with
  | .error e => .error e
  | .ok (t, s) => .ok (.endAction t.pos, s)

/-- Reads the rest of an `else` action.  The keyword of a branch that goes on from it is left to
be read. -/
def elseAction (s : Input) : Except Error (Ending × Input) :=
  let t := s.peekWord
  if t.kind = .keyword .ifKw ∨ t.kind = .keyword .withKw then
    .ok (.elseAction t.pos, s.skipSpace)
  else
    match rightDelim (.control .elseKw) s with
    | .error e => .error e
    | .ok (t, s) => .ok (.elseAction t.pos, s)

/-- Reads the rest of a `break` or `continue` action, which stands inside a `range` only. -/
def loopControl (depth : Nat) (keyword : Keyword) (pos : Nat) (s : Input) :
    Except Error Input :=
  match rightDelim (.loopControl keyword) s with
  | .error e => .error e
  | .ok (_, s) => if depth = 0 then .error ⟨pos, .outsideRange keyword⟩ else .ok s

/-- Reads the rest of a `template` action. -/
def templateCall (s : Input) : Except Error (Node × Input) :=
  let t := s.peekWord
  match templateName .template t with
  | .error e => .error e
  | .ok name =>
    if s.next.peekWord.kind = .rightDelim then .ok (.template t.pos name none, s.next.next)
    else
      match pipeline .template .rightDelim s.next with
      | .error e => .error e
      | .ok (pipe, s) => .ok (.template t.pos name (some pipe), s)

/-- Reads the rest of an action that is a pipe. -/
def pipeAction (s : Input) : Except Error (Node × Input) :=
  match pipeline .command .rightDelim s with
  | .error e => .error e
  | .ok (pipe, s') => .ok (.action s.peekWord.pos pipe, s')

/-! ## Definitions -/

/-- Whether a block holds nothing but white space. -/
def Block.isBlank (block : Block Node) : Bool :=
  block.nodes.all fun
    | .text _ text => Text.isBlank text
    | _ => false

/-- Adds a defined template.  A blank template gives way to one of the same name, and two that are
not blank cannot share a name. -/
def define (pos : Nat) (name : String) (root : Block Node) :
    List Definition → Except Error (List Definition)
  | [] => .ok [⟨name, root⟩]
  | d :: rest =>
    if d.name = name then
      if d.root.isBlank then .ok (⟨name, root⟩ :: rest)
      else if root.isBlank then .ok (d :: rest)
      else .error ⟨pos, .multipleDefinition name⟩
    else
      match define pos name root rest with
      | .error e => .error e
      | .ok defines => .ok (d :: defines)

/-! ## Blocks -/

mutual

/-- Reads the nodes of a block, and the action that closes it.  The block stands inside `depth`
bodies of `range`. -/
def items (depth : Nat) (s : State) : Except Error (List Node × Ending × State) :=
  let t := s.input.peekWord
  if t.kind = .eof then .error ⟨t.pos, .unexpectedEof⟩
  else
    match item depth s with
    | .error e => .error e
    | .ok (.ending ending, s₁) => .ok ([], ending, s₁)
    | .ok (.node node, s₁) =>
      if _h : s₁.size < s.size then
        match items depth s₁ with
        | .error e => .error e
        | .ok (nodes, ending, s₂) => .ok (node :: nodes, ending, s₂)
      else .error (unexpected t .input)
termination_by 4 * s.size + 1

/-- Reads a piece of text or an action. -/
def item (depth : Nat) (s : State) : Except Error (Item × State) :=
  let t := s.input.peekWord
  if t.kind = .text then .ok (.node (.text t.pos t.lexeme), s.read s.input.next)
  else if _h : t.kind = .leftDelim then
    let inside := s.input.next
    let word := inside.peekWord
    match word.kind with
    | .keyword .ifKw => (branch depth .ifBranch (s.read inside.next)).map Item.ofNode
    | .keyword .rangeKw => (branch depth .rangeBranch (s.read inside.next)).map Item.ofNode
    | .keyword .withKw => (branch depth .withBranch (s.read inside.next)).map Item.ofNode
    | .keyword .blockKw => (block depth (s.read inside.next)).map Item.ofNode
    | .keyword .endKw =>
      (endAction inside.next).map fun (ending, input) => (.ending ending, s.read input)
    | .keyword .elseKw =>
      (elseAction inside.next).map fun (ending, input) => (.ending ending, s.read input)
    | .keyword .breakKw =>
      (loopControl depth .breakKw word.pos inside.next).map fun input =>
        (.node (.breakLoop word.pos), s.read input)
    | .keyword .continueKw =>
      (loopControl depth .continueKw word.pos inside.next).map fun input =>
        (.node (.continueLoop word.pos), s.read input)
    | .keyword .templateKw =>
      (templateCall inside.next).map fun (node, input) => (.node node, s.read input)
    | _ => (pipeAction inside).map fun (node, input) => (.node node, s.read input)
  else .error (unexpected t .input)
termination_by 4 * s.size
decreasing_by
  all_goals
    have h₁ := Input.size_next_lt (s := s.input) (by rw [_h]; decide)
    have h₂ := Input.size_next_le s.input.next
    simp only [State.size, State.read] at *
    omega

/-- Reads the rest of an `if`, `range` or `with` action, its block and its alternative.  An `else`
that goes on with a branch of the same kind has that branch alone as its alternative. -/
def branch (depth : Nat) (kind : BranchKind) (s : State) : Except Error (Node × State) :=
  match _hp : pipeline (.control kind.keyword) .rightDelim s.input with
  | .error e => .error e
  | .ok (pipe, input) =>
    match items (if kind = .rangeBranch then depth + 1 else depth) (s.read input) with
    | .error e => .error e
    | .ok (nodes, .endAction _, s₁) =>
      .ok (.branch kind pipe.pos pipe ⟨input.peekWord.pos, nodes⟩ none, s₁.withScope s.input.scope)
    | .ok (nodes, .elseAction pos, s₁) =>
      if _h : s₁.size < s.size then
        if kind.chains ∧ s₁.input.peek.kind = .keyword kind.keyword then
          match branch depth kind (s₁.read s₁.input.tail) with
          | .error e => .error e
          | .ok (nested, s₂) =>
            .ok (.branch kind pipe.pos pipe ⟨input.peekWord.pos, nodes⟩ (some ⟨pos, [nested]⟩),
              s₂.withScope s.input.scope)
        else
          match items depth s₁ with
          | .error e => .error e
          | .ok (others, .endAction _, s₂) =>
            .ok (.branch kind pipe.pos pipe ⟨input.peekWord.pos, nodes⟩
              (some ⟨s₁.input.peekWord.pos, others⟩), s₂.withScope s.input.scope)
          | .ok (_, .elseAction pos, _) => .error ⟨pos, .expectedEnd⟩
      else .error ⟨pos, .expectedEnd⟩
termination_by 4 * s.size + 2
decreasing_by
  · have := pipeline_size _hp
    simp only [State.size, State.read] at *
    omega
  · have := Input.size_tail_le s₁.input
    simp only [State.size, State.read] at *
    omega
  · omega

/-- Reads the rest of a `block` action: it defines a template and calls it. -/
def block (depth : Nat) (s : State) : Except Error (Node × State) :=
  let t := s.input.peekWord
  match templateName .block t with
  | .error e => .error e
  | .ok name =>
    match _hp : pipeline .block .rightDelim s.input.next with
    | .error e => .error e
    | .ok (pipe, input) =>
      match definitionBody .block depth (s.read input) with
      | .error e => .error e
      | .ok (root, s₁) =>
        match define t.pos name root s₁.defines with
        | .error e => .error e
        | .ok defines => .ok (.template t.pos name (some pipe), ⟨s₁.input, defines⟩)
termination_by 4 * s.size + 3
decreasing_by
  have h₁ := pipeline_size _hp
  have h₂ := Input.size_next_le s.input
  simp only [State.size, State.read] at *
  omega

/-- Reads the block of a defined template up to its `end`. -/
def definitionBody (context : Context) (depth : Nat) (s : State) :
    Except Error (Block Node × State) :=
  match items depth (s.withScope initialScope) with
  | .error e => .error e
  | .ok (nodes, .endAction _, s₁) =>
    .ok (⟨s.input.peekWord.pos, nodes⟩, s₁.withScope s.input.scope)
  | .ok (_, .elseAction pos, _) => .error ⟨pos, .elseInDefinition context⟩
termination_by 4 * s.size + 2
decreasing_by
  simp only [State.size_withScope]
  omega

end

/-! ## Templates -/

/-- Reads the rest of a `define` action and the block of the template it defines. -/
def definition (s : State) : Except Error State :=
  let t := s.input.peekWord
  match templateName .define t with
  | .error e => .error e
  | .ok name =>
    match rightDelim .define s.input.next with
    | .error e => .error e
    | .ok (_, input) =>
      match definitionBody .define 0 (s.read input) with
      | .error e => .error e
      | .ok (root, s₁) => (define t.pos name root s₁.defines).map fun defines => ⟨s₁.input, defines⟩

/-- Reads the nodes of a template up to its end.  Only here can a `define` action stand. -/
def document (s : State) : Except Error (List Node × State) :=
  let t := s.input.peek
  if t.kind = .eof then .ok ([], s)
  else if t.kind = .leftDelim ∧ s.input.tail.peekWord.kind = .keyword .defineKw then
    match definition (s.read s.input.tail.next) with
    | .error e => .error e
    | .ok s₁ => if _h : s₁.size < s.size then document s₁ else .error (unexpected t .input)
  else
    match item 0 s with
    | .error e => .error e
    | .ok (.ending ending, _) => .error ⟨ending.pos, .strayClosing ending.keyword⟩
    | .ok (.node node, s₁) =>
      if _h : s₁.size < s.size then
        match document s₁ with
        | .error e => .error e
        | .ok (nodes, s₂) => .ok (node :: nodes, s₂)
      else .error (unexpected t .input)
termination_by s.size

/-- The tree of a template given by its tokens. -/
def Tree.ofTokens (tokens : List Token) : Except Error Tree :=
  let s : State := ⟨⟨tokens, initialScope⟩, []⟩
  (document s).map fun (nodes, s') => ⟨⟨s.input.peek.pos, nodes⟩, s'.defines⟩

/-- The tree of a template. -/
def parse (d : Delimiters) (source : List Char) : Except Error Tree :=
  match tokenize d source with
  | .error e => .error e
  | .ok tokens => Tree.ofTokens tokens

end FieldAudit.Template
