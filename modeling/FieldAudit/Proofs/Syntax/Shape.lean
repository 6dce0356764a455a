import FieldAudit.Go.Package
import Mathlib.Data.List.Basic

/-! # The shape of Go syntax trees

What is assumed of the syntax tree of a Go file, whichever parser it comes from: the parts of a node
stand in order inside the range of the node, declarations stand only where the grammar of Go has
them, a name covers a word and has no parts, and a call or a selection starts with what is called or
selected from.  Punctuation, keywords and comments may stand anywhere and are no parts.
`Node.SourceFile` says so of a whole tree, and `Parser.Sound` of a parser. -/

namespace FieldAudit.Go

/-! ## Kinds and roles -/

/-- Whether a node of a kind counts as a part of the node around it. -/
def Kind.isSolid : Kind → Bool
  | .comment | .punctuation => false
  | _ => true

/-- Whether only a part can play a role. -/
def Role.isStructural : Role → Bool
  | .initializer | .field | .function | .operand => true
  | _ => false

/-- Whether a node of a kind holds a sequence of statements. -/
def Kind.isSequence : Kind → Bool
  | .sourceFile | .block | .expressionCase | .typeCase | .defaultCase | .communicationCase => true
  | _ => false

/-- Whether a statement of a kind may have a simple statement in its header. -/
def Kind.hasHeader : Kind → Bool
  | .ifStatement | .expressionSwitchStatement | .typeSwitchStatement => true
  | _ => false

/-- Whether a node of a kind is a name of a value or of a field. -/
def Kind.isName : Kind → Bool
  | .identifier | .fieldIdentifier => true
  | _ => false

/-- The role of the part that a node of a kind starts with, where the kind tells it. -/
def Kind.opener? : Kind → Option Role
  | .selectorExpression => some .operand
  | .callExpression => some .function
  | _ => none

/-- Only a part can open a node. -/
theorem Kind.isStructural_of_opener? {kind : Kind} {role : Role} (h : kind.opener? = some role) :
    role.isStructural = true := by
  cases kind <;> simp [Kind.opener?] at h <;> subst h <;> rfl

/-- Whether a node of a kind can have another one right below it. -/
def Kind.mayHold (parent : Kind) (child : Node) : Bool :=
  match child.kind with
  | .shortVarDeclaration =>
    parent.isSequence || parent = .labeledStatement || parent = .forClause
      || (parent.hasHeader && child.role = .initializer)
  | .varDeclaration | .constDeclaration => parent.isSequence || parent = .labeledStatement
  | .varSpecList => parent = .varDeclaration
  | .constSpecList => parent = .constDeclaration
  | .varSpec => parent = .varDeclaration || parent = .varSpecList
  | .constSpec => parent = .constDeclaration || parent = .constSpecList
  | .rangeClause | .forClause => parent = .forStatement
  | .sourceFile | .comment => false
  | _ => true

/-- Whether a node stands before all others below its parent. -/
def Node.leads (node : Node) : Bool :=
  node.role = .initializer || node.kind = .rangeClause || node.kind = .forClause

/-! ## Nodes -/

/-- Nodes lie between two offsets, each after the one before. -/
structure Spread (lo hi : Nat) (nodes : List Node) : Prop where
  within : ∀ n ∈ nodes, lo ≤ n.start ∧ n.stop ≤ hi
  ordered : nodes.Pairwise fun a b => a.stop ≤ b.start

/-- A node that may stand right below a node of a kind. -/
structure Node.Part (parent : Kind) (node : Node) : Prop where
  allowed : parent.mayHold node = true
  field : node.role = .field → node.kind = .fieldIdentifier
  solid : node.role.isStructural = true → node.kind.isSolid = true

/-- A node with the parts below it, where `words` has the byte ranges of words. -/
structure Node.Regular (words : Nat → Nat → Prop) (node : Node) (parts : List Node) : Prop where
  nonempty : node.start < node.stop
  spread : Spread node.start node.stop parts
  held : ∀ c ∈ parts, c.Part node.kind
  first : ∀ c ∈ parts.tail, c.leads = false
  word : node.kind.isName = true → words node.start node.stop
  leaf : node.kind.isName = true → parts = []
  opener : ∀ role ∈ node.kind.opener?,
    ∃ part ∈ parts.head?, part.role = role ∧ part.start = node.start

/-- The children of a node that are parts of it. -/
def Node.solid (node : Node) : List Node :=
  node.children.filter (·.kind.isSolid)

/-- A node that tells nothing about the structure of a tree, like all that is below it: punctuation,
a keyword or a comment. -/
inductive Node.Inert : Node → Prop
  | intro {node : Node} (kind : node.kind.isSolid = false) (role : node.role.isStructural = false)
      (children : ∀ c ∈ node.children, Inert c) : Inert node

/-- A tree of regular nodes. -/
inductive Node.Shaped (words : Nat → Nat → Prop) : Node → Prop
  | intro {node : Node} (regular : node.Regular words node.solid)
      (solid : ∀ c ∈ node.solid, Shaped words c)
      (inert : ∀ c ∈ node.children, c.kind.isSolid = false → c.Inert) : Shaped words node

section

variable {words : Nat → Nat → Prop} {node : Node}

/-- The node at the top of a shaped tree is regular. -/
theorem Node.Shaped.regular (h : node.Shaped words) : node.Regular words node.solid := by
  cases h
  assumption

/-- The parts of a shaped node are shaped. -/
theorem Node.Shaped.part (h : node.Shaped words) {c : Node} (hc : c ∈ node.solid) :
    c.Shaped words := by
  cases h with
  | intro _ solid _ => exact solid c hc

/-- What stands below a shaped node and is no part of it is inert. -/
theorem Node.Shaped.inert (h : node.Shaped words) {c : Node} (hc : c ∈ node.children)
    (hk : c.kind.isSolid = false) : c.Inert := by
  cases h with
  | intro _ _ inert => exact inert c hc hk

/-- An inert node is no part, and plays no role that only a part can play. -/
theorem Node.Inert.bare (h : node.Inert) :
    node.kind.isSolid = false ∧ node.role.isStructural = false := by
  cases h with
  | intro kind role _ => exact ⟨kind, role⟩

/-- What stands below an inert node is inert. -/
theorem Node.Inert.child (h : node.Inert) {c : Node} (hc : c ∈ node.children) : c.Inert := by
  cases h with
  | intro _ _ children => exact children c hc

/-- The parts of a node are its solid children. -/
theorem Node.mem_solid {c : Node} :
    c ∈ node.solid ↔ c ∈ node.children ∧ c.kind.isSolid = true := by
  simp [Node.solid]

end

/-- The tree of a file: all that stands at its top is shaped and in order, and only the root is a
file. -/
structure Node.SourceFile (words : Nat → Nat → Prop) (root : Node) : Prop where
  kind : root.kind = .sourceFile
  parts : ∀ c ∈ root.solid, c.Shaped words
  ordered : root.solid.Pairwise fun a b => a.stop ≤ b.start
  kinds : ∀ c ∈ root.solid, c.kind ≠ .sourceFile
  inert : ∀ c ∈ root.children, c.kind.isSolid = false → c.Inert

/-! ## Packages and parsers -/

/-- A byte range of a text that holds a word, which is not broken over lines. -/
def WordAt (source : List Char) (start stop : Nat) : Prop :=
  ∃ before word after, source = before ++ (word ++ after) ∧ start = Text.byteLength before
    ∧ stop = Text.byteLength before + Text.byteLength word ∧ '\n' ∉ word

/-- A package whose files have trees of the right shape. -/
def Package.Shaped (package : Package) : Prop :=
  ∀ file ∈ package.files, file.root.SourceFile (WordAt file.source)

/-- What is assumed of a parser: a tree without errors has the right shape, and if the parser cannot
be used, it tells why on one line. -/
structure Parser.Sound (parser : Parser) : Prop where
  shape : ∀ source root, parser.tree? source = some root → root.hasError = false →
    root.SourceFile (WordAt source)
  fault : ∀ text, parser.fault = some text → '\n' ∉ text.toList

/-- A file that is read has the tree that the parser gives, without errors. -/
theorem File.read_eq_ok {parser : Parser} {name : String} {source : List Char} {file : File}
    (h : File.read parser name source = .ok file) :
    file.name = name ∧ file.source = source ∧ parser.tree? source = some file.root
      ∧ file.root.hasError = false := by
  unfold File.read at h
  split at h
  next => cases h
  next root hroot =>
    split at h
    next => cases h
    next herror =>
      cases h
      exact ⟨rfl, rfl, hroot, by simpa using herror⟩

/-- A file that a sound parser reads has a tree of the right shape. -/
theorem Parser.Sound.sourceFile {parser : Parser} (hparser : parser.Sound) {name : String}
    {source : List Char} {file : File} (h : File.read parser name source = .ok file) :
    file.root.SourceFile (WordAt file.source) := by
  obtain ⟨-, hsource, htree, herror⟩ := File.read_eq_ok h
  rw [hsource]
  exact hparser.shape source file.root htree herror

end FieldAudit.Go
