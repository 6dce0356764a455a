import FieldAudit.Text.Basic

/-! # Syntax trees of Go files

A Go file is read into a concrete syntax tree.  A node has a kind, the role it plays for its
parent, and the byte range it covers.  Where a text is no Go file, its tree has nodes for what is
wrong. -/

namespace FieldAudit.Go

/-- The kinds of syntax nodes. -/
inductive Kind where
  | sourceFile
  | packageClause
  | packageIdentifier
  | importDeclaration
  | importSpecList
  | importSpec
  | dotImport
  | blankImport
  | constDeclaration
  | constSpecList
  | constSpec
  | varDeclaration
  | varSpecList
  | varSpec
  | typeDeclaration
  | typeSpec
  | typeAlias
  | functionDeclaration
  | methodDeclaration
  | typeParameterList
  | typeParameterDeclaration
  | parameterList
  | parameterDeclaration
  | variadicParameterDeclaration
  | typeIdentifier
  | qualifiedType
  | genericType
  | typeArguments
  | typeElement
  | pointerType
  | parenthesizedType
  | arrayType
  | implicitLengthArrayType
  | sliceType
  | structType
  | fieldDeclarationList
  | fieldDeclaration
  | fieldIdentifier
  | interfaceType
  | methodElement
  | negatedType
  | mapType
  | channelType
  | functionType
  | block
  | expressionStatement
  | sendStatement
  | receiveStatement
  | incStatement
  | decStatement
  | assignmentStatement
  | shortVarDeclaration
  | labeledStatement
  | labelName
  | emptyStatement
  | fallthroughStatement
  | breakStatement
  | continueStatement
  | gotoStatement
  | returnStatement
  | goStatement
  | deferStatement
  | ifStatement
  | forStatement
  | forClause
  | rangeClause
  | expressionSwitchStatement
  | expressionCase
  | defaultCase
  | typeSwitchStatement
  | typeCase
  | selectStatement
  | communicationCase
  | expressionList
  | identifier
  | unaryExpression
  | binaryExpression
  | selectorExpression
  | indexExpression
  | sliceExpression
  | typeAssertionExpression
  | typeConversionExpression
  | typeInstantiationExpression
  | callExpression
  | argumentList
  | variadicArgument
  | compositeLiteral
  | literalValue
  | literalElement
  | keyedElement
  | funcLiteral
  | parenthesizedExpression
  | interpretedString
  | rawString
  | intLiteral
  | floatLiteral
  | imaginaryLiteral
  | runeLiteral
  | nilLiteral
  | trueLiteral
  | falseLiteral
  | iotaLiteral
  | comment
  /-- Punctuation or a keyword. -/
  | punctuation
  /-- Any other kind, which nothing asks for. -/
  | other
  /-- Text that belongs to no node of a Go file. -/
  | error
  /-- A node of a Go file that the text lacks. -/
  | missing
  deriving DecidableEq, Repr

/-- The roles a node can play for its parent. -/
inductive Role where
  | plain
  | name
  | type
  | value
  | left
  | right
  | function
  | arguments
  | operand
  | operator
  | field
  | body
  | parameters
  | result
  | receiver
  | initializer
  | switchName
  | path
  | package
  deriving DecidableEq, Repr

/-- A node of a syntax tree, with the byte range from `start` to before `stop`. -/
structure Node where
  kind : Kind
  role : Role
  start : Nat
  stop : Nat
  children : List Node
  deriving Repr

namespace Node

/-- The node in another role. -/
def as (node : Node) (role : Role) : Node :=
  { node with role := role }

/-- The node with another kind. -/
def ofKind (node : Node) (kind : Kind) : Node :=
  { node with kind := kind }

/-- Whether a node is more than punctuation. -/
def isNamed (node : Node) : Bool :=
  node.kind ≠ .punctuation

/-- The children that are not punctuation. -/
def named (node : Node) : List Node :=
  node.children.filter isNamed

/-- The first child that is neither punctuation nor a comment. -/
def part? (node : Node) : Option Node :=
  node.children.find? fun child => child.isNamed && child.kind ≠ .comment

/-- The first child in a role. -/
def inRole? (node : Node) (role : Role) : Option Node :=
  node.children.find? (·.role = role)

/-- Whether a node is an error itself. -/
def isFault (node : Node) : Bool :=
  node.kind = .error || node.kind = .missing

mutual

/-- Whether a node or one below it is an error. -/
def hasError : Node → Bool
  | ⟨kind, role, start, stop, children⟩ =>
    isFault ⟨kind, role, start, stop, children⟩ || anyError children

/-- Whether one of some nodes, or one below them, is an error. -/
def anyError : List Node → Bool
  | [] => false
  | node :: rest => hasError node || anyError rest

end

mutual

/-- The first error at or below a node. -/
def firstError? : Node → Option Node
  | ⟨kind, role, start, stop, children⟩ =>
    let node : Node := ⟨kind, role, start, stop, children⟩
    if node.isFault then some node else firstErrorAmong? children

/-- The first error at or below some nodes, among those that have one. -/
def firstErrorAmong? : List Node → Option Node
  | [] => none
  | node :: rest =>
    if hasError node then (firstError? node).or (firstErrorAmong? rest) else firstErrorAmong? rest

end

/-- The text of a node in its file. -/
def text (source : List Char) (node : Node) : String :=
  String.ofList (Text.slice node.start node.stop source)

/-- A child is smaller than its parent, which is what recursion through `children` rests on. -/
theorem sizeOf_lt_of_mem_children {node child : Node} (h : child ∈ node.children) :
    sizeOf child < sizeOf node := by
  have := List.sizeOf_lt_of_mem h
  cases node
  simp only [Node.mk.sizeOf_spec] at *
  omega

/-- The unlabelled part of a node is one of its children. -/
theorem part?_mem {node child : Node} (h : node.part? = some child) : child ∈ node.children :=
  List.mem_of_find?_eq_some h

/-- The child in a role is one of the node's children. -/
theorem inRole?_mem {node child : Node} {role : Role} (h : node.inRole? role = some child) :
    child ∈ node.children :=
  List.mem_of_find?_eq_some h

end Node

end FieldAudit.Go
