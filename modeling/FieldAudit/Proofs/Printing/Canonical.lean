import FieldAudit.Proofs.Scope

/-! # Canonical forms of templates

`Tree.words` writes a tree as the words of its tokens, without places: the defined templates first,
each between `define` and `end`, then the nodes of the tree.  `Tree.shape` forgets the places of a
tree in the same way.

Not every tree can be written so that it can be read again.  `Tree.WellFormed` says which can: nodes
stand only where the grammar has them, names and literals are ones that can be read, variables are
in scope and no two defined templates share a name. -/

namespace FieldAudit.Literal

open Text

/-- A character between double quotes. -/
def escape (c : Char) : List Char :=
  if c = '\n' then ['\\', 'n'] else if c = doubleQuote ∨ c = '\\' then ['\\', c] else [c]

/-- A text as a literal between double quotes. -/
def quote (text : List Char) : List Char :=
  doubleQuote :: (text.flatMap escape ++ [doubleQuote])

/-- A one-letter escape is read as its character. -/
theorem decodeBody_simpleEscape {letter c : Char} {rest text : List Char}
    (he : simpleEscape? doubleQuote letter = some c) (hr : decodeBody doubleQuote rest = .ok text) :
    decodeBody doubleQuote ('\\' :: letter :: rest) = .ok (c :: text) := by
  have htake : takeEscape doubleQuote (letter :: rest) = .ok (c, rest) := by rw [takeEscape, he]
  rw [decodeBody, if_neg (by decide), if_neg (by decide), if_pos rfl]
  split
  next h => rw [htake] at h; cases h
  next h => rw [htake] at h; cases h; rw [hr]

/-- Escaped text is decoded to the text. -/
theorem decodeBody_escape (text : List Char) :
    decodeBody doubleQuote (text.flatMap escape) = .ok text := by
  induction text with
  | nil => rw [List.flatMap_nil, decodeBody]
  | cons c rest ih =>
    rw [List.flatMap_cons, escape]
    split
    next hc => rw [hc]; exact decodeBody_simpleEscape rfl ih
    next hn =>
      split
      next hc => rcases hc with rfl | rfl <;> exact decodeBody_simpleEscape rfl ih
      next hc =>
        rw [not_or] at hc
        rw [List.cons_append, List.nil_append, decodeBody, if_neg hn, if_neg hc.1, if_neg hc.2, ih]

/-- A quoted text stands for itself. -/
theorem unquote_quote (text : List Char) : unquote (quote text) = .ok text := by
  have hread : read (quote text) = .ok text := by
    rw [quote, read, if_neg (by decide), if_neg (by simp), List.dropLast_concat, decode,
      if_neg (by decide), decodeBody_escape]
    simp [doubleQuote, singleQuote]
  rw [unquote, hread]
  rfl

end FieldAudit.Literal

namespace FieldAudit.Template

/-! ## Words -/

/-- What a token is, wherever it stands: its kind and its exact text. -/
structure Word where
  kind : Token.Kind
  lexeme : List Char
  deriving DecidableEq, Repr

/-- A token without its place. -/
def Token.word (t : Token) : Word :=
  ⟨t.kind, t.lexeme⟩

namespace Word

/-- The word before an action. -/
def opening : Word := ⟨.leftDelim, ['\x7b', '\x7b']⟩

/-- The word after an action. -/
def closing : Word := ⟨.rightDelim, ['\x7d', '\x7d']⟩

/-- The word between the arguments of a command. -/
def space : Word := ⟨.space, [' ']⟩

/-- A keyword. -/
def keyword (k : Keyword) : Word := ⟨.keyword k, k.name.toList⟩

/-- A field with its point. -/
def field (name : String) : Word := ⟨.field, '.' :: name.toList⟩

/-- The name of a template, between quotes. -/
def name (name : String) : Word := ⟨.string, Literal.quote name.toList⟩

end Word

/-- A variable with the fields taken from it. -/
def Variable.words (v : Variable) : List Word :=
  match v.path with
  | [] => []
  | name :: fields => ⟨.variable, name.toList⟩ :: fields.map Word.field

/-- Declared variables, with the mark after them. -/
def declarationWords : List Variable → List Word
  | [] => []
  | [v] => v.words ++ [⟨.declare, [':', '=']⟩]
  | v :: rest => v.words ++ ⟨.comma, [',']⟩ :: declarationWords rest

/-- The words of an action that is a keyword alone. -/
def keywordAction (k : Keyword) : List Word :=
  [.opening, .keyword k, .closing]

mutual

/-- The words of a node. -/
def Node.words : Node → List Word
  | .text _ text => [⟨.text, text⟩]
  | .action _ p => Word.opening :: (pipeWords p ++ [.closing])
  | .pipe p => ⟨.leftParen, ['(']⟩ :: (pipeWords p ++ [⟨.rightParen, [')']⟩])
  | .command c => commandWords c
  | .chain _ inner fields => inner.words ++ fields.map Word.field
  | .field _ path => path.map Word.field
  | .identifier _ name _ => [⟨.identifier, name.toList⟩]
  | .variable v => v.words
  | .dot _ => [⟨.dot, ['.']⟩]
  | .nil _ => [.keyword .nilKw]
  | .bool _ value => [⟨.bool, if value then "true".toList else "false".toList⟩]
  | .number _ literal =>
    [⟨if Literal.isNumber literal then .number else .charConstant, literal⟩]
  | .string _ literal =>
    [⟨if literal.head? = some Text.backquote then .rawString else .string, literal⟩]
  | .branch kind _ p body alternative =>
    Word.opening :: .keyword kind.keyword :: .space :: (pipeWords p ++
      .closing :: (blockWords body ++ (alternativeWords alternative ++ keywordAction .endKw)))
  | .template _ name p =>
    Word.opening :: .keyword .templateKw :: .space :: .name name ::
      (dataWords p ++ [.closing])
  | .breakLoop _ => keywordAction .breakKw
  | .continueLoop _ => keywordAction .continueKw
  | .list b => blockWords b

/-- The words of a pipe. -/
def pipeWords : Pipe Node → List Word
  | ⟨_, decls, commands⟩ => declarationWords decls ++ commandsWords commands

/-- The words of the data that a template is called with. -/
def dataWords : Option (Pipe Node) → List Word
  | none => []
  | some p => .space :: pipeWords p

/-- The words of commands, with a mark between them. -/
def commandsWords : List (Command Node) → List Word
  | [] => []
  | [c] => commandWords c
  | c :: rest => commandWords c ++ ⟨.pipe, ['|']⟩ :: commandsWords rest

/-- The words of a command. -/
def commandWords : Command Node → List Word
  | ⟨_, args⟩ => argumentsWords args

/-- The words of arguments, with a space between them. -/
def argumentsWords : List Node → List Word
  | [] => []
  | [arg] => arg.words
  | arg :: rest => arg.words ++ .space :: argumentsWords rest

/-- The words of a block. -/
def blockWords : Block Node → List Word
  | ⟨_, nodes⟩ => nodesWords nodes

/-- The words of the alternative of a branch. -/
def alternativeWords : Option (Block Node) → List Word
  | none => []
  | some b => keywordAction .elseKw ++ blockWords b

/-- The words of the nodes of a block. -/
def nodesWords : List Node → List Word
  | [] => []
  | node :: rest => node.words ++ nodesWords rest

end

/-- The words of a defined template. -/
def Definition.words (d : Definition) : List Word :=
  .opening :: .keyword .defineKw :: .space :: .name d.name :: .closing ::
    (blockWords d.root ++ keywordAction .endKw)

/-- The words of a tree: first the templates defined in it, then its nodes. -/
def Tree.words (tree : Tree) : List Word :=
  tree.defines.flatMap Definition.words ++ (blockWords tree.root ++ [⟨.eof, []⟩])

/-! ## Shapes -/

/-- A variable without its place. -/
def Variable.shape (v : Variable) : Variable :=
  ⟨0, v.path⟩

mutual

/-- A node without the places of its parts. -/
def Node.shape : Node → Node
  | .text _ text => .text 0 text
  | .action _ p => .action 0 (pipeShape p)
  | .pipe p => .pipe (pipeShape p)
  | .command c => .command (commandShape c)
  | .chain _ inner fields => .chain 0 inner.shape fields
  | .field _ path => .field 0 path
  | .identifier _ name isFunction => .identifier 0 name isFunction
  | .variable v => .variable v.shape
  | .dot _ => .dot 0
  | .nil _ => .nil 0
  | .bool _ value => .bool 0 value
  | .number _ literal => .number 0 literal
  | .string _ literal => .string 0 literal
  | .branch kind _ p body alternative =>
    .branch kind 0 (pipeShape p) (blockShape body) (block?Shape alternative)
  | .template _ name p => .template 0 name (pipe?Shape p)
  | .breakLoop _ => .breakLoop 0
  | .continueLoop _ => .continueLoop 0
  | .list b => .list (blockShape b)

/-- A pipe without its places. -/
def pipeShape : Pipe Node → Pipe Node
  | ⟨_, decls, commands⟩ => ⟨0, decls.map Variable.shape, commandsShape commands⟩

/-- A pipe that may be absent, without its places. -/
def pipe?Shape : Option (Pipe Node) → Option (Pipe Node)
  | none => none
  | some p => some (pipeShape p)

/-- Commands without their places. -/
def commandsShape : List (Command Node) → List (Command Node)
  | [] => []
  | c :: rest => commandShape c :: commandsShape rest

/-- A command without its places. -/
def commandShape : Command Node → Command Node
  | ⟨_, args⟩ => ⟨0, nodesShape args⟩

/-- A block without its places. -/
def blockShape : Block Node → Block Node
  | ⟨_, nodes⟩ => ⟨0, nodesShape nodes⟩

/-- A block that may be absent, without its places. -/
def block?Shape : Option (Block Node) → Option (Block Node)
  | none => none
  | some b => some (blockShape b)

/-- Nodes without their places. -/
def nodesShape : List Node → List Node
  | [] => []
  | node :: rest => node.shape :: nodesShape rest

end

/-- A defined template without its places. -/
def Definition.shape (d : Definition) : Definition :=
  ⟨d.name, blockShape d.root⟩

/-- A tree without its places. -/
def Tree.shape (tree : Tree) : Tree :=
  ⟨blockShape tree.root, tree.defines.map Definition.shape⟩

/-! ## Trees that can be written -/

/-- The number of variables that the pipe of a branch may declare. -/
def BranchKind.declarations : BranchKind → Nat
  | .rangeBranch => 2
  | _ => 1

mutual

/-- Whether a node can stand in a block, inside the body of a `range` or not. -/
def Node.fitsBlock (inRange : Bool) : Node → Bool
  | .text .. => true
  | .action _ p => pipeFits 1 p
  | .branch kind _ p body alternative =>
    pipeFits kind.declarations p && blockFits (inRange || kind = .rangeBranch) body &&
      block?Fits inRange alternative
  | .template _ _ p => pipe?Fits p
  | .breakLoop _ | .continueLoop _ => inRange
  | _ => false

/-- Whether a node can be an argument of a command. -/
def Node.fitsCommand : Node → Bool
  | .pipe p => pipeFits 1 p
  | .chain _ inner fields =>
    (match inner with
      | .identifier .. | .pipe .. => inner.fitsCommand
      | _ => false) && !fields.isEmpty
  | .field _ path => !path.isEmpty
  | .identifier _ name isFunction => isFunction && builtinFunctions.contains name
  | .variable v => !v.path.isEmpty
  | .number _ literal => Literal.isNumber literal || (Literal.unquote literal).isOk
  | .string _ literal => (Literal.unquote literal).isOk
  | .dot _ | .nil _ | .bool .. => true
  | _ => false

/-- Whether a pipe can be written that may declare some number of variables. -/
def pipeFits (most : Nat) : Pipe Node → Bool
  | ⟨_, decls, commands⟩ =>
    decls.length ≤ most && decls.all (·.path.length = 1) && !commands.isEmpty &&
      commands.tail.all (!·.isValue) && commandsFit commands

/-- Whether the data that a template is called with can be written. -/
def pipe?Fits : Option (Pipe Node) → Bool
  | none => true
  | some p => pipeFits 1 p

/-- Whether commands can be written. -/
def commandsFit : List (Command Node) → Bool
  | [] => true
  | c :: rest => commandFits c && commandsFit rest

/-- Whether a command can be written. -/
def commandFits : Command Node → Bool
  | ⟨_, args⟩ => !args.isEmpty && argumentsFit args

/-- Whether arguments can be written. -/
def argumentsFit : List Node → Bool
  | [] => true
  | arg :: rest => arg.fitsCommand && argumentsFit rest

/-- Whether a block can be written. -/
def blockFits (inRange : Bool) : Block Node → Bool
  | ⟨_, nodes⟩ => nodesFit inRange nodes

/-- Whether the alternative of a branch can be written. -/
def block?Fits (inRange : Bool) : Option (Block Node) → Bool
  | none => true
  | some b => blockFits inRange b

/-- Whether the nodes of a block can be written. -/
def nodesFit (inRange : Bool) : List Node → Bool
  | [] => true
  | node :: rest => node.fitsBlock inRange && nodesFit inRange rest

end

/-- A tree that can be written and read again. -/
structure Tree.WellFormed (tree : Tree) : Prop where
  root : blockFits false tree.root
  defines : ∀ d ∈ tree.defines, blockFits false d.root
  rootScope : tree.root.WellScoped
  definesScope : ∀ d ∈ tree.defines, d.root.WellScoped
  distinct : (tree.defines.map Definition.name).Nodup

end FieldAudit.Template
