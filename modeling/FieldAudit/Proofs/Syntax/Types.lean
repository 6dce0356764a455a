import FieldAudit.Proofs.Syntax.Readers

/-! # The shape of types

What the rules for types give, if the readers of a grammar give what they should. -/

namespace FieldAudit.Go.Grammar

open Reader

variable {words : Nat → Nat → Prop} {g : Grammar}

/-- A reader of a node that may stand anywhere. -/
abbrev OrdinaryNode (words : Nat → Nat → Prop) (reader : Reader Node) : Prop :=
  reader.Gives words (fun n => [n]) Node.Ordinary true

/-- A grammar whose readers give nodes of the right shape.  Where only a condition or a block is
allowed, a statement is no declaration. -/
structure Sound (words : Nat → Nat → Prop) (g : Grammar) : Prop where
  type : ∀ lineEnds, OrdinaryNode words (g.type lineEnds)
  operand : ∀ mode, OrdinaryNode words (g.operand mode)
  expression : ∀ mode, OrdinaryNode words (g.expression mode)
  literalBody : OrdinaryNode words g.literalBody
  statement : g.statement.Gives words (fun n => [n]) Node.Statement true
  branch : OrdinaryNode words do
    check fun t => t.isWord "if" || t.isSymbol "\x7b"
    g.statement

/-- The grammar without rules is sound. -/
theorem Sound.empty : Sound words Grammar.empty :=
  ⟨fun _ => .failure, fun _ => .failure, fun _ => .failure, .failure, .failure,
    gives_check.after fun _ => .failure⟩

/-- Plain names are read as ordinary nodes. -/
theorem gives_plainName {kind : Kind} (hk : kind.isLeaf = true) :
    OrdinaryNode words (plainName kind) :=
  gives_leaf hk fun _ t ht => by simp_all

/-- Members are given one after the other. -/
theorem gives_members {item : Reader Node} (h : OrdinaryNode words item) :
    (members item).Adds words Node.Ordinary [] false id Node.Ordinary true := by
  refine .skip gives_take fun _ => ?_
  refine .bind (Gives.maybeNodes (Adds.gives ?_)) fun items => ?_
  · refine .bind h fun first => ?_
    refine .bind (gives_terminator.seqRight h).many fun rest => ?_
    exact .skip gives_terminator.maybe_skip fun _ => .pure (by simp)
  · exact .skip gives_take fun _ => .pure (by simp)

/-- String literals are read as ordinary nodes. -/
theorem gives_stringLiteral : OrdinaryNode words stringLiteral :=
  (gives_leaf rfl (by simp [Kind.isName])).orElse (gives_leaf rfl (by simp [Kind.isName]))

namespace Sound

variable (h : g.Sound words)

include h

/-- Elements of a constraint are read as ordinary nodes. -/
theorem typeElement (lineEnds : Bool) : OrdinaryNode words (g.typeElement lineEnds) := by
  have helement : OrdinaryNode words
      ((Reader.spanning .negatedType do let _ ← symbol "~"; return [← g.type lineEnds])
        <|> g.type lineEnds) := by
    refine .orElse (.ordinary rfl ?_) (h.type lineEnds)
    exact .skip gives_take fun _ => .bind (h.type lineEnds) fun type => .pure rfl
  refine .ordinary rfl (.bind helement fun first => ?_)
  exact .bind (gives_take.seqRight helement).many fun rest => .pure (by simp)

/-- Type arguments are read as ordinary nodes. -/
theorem typeArguments : OrdinaryNode words g.typeArguments :=
  .ordinary rfl (.last ((h.typeElement false).bracketedSome "[" "]") (by simp))

/-- Named types are read as ordinary nodes. -/
theorem namedType (lineEnds : Bool) : OrdinaryNode words (g.namedType lineEnds) := by
  refine Adds.gives (.bind (.orElse (.ordinary rfl ?_) (gives_name rfl)) fun base => ?_)
  · refine .bind ((gives_name rfl).as .package rfl) fun package => .skip gives_take fun _ => ?_
    exact .bind ((gives_name rfl).as .name rfl) fun type => .pure rfl
  · refine .orElse (.of_as .type rfl (.continuing rfl rfl ?_)) (.pure rfl)
    exact .pass gives_check fun _ => .bind h.typeArguments fun arguments => .pure rfl

/-- Variadic parameters are read as ordinary nodes. -/
theorem variadicParameter : OrdinaryNode words g.variadicParameter := by
  refine .ordinary rfl (.bind ((gives_plainName rfl).as .name rfl).maybe fun names => ?_)
  refine .skip gives_take fun _ => .bind ((h.type false).as .type rfl) fun type => .pure ?_
  cases names <;> rfl

/-- Parameters are read as ordinary nodes. -/
theorem parameterDeclaration : OrdinaryNode words g.parameterDeclaration := by
  refine .ordinary rfl (.bind (((gives_plainName rfl).commaList false).as .name rfl)
    fun names => ?_)
  exact .bind ((h.type false).as .type rfl) fun type => .pure (by simp)

/-- Parameter lists are read as ordinary nodes. -/
theorem parameters : OrdinaryNode words g.parameters := by
  refine .ordinary rfl (.last (Gives.bracketed ?_ "(" ")") (by simp))
  refine h.parameterDeclaration.orElse (h.variadicParameter.orElse (.ordinary rfl ?_))
  exact .bind ((h.type false).as .type rfl) fun type => .pure rfl

/-- Results are read as ordinary nodes. -/
theorem result (lineEnds : Bool) : OrdinaryNode words (g.result lineEnds) := by
  refine gives_check.after fun _ => h.parameters.orElse ?_
  exact gives_check.after fun _ => h.type lineEnds

/-- Signatures are read as their parts. -/
theorem signature (lineEnds : Bool) : (g.signature lineEnds).Gives words id Node.Ordinary true := by
  refine Adds.gives (.bind (h.parameters.as .parameters rfl) fun parameters => ?_)
  refine .bind ((h.result lineEnds).as .result rfl).maybe fun result => .pure ?_
  cases result <;> rfl

/-- Array types are read as ordinary nodes. -/
theorem arrayType (lineEnds : Bool) : OrdinaryNode words (g.arrayType lineEnds) := by
  refine .orElse (.ordinary rfl ?_) (.ordinary rfl ?_)
  · refine .skip gives_take fun _ => .skip gives_take fun _ => ?_
    exact .bind (h.type lineEnds) fun type => .pure rfl
  · refine .skip gives_take fun _ => .bind (h.expression .inner) fun length => ?_
    exact .skip gives_take fun _ => .bind (h.type lineEnds) fun type => .pure rfl

/-- Array types of an open length are read as ordinary nodes. -/
theorem implicitArrayType : OrdinaryNode words g.implicitArrayType := by
  refine .ordinary rfl (.skip gives_take fun _ => .skip gives_take fun _ => ?_)
  exact .skip gives_take fun _ => .bind (h.type false) fun type => .pure rfl

/-- Field declarations are read as ordinary nodes. -/
theorem fieldDeclaration : OrdinaryNode words g.fieldDeclaration := by
  refine .ordinary rfl (.bindNodes (.orElse (Adds.gives ?_) (Adds.gives ?_)) fun fields => ?_)
  · refine .skip gives_take.maybe_skip fun _ => ?_
    exact .bind ((h.namedType true).as .type rfl) fun type => .pass gives_check fun _ => .pure rfl
  · refine .bind (((gives_name rfl).commaList true).as .name rfl) fun names => ?_
    refine .pass gives_check fun _ => .bind ((h.type true).as .type rfl) fun type => .pure (by simp)
  · refine .bind (gives_check.after fun _ => gives_stringLiteral).maybe fun tag => .pure ?_
    cases tag <;> rfl

/-- Structs are read as ordinary nodes. -/
theorem structType : OrdinaryNode words g.structType := by
  refine .ordinary rfl (.skip gives_take fun _ => ?_)
  exact .bind (.ordinary rfl (gives_members h.fieldDeclaration)) fun fields => .pure rfl

/-- Elements of an interface are read as ordinary nodes. -/
theorem interfaceElement : OrdinaryNode words g.interfaceElement := by
  refine .orElse (.ordinary rfl ?_) (h.typeElement true)
  refine .bind ((gives_plainName rfl).as .name rfl) fun method => .pass gives_check fun _ => ?_
  exact .bind (h.signature true) fun signature => .pure rfl

/-- Interfaces are read as ordinary nodes. -/
theorem interfaceType : OrdinaryNode words g.interfaceType := by
  refine .ordinary rfl (.skip gives_take fun _ => ?_)
  exact .last (gives_members h.interfaceElement).gives (by simp)

/-- Map types are read as ordinary nodes. -/
theorem mapType (lineEnds : Bool) : OrdinaryNode words (g.mapType lineEnds) := by
  refine .ordinary rfl (.skip gives_take fun _ => .skip gives_take fun _ => ?_)
  refine .bind (h.type false) fun key => .skip gives_take fun _ => ?_
  exact .bind ((h.type lineEnds).as .value rfl) fun value => .pure rfl

/-- Channel types are read as ordinary nodes. -/
theorem channelType (lineEnds : Bool) : OrdinaryNode words (g.channelType lineEnds) := by
  refine .ordinary rfl (.skip gives_take.maybe_skip fun receiving => .skip gives_take fun _ => ?_)
  split
  · refine .skip gives_take.maybe_skip fun _ => ?_
    exact .bind ((h.type lineEnds).as .value rfl) fun value => .pure rfl
  · exact .bind ((h.type lineEnds).as .value rfl) fun value => .pure rfl

/-- Function types are read as ordinary nodes. -/
theorem functionType (lineEnds : Bool) : OrdinaryNode words (g.functionType lineEnds) :=
  .ordinary rfl (.skip gives_take fun _ => .last (h.signature lineEnds) (by simp))

/-- Types in parentheses are read as ordinary nodes. -/
theorem parenthesizedType : OrdinaryNode words g.parenthesizedType := by
  refine .ordinary rfl (.skip gives_take fun _ => .bind (h.type false) fun type => ?_)
  exact .skip gives_take fun _ => .pure rfl

/-- Types are read as ordinary nodes. -/
theorem typeExpression (lineEnds : Bool) : OrdinaryNode words (g.typeExpression lineEnds) := by
  refine gives_peek?.after fun next => ?_
  split
  next => exact .failure
  next t =>
    split
    · refine .ordinary rfl (.skip gives_take fun _ => ?_)
      exact .bind (h.type lineEnds) fun type => .pure rfl
    · exact h.parenthesizedType
    · exact h.arrayType lineEnds
    · exact h.channelType lineEnds
    · exact h.structType
    · exact h.interfaceType
    · exact h.mapType lineEnds
    · exact h.channelType lineEnds
    · exact h.functionType lineEnds
    · exact h.namedType lineEnds
    · exact .failure

end Sound

end FieldAudit.Go.Grammar
