import FieldAudit.Proofs.Syntax.Types

/-! # The shape of expressions

What the rules for statement lists and for expressions give.  Operands that are joined by operators
wait on a stack, and what is on the stack stands in order before what is still to be joined. -/

namespace FieldAudit.Go

open Reader

/-! ## Joined operands -/

/-- Takes one operand more: joins those before it, and puts what is left on the stack. -/
def Grammar.joinNext (state : List (Node × Nat) × Node) (next : Nat × Node) :
    List (Node × Nat) × Node :=
  let (stack, top) := Grammar.joinStronger next.1 state.1 state.2
  ((top, next.1) :: stack, next.2)

section

variable {words : Nat → Nat → Prop} {left right : Node}

/-- Joined operands may stand anywhere. -/
theorem Grammar.joined_ordinary : (joined left right).Ordinary :=
  ⟨rfl, by simp [joined], by simp [joined]⟩

/-- Joined operands have the right shape. -/
theorem Grammar.joined_formed (hl : left.Formed words) (hr : right.Formed words)
    (hlo : left.Ordinary) (hro : right.Ordinary) (hle : left.stop ≤ right.start) :
    (joined left right).Formed words := by
  have hleft := hl.regular.nonempty
  have hright := hr.regular.nonempty
  refine .intro ⟨?_, ⟨?_, ?_⟩, ?_, ?_, ?_, ?_, ?_⟩ (by simp [joined, Kind.isSolid]) ?_
  · simp only [joined]
    omega
  · simp only [joined, Node.as, List.mem_cons, List.not_mem_nil, or_false, forall_eq_or_imp,
      forall_eq]
    omega
  · simpa [joined, Node.as] using hle
  · simp only [joined, List.mem_cons, List.not_mem_nil, or_false, forall_eq_or_imp, forall_eq]
    exact ⟨(hlo.as .left rfl).part, (hro.as .right rfl).part⟩
  · simpa [joined] using (hro.as .right rfl).leads
  · simp [joined, Kind.isName]
  · simp [joined, Kind.isName]
  · simp [joined, Kind.opener?]
  · simpa [joined] using ⟨hl.as .left, hr.as .right⟩

end

namespace Gathered

variable {words : Nat → Nat → Prop} {s s' : Stream} {b : Bool} {before after : List Node}

/-- Two nodes next to each other may be joined. -/
theorem join {left right : Node}
    (h : Gathered words Node.Ordinary s b (before ++ left :: right :: after) s') :
    Gathered words Node.Ordinary s b (before ++ Grammar.joined left right :: after) s' := by
  obtain ⟨hsound, hstart, hstop, hadvanced, ⟨hwithin, hordered⟩, hformed, hkinds⟩ := h
  simp only [List.forall_mem_append, List.forall_mem_cons] at hwithin hformed hkinds
  simp only [List.pairwise_append, List.pairwise_cons, List.forall_mem_cons] at hordered
  obtain ⟨hinBefore, hinLeft, hinRight, hinAfter⟩ := hwithin
  obtain ⟨hformedBefore, hformedLeft, hformedRight, hformedAfter⟩ := hformed
  obtain ⟨hkindsBefore, hkindLeft, hkindRight, hkindsAfter⟩ := hkinds
  obtain ⟨hbefore, ⟨⟨hleft, -⟩, hright, hafter⟩, hbetween⟩ := hordered
  -- The joined node reaches from the left one to the right one, so it stands where both stood.
  have hjoined := Grammar.joined_formed hformedLeft hformedRight hkindLeft hkindRight hleft
  refine ⟨hsound, hstart, hstop, hadvanced, ⟨?_, ?_⟩, ?_, ?_⟩
  · simp only [List.forall_mem_append, List.forall_mem_cons]
    exact ⟨hinBefore, ⟨hinLeft.1, hinRight.2⟩, hinAfter⟩
  · simp only [List.pairwise_append, List.pairwise_cons, List.forall_mem_cons]
    exact ⟨hbefore, ⟨hright, hafter⟩, fun n hn => ⟨(hbetween n hn).1, (hbetween n hn).2.2⟩⟩
  · simp only [List.forall_mem_append, List.forall_mem_cons]
    exact ⟨hformedBefore, hjoined, hformedAfter⟩
  · simp only [List.forall_mem_append, List.forall_mem_cons]
    exact ⟨hkindsBefore, Grammar.joined_ordinary, hkindsAfter⟩

/-- The operands on a stack, the last first, and an operand after them are joined. -/
theorem joinStronger (precedence : Nat) (stack : List (Node × Nat)) (top : Node)
    (h : Gathered words Node.Ordinary s b ((stack.map Prod.fst).reverse ++ top :: after) s') :
    Gathered words Node.Ordinary s b
      (((Grammar.joinStronger precedence stack top).1.map Prod.fst).reverse
        ++ (Grammar.joinStronger precedence stack top).2 :: after) s' := by
  fun_induction Grammar.joinStronger precedence stack top with
  | case1 top => exact h
  | case2 left p stack top hle ih =>
    refine ih (join ?_)
    simpa using h
  | case3 left p stack top hle => exact h

/-- Nothing binds weaker than the lowest level, so everything is joined. -/
theorem joinStronger_zero (stack : List (Node × Nat)) (top : Node) :
    (Grammar.joinStronger 0 stack top).1 = [] := by
  fun_induction Grammar.joinStronger 0 stack top with
  | case1 top => rfl
  | case2 left p stack top hle ih => exact ih
  | case3 left p stack top hle => exact absurd (Nat.zero_le p) hle

/-- Joining operands as their operators bind keeps what was gathered: the stack and the operand on
top cover the same stretch as the operands. -/
theorem joinNext {rest : List (Nat × Node)} (stack : List (Node × Nat)) (top : Node)
    (h : Gathered words Node.Ordinary s b
      ((stack.map Prod.fst).reverse ++ top :: rest.map Prod.snd) s') :
    Gathered words Node.Ordinary s b
      (((rest.foldl Grammar.joinNext (stack, top)).1.map Prod.fst).reverse
        ++ [(rest.foldl Grammar.joinNext (stack, top)).2]) s' := by
  induction rest generalizing stack top with
  | nil => exact h
  | cons next rest ih =>
    -- What binds stronger than the next operator is joined before its operand is put on the stack.
    refine ih _ _ ?_
    have hjoined := joinStronger next.1 stack top h
    simpa using hjoined

/-- All operands of an expression are joined to one. -/
theorem joinOperands {first : Node} {rest : List (Nat × Node)}
    (h : Gathered words Node.Ordinary s b (first :: rest.map Prod.snd) s') :
    Gathered words Node.Ordinary s b [Grammar.joinOperands first rest] s' := by
  -- Every operator binds at least as strong as zero, so nothing is left on the stack.
  have hall := joinStronger 0 _ _ (joinNext [] first h)
  rw [joinStronger_zero] at hall
  exact hall

end Gathered

/-- A list of expressions. -/
structure Node.Listing (node : Node) : Prop where
  ordinary : node.Ordinary
  items : ∀ c ∈ node.children, c.Ordinary

/-- A list stays one in a free role. -/
theorem Node.Listing.as {node : Node} (h : node.Listing) (role : Role)
    (hrole : role.isFree = true) : (node.as role).Listing :=
  ⟨h.ordinary.as role hrole, h.items⟩

namespace Grammar

variable {words : Nat → Nat → Prop} {g : Grammar}

/-- Labels are read as ordinary nodes. -/
theorem gives_label : OrdinaryNode words label :=
  Adds.gives (.bind (gives_name rfl) fun _ => .skip gives_take fun _ => .pure rfl)

/-- Looking for a label reads nothing. -/
theorem gives_atLabel {p : Node → Prop} : atLabel.Gives words (fun _ => []) p false := by
  intro s a s' hs h
  cases h
  exact .refl hs

namespace Sound

variable (h : g.Sound words)

include h

/-! ## Statement lists -/

/-- Statements are read one after the other. -/
theorem statementList (stops : Token → Bool) :
    (g.statementList stops).Gives words id Node.Statement false := by
  have hlabel : (Reader.spanning .labeledStatement (return [← label])).Gives words (fun n => [n])
      Node.Statement true := by
    refine Gives.imp (.ordinary rfl ?_) fun n hn => Node.Ordinary.statement hn
    exact .bind gives_label fun _ => .pure rfl
  refine .orElse (gives_check.after fun _ => ?_) (.pure rfl)
  refine Gives.weaken (b := true) (.orElse (Adds.gives ?_) (Adds.gives ?_))
  · refine .bind h.statement fun first => ?_
    refine .bind (gives_terminator.after fun _ => gives_check.after fun _ => h.statement).many
      fun rest => ?_
    refine .bind (gives_terminator.after fun _ => gives_check.after fun _ => hlabel).maybe
      fun last => ?_
    exact .skip gives_terminator.maybe_skip fun _ => .pure (by simp)
  · exact .bind hlabel fun _ => .pure rfl

/-- Blocks are read as ordinary nodes. -/
theorem block : OrdinaryNode words g.block := by
  refine .sequence rfl rfl (.skip gives_take fun _ => ?_)
  refine .bind (h.statementList _) fun statements => ?_
  exact .skip gives_take fun _ => .pure (by simp)

/-! ## Operands -/

/-- Function literals are read as ordinary nodes. -/
theorem funcLiteral : OrdinaryNode words g.funcLiteral := by
  refine .ordinary rfl (.skip gives_take fun _ => .bind (h.signature false) fun signature => ?_)
  exact .bind (h.block.as .body rfl) fun body => .pure (by simp)

/-- Expressions in parentheses are read as ordinary nodes. -/
theorem parenthesized : OrdinaryNode words g.parenthesized := by
  refine .ordinary rfl (.skip gives_take fun _ => .bind (h.expression .inner) fun inner => ?_)
  exact .skip gives_take fun _ => .pure rfl

/-- Conversions are read as ordinary nodes. -/
theorem conversion : OrdinaryNode words g.conversion := by
  refine .ordinary rfl (.bind ((h.type false).as .type rfl) fun type => ?_)
  refine .skip gives_take fun _ => .bind ((h.expression .inner).as .operand rfl) fun operand => ?_
  exact .skip gives_take.maybe_skip fun _ => .skip gives_take fun _ => .pure rfl

/-- Composite literals of a type are read as ordinary nodes. -/
theorem composite {type : Reader Node} (htype : OrdinaryNode words type) :
    OrdinaryNode words (composite type g) := by
  refine .ordinary rfl (.bind (htype.as .type rfl) fun type => ?_)
  exact .bind (h.literalBody.as .body rfl) fun body => .pure rfl

/-- Composite literals of a named type are read as ordinary nodes. -/
theorem namedComposite (mode : Mode) : OrdinaryNode words (g.namedComposite mode) := by
  unfold Grammar.namedComposite
  split
  · refine h.composite (Adds.gives (.bind (h.namedType mode.lineEnds) fun type => ?_))
    exact .pass gives_check fun _ => .pure rfl
  · exact .failure

/-- Elements of a literal are read as ordinary nodes. -/
theorem literalElement : OrdinaryNode words g.literalElement :=
  .ordinary rfl (.bind (h.literalBody.orElse (h.expression .inner)) fun _ => .pure rfl)

/-- Elements with a key are read as ordinary nodes. -/
theorem keyedElement : OrdinaryNode words g.keyedElement := by
  refine Adds.gives (.bind h.literalElement fun first => ?_)
  refine .orElse (.continuing rfl rfl ?_) (.pure rfl)
  exact .skip gives_take fun _ => .bind h.literalElement fun value => .pure rfl

/-- The braces of a literal, with what they hold, are read as one ordinary node. -/
theorem literalValue : OrdinaryNode words g.literalValue :=
  .ordinary rfl (.last (h.keyedElement.bracketed "\x7b" "\x7d") (by simp))

/-- Arguments that begin with a type are read as one ordinary node. -/
theorem typeFirstArguments : OrdinaryNode words g.typeFirstArguments := by
  refine .ordinary rfl (.skip gives_take fun _ => ?_)
  refine .bind (Gives.maybeNodes (Adds.gives ?_)) fun arguments => ?_
  · refine .bind (h.type false) fun type => ?_
    refine .bind (gives_take.seqRight (h.expression .inner)).many fun rest => ?_
    exact .skip gives_take.maybe_skip fun _ => .pure (by simp)
  · exact .skip gives_take fun _ => .pure (by simp)

/-- Allocations are read as ordinary nodes. -/
theorem allocation (mode : Mode) : OrdinaryNode words (g.allocation mode) := by
  refine Adds.gives (.bind (gives_name rfl) fun function => .pass gives_next fun follows => ?_)
  split
  · refine .of_as .function rfl (.continuing rfl rfl (.pass gives_check fun _ => ?_))
    exact .bind (h.typeFirstArguments.as .arguments rfl) fun arguments => .pure rfl
  · exact .pure rfl

/-- Operands without what follows them are read as ordinary nodes. -/
theorem primary (mode : Mode) : OrdinaryNode words (g.primary mode) := by
  refine gives_peek?.after fun next => ?_
  split
  next => exact .failure
  next t =>
    split
    · exact h.parenthesized.orElse h.conversion
    · exact (h.composite (h.implicitArrayType.orElse (h.arrayType false))).orElse h.conversion
    · exact h.conversion
    · exact h.funcLiteral.orElse h.conversion
    · exact (h.composite h.structType).orElse h.conversion
    · exact (h.composite (h.mapType false)).orElse h.conversion
    · exact h.conversion
    · exact h.conversion
    · exact gives_name rfl
    · exact gives_name rfl
    · exact gives_name rfl
    · exact gives_name rfl
    · exact h.allocation mode
    · exact h.allocation mode
    · exact (h.namedComposite mode).orElse (gives_name rfl)
    · split
      next kind hkind =>
        have hliteral : kind.isLeaf = true ∧ kind.isName = false := by
          unfold literalKind? at hkind
          split at hkind <;> cases hkind <;> exact ⟨rfl, rfl⟩
        exact gives_leaf hliteral.1 (by simp [hliteral.2])
      next => exact .failure

/-! ## Extended operands -/

/-- Arguments are read as ordinary nodes. -/
theorem argument : OrdinaryNode words g.argument := by
  refine Adds.gives (.bind (h.expression .inner) fun value => ?_)
  refine .orElse (.continuing rfl rfl ?_) (.pure rfl)
  exact .skip gives_take fun _ => .pure rfl

/-- Lists of arguments are read as ordinary nodes. -/
theorem argumentList : OrdinaryNode words g.argumentList :=
  .ordinary rfl (.last (h.argument.bracketed "(" ")") (by simp))

/-- The bounds of a slice are read one after the other. -/
theorem sliceBounds : g.sliceBounds.Gives words id Node.Ordinary true := by
  refine Adds.gives (.skip gives_take fun _ => .bind (h.expression .inner).maybe fun stop => ?_)
  cases stop with
  | none => exact .pure rfl
  | some stop =>
    refine .bind (gives_take.seqRight (h.expression .inner)).maybe fun capacity => .pure ?_
    cases capacity <;> rfl

/-- An operand is taken up, as the first part, by what follows it. -/
theorem extended (mode : Mode) (operand : Node) :
    (g.extended mode operand).Adds words Node.Ordinary [operand] true (fun n => [n])
      Node.Ordinary true := by
  have htypes : OrdinaryNode words do
      check fun t => !(mode.lineEnds && t.newline)
      let types ← g.typeArguments
      check fun t => t.isSymbol "(" && !(mode.lineEnds && t.newline)
      return types := by
    refine gives_check.after fun _ => Adds.gives (.bind h.typeArguments fun types => ?_)
    exact .pass gives_check fun _ => .pure rfl
  refine .bind htypes.maybe fun types => ?_
  cases types with
  | some types =>
    refine .of_as .function rfl (.continuing rfl rfl (.pass gives_check fun _ => ?_))
    exact .bind (h.argumentList.as .arguments rfl) fun _ => .pure rfl
  | none =>
    refine .orElse ?_ (.orElse ?_ (.orElse ?_ (.orElse ?_ ?_)))
    -- The selection of a field, an assertion of a type, and an index or a slice.
    · refine .of_as .operand rfl (.continuing rfl rfl (.skip gives_take fun _ => ?_))
      exact .bind gives_field fun _ => .pure rfl
    · refine .of_as .operand rfl (.continuing rfl rfl ?_)
      refine .skip gives_take fun _ => .skip gives_take fun _ => ?_
      have htype : (do
          let type ← g.type false
          let _ ← symbol ")"
          return [type.as .type] : Reader (List Node)).Adds words Node.Ordinary
            [operand.as .operand] true (fun children => operand.as .operand :: children)
            Node.Ordinary true := by
        refine .bind ((h.type false).as .type rfl) fun _ => ?_
        exact .skip gives_take fun _ => .pure rfl
      split
      · exact .pass gives_check fun _ => htype
      · exact htype
    · refine .of_as .operand rfl
        (.weaken (p := Node.Free) (.skip gives_take fun _ => ?_) fun _ => .inl)
      have hmark (f : Token → Bool) :
          (take f).Gives words (fun t => [leaf .punctuation t]) Node.Free true :=
        gives_mark.imp fun _ => .inr
      have hbounds := h.sliceBounds.imp (q := Node.Free) fun _ => .inl
      refine .bind ((h.expression .inner).imp fun _ => .inl).maybe fun first => ?_
      refine .bind (hmark _).maybe fun closing => ?_
      cases first with
      | none =>
        cases closing with
        | none =>
          refine .bind hbounds fun bounds => .bind (hmark _) fun closing => ?_
          exact .closed (operand.as .operand) bounds (leaf .punctuation closing) rfl rfl
        | some closing => exact .failure
      | some first =>
        cases closing with
        | none =>
          refine .bind hbounds fun bounds => .bind (hmark _) fun closing => ?_
          exact .closed (operand.as .operand) (first :: bounds) (leaf .punctuation closing) rfl rfl
        | some closing =>
          exact .closed (operand.as .operand) [first] (leaf .punctuation closing) rfl rfl
    -- A type with its arguments, and a call.
    · refine .of_as .type rfl (.continuing rfl rfl (.pass gives_check fun _ => ?_))
      exact .bind h.typeArguments fun _ => .pure rfl
    · refine .of_as .function rfl (.continuing rfl rfl (.pass gives_check fun _ => ?_))
      exact .bind (h.argumentList.as .arguments rfl) fun _ => .pure rfl

/-- Operands are read as ordinary nodes. -/
theorem operandExpression (mode : Mode) : OrdinaryNode words (g.operandExpression mode) := by
  refine .orElse (.spanning (p := Node.Free) ?_ (fun _ hc => hc.later) rfl fun _ _ _ _ => ?_)
    (Adds.gives (.bind (h.primary mode) fun operand => ?_))
  · refine .bind ((gives_mark.orElse (gives_split (by simp))).inRole .operator fun _ hn =>
      .inr ⟨hn.kind, rfl⟩) fun operator => ?_
    exact .bind (((h.operand mode).as .operand rfl).imp fun _ => .inl) fun _ => .pure rfl
  · exact Node.Plain.ordinary ⟨rfl, rfl⟩ rfl
  · exact .extend (h.extended mode) operand

/-- Expressions are read as ordinary nodes. -/
theorem wholeExpression (mode : Mode) : OrdinaryNode words (g.wholeExpression mode) := by
  have hnext : ∀ operator : Reader Nat, operator.Gives words (fun _ => []) Node.Ordinary true →
      (do
        let precedence ← operator
        return (precedence, ← g.operandExpression mode) : Reader (Nat × Node)).Gives words
          (fun next => [next.2]) Node.Ordinary true := by
    intro operator hoperator
    refine Adds.gives (.skip hoperator fun precedence => ?_)
    exact .bind (h.operandExpression mode) fun _ => .pure rfl
  refine Adds.gives (.bind (h.operandExpression mode) fun first => ?_)
  refine .bind (hnext _ (gives_check.after fun _ => Adds.gives ?_)).many fun rest => ?_
  · refine .skip (gives_take.orElse (gives_check.after fun _ => ?_)) fun t => ?_
    · exact (gives_split (by simp)).forget
    · split
      · exact .pure rfl
      · exact .failure
  -- The operands have been gathered one after the other, and are joined at the end.
  · intro s₀ s n s' hbefore hr
    cases pure_eq_some.1 hr
    refine Gathered.joinOperands ?_
    rw [List.map_eq_flatMap]
    exact hbefore

/-- The rule for a list of expressions gives a list. -/
theorem expressions (mode : Mode) :
    (g.expressionList mode).Gives words (fun n => [n]) Node.Listing true := by
  refine .spanning (.last ((h.expression mode).commaList mode.lineEnds) (by simp))
    (fun _ hc => hc.later) rfl ?_
  intro start stop children hchildren
  exact ⟨Node.Plain.ordinary ⟨rfl, rfl⟩ rfl, hchildren⟩

/-- Lists of expressions are read as ordinary nodes. -/
theorem expressionList (mode : Mode) : OrdinaryNode words (g.expressionList mode) :=
  (h.expressions mode).imp fun _ hn => hn.ordinary

end Sound

end FieldAudit.Go.Grammar
