import FieldAudit.Proofs.Reading.Progress

/-! # Inputs that cannot be told apart

The readers look at the next word, and at a few places at the next token itself.  `Simulation` says
what a relation between inputs has to keep to for the readers not to tell related inputs apart: they
fail with the same error on both, or read the same from both and leave related inputs.  This holds
of each reader by its equation, and so of whole templates (`Simulation.ofTokens_eq`). -/

namespace FieldAudit.Template

/-! ## Outcomes -/

/-- The same error, or related values. -/
inductive SameOutcome {ε α β : Type} (R : α → β → Prop) : Except ε α → Except ε β → Prop
  | error (e : ε) : SameOutcome R (.error e) (.error e)
  | ok {a : α} {b : β} (h : R a b) : SameOutcome R (.ok a) (.ok b)

/-- The same value, with related states. -/
inductive Beside {α σ : Type} (R : σ → σ → Prop) : α × σ → α × σ → Prop
  | mk {a : α} {s s' : σ} (h : R s s') : Beside R (a, s) (a, s')

namespace SameOutcome

variable {ε α β γ δ : Type} {R : α → β → Prop} {S : γ → δ → Prop} {x : Except ε α}
  {y : Except ε β}

/-- An outcome is the same as itself. -/
theorem refl {R : α → α → Prop} (hR : ∀ a, R a a) (x : Except ε α) : SameOutcome R x x := by
  cases x with
  | error e => exact .error e
  | ok a => exact .ok (hR a)

/-- One step after another keeps outcomes the same. -/
theorem bind {f : α → Except ε γ} {g : β → Except ε δ} (h : SameOutcome R x y)
    (hf : ∀ a b, x = .ok a → R a b → SameOutcome S (f a) (g b)) :
    SameOutcome S (x >>= f) (y >>= g) := by
  cases h with
  | error e => exact .error e
  | ok hab => exact hf _ _ rfl hab

/-- Outcomes stay the same under functions that keep them so. -/
theorem map {f : α → γ} {g : β → δ} (h : SameOutcome R x y) (hf : ∀ a b, R a b → S (f a) (g b)) :
    SameOutcome S (x.map f) (y.map g) := by
  cases h with
  | error e => exact .error e
  | ok hab => exact .ok (hf _ _ hab)

end SameOutcome

/-- Skipping spaces goes on behind a first space. -/
theorem Input.skipSpace_tail {s : Input} (h : s.peek.kind = .space) :
    s.tail.skipSpace = s.skipSpace := by
  obtain ⟨tokens, scope⟩ := s
  cases tokens with
  | nil => cases h
  | cons t rest => exact (Input.skipSpace_of_space h).symm

/-! ## Simulations -/

/-- Whether spaces right after a token of this kind make no difference. -/
def Token.Kind.isLooseAfter : Token.Kind → Bool
  | .leftDelim | .pipe | .declare | .assign | .comma | .leftParen | .space => true
  | _ => false

/-- Whether spaces right before a token of this kind make no difference. -/
def Token.Kind.isLooseBefore : Token.Kind → Bool
  | .rightDelim | .pipe | .declare | .assign | .comma | .rightParen | .space => true
  | _ => false

/-- What a relation between inputs keeps to.  It comes in two strengths: inputs that are loosely
related may differ in spaces at their front. -/
structure Simulation (R : Bool → Input → Input → Prop) : Prop where
  refl : ∀ loose s, R loose s s
  loosen : ∀ {loose s s'}, R loose s s' → R true s s'
  scope_eq : ∀ {loose s s'}, R loose s s' → s.scope = s'.scope
  withScope : ∀ {loose s s'} scope, R loose s s' →
    R loose { s with scope := scope } { s' with scope := scope }
  skipSpace : ∀ {loose s s'}, R loose s s' → R false s.skipSpace s'.skipSpace
  /-- The next tokens are of one kind, and the same unless they are spaces; or the next word can do
  without spaces before it. -/
  front : ∀ {s s'}, R false s s' →
    (s.peek.kind = s'.peek.kind ∧ (s.peek.kind ≠ .space → s.peek = s'.peek) ∧
      (s.peek.kind ≠ .eof → R s.peek.kind.isLooseAfter s.tail s'.tail)) ∨
    (s.peekWord.kind.isLooseBefore = true ∧ s.skipSpace = s'.skipSpace)

namespace Simulation

variable {R : Bool → Input → Input → Prop} {loose : Bool} {s s' : Input}

/-! ## Words -/

/-- Related inputs have the same next word. -/
theorem word (hR : Simulation R) (h : R loose s s') : s.peekWord = s'.peekWord := by
  rcases hR.front (hR.skipSpace h) with ⟨-, heq, -⟩ | ⟨-, hskip⟩
  · exact heq s.peekWord_ne_space
  · rw [Input.skipSpace_skipSpace, Input.skipSpace_skipSpace] at hskip
    exact Input.peekWord_of_skipSpace_eq hskip

/-- Related inputs stay related behind a word, more loosely if a space may follow it. -/
theorem next (hR : Simulation R) (h : R loose s s') {kind : Token.Kind}
    (hk : s.peekWord.kind = kind) (he : kind ≠ .eof) : R kind.isLooseAfter s.next s'.next := by
  subst hk
  rcases hR.front (hR.skipSpace h) with ⟨-, -, htail⟩ | ⟨-, hskip⟩
  · exact htail he
  · rw [Input.skipSpace_skipSpace, Input.skipSpace_skipSpace] at hskip
    rw [Input.next_of_skipSpace_eq hskip]
    exact hR.refl _ _

/-- Related inputs stay related when both declare a variable. -/
theorem declare (hR : Simulation R) (h : R loose s s') (name : String) :
    R loose (s.declare name) (s'.declare name) := by
  have hscope := hR.withScope (name :: s.scope) h
  rw [Input.declare, Input.declare, ← hR.scope_eq h]
  exact hscope

/-- Whether the next token is of a given kind, unless that kind can do without spaces before it. -/
theorem peek_kind_iff (hR : Simulation R) (h : R false s s') {kind : Token.Kind}
    (hk : kind.isLooseBefore = false) : s.peek.kind = kind ↔ s'.peek.kind = kind := by
  rcases hR.front h with ⟨heq, -⟩ | ⟨hloose, hskip⟩
  · rw [heq]
  · -- The next token is a space or the next word, on both sides.
    have hne {r : Input} (hr : r.peekWord.kind.isLooseBefore = true) : r.peek.kind ≠ kind := by
      intro hp
      by_cases hs : r.peek.kind = .space
      · rw [← hp, hs] at hk
        cases hk
      · rw [Input.peekWord, Input.skipSpace_eq_self hs, hp, hk] at hr
        cases hr
    have hloose' : s'.peekWord.kind.isLooseBefore = true := by
      rw [← Input.peekWord_of_skipSpace_eq hskip]
      exact hloose
    exact ⟨fun hp => absurd hp (hne hloose), fun hp => absurd hp (hne hloose')⟩

/-- Related inputs stay related behind a token that has its place fixed. -/
theorem tail (hR : Simulation R) (h : R false s s') {kind : Token.Kind} (hk : s.peek.kind = kind)
    (hs : kind.isLooseBefore = false) (he : kind ≠ .eof) : R kind.isLooseAfter s.tail s'.tail := by
  have hself : s.skipSpace = s := by
    refine Input.skipSpace_eq_self fun hspace => ?_
    rw [← hk, hspace] at hs
    cases hs
  rcases hR.front h with ⟨-, -, htail⟩ | ⟨hloose, -⟩
  · subst hk
    exact htail he
  · rw [Input.peekWord, hself, hk, hs] at hloose
    cases hloose

/-! ## Fields and declarations -/

/-- The fields at the front are the same. -/
theorem fields (hR : Simulation R) (h : R false s s') :
    s.tokens.takeWhile (·.kind = .field) = s'.tokens.takeWhile (·.kind = .field) ∧
      R false { s with tokens := s.tokens.dropWhile (·.kind = .field) }
        { s' with tokens := s'.tokens.dropWhile (·.kind = .field) } := by
  have none {s s' : Input} (h : R false s s') (hp : s.peek.kind ≠ .field) :
      s.tokens.takeWhile (·.kind = .field) = s'.tokens.takeWhile (·.kind = .field) ∧
        R false { s with tokens := s.tokens.dropWhile (·.kind = .field) }
          { s' with tokens := s'.tokens.dropWhile (·.kind = .field) } := by
    have hp' : s'.peek.kind ≠ .field := fun hf => hp ((hR.peek_kind_iff h rfl).2 hf)
    obtain ⟨htake, hdrop⟩ := Input.span_field_of_ne hp
    obtain ⟨htake', hdrop'⟩ := Input.span_field_of_ne hp'
    rw [htake, htake', hdrop, hdrop']
    exact ⟨rfl, h⟩
  obtain ⟨tokens, scope⟩ := s
  obtain ⟨tokens', scope'⟩ := s'
  induction tokens generalizing tokens' with
  | nil => exact none h (by show Token.Kind.eof ≠ .field; decide)
  | cons t rest ih =>
    by_cases ht : t.kind = .field
    · -- A field is no space, so it is the next word of both.
      have hword := hR.word h
      have ht' : (Input.mk tokens' scope').peek.kind = .field :=
        (hR.peek_kind_iff h rfl).1 ht
      cases tokens' with
      | nil => cases ht'
      | cons t' rest' =>
        have hne : t'.kind ≠ .space := by
          rw [show t'.kind = .field from ht']
          decide
        rw [Input.peekWord_of_ne (by rw [ht]; decide), Input.peekWord_of_ne hne] at hword
        subst hword
        obtain ⟨htake, hdrop⟩ := ih rest' (hR.tail h ht rfl (by decide))
        simp only [List.takeWhile_cons, List.dropWhile_cons, ht, decide_true, if_true]
        exact ⟨congrArg _ htake, hdrop⟩
    · exact none h ht

/-- Trailing fields have the same outcome on related inputs. -/
theorem withFields_same (hR : Simulation R) (h : R false s s') (node : Node) :
    SameOutcome (Beside (R false)) (withFields node s) (withFields node s') := by
  obtain ⟨htake, hdrop⟩ := hR.fields h
  unfold withFields
  dsimp only
  rw [← htake]
  split
  next => exact .ok ⟨h⟩
  next first rest _ =>
    split
    next => exact .error _
    next => exact .ok ⟨hdrop⟩

/-- Declarations have the same outcome on related inputs. -/
theorem declarations_same (hR : Simulation R) {loose : Bool} {s s' : Input} (h : R loose s s')
    (context : Context) (more : Nat) :
    SameOutcome (Beside (R true)) (declarations context more s)
      (declarations context more s') := by
  -- Every choice is made by the next word, which is the same on both sides.
  unfold declarations
  dsimp only
  rw [← hR.word h]
  by_cases hv : s.peekWord.kind = .variable
  · have hnext := hR.next h hv (by decide)
    rw [if_pos hv, if_pos hv, ← hR.word hnext]
    by_cases hd : s.next.peekWord.kind = .assign ∨ s.next.peekWord.kind = .declare
    · rw [if_pos hd, if_pos hd]
      refine .ok ⟨hR.declare ?_ _⟩
      rcases hd with hd | hd <;> exact hR.next hnext hd (by decide)
    · rw [if_neg hd, if_neg hd]
      by_cases hm : s.next.peekWord.kind = .comma
      · have hdeclared :=
          hR.declare (hR.next hnext hm (by decide)) (String.ofList s.peekWord.lexeme)
        rw [if_pos hm, if_pos hm]
        cases more with
        | zero => exact .error _
        | succ more =>
          dsimp only
          rw [← hR.word hdeclared]
          split
          next =>
            have hrest := hR.declarations_same hdeclared context more
            generalize declarations context more _ = x at hrest ⊢
            generalize declarations context more _ = y at hrest ⊢
            rcases hrest with e | hs
            · exact .error e
            · cases hs with
              | mk hs => exact .ok ⟨hs⟩
          next => exact .error _
      · rw [if_neg hm, if_neg hm]
        exact .ok ⟨hR.loosen h⟩
  · rw [if_neg hv, if_neg hv]
    exact .ok ⟨hR.loosen h⟩

/-! ## Pipes -/

/-- Spaces matter after every token that is an operand of its own. -/
theorem isLooseAfter_of_atom? {scope : List String} {t : Token} {node : Node}
    (h : atom? scope t = .ok (some node)) : t.kind.isLooseAfter = false := by
  have hs := (atom?_eq_some_iff.1 h).startsOperand
  cases hk : t.kind with
  | leftParen => rw [atom?_eq_none_iff.2 (.inr hk)] at h; cases h
  | keyword word => rfl
  | _ => first | rfl | (rw [hk] at hs; cases hs)

/-- No operand starts with a word that can do without spaces before it. -/
theorem operand_of_isLooseBefore {s : Input} (h : s.peekWord.kind.isLooseBefore = true) :
    operand s = .ok (none, s.skipSpace) := by
  have hp : s.peekWord.kind ≠ .leftParen := by
    intro hk
    rw [hk] at h
    cases h
  have ha : atom? s.scope s.peekWord = .ok none := by
    refine atom?_eq_none_iff.2 (.inl ?_)
    cases hk : s.peekWord.kind <;> first | rfl | (rw [hk] at h; cases h)
  rw [operand, dif_neg hp, ha]

/-- Before such a word it does not matter whether an argument has spaces after it. -/
theorem afterOperand_skipSpace {s : Input} (h : s.peekWord.kind.isLooseBefore = true)
    (arg : Option Node) : afterOperand arg s = afterOperand arg s.skipSpace := by
  by_cases hs : s.peek.kind = .space
  · have hword : s.skipSpace.peekWord = s.peekWord :=
      Input.peekWord_of_skipSpace_eq s.skipSpace_skipSpace
    -- A space before a word that ends the arguments leads to one more operand, which is none.
    have hrest : arguments s.tail = afterOperand none s.skipSpace := by
      rw [arguments_eq, Input.skipSpace_tail hs, operand_of_isLooseBefore (by rw [hword, h]),
        Input.skipSpace_skipSpace]
      rfl
    have hne : s.skipSpace.peek.kind ≠ .space := s.peekWord_ne_space
    rw [afterOperand, hs]
    dsimp only
    rw [hrest]
    unfold afterOperand
    cases hk : s.skipSpace.peek.kind with
    | space => exact absurd hk hne
    | rightDelim | rightParen | pipe =>
      show Except.ok (arg.toList ++ [], _) = _
      rw [List.append_nil]
    | _ => rfl
  · rw [Input.skipSpace_eq_self hs]

/-- What follows an operand has the same outcome on related inputs, if further arguments do. -/
theorem afterOperand_same (hR : Simulation R) (h : R false s s') (arg : Option Node)
    (ih : s.peek.kind = .space → R true s.tail s'.tail →
      SameOutcome (Beside (R true)) (arguments s.tail) (arguments s'.tail)) :
    SameOutcome (Beside (R true)) (afterOperand arg s) (afterOperand arg s') := by
  -- The next tokens are alike, or both sides differ in spaces before a word that needs none.
  rcases hR.front h with ⟨hkind, heq, htail⟩ | ⟨hloose, hskip⟩
  · unfold afterOperand
    rw [← hkind]
    cases hk : s.peek.kind with
    | space =>
      rw [hk] at htail
      refine (ih hk (htail (by decide))).bind ?_
      rintro _ _ - ⟨hs⟩
      exact .ok ⟨hs⟩
    | rightDelim | rightParen => exact .ok ⟨hR.loosen h⟩
    | pipe =>
      rw [hk] at htail
      exact .ok ⟨htail (by decide)⟩
    | _ =>
      rw [hk] at heq
      rw [heq (by simp)]
      exact .error _
  · have hloose' : s'.peekWord.kind.isLooseBefore = true := by
      rw [← Input.peekWord_of_skipSpace_eq hskip, hloose]
    rw [afterOperand_skipSpace hloose, hskip, ← afterOperand_skipSpace hloose']
    refine .refl (fun result => ?_) _
    exact .mk (hR.refl true result.2)

-- The readers are compared by recursion on the size of the first input, as they recurse.
mutual

/-- Pipelines have the same outcome on related inputs. -/
theorem pipeline_same (hR : Simulation R) {s s' : Input} (h : R true s s') (context : Context)
    {close : Token.Kind} (hc : close.closesPipe) :
    SameOutcome (Beside (R false)) (pipeline context close s) (pipeline context close s') := by
  rw [pipeline_eq, pipeline_eq, ← hR.word h]
  refine (hR.declarations_same h context _).bind ?_
  rintro ⟨decls, s₁⟩ _ hd ⟨hs⟩
  have hsize : s₁.size ≤ s.size := declarations_size hd
  refine (commands_same hR hs context hc).bind ?_
  rintro ⟨cs, s₂⟩ _ - ⟨hs⟩
  refine (SameOutcome.refl (fun _ => rfl) _).bind ?_
  rintro pipe _ - rfl
  exact .ok ⟨hs⟩
termination_by 4 * s.size + 3

/-- Commands have the same outcome on related inputs. -/
theorem commands_same (hR : Simulation R) {s s' : Input} (h : R true s s') (context : Context)
    {close : Token.Kind} (hc : close.closesPipe) :
    SameOutcome (Beside (R false)) (commands context close s) (commands context close s') := by
  rw [commands_eq, commands_eq, ← hR.word h]
  by_cases hk : s.peekWord.kind = close
  · rw [if_pos hk, if_pos hk]
    rcases hc with rfl | rfl <;> exact .ok ⟨hR.next h hk (by decide)⟩
  · rw [if_neg hk, if_neg hk]
    by_cases hs : s.peekWord.kind.startsOperand = true
    · rw [if_pos hs, if_pos hs]
      refine (arguments_same hR h).bind ?_
      rintro ⟨args, s₁⟩ _ ha ⟨hr⟩
      have hsize := ((arguments_reads ha).arguments_progress hs).2
      refine (commands_same hR hr context hc).bind ?_
      rintro ⟨rest, s₂⟩ _ - ⟨hr⟩
      exact .ok ⟨hr⟩
    · rw [if_neg hs, if_neg hs]
      exact .error _
termination_by 4 * s.size + 2

/-- Arguments have the same outcome on related inputs. -/
theorem arguments_same (hR : Simulation R) {s s' : Input} (h : R true s s') :
    SameOutcome (Beside (R true)) (arguments s) (arguments s') := by
  have hskip := s.size_skipSpace_le
  rw [arguments_eq, arguments_eq]
  refine (operand_same hR (hR.skipSpace h)).bind ?_
  rintro ⟨arg, s₁⟩ ⟨_, s₁'⟩ ho ⟨hs⟩
  refine hR.afterOperand_same hs arg fun hk htail => ?_
  have hlt := (operand_reads ho).size_afterSpace_lt hk
  exact arguments_same hR htail
termination_by 4 * s.size + 1

/-- Operands have the same outcome on related inputs. -/
theorem operand_same (hR : Simulation R) {s s' : Input} (h : R false s s') :
    SameOutcome (Beside (R false)) (operand s) (operand s') := by
  have hword := hR.word h
  by_cases hp : s.peekWord.kind = .leftParen
  · have hsize := Input.size_next_lt (s := s) (by rw [hp]; decide)
    have hpipe := pipeline_same hR (hR.next h hp (by decide)) .parenthesis (.inr rfl)
    rw [operand_parenthesis_eq hp, operand_parenthesis_eq (by rw [← hword, hp])]
    refine hpipe.bind ?_
    rintro ⟨pipe, s₁⟩ _ - ⟨hs⟩
    refine (hR.withFields_same hs _).bind ?_
    rintro ⟨node, s₂⟩ _ - ⟨hs⟩
    exact .ok ⟨hs⟩
  · rw [operand_atom_eq hp, operand_atom_eq (by rw [← hword]; exact hp), ← hword, ← hR.scope_eq h]
    cases ha : atom? s.scope s.peekWord with
    | error e => exact .error e
    | ok base =>
      cases base with
      | none => exact .ok ⟨hR.skipSpace h⟩
      | some base =>
        have hnext : R false s.next s'.next := by
          rw [← isLooseAfter_of_atom? ha]
          exact hR.next h rfl (ne_of_atom? ha rfl)
        refine (hR.withFields_same hnext base).bind ?_
        rintro ⟨node, s₁⟩ _ - ⟨hs⟩
        exact .ok ⟨hs⟩
termination_by 4 * s.size

end

/-! ## Single actions -/

/-- The end of an action has the same outcome on related inputs. -/
theorem rightDelim_same (hR : Simulation R) (h : R loose s s') (context : Context) :
    SameOutcome (Beside (R false)) (rightDelim context s) (rightDelim context s') := by
  unfold rightDelim
  dsimp only
  rw [← hR.word h]
  by_cases hk : s.peekWord.kind = .rightDelim
  · rw [if_pos hk, if_pos hk]
    exact .ok ⟨hR.next h hk (by decide)⟩
  · rw [if_neg hk, if_neg hk]
    exact .error _

/-- An `end` has the same outcome on related inputs. -/
theorem endAction_same (hR : Simulation R) (h : R loose s s') :
    SameOutcome (Beside (R false)) (endAction s) (endAction s') := by
  have hright := hR.rightDelim_same h (.control .endKw)
  unfold endAction
  generalize rightDelim (.control .endKw) s = x at hright ⊢
  generalize rightDelim (.control .endKw) s' = y at hright ⊢
  rcases hright with e | ⟨⟨hs⟩⟩
  · exact .error e
  · exact .ok ⟨hs⟩

/-- An `else` has the same outcome on related inputs. -/
theorem elseAction_same (hR : Simulation R) (h : R loose s s') :
    SameOutcome (Beside (R false)) (elseAction s) (elseAction s') := by
  have hright := hR.rightDelim_same h (.control .elseKw)
  unfold elseAction
  dsimp only
  rw [← hR.word h]
  by_cases hk : s.peekWord.kind = .keyword .ifKw ∨ s.peekWord.kind = .keyword .withKw
  · rw [if_pos hk, if_pos hk]
    exact .ok ⟨hR.skipSpace h⟩
  · rw [if_neg hk, if_neg hk]
    generalize rightDelim (.control .elseKw) s = x at hright ⊢
    generalize rightDelim (.control .elseKw) s' = y at hright ⊢
    rcases hright with e | ⟨⟨hs⟩⟩
    · exact .error e
    · exact .ok ⟨hs⟩

/-- Leaving a loop has the same outcome on related inputs. -/
theorem loopControl_same (hR : Simulation R) (h : R loose s s') (depth : Nat) (keyword : Keyword)
    (pos : Nat) :
    SameOutcome (R false) (loopControl depth keyword pos s) (loopControl depth keyword pos s') := by
  have hright := hR.rightDelim_same h (.loopControl keyword)
  unfold loopControl
  generalize rightDelim (.loopControl keyword) s = x at hright ⊢
  generalize rightDelim (.loopControl keyword) s' = y at hright ⊢
  rcases hright with e | ⟨⟨hs⟩⟩
  · exact .error e
  · dsimp only
    split
    next => exact .error _
    next => exact .ok hs

/-- Related inputs stay related behind the name of a template. -/
theorem next_of_templateName (hR : Simulation R) (h : R loose s s') {context : Context}
    {name : String} (hn : templateName context s.peekWord = .ok name) : R false s.next s'.next := by
  rcases templateName_kind hn with hk | hk
  · exact hR.next h hk (by decide)
  · exact hR.next h hk (by decide)

/-- Calls have the same outcome on related inputs. -/
theorem templateCall_same (hR : Simulation R) (h : R loose s s') :
    SameOutcome (Beside (R false)) (templateCall s) (templateCall s') := by
  unfold templateCall
  dsimp only
  rw [← hR.word h]
  cases hn : templateName .template s.peekWord with
  | error e => exact .error e
  | ok name =>
    have hnext := hR.loosen (hR.next_of_templateName h hn)
    dsimp only
    rw [← hR.word hnext]
    by_cases hk : s.next.peekWord.kind = .rightDelim
    · rw [if_pos hk, if_pos hk]
      exact .ok ⟨hR.next hnext hk (by decide)⟩
    · rw [if_neg hk, if_neg hk]
      have hpipe := hR.pipeline_same hnext .template (.inl rfl)
      generalize pipeline .template .rightDelim s.next = x at hpipe ⊢
      generalize pipeline .template .rightDelim s'.next = y at hpipe ⊢
      rcases hpipe with e | ⟨⟨hs⟩⟩
      · exact .error e
      · exact .ok ⟨hs⟩

/-- Actions have the same outcome on related inputs. -/
theorem pipeAction_same (hR : Simulation R) (h : R true s s') :
    SameOutcome (Beside (R false)) (pipeAction s) (pipeAction s') := by
  have hpipe := hR.pipeline_same h .command (.inl rfl)
  unfold pipeAction
  rw [← hR.word h]
  generalize pipeline .command .rightDelim s = x at hpipe ⊢
  generalize pipeline .command .rightDelim s' = y at hpipe ⊢
  rcases hpipe with e | ⟨⟨hs⟩⟩
  · exact .error e
  · exact .ok ⟨hs⟩

end Simulation

/-! ## Blocks -/

/-- Related inputs, and the same templates defined so far. -/
structure State.Alike (R : Bool → Input → Input → Prop) (s s' : State) : Prop where
  input : R false s.input s'.input
  defines : s.defines = s'.defines

/-- Related inputs may take the place of those of states that are alike. -/
theorem State.Alike.read {R : Bool → Input → Input → Prop} {s s' : State} (h : s.Alike R s')
    {input input' : Input} (hi : R false input input') : (s.read input).Alike R (s'.read input') :=
  ⟨hi, h.defines⟩

namespace Simulation

variable {R : Bool → Input → Input → Prop} {s s' : State}

/-- States that are alike stay so in another scope. -/
theorem withScope_alike (hR : Simulation R) (h : s.Alike R s') (scope : List String) :
    (s.withScope scope).Alike R (s'.withScope scope) :=
  ⟨hR.withScope scope h.input, h.defines⟩

/-- States that are alike open with the same word. -/
theorem word_opens (hR : Simulation R) (h : s.Alike R s') {kind : Token.Kind}
    (ho : s.Opens kind) : s.word = s'.word ∧ s'.Opens kind := by
  have hword : s.word = s'.word := hR.word (hR.next h.input ho.1 (by decide))
  refine ⟨hword, ?_, ?_⟩
  · rw [← hR.word h.input, ho.1]
  · rw [← hword, ho.2]

/-- States that are alike stay so behind a keyword. -/
theorem afterWord_alike (hR : Simulation R) (h : s.Alike R s') {word : Keyword}
    (ho : s.Opens (.keyword word)) : s.afterWord.Alike R s'.afterWord :=
  h.read (hR.next (hR.next h.input ho.1 (by decide)) ho.2 (by simp))

/-- An item that is an `end` has the same outcome on states that are alike. -/
theorem endItem_same (hR : Simulation R) (h : s.Alike R s') (ho : s.Opens (.keyword .endKw))
    (depth : Nat) :
    SameOutcome (Beside (State.Alike R)) (actionItem depth s (.keyword .endKw))
      (actionItem depth s' (.keyword .endKw)) := by
  refine (hR.endAction_same (hR.afterWord_alike h ho).input).map ?_
  rintro _ _ ⟨hi⟩
  exact ⟨h.read hi⟩

/-- An item that is an `else` has the same outcome on states that are alike. -/
theorem elseItem_same (hR : Simulation R) (h : s.Alike R s') (ho : s.Opens (.keyword .elseKw))
    (depth : Nat) :
    SameOutcome (Beside (State.Alike R)) (actionItem depth s (.keyword .elseKw))
      (actionItem depth s' (.keyword .elseKw)) := by
  refine (hR.elseAction_same (hR.afterWord_alike h ho).input).map ?_
  rintro _ _ ⟨hi⟩
  exact ⟨h.read hi⟩

/-- An item that leaves a loop has the same outcome on states that are alike. -/
theorem loopItem_same (hR : Simulation R) (h : s.Alike R s') {word : Keyword}
    (hw : word = .breakKw ∨ word = .continueKw) (ho : s.Opens (.keyword word)) (depth : Nat) :
    SameOutcome (Beside (State.Alike R)) (actionItem depth s (.keyword word))
      (actionItem depth s' (.keyword word)) := by
  have hinput := (hR.afterWord_alike h ho).input
  rcases hw with rfl | rfl
  all_goals
    rw [actionItem, actionItem, ← (hR.word_opens h ho).1]
    refine (hR.loopControl_same hinput depth _ s.word.pos).map fun _ _ hi => ?_
    exact ⟨h.read hi⟩

/-- An item that is a call has the same outcome on states that are alike. -/
theorem callItem_same (hR : Simulation R) (h : s.Alike R s')
    (ho : s.Opens (.keyword .templateKw)) (depth : Nat) :
    SameOutcome (Beside (State.Alike R)) (actionItem depth s (.keyword .templateKw))
      (actionItem depth s' (.keyword .templateKw)) := by
  refine (hR.templateCall_same (hR.afterWord_alike h ho).input).map ?_
  rintro _ _ ⟨hi⟩
  exact ⟨h.read hi⟩

/-- An item that is an action has the same outcome on states that are alike. -/
theorem pipeItem_same (hR : Simulation R) (h : s.Alike R s') {kind : Token.Kind}
    (ho : s.Opens kind) (hk : kind.opensPipe = true) (depth : Nat) :
    SameOutcome (Beside (State.Alike R)) (actionItem depth s kind) (actionItem depth s' kind) := by
  rw [actionItem_of_opensPipe hk, actionItem_of_opensPipe hk]
  refine (hR.pipeAction_same (hR.next h.input ho.1 (by decide))).map ?_
  rintro _ _ ⟨hi⟩
  exact ⟨h.read hi⟩

mutual

/-- Items have the same outcome on states that are alike. -/
theorem items_same (hR : Simulation R) {s s' : State} (h : s.Alike R s') (depth : Nat) :
    SameOutcome (Beside (Beside (State.Alike R))) (items depth s) (items depth s') := by
  rw [items_eq, items_eq, ← hR.word h.input]
  by_cases hk : s.input.peekWord.kind = .eof
  · rw [if_pos hk, if_pos hk]
    exact .error _
  · rw [if_neg hk, if_neg hk]
    refine (item_same hR h depth).bind ?_
    rintro ⟨i, s₁⟩ _ hi ⟨hs⟩
    cases i with
    | ending ending => exact .ok ⟨⟨hs⟩⟩
    | node node =>
      have hlt := (item_reads hi).item_progress
      refine (items_same hR hs depth).bind ?_
      rintro ⟨nodes, ending, s₂⟩ _ - ⟨⟨hs⟩⟩
      exact .ok ⟨⟨hs⟩⟩
termination_by 4 * s.size + 1

/-- An item has the same outcome on states that are alike. -/
theorem item_same (hR : Simulation R) {s s' : State} (h : s.Alike R s') (depth : Nat) :
    SameOutcome (Beside (State.Alike R)) (item depth s) (item depth s') := by
  by_cases hk : s.input.peekWord.kind = .leftDelim
  · have ho : s.Opens s.word.kind := ⟨hk, rfl⟩
    have hsize := ho.afterWord_size_lt
    rw [item_of_opens ho, item_of_opens (hR.word_opens h ho).2]
    have hbranch (kind : BranchKind) (ho : s.Opens (.keyword kind.keyword)) :=
      (branch_same hR (hR.afterWord_alike h ho) depth kind).map (f := Item.ofNode)
        (g := Item.ofNode) (S := Beside (State.Alike R)) (by rintro _ _ ⟨hs⟩; exact ⟨hs⟩)
    -- By the first word of the action, which both sides have.
    generalize s.word.kind = kind at ho
    cases kind with
    | keyword word =>
      cases word with
      | ifKw => exact hbranch .ifBranch ho
      | rangeKw => exact hbranch .rangeBranch ho
      | withKw => exact hbranch .withBranch ho
      | blockKw =>
        refine (block_same hR (hR.afterWord_alike h ho) depth).map ?_
        rintro _ _ ⟨hs⟩
        exact ⟨hs⟩
      | endKw => exact hR.endItem_same h ho depth
      | elseKw => exact hR.elseItem_same h ho depth
      | breakKw => exact hR.loopItem_same h (.inl rfl) ho depth
      | continueKw => exact hR.loopItem_same h (.inr rfl) ho depth
      | templateKw => exact hR.callItem_same h ho depth
      | defineKw | nilKw => exact hR.pipeItem_same h ho rfl depth
    | _ => exact hR.pipeItem_same h ho rfl depth
  · rw [item, item, ← hR.word h.input]
    dsimp only
    rw [dif_neg hk, dif_neg hk]
    by_cases ht : s.input.peekWord.kind = .text
    · rw [if_pos ht, if_pos ht]
      exact .ok ⟨h.read (hR.next h.input ht (by decide))⟩
    · rw [if_neg ht, if_neg ht]
      exact .error _
termination_by 4 * s.size

/-- A branch has the same outcome on states that are alike. -/
theorem branch_same (hR : Simulation R) {s s' : State} (h : s.Alike R s') (depth : Nat)
    (kind : BranchKind) :
    SameOutcome (Beside (State.Alike R)) (branch depth kind s) (branch depth kind s') := by
  rw [branch_eq, branch_eq, ← hR.scope_eq h.input]
  refine (hR.pipeline_same (hR.loosen h.input) _ (.inl rfl)).bind ?_
  rintro ⟨pipe, input⟩ ⟨_, input'⟩ hp ⟨hinput⟩
  have hsize : input.size ≤ s.size := pipeline_size hp
  dsimp only
  rw [← hR.word hinput]
  refine (items_same hR (h.read hinput) _).bind ?_
  rintro ⟨nodes, ending, s₁⟩ ⟨_, _, s₁'⟩ hi ⟨⟨hs⟩⟩
  have hlt : s₁.size < input.size := (items_reads hi).items_progress
  refine (alternative_same hR hs depth kind ending).bind ?_
  rintro ⟨other, s₂⟩ _ - ⟨hs⟩
  exact .ok ⟨hR.withScope_alike hs _⟩
termination_by 4 * s.size + 2

/-- An alternative has the same outcome on states that are alike. -/
theorem alternative_same (hR : Simulation R) {s s' : State} (h : s.Alike R s') (depth : Nat)
    (kind : BranchKind) (ending : Ending) :
    SameOutcome (Beside (State.Alike R)) (alternative depth kind s ending)
      (alternative depth kind s' ending) := by
  cases ending with
  | endAction pos => exact .ok ⟨h⟩
  | elseAction pos =>
    -- Whether the branch goes on is asked of the very next token, without skipping spaces.
    have hkind := hR.peek_kind_iff h.input
      (show (Token.Kind.keyword kind.keyword).isLooseBefore = false from rfl)
    unfold alternative
    dsimp only
    by_cases hk : kind.chains ∧ s.input.peek.kind = .keyword kind.keyword
    · have htail := hR.tail h.input hk.2 rfl (by simp)
      have hle : s.input.tail.size ≤ s.size := Input.size_tail_le s.input
      rw [if_pos hk, if_pos ⟨hk.1, hkind.1 hk.2⟩]
      refine (branch_same hR (h.read htail) depth kind).bind ?_
      rintro ⟨nested, s₁⟩ _ - ⟨hs⟩
      exact .ok ⟨hs⟩
    · rw [if_neg hk, if_neg (fun hk' => hk ⟨hk'.1, hkind.2 hk'.2⟩), ← hR.word h.input]
      refine (items_same hR h depth).bind ?_
      rintro ⟨others, last, s₁⟩ _ - ⟨⟨hs⟩⟩
      cases last with
      | endAction pos => exact .ok ⟨hs⟩
      | elseAction pos => exact .error _
termination_by 4 * s.size + 3

/-- A block has the same outcome on states that are alike. -/
theorem block_same (hR : Simulation R) {s s' : State} (h : s.Alike R s') (depth : Nat) :
    SameOutcome (Beside (State.Alike R)) (block depth s) (block depth s') := by
  rw [block_eq, block_eq, ← hR.word h.input]
  refine (SameOutcome.refl (fun _ => rfl) _).bind ?_
  rintro name _ hn rfl
  have hnext := hR.loosen (hR.next_of_templateName h.input hn)
  refine (hR.pipeline_same hnext _ (.inl rfl)).bind ?_
  rintro ⟨pipe, input⟩ _ hp ⟨hinput⟩
  have hsize : input.size ≤ s.size := Nat.le_trans (pipeline_size hp) (Input.size_next_le _)
  refine (definitionBody_same hR (h.read hinput) .block depth).bind ?_
  rintro ⟨root, s₁⟩ ⟨_, s₁'⟩ - ⟨hs⟩
  dsimp only
  rw [← hs.defines]
  refine (SameOutcome.refl (fun _ => rfl) _).bind ?_
  rintro defines _ - rfl
  exact .ok ⟨hs.input, rfl⟩
termination_by 4 * s.size + 3

/-- The body of a definition has the same outcome on states that are alike. -/
theorem definitionBody_same (hR : Simulation R) {s s' : State} (h : s.Alike R s')
    (context : Context) (depth : Nat) :
    SameOutcome (Beside (State.Alike R)) (definitionBody context depth s)
      (definitionBody context depth s') := by
  rw [definitionBody_eq, definitionBody_eq, ← hR.word h.input, ← hR.scope_eq h.input]
  refine (items_same hR (hR.withScope_alike h _) depth).bind ?_
  rintro ⟨nodes, ending, s₁⟩ _ - ⟨⟨hs⟩⟩
  cases ending with
  | endAction pos => exact .ok ⟨hR.withScope_alike hs _⟩
  | elseAction pos => exact .error _
termination_by 4 * s.size + 2

end

/-! ## Templates -/

/-- A definition has the same outcome on states that are alike. -/
theorem definition_same (hR : Simulation R) (h : s.Alike R s') :
    SameOutcome (State.Alike R) (definition s) (definition s') := by
  unfold definition
  dsimp only
  rw [← hR.word h.input]
  cases hn : templateName .define s.input.peekWord with
  | error e => exact .error e
  | ok name =>
    have hright := hR.rightDelim_same (hR.next_of_templateName h.input hn) .define
    dsimp only
    generalize rightDelim .define s.input.next = x at hright ⊢
    generalize rightDelim .define s'.input.next = y at hright ⊢
    rcases hright with e | ⟨⟨hinput⟩⟩
    · exact .error e
    · have hbody := hR.definitionBody_same (h.read hinput) .define 0
      dsimp only
      generalize definitionBody .define 0 (s.read _) = x at hbody ⊢
      generalize definitionBody .define 0 (s'.read _) = y at hbody ⊢
      rcases hbody with e | ⟨⟨hs⟩⟩
      · exact .error e
      · dsimp only
        rw [← hs.defines]
        refine (SameOutcome.refl (fun _ => rfl) _).map ?_
        rintro defines _ rfl
        exact ⟨hs.input, rfl⟩

/-- A document has the same outcome on states that are alike. -/
theorem document_same (hR : Simulation R) {s s' : State} (h : s.Alike R s') :
    SameOutcome (Beside (State.Alike R)) (document s) (document s') := by
  have heof := hR.peek_kind_iff h.input (show Token.Kind.eof.isLooseBefore = false from rfl)
  have hleft := hR.peek_kind_iff h.input (show Token.Kind.leftDelim.isLooseBefore = false from rfl)
  rw [document_eq, document_eq]
  by_cases he : s.input.peek.kind = .eof
  · rw [if_pos he, if_pos (heof.1 he)]
    exact .ok ⟨h⟩
  · rw [if_neg he, if_neg (mt heof.2 he)]
    by_cases hd : s.input.peek.kind = .leftDelim ∧
        s.input.tail.peekWord.kind = .keyword .defineKw
    · have htail := hR.tail h.input hd.1 rfl (by decide)
      have hnext := hR.next htail hd.2 (by decide)
      have hd' : s'.input.peek.kind = .leftDelim ∧
          s'.input.tail.peekWord.kind = .keyword .defineKw :=
        ⟨hleft.1 hd.1, by rw [← hR.word htail, hd.2]⟩
      rw [if_pos hd, if_pos hd']
      refine (hR.definition_same (h.read hnext)).bind fun s₁ _ hdef hs => ?_
      have hlt := (definition_reads hdef).definition_progress hd.1
      exact document_same hR hs
    · -- The other side defines nothing here either, since this one would show it.
      have hd' : ¬(s'.input.peek.kind = .leftDelim ∧
          s'.input.tail.peekWord.kind = .keyword .defineKw) := by
        rintro ⟨hk, hw⟩
        have htail := hR.tail h.input (hleft.2 hk) rfl (by decide)
        exact hd ⟨hleft.2 hk, by rw [hR.word htail, hw]⟩
      rw [if_neg hd, if_neg hd']
      refine (hR.item_same h 0).bind ?_
      rintro ⟨i, s₁⟩ _ hi ⟨hs⟩
      cases i with
      | ending ending => exact .error _
      | node node =>
        have hlt := (item_reads hi).item_progress
        refine (document_same hR hs).bind ?_
        rintro ⟨nodes, s₂⟩ _ - ⟨hs⟩
        exact .ok ⟨hs⟩
termination_by s.size

/-- Templates whose tokens are related, and that start at one place, have the same tree. -/
theorem ofTokens_eq (hR : Simulation R) {tokens tokens' : List Token}
    (h : R false ⟨tokens, initialScope⟩ ⟨tokens', initialScope⟩)
    (hpos : (Input.mk tokens initialScope).peek.pos = (Input.mk tokens' initialScope).peek.pos) :
    Tree.ofTokens tokens = Tree.ofTokens tokens' := by
  have hstart : State.Alike R ⟨⟨tokens, initialScope⟩, []⟩ ⟨⟨tokens', initialScope⟩, []⟩ := ⟨h, rfl⟩
  have hdocument := hR.document_same hstart
  unfold Tree.ofTokens
  dsimp only
  rw [hpos]
  generalize document _ = x at hdocument ⊢
  generalize document _ = y at hdocument ⊢
  rcases hdocument with e | ⟨⟨hs⟩⟩
  · rfl
  · dsimp only [Except.map]
    rw [hs.defines]

end Simulation

end FieldAudit.Template
