import FieldAudit.Proofs.FieldRun
import FieldAudit.Proofs.Reading.Progress

/-! # Where reading stops

A reader that gives no tree has come to a place where it cannot go on.  `Input.Fails` and
`State.Fails` say which places these are: what stands before them is read by the grammar, and there
the error arises.  An error arises at a word, at the action that closes a block, or where a defined
template does not go into the table.  As the readers fail in no other way (`ofTokens_fails`), what
holds of every error is shown by induction on the way to it. -/

namespace FieldAudit.Template

/-- Whether a cause has to do with one place only.  Two definitions of one name are two places. -/
def Cause.isLocal : Cause → Bool
  | .multipleDefinition _ => false
  | _ => true

/-- Whether a cause has to do with the place of a token only, and not with what a literal holds. -/
def Cause.isPlain : Cause → Bool
  | .multipleDefinition _ | .malformedLiteral _ => false
  | _ => true

/-- Plain causes are local. -/
theorem Cause.isLocal_of_isPlain {cause : Cause} (h : cause.isPlain = true) :
    cause.isLocal = true := by
  cases cause <;> first | rfl | cases h

/-- Whether a token of a kind is a quoted literal. -/
def Token.Kind.isLiteral : Token.Kind → Bool
  | .string | .rawString | .charConstant => true
  | _ => false

/-- The errors that arise at a token. -/
inductive Token.Errs (t : Token) : Error → Prop
  | plain {cause : Cause} (hc : cause.isPlain = true) : Errs t ⟨t.pos, cause⟩
  /-- A literal that cannot be read is shown in the error. -/
  | literal {malformed : Literal.Malformed} (hk : t.kind.isLiteral = true)
      (hu : Literal.unquote t.lexeme = .error malformed) :
      Errs t ⟨t.pos, .malformedLiteral malformed⟩

namespace Token.Errs

variable {t : Token} {e : Error}

/-- A token's error stands at the token. -/
theorem pos_eq (h : t.Errs e) : e.pos = t.pos := by
  cases h <;> rfl

/-- A token's error has a local cause. -/
theorem isLocal (h : t.Errs e) : e.cause.isLocal = true := by
  cases h with
  | plain hc => exact Cause.isLocal_of_isPlain hc
  | literal => rfl

/-- A literal that cannot be unquoted is the token's own error. -/
theorem unquoteToken (hk : t.kind.isLiteral = true) (h : Template.unquoteToken t = .error e) :
    t.Errs e := by
  unfold Template.unquoteToken at h
  cases hread : Literal.unquote t.lexeme with
  | ok text => rw [hread] at h; cases h
  | error malformed => rw [hread] at h; cases h; exact .literal hk hread

end Token.Errs

/-! ## Pipes -/

/-- The ways on which an error in a pipe is come to. -/
inductive Input.Fails : Input → Error → Prop
  /-- The error arises at the next token. -/
  | here {s : Input} {e : Error} (h : s.peek.Errs e) : Fails s e
  | skipSpace {s : Input} {e : Error} (h : Fails s.skipSpace e) : Fails s e
  | tail {s : Input} {e : Error} (hk : s.peek.kind ≠ .eof) (h : Fails s.tail e) : Fails s e
  | declare {s : Input} {name : String} {e : Error} (h : Fails (s.declare name) e) : Fails s e
  | phrase {phrase : Phrase} {s s₁ : Input} {e : Error} (hr : phrase.Reads s s₁)
      (hc : phrase.closeKind ≠ .eof) (h : Fails s₁ e) : Fails s e

namespace Input.Fails

variable {s : Input} {e : Error}

/-- Within an action every failure has a local cause. -/
theorem isLocal (h : s.Fails e) : e.cause.isLocal = true := by
  induction h with
  | here h => exact h.isLocal
  | skipSpace h ih => exact ih
  | tail hk h ih => exact ih
  | declare h ih => exact ih
  | phrase hr hc h ih => exact ih

/-- The error arises at the next word. -/
theorem word {cause : Cause} (hc : cause.isPlain = true) : s.Fails ⟨s.peekWord.pos, cause⟩ :=
  .skipSpace (.here (.plain hc))

/-- A failure behind a word is come to by way of the word. -/
theorem next {kind : Token.Kind} (hk : s.peekWord.kind = kind) (hne : kind ≠ .eof)
    (h : s.next.Fails e) : s.Fails e :=
  .skipSpace (.tail (hk ▸ hne) h)

/-- Declarations are passed by their words. -/
theorem declarations {context : Context} {more : Nat} {s' : Input} {decls : List Variable}
    (hd : Template.declarations context more s = .ok (decls, s')) (h : s'.Fails e) : s.Fails e := by
  refine (declarations_eq_ok_iff.1 hd).passes (R := fun s s' => s'.Fails e → s.Fails e)
    (fun _ h => h) (fun hv hm ih h => ?_) h
  exact next hv (by decide) (next rfl (ne_of_isMark hm rfl) (.declare (ih h)))

end Input.Fails

/-- The place of every command can be come to. -/
theorem Phrase.Reads.fails_command {close : Token.Kind} {commands : List (Command Node)}
    {s s' : Input} (h : (Phrase.commands close commands).Reads s s') {command : Command Node}
    (hm : command ∈ commands) {cause : Cause} (hc : cause.isPlain = true) :
    s.Fails ⟨command.pos, cause⟩ := by
  generalize hp : Phrase.commands close commands = phrase at h
  induction h generalizing commands with
  | close => cases hp; cases hm
  | command hk hs ha hn hl hr iha ihr =>
    cases hp
    rcases List.mem_cons.1 hm with rfl | hm
    · exact .word hc
    · exact .phrase ha (by simp [closeKind]) (ihr hm rfl)
  | _ => cases hp

/-- The value that is found is one of the commands. -/
theorem firstValue?_mem {stage stage' : Nat} {commands : List (Command Node)}
    {command : Command Node} (h : firstValue? stage commands = some (stage', command)) :
    command ∈ commands := by
  induction commands generalizing stage with
  | nil => cases h
  | cons first rest ih =>
    rw [firstValue?] at h
    split at h
    · cases h; exact List.mem_cons_self
    · exact List.mem_cons_of_mem _ (ih h)

/-- Declarations fail only at a place they are read up to. -/
theorem declarations_fails {context : Context} {more : Nat} {s : Input} {e : Error}
    (h : declarations context more s = .error e) : s.Fails e := by
  fun_induction declarations context more s with
  | case1 => cases h
  | case2 => cases h; exact .word rfl
  | case3 _ _ hv _ _ _ _ hm =>
    rename_i hrest ih
    cases h
    exact .next hv (by decide) (.next hm (by decide) (.declare (ih hrest)))
  | case4 => cases h
  | case5 => cases h; exact .word rfl
  | case6 => cases h
  | case7 => cases h

/-- An atom fails at its token. -/
theorem atom?_errs {scope : List String} {t : Token} {e : Error}
    (h : atom? scope t = .error e) : t.Errs e := by
  unfold atom? at h
  split at h
  case h_1 | h_4 =>
    dsimp only at h
    split at h
    · cases h
    · cases h; exact .plain rfl
  case h_7 hk | h_9 hk | h_10 hk =>
    split at h
    next herror => cases h; exact .unquoteToken (by rw [hk]; rfl) herror
    next => cases h
  case h_8 =>
    split at h
    · cases h
    · cases h; exact .plain rfl
  all_goals cases h

/-- Trailing fields fail only at a place they are read up to. -/
theorem withFields_fails {node : Node} {s : Input} {e : Error} (h : withFields node s = .error e) :
    s.Fails e := by
  unfold withFields at h
  simp only at h
  split at h
  next => cases h
  next first rest hfields =>
    split at h
    next =>
      cases h
      obtain ⟨tokens, scope⟩ := s
      cases tokens with
      | nil => cases hfields
      | cons t tokens =>
        -- The first of the fields is the next token.
        have hfirst : t = first := by
          rw [List.takeWhile_cons] at hfields
          split at hfields
          · exact (List.cons.inj hfields).1
          · cases hfields
        subst hfirst
        exact .here (s := ⟨t :: tokens, scope⟩) (.plain rfl)
    next => cases h

-- The readers call each other on shorter inputs, and these proofs recurse as the readers do.
mutual

/-- A pipeline fails only at a place it is read up to, or at one of its commands. -/
theorem pipeline_fails {context : Context} {close : Token.Kind} {s : Input} {e : Error}
    (h : pipeline context close s = .error e) : s.Fails e := by
  rw [pipeline] at h
  split at h
  next hd => cases h; exact declarations_fails hd
  next decls s₁ hd =>
    have hs : s₁.size ≤ s.size := declarations_size hd
    split at h
    next hc => cases h; exact .declarations hd (commands_fails hc)
    next cs s₂ hc =>
      split at h
      next hp =>
        cases h
        unfold Pipe.check at hp
        split at hp
        next => cases hp; exact .word rfl
        next first rest hcs =>
          split at hp
          next stage command hv =>
            cases hp
            have hmem : command ∈ cs := by
              simp only at hcs
              rw [hcs]
              exact List.mem_cons_of_mem _ (firstValue?_mem hv)
            exact .declarations hd ((commands_reads hc).fails_command hmem rfl)
          next => cases hp
      next => cases h
termination_by 4 * s.size + 3

/-- Commands fail only at a place they are read up to. -/
theorem commands_fails {context : Context} {close : Token.Kind} {s : Input} {e : Error}
    (h : commands context close s = .error e) : s.Fails e := by
  rw [commands] at h
  split at h
  next => cases h
  next =>
    split at h
    next =>
      split at h
      next ha => cases h; exact arguments_fails ha
      next args s₁ ha =>
        split at h
        next hl =>
          split at h
          next hc =>
            cases h
            exact .phrase (arguments_reads ha) (by simp [Phrase.closeKind]) (commands_fails hc)
          next => cases h
        next => cases h; exact .word rfl
    next => cases h; exact .word rfl
termination_by 4 * s.size + 2

/-- Arguments fail only at a place they are read up to. -/
theorem arguments_fails {s : Input} {e : Error} (h : arguments s = .error e) : s.Fails e := by
  have hsize := s.size_skipSpace_le
  rw [arguments] at h
  split at h
  next ho => cases h; exact .skipSpace (operand_fails ho)
  next arg s₁ ho =>
    have pass {e : Error} (hf : s₁.Fails e) : s.Fails e :=
      .skipSpace (.phrase (operand_reads ho) (by simp [Phrase.closeKind]) hf)
    simp only at h
    split at h
    next hk =>
      split at h
      next hl =>
        split at h
        next ha => cases h; exact pass (.tail (by rw [hk]; decide) (arguments_fails ha))
        next => cases h
      next => cases h; exact pass (.here (.plain rfl))
    next => cases h
    next => cases h
    next => cases h
    next => cases h; exact pass (.here (.plain rfl))
termination_by 4 * s.size + 1

/-- An operand fails only at a place it is read up to. -/
theorem operand_fails {s : Input} {e : Error} (h : operand s = .error e) : s.Fails e := by
  rw [operand] at h
  split at h
  next hk =>
    have hsize := Input.size_next_lt (s := s) (by rw [hk]; decide)
    split at h
    next hp => cases h; exact .next hk (by decide) (pipeline_fails hp)
    next pipe s₁ hp =>
      split at h
      next hf =>
        cases h
        exact .next hk (by decide)
          (.phrase (pipeline_reads hp) (by simp [Phrase.closeKind]) (withFields_fails hf))
      next => cases h
  next hk =>
    split at h
    next ha => cases h; exact .skipSpace (.here (atom?_errs ha))
    next => cases h
    next base ha =>
      split at h
      next hf =>
        cases h
        exact .next rfl (ne_of_atom? ha rfl) (withFields_fails hf)
      next => cases h
termination_by 4 * s.size

end

/-! ## Trees -/

/-- The ways on which an error outside pipes is come to. -/
inductive State.Fails : State → Error → Prop
  /-- The error arises in the action that is being read. -/
  | input {s : State} {e : Error} (h : s.input.Fails e) : Fails s e
  | next {s : State} {e : Error} (hk : s.input.peekWord.kind ≠ .eof)
      (h : Fails (s.read s.input.next) e) : Fails s e
  | tail {s : State} {e : Error} (hk : s.input.peek.kind ≠ .eof)
      (h : Fails (s.read s.input.tail) e) : Fails s e
  | pipe {context : Context} {p : Pipe Node} {s : State} {input : Input} {e : Error}
      (hp : (Phrase.pipe context .rightDelim p).Reads s.input input) (h : Fails (s.read input) e) :
      Fails s e
  | scope {scope : List String} {s : State} {e : Error} (h : Fails (s.withScope scope) e) :
      Fails s e
  | passage {passage : Passage} {s s₁ : State} {e : Error} (hr : passage.Reads s s₁)
      (h : Fails s₁ e) : Fails s e
  /-- The error arises at the action that closes a block. -/
  | closing {depth : Nat} {nodes : List Node} {ending : Ending} {s s₁ : State} {cause : Cause}
      (hr : (Passage.items depth nodes ending).Reads s s₁) (hc : cause.isPlain = true) :
      Fails s ⟨ending.pos, cause⟩
  /-- A template that has been read does not go into the table. -/
  | define {context : Context} {depth : Nat} {name : String} {root : Block Node} {s s₁ : State}
      {input : Input} {e : Error} (hn : templateName context s.input.peekWord = .ok name)
      (hi : input.tokens <:+ s.input.tokens)
      (hb : (Passage.body depth root).Reads (s.read input) s₁)
      (hd : Template.define s.input.peekWord.pos name root s₁.defines = .error e) : Fails s e

namespace State.Fails

variable {s : State} {e : Error}

/-- The error arises at the next word. -/
theorem word {cause : Cause} (hc : cause.isPlain = true) : s.Fails ⟨s.input.peekWord.pos, cause⟩ :=
  .input (.word hc)

/-- A missing right delimiter is a failure at the word in its place. -/
theorem rightDelim {context : Context} (h : Template.rightDelim context s.input = .error e) :
    s.Fails e := by
  unfold Template.rightDelim at h
  dsimp only at h
  split at h
  · cases h
  · cases h; exact word rfl

/-- A missing template name is a failure at the word in its place. -/
theorem templateName {context : Context}
    (h : Template.templateName context s.input.peekWord = .error e) : s.Fails e := by
  unfold Template.templateName at h
  split at h
  next hk =>
    have hliteral : s.input.peekWord.kind.isLiteral = true := by
      rcases hk with hk | hk <;> rw [hk] <;> rfl
    split at h
    next herror => cases h; exact .input (.skipSpace (.here (.unquoteToken hliteral herror)))
    next => cases h
  next => cases h; exact word rfl

/-- The words of the opening of an action are passed. -/
theorem afterWord {k : Keyword} (ho : s.Opens (.keyword k)) (h : s.afterWord.Fails e) :
    s.Fails e :=
  .next (by rw [ho.1]; decide) (.next (s := s.read s.input.next)
    (by rw [show (s.read s.input.next).input.peekWord.kind = _ from ho.2]; simp) h)

/-- A failure behind the name of a template is come to by way of the name. -/
theorem name {context : Context} {name : String}
    (hn : Template.templateName context s.input.peekWord = .ok name)
    (h : (s.read s.input.next).Fails e) : s.Fails e :=
  .next (ne_of_templateName hn rfl) h

end State.Fails

/-- An `end` fails only at a place it is read up to. -/
theorem endAction_fails {s : State} {e : Error} (h : endAction s.input = .error e) : s.Fails e := by
  unfold endAction at h
  split at h
  next hr => cases h; exact .rightDelim hr
  next => cases h

/-- An `else` fails only at a place it is read up to. -/
theorem elseAction_fails {s : State} {e : Error} (h : elseAction s.input = .error e) :
    s.Fails e := by
  unfold elseAction at h
  dsimp only at h
  split at h
  · cases h
  · split at h
    next hr => cases h; exact .rightDelim hr
    next => cases h

/-- A call fails only at a place it is read up to. -/
theorem templateCall_fails {s : State} {e : Error} (h : templateCall s.input = .error e) :
    s.Fails e := by
  unfold templateCall at h
  dsimp only at h
  split at h
  next hn => cases h; exact .templateName hn
  next name hn =>
    split at h
    · cases h
    · split at h
      next hp =>
        cases h
        exact .name hn (.input (s := s.read s.input.next) (pipeline_fails hp))
      next => cases h

/-- An action that ends or goes on a loop stops at its end, or at its keyword outside loops. -/
theorem loopControl_fails {depth : Nat} {k : Keyword} {s : State} {e : Error}
    (ho : s.Opens (.keyword k))
    (h : loopControl depth k s.word.pos s.afterWord.input = .error e) : s.Fails e := by
  unfold loopControl at h
  split at h
  next hr => cases h; exact .afterWord ho (.rightDelim hr)
  next =>
    split at h
    · cases h
      exact .next (by rw [ho.1]; decide) (.word (s := s.read s.input.next) rfl)
    · cases h

mutual

/-- Items fail only at a place they are read up to. -/
theorem items_fails {depth : Nat} {s : State} {e : Error} (h : items depth s = .error e) :
    s.Fails e := by
  rw [items] at h
  split at h
  next => cases h; exact .word rfl
  next =>
    split at h
    next hi => cases h; exact item_fails hi
    next => cases h
    next node s₁ hi =>
      split at h
      next hl =>
        split at h
        next hr => cases h; exact .passage (item_reads hi) (items_fails hr)
        next => cases h
      next => cases h; exact .word rfl
termination_by 4 * s.size + 1

/-- An item fails only at a place it is read up to. -/
theorem item_fails {depth : Nat} {s : State} {e : Error} (h : item depth s = .error e) :
    s.Fails e := by
  by_cases ht : s.input.peekWord.kind = .text
  · rw [item, if_pos ht] at h
    cases h
  · by_cases hk : s.input.peekWord.kind = .leftDelim
    · have hsize := State.Opens.afterWord_size_lt ⟨hk, rfl⟩
      rw [item_of_opens ⟨hk, rfl⟩] at h
      -- By the first word of the action, in the order of `actionItem`.
      unfold actionItem at h
      split at h
      next hw => exact .afterWord ⟨hk, hw⟩ (branch_fails (eq_error_of_map_eq_error h))
      next hw => exact .afterWord ⟨hk, hw⟩ (branch_fails (eq_error_of_map_eq_error h))
      next hw => exact .afterWord ⟨hk, hw⟩ (branch_fails (eq_error_of_map_eq_error h))
      next hw => exact .afterWord ⟨hk, hw⟩ (block_fails (eq_error_of_map_eq_error h))
      next hw => exact .afterWord ⟨hk, hw⟩ (endAction_fails (eq_error_of_map_eq_error h))
      next hw => exact .afterWord ⟨hk, hw⟩ (elseAction_fails (eq_error_of_map_eq_error h))
      next hw => exact loopControl_fails ⟨hk, hw⟩ (eq_error_of_map_eq_error h)
      next hw => exact loopControl_fails ⟨hk, hw⟩ (eq_error_of_map_eq_error h)
      next hw => exact .afterWord ⟨hk, hw⟩ (templateCall_fails (eq_error_of_map_eq_error h))
      next =>
        have hp := eq_error_of_map_eq_error h
        unfold pipeAction at hp
        split at hp
        next hp' =>
          cases hp
          exact .next (by rw [hk]; decide) (.input (s := s.read s.input.next) (pipeline_fails hp'))
        next => cases hp
    · rw [item, if_neg ht, dif_neg hk] at h
      cases h
      exact .word rfl
termination_by 4 * s.size

/-- A branch fails only at a place it is read up to, or where it closes. -/
theorem branch_fails {depth : Nat} {kind : BranchKind} {s : State} {e : Error}
    (h : branch depth kind s = .error e) : s.Fails e := by
  rw [branch] at h
  split at h
  next hp => cases h; exact .input (pipeline_fails hp)
  next pipe input hp =>
    have hsize : input.size ≤ s.size := pipeline_size hp
    split at h
    next hi => cases h; exact .pipe (pipeline_reads hp) (items_fails hi)
    next => cases h
    next nodes pos s₁ hi =>
      -- The body has been read up to an `else`: what fails comes after it, or is the `else` itself.
      have pass {e : Error} (hf : s₁.Fails e) : s.Fails e :=
        .pipe (pipeline_reads hp) (.passage (items_reads hi) hf)
      have hclosing {cause : Cause} (hc : cause.isPlain = true) : s.Fails ⟨pos, cause⟩ :=
        .pipe (pipeline_reads hp) (.closing (items_reads hi) hc)
      split at h
      next hl =>
        have htail := Input.size_tail_le s₁.input
        split at h
        next hk =>
          split at h
          next hb => cases h; exact pass (.tail (by rw [hk.2]; simp) (branch_fails hb))
          next => cases h
        next =>
          split at h
          next ha => cases h; exact pass (items_fails ha)
          next => cases h
          next ha => cases h; exact pass (.closing (items_reads ha) rfl)
      next => cases h; exact hclosing rfl
termination_by 4 * s.size + 2
decreasing_by
  all_goals simp only [State.size, State.read] at *; omega

/-- A block fails only at a place it is read up to, or where its name is taken. -/
theorem block_fails {depth : Nat} {s : State} {e : Error} (h : block depth s = .error e) :
    s.Fails e := by
  rw [block] at h
  split at h
  next hn => cases h; exact .templateName hn
  next name hn =>
    split at h
    next hp => cases h; exact .name hn (.input (s := s.read s.input.next) (pipeline_fails hp))
    next pipe input hp =>
      have hsize : input.size ≤ s.input.size :=
        Nat.le_trans (pipeline_size hp) (Input.size_next_le s.input)
      split at h
      next hb =>
        cases h
        exact .name hn (.pipe (s := s.read s.input.next) (pipeline_reads hp)
          (definitionBody_fails hb))
      next root s₁ hb =>
        split at h
        next hd =>
          cases h
          exact .define hn ((pipeline_reads hp).suffix.trans s.input.next_suffix)
            (definitionBody_reads hb) hd
        next => cases h
termination_by 4 * s.size + 3
decreasing_by
  simp only [State.size, State.read] at *
  omega

/-- The body of a definition fails only at a place it is read up to, or where it closes. -/
theorem definitionBody_fails {context : Context} {depth : Nat} {s : State} {e : Error}
    (h : definitionBody context depth s = .error e) : s.Fails e := by
  rw [definitionBody] at h
  split at h
  next hi => cases h; exact .scope (items_fails hi)
  next => cases h
  next hi => cases h; exact .scope (.closing (items_reads hi) rfl)
termination_by 4 * s.size + 2
decreasing_by
  simp only [State.size_withScope]
  omega

end

/-- A definition fails only at a place it is read up to, or where its name is taken. -/
theorem definition_fails {s : State} {e : Error} (h : definition s = .error e) : s.Fails e := by
  unfold definition at h
  dsimp only at h
  split at h
  next hn => cases h; exact .templateName hn
  next name hn =>
    split at h
    next hr => cases h; exact .name hn (.rightDelim (s := s.read s.input.next) hr)
    next t input hr =>
      obtain ⟨hk, -, rfl⟩ := rightDelim_eq_ok_iff.1 hr
      have hclose : (s.read s.input.next).input.peekWord.kind ≠ .eof := by
        rw [show (s.read s.input.next).input.peekWord.kind = _ from hk]
        decide
      split at h
      next hb => cases h; exact .name hn (.next hclose (definitionBody_fails hb))
      next root s₁ hb =>
        exact .define hn ((Input.next_suffix _).trans s.input.next_suffix)
          (definitionBody_reads hb) (eq_error_of_map_eq_error h)

/-- A document fails only at a place it is read up to. -/
theorem document_fails {s : State} {e : Error} (h : document s = .error e) : s.Fails e := by
  rw [document_eq] at h
  split at h
  next => cases h
  next hk =>
    split at h
    next hw =>
      have pass {e : Error} (hf : (s.read s.input.tail.next).Fails e) : s.Fails e :=
        .tail hk (.next (s := s.read s.input.tail)
          (by rw [show (s.read s.input.tail).input.peekWord.kind = _ from hw.2]; decide) hf)
      cases hd : definition (s.read s.input.tail.next) with
      | error e' =>
        rw [hd] at h
        cases h
        exact pass (definition_fails hd)
      | ok s₁ =>
        rw [hd] at h
        have hsize := (definition_reads hd).definition_progress hw.1
        exact pass (.passage (definition_reads hd) (document_fails h))
    next =>
      cases hi : item 0 s with
      | error e' =>
        rw [hi] at h
        cases h
        exact item_fails hi
      | ok result =>
        obtain ⟨i, s₁⟩ := result
        rw [hi] at h
        cases i with
        | ending ending =>
          cases h
          -- An `end` or `else` that closes nothing is an error where it stands.
          have hread := item_reads hi
          have hword : s.input.peekWord.kind ≠ .eof := by
            cases hread with
            | endAction ho | elseAction ho | elseBranch ho => rw [ho.1]; decide
          exact .closing (.last hword hread) rfl
        | node node =>
          have hsize : s₁.size < s.size := (item_reads hi).item_progress
          cases hr : document s₁ with
          | error e' =>
            have he : e' = e := by
              have h : (document s₁).bind _ = .error e := h
              rw [hr] at h
              exact Except.error.inj h
            subst he
            exact .passage (item_reads hi) (document_fails hr)
          | ok result =>
            have h : (document s₁).bind _ = .error e := h
            rw [hr] at h
            cases h
termination_by s.size

/-- Reading fails only where it can. -/
theorem ofTokens_fails {tokens : List Token} {e : Error} (h : Tree.ofTokens tokens = .error e) :
    (State.start tokens).Fails e :=
  document_fails (eq_error_of_map_eq_error h)

end FieldAudit.Template
