import FieldAudit.Proofs.ActionBoundary
import FieldAudit.Proofs.LineColumn
import FieldAudit.Proofs.Reading.Failure
import FieldAudit.Template.FieldReference

/-! # Where errors point

An error of a template points into its source.  An error in the tokens is at a place that the
tokenizer has come to (`tokenize_error_inside`).  An error in the tree is at a token: the readers
never go past the token that ends a template (`Passage.Reads.endsOnce`), so that there is a token to
point to wherever they fail (`ofTokens_error_at`).  The line and the column that are shown are then
those of a place in the source (`parse_error_located`). -/

namespace FieldAudit.Template

open Text

/-! ## Errors in the tokens -/

/-- An offset is that of a character of the text after a place, or of its end. -/
def Place.Holds (p : Place) (offset : Nat) : Prop :=
  ∃ rest, p.Reaches ⟨offset, rest⟩

/-- A place holds its own position. -/
theorem Place.Holds.here (p : Place) : p.Holds p.pos :=
  ⟨p.rest, [], rfl, rfl⟩

/-- A position that is held further on is held from the start. -/
theorem Place.Reaches.holds {p q : Place} (h : p.Reaches q) {offset : Nat} (hq : q.Holds offset) :
    p.Holds offset := by
  obtain ⟨rest, hrest⟩ := hq
  exact ⟨rest, h.trans hrest⟩

/-- An error within an action stands inside the text the action was read from. -/
theorem actionTokens_error_inside {right text : List Char} {depth pos : Nat} {e : Error}
    (h : actionTokens right depth pos text = .error e) : Place.Holds ⟨pos, text⟩ e.pos := by
  fun_induction actionTokens right depth pos text with
  | case1 => cases h
  | case2 => cases h; exact .here _
  | case3 => cases h; exact .here _
  | case4 => cases h; exact .here _
  | case5 depth pos text hc s hscan depth' hd e' hr ih =>
    cases h
    have happ := scan_append hscan
    exact Place.Reaches.holds ⟨s.lexeme, happ.symm, rfl⟩ (ih hr)
  | case6 => cases h

/-- An opening delimiter stands in the text. -/
theorem opening?_holds {left text : List Char} {pos : Nat} {o : Opening}
    (h : opening? left pos text = some o) : Place.Holds ⟨pos, text⟩ o.delimiter.pos := by
  obtain ⟨before, trim, rfl, -, hdelim, -, -⟩ := opening?_eq_some h
  refine ⟨_, before ++ trimmed trim, (List.append_assoc ..).symm, ?_⟩
  rw [hdelim, byteLength_append, Nat.add_assoc]

/-- An error of the tokenizer stands inside the text that was left to read. -/
theorem tokensFrom_error_inside {d : Delimiters} {visible : d.Visible} {pos : Nat}
    {text : List Char} {e : Error} (h : tokensFrom d visible pos text = .error e) :
    Place.Holds ⟨pos, text⟩ e.pos := by
  -- Cases 3 and 6 fail in the first action, a comment without an end or an action; cases 4 and 7
  -- fail after it.
  fun_induction tokensFrom d visible pos text with
  | case1 => cases h
  | case2 => cases h
  | case3 pos text he o ho comment hc cause hn => cases h; exact opening?_holds ho
  | case4 pos text he o ho comment hc next hn e' hr ih =>
    cases h
    exact (comment_reaches ho hc hn).holds (ih hr)
  | case5 => cases h
  | case6 pos text he o ho hc e' ha =>
    cases h
    exact (opening?_reaches ho).holds (actionTokens_error_inside ha)
  | case7 pos text he o ho hc action ha e' hr ih =>
    cases h
    exact (action_reaches ho ha).holds (ih hr)
  | case8 => cases h

/-- An error of the tokenizer stands inside the source. -/
theorem tokenize_error_inside {d : Delimiters} {source : List Char} {e : Error}
    (h : tokenize d source = .error e) : Place.Holds ⟨0, source⟩ e.pos := by
  rw [tokenize_eq] at h
  split at h
  next => exact tokensFrom_error_inside h
  next => cases h; exact .here ⟨0, source⟩

/-- Every token stands in the text. -/
theorem Layout.holds {p : Place} {tokens : List Token} (h : Layout p tokens) :
    ∀ t ∈ tokens, p.Holds t.pos := by
  induction h with
  | nil => simp
  | @token t rest tokens h ih =>
    have hstop : Place.Reaches ⟨t.pos, t.lexeme ++ rest⟩ ⟨t.stop, rest⟩ := .advance _ _ _
    exact List.forall_mem_cons.2 ⟨.here _, fun u hu => hstop.holds (ih u hu)⟩
  | gap hp hs h ih => exact fun t ht => hp.holds (ih t ht)
  | @opening t rest q tokens ht hp h ih =>
    have hstop : Place.Reaches ⟨t.pos, t.lexeme ++ rest⟩ ⟨t.stop, rest⟩ := .advance _ _ _
    exact List.forall_mem_cons.2 ⟨.here _, fun u hu => (hstop.trans hp).holds (ih u hu)⟩

/-! ## The end of the tokens is kept -/

/-- Tokens before the end are followed by the end. -/
theorem EndsOnce.of_cons {t : Token} {tokens : List Token} (h : EndsOnce (t :: tokens))
    (hk : t.kind ≠ .eof) : EndsOnce tokens := by
  obtain ⟨front, pos, hf, hproper⟩ := h
  cases front with
  | nil =>
    cases hf
    exact absurd rfl hk
  | cons u front =>
    obtain ⟨rfl, rfl⟩ := List.cons.inj hf
    exact ⟨front, pos, rfl, fun t ht => hproper t (List.mem_cons_of_mem _ ht)⟩

/-- Passing over tokens of a kind other than the end keeps the end. -/
theorem EndsOnce.dropWhile {tokens : List Token} (h : EndsOnce tokens) {kind : Token.Kind}
    (hk : kind ≠ .eof) : EndsOnce (tokens.dropWhile (·.kind = kind)) := by
  induction tokens with
  | nil => exact h
  | cons t rest ih =>
    by_cases ht : t.kind = kind
    · rw [List.dropWhile_cons_of_pos (by simpa using ht)]
      exact ih (h.of_cons (by rw [ht]; exact hk))
    · rw [List.dropWhile_cons_of_neg (by simpa using ht)]
      exact h

namespace Input

variable {s : Input}

/-- Where the tokens end with the end, the next token is one of them. -/
theorem peek_mem (h : EndsOnce s.tokens) : s.peek ∈ s.tokens := by
  obtain ⟨tokens, scope⟩ := s
  cases tokens with
  | nil =>
    obtain ⟨front, pos, hf, -⟩ := h
    simp at hf
  | cons t rest => exact List.mem_cons_self

/-- Skipping spaces keeps the end of the tokens. -/
theorem endsOnce_skipSpace (h : EndsOnce s.tokens) : EndsOnce s.skipSpace.tokens :=
  h.dropWhile (by decide)

/-- Dropping a token keeps the end, unless it was the end. -/
theorem endsOnce_tail (h : EndsOnce s.tokens) (hk : s.peek.kind ≠ .eof) :
    EndsOnce s.tail.tokens := by
  obtain ⟨tokens, scope⟩ := s
  cases tokens with
  | nil => exact absurd rfl hk
  | cons t rest => exact EndsOnce.of_cons h hk

/-- Reading a word keeps the end, unless it was the end. -/
theorem endsOnce_next (h : EndsOnce s.tokens) {kind : Token.Kind} (hk : s.peekWord.kind = kind)
    (hne : kind ≠ .eof) : EndsOnce s.next.tokens :=
  endsOnce_tail (endsOnce_skipSpace h) (hk ▸ hne)

end Input

/-- Declarations are read without passing the end. -/
theorem declarations_endsOnce {context : Context} {more : Nat} {s s' : Input}
    {decls : List Variable} (h : declarations context more s = .ok (decls, s'))
    (he : EndsOnce s.tokens) : EndsOnce s'.tokens := by
  refine (declarations_eq_ok_iff.1 h).passes (R := fun s s' => EndsOnce s.tokens →
    EndsOnce s'.tokens) (fun _ he => he) (fun hv hm ih he => ih ?_) he
  exact Input.endsOnce_next (Input.endsOnce_next he hv (by decide)) rfl (ne_of_isMark hm rfl)

/-- Trailing fields are read without passing the end. -/
theorem withFields_endsOnce {node node' : Node} {s s' : Input}
    (h : withFields node s = .ok (node', s')) (he : EndsOnce s.tokens) : EndsOnce s'.tokens := by
  rcases withFields_cases h with ⟨-, -, rfl⟩ | ⟨first, rest, -, -, -, -, rfl⟩
  · exact he
  · exact he.dropWhile (by decide)

/-- A phrase is read without the end of the tokens. -/
theorem Phrase.Reads.endsOnce {phrase : Phrase} {s s' : Input} (h : phrase.Reads s s')
    (hc : phrase.closeKind ≠ .eof) (he : EndsOnce s.tokens) : EndsOnce s'.tokens := by
  induction h with
  | pipe hd hcommands hp ih => exact ih hc (declarations_endsOnce hd he)
  | close => exact Input.endsOnce_next he rfl hc
  | command hk hs ha hn hl hr iha ihr => exact ihr hc (iha (by simp [closeKind]) he)
  | spaced ho hk hl ha iho iha =>
    have hoperand := iho (by simp [closeKind]) (Input.endsOnce_skipSpace he)
    exact iha (by simp [closeKind]) (Input.endsOnce_tail hoperand (by rw [hk]; decide))
  | closed ho hk ih => exact ih (by simp [closeKind]) (Input.endsOnce_skipSpace he)
  | piped ho hk ih =>
    have hoperand := ih (by simp [closeKind]) (Input.endsOnce_skipSpace he)
    exact Input.endsOnce_tail hoperand (by rw [hk]; decide)
  | parenthesis hk hp hf ih =>
    exact withFields_endsOnce hf (ih (by simp [closeKind]) (Input.endsOnce_next he hk (by decide)))
  | atom ha hf => exact withFields_endsOnce hf (Input.endsOnce_next he rfl (ne_of_atom? ha rfl))
  | absent hk ha => exact Input.endsOnce_skipSpace he

namespace State

variable {s : State}

/-- Opening an action is done without passing the end. -/
theorem endsOnce_afterWord (he : EndsOnce s.input.tokens) {k : Keyword}
    (ho : s.Opens (.keyword k)) : EndsOnce s.afterWord.input.tokens :=
  Input.endsOnce_next (Input.endsOnce_next he ho.1 (by decide)) ho.2 (by simp)

/-- The name of a template is read without passing the end. -/
theorem endsOnce_name (he : EndsOnce s.input.tokens) {context : Context} {name : String}
    (hn : templateName context s.input.peekWord = .ok name) : EndsOnce s.input.next.tokens :=
  Input.endsOnce_next he rfl (ne_of_templateName hn rfl)

end State

/-- A pipeline is read without passing the end. -/
theorem Phrase.Reads.pipe_endsOnce {context : Context} {p : Pipe Node} {s s' : Input}
    (h : (Phrase.pipe context .rightDelim p).Reads s s') (he : EndsOnce s.tokens) :
    EndsOnce s'.tokens :=
  h.endsOnce (by simp [closeKind]) he

/-- A passage is read without the end of the tokens. -/
theorem Passage.Reads.endsOnce {passage : Passage} {s s' : State} (h : passage.Reads s s')
    (he : EndsOnce s.input.tokens) : EndsOnce s'.input.tokens := by
  -- Each token that is passed over is known by its kind, and none of these kinds is `eof`.
  induction h with
  | last hk hi ih => exact ih he
  | more hk hi hl hr ihi ihr => exact ihr (ihi he)
  | text hk => exact Input.endsOnce_next he hk (by decide)
  | branch ho hb ih => exact ih (State.endsOnce_afterWord he ho)
  | block ho hb ih => exact ih (State.endsOnce_afterWord he ho)
  | endAction ho hr | elseAction ho hr =>
    exact Input.endsOnce_next (State.endsOnce_afterWord he ho) hr (by decide)
  | elseBranch ho hb => exact Input.endsOnce_skipSpace (State.endsOnce_afterWord he ho)
  | breakAction ho hr hd | continueAction ho hr hd =>
    exact Input.endsOnce_next (State.endsOnce_afterWord he ho) hr (by decide)
  | bareCall ho hn hr =>
    have hname := State.endsOnce_name (State.endsOnce_afterWord he ho) hn
    exact Input.endsOnce_next hname hr (by decide)
  | call ho hn hr hp =>
    exact hp.pipe_endsOnce (State.endsOnce_name (State.endsOnce_afterWord he ho) hn)
  | action ho hw hp => exact hp.pipe_endsOnce (Input.endsOnce_next he ho.1 (by decide))
  | single hp hi ih => exact ih (hp.pipe_endsOnce he)
  | chained hp hi hl hk hb ihi ihb =>
    exact ihb (Input.endsOnce_tail (ihi (hp.pipe_endsOnce he)) (by rw [hk.2]; simp))
  | double hp hi hl hk ha ihi iha => exact iha (ihi (hp.pipe_endsOnce he))
  | blockCall hn hp hb hd ih => exact ih (hp.pipe_endsOnce (State.endsOnce_name he hn))
  | body hi ih => exact ih he
  | definition hn hr hb hd ih =>
    exact ih (Input.endsOnce_next (State.endsOnce_name he hn) hr (by decide))
  | finished hk => exact he
  | @defined nodes s s₁ s₂ hk hw hd hl hr ihd ihr =>
    have htail : EndsOnce s.input.tail.tokens := Input.endsOnce_tail he (by rw [hk]; decide)
    exact ihr (ihd (Input.endsOnce_next htail hw (by decide)))
  | node hk hn hi hl hr ihi ihr => exact ihr (ihi he)

/-! ## Errors in the tree -/

/-- An offset is that of a token. -/
def HasTokenAt (tokens : List Token) (pos : Nat) : Prop :=
  ∃ t ∈ tokens, t.pos = pos

/-- A token of the rest is a token of the whole. -/
theorem HasTokenAt.of_suffix {left right : List Token} {pos : Nat} (hs : left <:+ right)
    (h : HasTokenAt left pos) : HasTokenAt right pos := by
  obtain ⟨t, ht, hpos⟩ := h
  exact ⟨t, hs.subset ht, hpos⟩

/-- An error in a pipe is at a token. -/
theorem Input.Fails.error_at {s : Input} {e : Error} (h : s.Fails e) (he : EndsOnce s.tokens) :
    HasTokenAt s.tokens e.pos := by
  induction h with
  | @here s e h => exact ⟨s.peek, peek_mem he, h.pos_eq.symm⟩
  | @skipSpace s e h ih => exact .of_suffix s.skipSpace_suffix (ih (endsOnce_skipSpace he))
  | @tail s e hk h ih => exact .of_suffix s.tail_suffix (ih (endsOnce_tail he hk))
  | declare h ih => exact ih he
  | phrase hr hc h ih => exact .of_suffix hr.suffix (ih (hr.endsOnce hc he))

/-- The action that closes a block stands among the tokens that are read. -/
theorem Passage.Reads.ending_at {depth : Nat} {nodes : List Node} {ending : Ending} {s s' : State}
    (h : (Passage.items depth nodes ending).Reads s s') : HasTokenAt s.input.tokens ending.pos := by
  have closing {s : State} {kind : Token.Kind} (hk : s.afterWord.input.peekWord.kind = kind)
      (hne : kind ≠ .eof) : HasTokenAt s.input.tokens s.afterWord.input.peekWord.pos :=
    .of_suffix (State.afterWord_suffix s) ⟨_, Input.peekWord_mem (hk ▸ hne), rfl⟩
  generalize hp : Passage.items depth nodes ending = passage at h
  -- Only the two rules for the items of a block apply.
  induction h generalizing nodes with
  | last hk hi ih =>
    cases hp
    cases hi with
    | endAction ho hr => exact closing hr (by decide)
    | elseAction ho hr => exact closing hr (by decide)
    | elseBranch ho hb =>
      rcases hb with hb | hb
      · exact closing hb (by decide)
      · exact closing hb (by decide)
  | more hk hi hl hr ihi ihr =>
    cases hp
    exact .of_suffix hi.suffix (ihr rfl)
  | _ => cases hp

/-- An error outside pipes is at a token. -/
theorem State.Fails.error_at {s : State} {e : Error} (h : s.Fails e)
    (he : EndsOnce s.input.tokens) : HasTokenAt s.input.tokens e.pos := by
  induction h with
  | input h => exact h.error_at he
  | @next s e hk h ih =>
    exact .of_suffix s.input.next_suffix (ih (Input.endsOnce_next he rfl hk))
  | @tail s e hk h ih => exact .of_suffix s.input.tail_suffix (ih (Input.endsOnce_tail he hk))
  | pipe hp h ih => exact .of_suffix hp.suffix (ih (hp.pipe_endsOnce he))
  | scope h ih => exact ih he
  | passage hr h ih => exact .of_suffix hr.suffix (ih (hr.endsOnce he))
  | closing hr hc => exact hr.ending_at
  | define hn hi hb hd =>
    rw [define_eq_error hd]
    exact ⟨_, Input.peekWord_mem (ne_of_templateName hn rfl), rfl⟩

/-- A tree that cannot be read fails at a token. -/
theorem ofTokens_error_at {tokens : List Token} {e : Error} (ht : EndsOnce tokens)
    (h : Tree.ofTokens tokens = .error e) : HasTokenAt tokens e.pos :=
  (ofTokens_fails h).error_at ht

/-! ## Errors in the source -/

/-- An error of a template is at a place of its source, and at a token if the source has tokens. -/
theorem parse_error_inside {d : Delimiters} {source : List Char} {e : Error}
    (h : parse d source = .error e) :
    Place.Holds ⟨0, source⟩ e.pos ∧
      ∀ tokens, tokenize d source = .ok tokens → HasTokenAt tokens e.pos := by
  unfold parse at h
  split at h
  next e' hlex =>
    cases h
    refine ⟨tokenize_error_inside hlex, fun tokens ht => ?_⟩
    rw [hlex] at ht
    cases ht
  next tokens hlex =>
    have hat := ofTokens_error_at (tokenize_endsOnce hlex) h
    constructor
    · obtain ⟨t, ht, hpos⟩ := hat
      rw [← hpos]
      exact (tokenize_layout hlex).holds t ht
    · intro others hothers
      cases hlex.symm.trans hothers
      exact hat

/-- The failure of a parse is reported with the file and the place of its error. -/
theorem analyze_of_parse_error {d : Delimiters} {source : List Char} {e : Error}
    (h : parse d source = .error e) (path : String) :
    analyze d path source = .error ⟨path, (locationOf e.pos source).line,
      (locationOf e.pos source).column, e⟩ := by
  rw [analyze, h]

/-- A template that cannot be read has its error in the source: the position is that of a character
or of the end, and of a token if the source has tokens.  The failure that is shown names a line of
the source, and the start of this line and the column make up the position. -/
theorem parse_error_located {d : Delimiters} {source : List Char} {e : Error}
    (h : parse d source = .error e) :
    (∃ before after, source = before ++ after ∧ e.pos = byteLength before) ∧
      e.pos ≤ byteLength source ∧
      (∀ tokens, tokenize d source = .ok tokens → ∃ t ∈ tokens, t.pos = e.pos) ∧
      ∀ path, ∃ failure, analyze d path source = .error failure ∧
        failure.path = path ∧ failure.error = e ∧
        1 ≤ failure.line ∧ failure.line ≤ (lineLengths source).length ∧
        lineStart (lineLengths source) failure.line + failure.column = e.pos := by
  obtain ⟨⟨after, before, hsource, hpos⟩, htokens⟩ := parse_error_inside h
  have hpos : e.pos = byteLength before := by simpa using hpos
  have hsource : source = before ++ after := hsource
  have hle : e.pos ≤ byteLength source := by
    rw [hsource, hpos, byteLength_append]
    exact Nat.le_add_right _ _
  refine ⟨⟨before, after, hsource, hpos⟩, hle, htokens, fun path => ?_⟩
  obtain ⟨hsum, hfirst, hlast⟩ := (locationOf_found hle).start_add_column
  exact ⟨_, analyze_of_parse_error h path, rfl, rfl, hfirst, hlast, hsum⟩

/-- A value is piped into a number on the third line. -/
def numberInPipe : List Char :=
  "é\n\x7b\x7bif .A\x7d\x7d\n\x7b\x7b.B | 1\x7d\x7d\x7b\x7bend\x7d\x7d".toList

/-- A number piped into on the third line is reported at its own place. -/
theorem parse_error_located_third_line :
    parse {} numberInPipe = .error ⟨20, .notExecutable 2⟩ ∧ lineLengths numberInPipe = [2, 9, 17] ∧
      (∃ tokens, tokenize {} numberInPipe = .ok tokens ∧ ∃ t ∈ tokens, t.pos = 20) ∧
      ∃ failure, analyze {} "page" numberInPipe = .error failure ∧
        1 ≤ failure.line ∧ failure.line ≤ (lineLengths numberInPipe).length ∧
        lineStart (lineLengths numberInPipe) failure.line + failure.column = 20 := by
  have hmap : (parse {} numberInPipe).map (fun _ => ()) = .error ⟨20, .notExecutable 2⟩ := by
    decide +kernel
  have h : parse {} numberInPipe = .error ⟨20, .notExecutable 2⟩ := by
    cases hparse : parse {} numberInPipe with
    | error e => rw [hparse] at hmap; cases hmap; rfl
    | ok tree => rw [hparse] at hmap; cases hmap
  obtain ⟨-, -, htokens, hfailure⟩ := parse_error_located h
  obtain ⟨failure, hanalyze, -, -, hplace⟩ := hfailure "page"
  have hlex : (tokenize {} numberInPipe).toOption.isSome = true := by decide +kernel
  obtain ⟨tokens, hlex⟩ : ∃ tokens, tokenize {} numberInPipe = .ok tokens := by
    cases hlexed : tokenize {} numberInPipe with
    | error e => rw [hlexed] at hlex; cases hlex
    | ok tokens => exact ⟨tokens, rfl⟩
  exact ⟨h, by decide +kernel, ⟨tokens, hlex, htokens tokens hlex⟩, failure, hanalyze, hplace⟩

end FieldAudit.Template
