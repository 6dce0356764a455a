import FieldAudit.Proofs.LexerRun

/-! # The rules of the tokenizer

`ActionReads` and `TextReads` are the rules that `actionTokens` and `tokensFrom` follow: each says
what comes first in the text, and from where the rest is read.  The two succeed exactly as the rules
say (`actionTokens_eq_ok_iff`, `tokensFrom_eq_ok_iff`), so what holds of all tokens of a template is
shown by induction on the rules.  A quoted literal holds a `Body`, whatever its escapes. -/

namespace FieldAudit.Literal

/-- The body of a literal as a scanner sees it, where a backslash takes one character with it. -/
inductive Body (quote : Char) : List Char → Prop
  | nil : Body quote []
  | plain {c : Char} {rest : List Char} (hn : c ≠ '\n') (hb : c ≠ '\\') (hq : c ≠ quote)
      (h : Body quote rest) : Body quote (c :: rest)
  | skip {c : Char} {rest : List Char} (hn : c ≠ '\n') (h : Body quote rest) :
      Body quote ('\\' :: c :: rest)

/-- The body of a quoted text stays on one line. -/
theorem Body.not_mem_newline {quote : Char} {body : List Char} (h : Body quote body) :
    '\n' ∉ body := by
  induction h with
  | nil => exact List.not_mem_nil
  | plain hn _ _ _ ih => simp [hn.symm, ih]
  | skip hn _ ih => simp [hn.symm, ih]

end FieldAudit.Literal

namespace FieldAudit.Template

open Text Literal

/-! ## Quoted literals -/

/-- A scanner lets bodies of literals pass. -/
theorem spanQuoted_body {quote : Char} {text : List Char} {parts : List Char × List Char}
    (h : spanQuoted quote text = some parts) :
    ∃ body, parts.1 = body ++ [quote] ∧ Body quote body := by
  fun_induction spanQuoted quote text generalizing parts with
  | case1 => cases h
  | case2 => cases h
  | case3 => cases h
  | case4 c rest hn ih =>
    obtain ⟨inner, hinner, rfl⟩ := Option.map_eq_some_iff.1 h
    obtain ⟨body, hbody, hb⟩ := ih hinner
    exact ⟨'\\' :: c :: body, by rw [hbody]; rfl, .skip hn hb⟩
  | case5 => cases h; exact ⟨[], rfl, .nil⟩
  | case6 => cases h
  | case7 c rest hlast hescape hq hn ih =>
    obtain ⟨inner, hinner, rfl⟩ := Option.map_eq_some_iff.1 h
    obtain ⟨body, hbody, hb⟩ := ih hinner
    -- A backslash would have been read as the start of an escape.
    have hbackslash : c ≠ '\\' := by
      intro hc
      cases rest with
      | nil => exact hlast hc rfl
      | cons next tail => exact hescape next tail hc rfl
    exact ⟨c :: body, by rw [hbody]; rfl, .plain hn hbackslash hq hb⟩

/-- A plain character is spanned by itself, unless it ends the text or the line. -/
theorem spanQuoted_cons {quote c : Char} (hc : c ≠ '\\') (rest : List Char) :
    spanQuoted quote (c :: rest) =
      if c = quote then some ([c], rest)
      else if c = '\n' then none
      else (spanQuoted quote rest).map fun parts => (c :: parts.1, parts.2) := by
  rw [spanQuoted]
  · intro he
    exact absurd he hc
  · intro _ _ he
    exact absurd he hc

/-- The bodies of literals are all that a scanner lets pass. -/
theorem spanQuoted_of_body {quote : Char} (hq : quote ≠ '\\') {body : List Char}
    (hb : Body quote body) (rest : List Char) :
    spanQuoted quote (body ++ quote :: rest) = some (body ++ [quote], rest) := by
  induction hb with
  | nil => rw [List.nil_append, spanQuoted_cons hq, if_pos rfl]; rfl
  | plain hn hb hc h ih =>
    rw [List.cons_append, spanQuoted_cons hb, if_neg hc, if_neg hn, ih]
    rfl
  | skip hn h ih =>
    rw [List.cons_append, List.cons_append, spanQuoted, if_neg hn, ih]
    rfl

/-! ## Actions -/

/-- The rules by which the tokens of an action are read up to its right delimiter, with some
parentheses open before. -/
inductive ActionReads (right : List Char) : Nat → Nat → List Char → List Token → Place → Prop
  /-- The right delimiter, where no parenthesis is open. -/
  | close {pos : Nat} {text : List Char} {closing : Closing}
      (hc : closing? right pos text = some closing) :
      ActionReads right 0 pos text [closing.token] closing.next
  /-- A token inside the action. -/
  | token {depth depth' pos : Nat} {text : List Char} {s : Scan} {tokens : List Token}
      {next : Place} (hc : closing? right pos text = none) (hs : scan right text = .ok s)
      (hd : nesting? depth s.kind = some depth')
      (h : ActionReads right depth' (pos + byteLength s.lexeme) s.rest tokens next) :
      ActionReads right depth pos text (⟨s.kind, s.lexeme, pos⟩ :: tokens) next

/-- An action is read exactly as the rules say. -/
theorem actionTokens_eq_ok_iff {right text : List Char} {depth pos : Nat} {action : List Token}
    {next : Place} :
    actionTokens right depth pos text = .ok (action, next) ↔
      ActionReads right depth pos text action next := by
  constructor
  · intro h
    fun_induction actionTokens right depth pos text generalizing action next with
    | case1 pos text closing hc => cases h; exact .close hc
    | case2 => cases h
    | case3 => cases h
    | case4 => cases h
    | case5 => cases h
    | case6 depth pos text hc s hs depth' hd inner next hr ih =>
      cases h
      exact .token hc hs hd (ih hr)
  · intro h
    induction h with
    | close hc => rw [actionTokens_eq, hc]; rfl
    | token hc hs hd h ih =>
      rw [actionTokens_eq, hc, hs]
      dsimp only
      rw [hd]
      dsimp only
      rw [ih]
      rfl

/-! ## Templates -/

/-- The tokens of a text whose first action is a comment. -/
theorem tokensFrom_comment {d : Delimiters} {visible : d.Visible} {pos : Nat}
    {text comment : List Char} {o : Opening} {next : Place} (hne : ¬ text.isEmpty)
    (ho : opening? d.left pos text = some o)
    (hc : afterPrefix? commentOpen o.inside.rest = some comment)
    (hn : afterComment d.right (o.inside.pos + 2) comment = .ok next) :
    tokensFrom d visible pos text =
      (tokensFrom d visible next.pos next.rest).map (o.text ++ ·) := by
  rw [tokensFrom_eq, if_neg hne, ho]
  dsimp only
  rw [hc]
  dsimp only
  rw [hn]

/-- The tokens of a text whose first action is no comment. -/
theorem tokensFrom_action {d : Delimiters} {visible : d.Visible} {pos : Nat} {text : List Char}
    {o : Opening} {action : List Token × Place} (hne : ¬ text.isEmpty)
    (ho : opening? d.left pos text = some o)
    (hc : afterPrefix? commentOpen o.inside.rest = none)
    (ha : actionTokens d.right 0 o.inside.pos o.inside.rest = .ok action) :
    tokensFrom d visible pos text =
      (tokensFrom d visible action.2.pos action.2.rest).map fun tokens =>
        o.text ++ o.delimiter :: (action.1 ++ tokens) := by
  rw [tokensFrom_eq, if_neg hne, ho]
  dsimp only
  rw [hc]
  dsimp only
  rw [ha]

/-- The rules by which the tokens of a text are read that starts outside actions. -/
inductive TextReads (d : Delimiters) : Nat → List Char → List Token → Prop
  /-- The end of the text. -/
  | finished {pos : Nat} : TextReads d pos [] [.eof pos]
  /-- A text without an action. -/
  | text {pos : Nat} {text : List Char} (hne : text ≠ [])
      (ho : opening? d.left pos text = none) :
      TextReads d pos text (textToken pos text ++ [.eof (pos + byteLength text)])
  /-- A comment leaves no token. -/
  | comment {pos : Nat} {text comment : List Char} {o : Opening} {next : Place}
      {tokens : List Token} (hne : text ≠ []) (ho : opening? d.left pos text = some o)
      (hc : afterPrefix? commentOpen o.inside.rest = some comment)
      (hn : afterComment d.right (o.inside.pos + 2) comment = .ok next)
      (h : TextReads d next.pos next.rest tokens) : TextReads d pos text (o.text ++ tokens)
  /-- The text before an action, its tokens, and the tokens after it. -/
  | action {pos : Nat} {text : List Char} {o : Opening} {action tokens : List Token} {next : Place}
      (hne : text ≠ []) (ho : opening? d.left pos text = some o)
      (hc : afterPrefix? commentOpen o.inside.rest = none)
      (ha : actionTokens d.right 0 o.inside.pos o.inside.rest = .ok (action, next))
      (h : TextReads d next.pos next.rest tokens) :
      TextReads d pos text (o.text ++ o.delimiter :: (action ++ tokens))

/-- The tokens of a text are read exactly as the rules say. -/
theorem tokensFrom_eq_ok_iff {d : Delimiters} {visible : d.Visible} {pos : Nat} {text : List Char}
    {tokens : List Token} :
    tokensFrom d visible pos text = .ok tokens ↔ TextReads d pos text tokens := by
  have nonempty {text : List Char} (hne : ¬ text.isEmpty = true) : text ≠ [] := by simpa using hne
  constructor
  · intro h
    fun_induction tokensFrom d visible pos text generalizing tokens with
    | case1 pos text he =>
      cases h
      rw [List.isEmpty_iff.1 he]
      exact .finished
    | case2 pos text he ho => cases h; exact .text (nonempty he) ho
    | case3 => cases h
    | case4 => cases h
    | case5 pos text he o ho comment hc next hn rest hr ih =>
      cases h
      exact .comment (nonempty he) ho hc hn (ih hr)
    | case6 => cases h
    | case7 => cases h
    | case8 pos text he o ho hc action ha rest hr ih =>
      cases h
      exact .action (nonempty he) ho hc ha (ih hr)
  · intro h
    induction h with
    | finished => rw [tokensFrom_eq]; rfl
    | text hne ho => rw [tokensFrom_eq, if_neg (by simpa using hne), ho]
    | comment hne ho hc hn h ih =>
      rw [tokensFrom_comment (by simpa using hne) ho hc hn, ih]
      rfl
    | action hne ho hc ha h ih =>
      rw [tokensFrom_action (by simpa using hne) ho hc ha, ih]
      rfl

/-- The tokens of a template are read by the rules from its start. -/
theorem tokenize_reads {d : Delimiters} {source : List Char} {tokens : List Token}
    (h : tokenize d source = .ok tokens) : TextReads d 0 source tokens := by
  rw [tokenize_eq] at h
  split at h
  next => exact tokensFrom_eq_ok_iff.1 h
  next => cases h

end FieldAudit.Template
