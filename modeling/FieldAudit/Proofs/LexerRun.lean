import FieldAudit.Template.Token.Lexer

/-! # What a lexer reads

A lexer carries the number of open parentheses along with its place.  It ends an action only with
none open, so none are open wherever it is between two actions (`Lexer.Between.depth_eq`), and what
it reads depends on its place alone.  `actionTokens` and `tokensFrom` give the tokens of an action
and of a text by their places, and `tokenize_eq` says that they are those of the lexer. -/

namespace FieldAudit.Template

open Text

/-! ## Tokens by their places -/

/-- The tokens of an action after its left delimiter, with a number of parentheses open, and the
place after it. -/
def actionTokens (right : List Char) (depth pos : Nat) (text : List Char) :
    Except Error (List Token × Place) :=
  match closing? right pos text with
  | some closing =>
    if depth = 0 then .ok ([closing.token], closing.next) else .error ⟨pos, .unclosedParen⟩
  | none =>
    match _h : scan right text with
    | .error cause => .error ⟨pos, cause⟩
    | .ok s =>
      match nesting? depth s.kind with
      | none => .error ⟨pos, .unexpectedRightParen⟩
      | some depth =>
        match actionTokens right depth (pos + byteLength s.lexeme) s.rest with
        | .error e => .error e
        | .ok (tokens, next) => .ok (⟨s.kind, s.lexeme, pos⟩ :: tokens, next)
termination_by text.length
decreasing_by exact scan_length _h

/-- One token of an action after another. -/
theorem actionTokens_eq (right : List Char) (depth pos : Nat) (text : List Char) :
    actionTokens right depth pos text =
      match closing? right pos text with
      | some closing =>
        if depth = 0 then .ok ([closing.token], closing.next) else .error ⟨pos, .unclosedParen⟩
      | none =>
        match scan right text with
        | .error cause => .error ⟨pos, cause⟩
        | .ok s =>
          match nesting? depth s.kind with
          | none => .error ⟨pos, .unexpectedRightParen⟩
          | some depth =>
            (actionTokens right depth (pos + byteLength s.lexeme) s.rest).map fun result =>
              (⟨s.kind, s.lexeme, pos⟩ :: result.1, result.2) := by
  rw [actionTokens]
  cases closing? right pos text with
  | some closing => rfl
  | none =>
    dsimp only
    split
    next cause hs => rw [hs]
    next s hs =>
      rw [hs]
      dsimp only
      cases nesting? depth s.kind with
      | none => rfl
      | some depth =>
        dsimp only
        cases actionTokens right depth (pos + byteLength s.lexeme) s.rest <;> rfl

/-- An action takes at least its right delimiter off the text. -/
theorem actionTokens_length {right text : List Char} {depth pos : Nat}
    {result : List Token × Place} (h : actionTokens right depth pos text = .ok result) :
    result.2.rest.length + right.length ≤ text.length := by
  fun_induction actionTokens right depth pos text generalizing result with
  | case1 _ _ closing hc => cases h; exact closing?_length hc
  | case2 => cases h
  | case3 => cases h
  | case4 => cases h
  | case5 => cases h
  | case6 _ _ _ _ _ hs _ _ tokens next hr ih =>
    cases h
    have := ih hr
    have := scan_length hs
    simp only at *
    omega

/-- The tokens of a text that starts outside actions, the last of them the end of the text. -/
def tokensFrom (d : Delimiters) (visible : d.Visible) (pos : Nat) (text : List Char) :
    Except Error (List Token) :=
  if text.isEmpty then .ok [.eof pos]
  else
    match _ho : opening? d.left pos text with
    | none => .ok (textToken pos text ++ [.eof (pos + byteLength text)])
    | some o =>
      match _hc : afterPrefix? commentOpen o.inside.rest with
      | some comment =>
        match _hn : afterComment d.right (o.inside.pos + 2) comment with
        | .error cause => .error ⟨o.delimiter.pos, cause⟩
        | .ok next =>
          match tokensFrom d visible next.pos next.rest with
          | .error e => .error e
          | .ok tokens => .ok (o.text ++ tokens)
      | none =>
        match _ha : actionTokens d.right 0 o.inside.pos o.inside.rest with
        | .error e => .error e
        | .ok action =>
          match tokensFrom d visible action.2.pos action.2.rest with
          | .error e => .error e
          | .ok tokens => .ok (o.text ++ o.delimiter :: (action.1 ++ tokens))
termination_by text.length
decreasing_by
  · have h₁ := opening?_length _ho
    have h₂ := afterPrefix?_length _hc
    have h₃ := afterComment_length _hn
    simp only [commentOpen, List.length_cons] at h₂
    omega
  · have h₁ := opening?_length _ho
    have h₂ := actionTokens_length _ha
    rcases visible with hl | hr
    · have := List.length_pos_iff.2 hl
      omega
    · have := List.length_pos_iff.2 hr
      omega

/-- One action of a text after another. -/
theorem tokensFrom_eq (d : Delimiters) (visible : d.Visible) (pos : Nat) (text : List Char) :
    tokensFrom d visible pos text =
      if text.isEmpty then .ok [.eof pos]
      else
        match opening? d.left pos text with
        | none => .ok (textToken pos text ++ [.eof (pos + byteLength text)])
        | some o =>
          match afterPrefix? commentOpen o.inside.rest with
          | some comment =>
            match afterComment d.right (o.inside.pos + 2) comment with
            | .error cause => .error ⟨o.delimiter.pos, cause⟩
            | .ok next => (tokensFrom d visible next.pos next.rest).map (o.text ++ ·)
          | none =>
            match actionTokens d.right 0 o.inside.pos o.inside.rest with
            | .error e => .error e
            | .ok action =>
              (tokensFrom d visible action.2.pos action.2.rest).map fun tokens =>
                o.text ++ o.delimiter :: (action.1 ++ tokens) := by
  rw [tokensFrom]
  split
  next => rfl
  next =>
    split
    next ho => rw [ho]
    next o ho =>
      rw [ho]
      dsimp only
      split
      next comment hc =>
        rw [hc]
        dsimp only
        split
        next cause hn => rw [hn]
        next next hn =>
          rw [hn]
          dsimp only
          cases tokensFrom d visible next.pos next.rest <;> rfl
      next hc =>
        rw [hc]
        dsimp only
        split
        next e ha => rw [ha]
        next action ha =>
          rw [ha]
          dsimp only
          cases tokensFrom d visible action.2.pos action.2.rest <;> rfl

/-! ## The parentheses of a lexer -/

namespace Lexer

variable {d : Delimiters} {l next : Lexer}

/-- A lexer reads the tokens of an action, and has no parenthesis open behind it. -/
theorem action_eq (right : List Char) (l : Lexer) :
    l.action right =
      (actionTokens right l.depth l.place.pos l.place.rest).map fun result =>
        ⟨result.2, 0, l.tokens ++ result.1⟩ := by
  fun_induction Lexer.action right l with
  | case1 l closing hc hd =>
    rw [actionTokens_eq, hc]
    simp [hd, Except.map]
  | case2 l closing hc hd =>
    rw [actionTokens_eq, hc]
    simp [hd, Except.map]
  | case3 l hc cause hs =>
    rw [actionTokens_eq, hc, hs]
    rfl
  | case4 l hc s hs hd =>
    rw [actionTokens_eq, hc, hs]
    simp only [hd]
    rfl
  | case5 l hc s hs depth hd ih =>
    rw [actionTokens_eq, hc, hs, ih]
    simp only [hd, Place.advance]
    cases actionTokens right depth (l.place.pos + byteLength s.lexeme) s.rest with
    | error e => rfl
    | ok result => simp [Except.map]

/-- What a lexer reads between actions leaves no parenthesis open, if none was open before. -/
theorem text_depth (hdepth : l.depth = 0) (h : l.text d = .ok next) : next.depth = 0 := by
  unfold Lexer.text at h
  split at h
  next => cases h; exact hdepth
  next o ho =>
    split at h
    next comment hc =>
      split at h
      next => cases h
      next => cases h; exact hdepth
    next =>
      rw [action_eq] at h
      cases ha : actionTokens d.right l.depth o.inside.pos o.inside.rest with
      | error e =>
        rw [ha] at h
        cases h
      | ok result =>
        rw [ha] at h
        cases h
        rfl

/-- The lexers between two actions: at the start of a template, or behind what was read there. -/
inductive Between (d : Delimiters) : Lexer → Prop
  | start (source : List Char) : Between d (Lexer.start source)
  | text {l next : Lexer} (h : Between d l) (ht : l.text d = .ok next) : Between d next

/-- No parenthesis is open between two actions. -/
theorem Between.depth_eq (h : Between d l) : l.depth = 0 := by
  induction h with
  | start source => rfl
  | text h ht ih => exact text_depth ih ht

/-- A run goes from one place between actions to another, the end of the template. -/
theorem Between.run {visible : d.Visible} (h : Between d l) (hrun : l.run d visible = .ok next) :
    Between d next ∧ next.place.rest = [] := by
  fun_induction Lexer.run d visible l with
  | case1 l hrest =>
    cases hrun
    exact ⟨h, List.isEmpty_iff.1 hrest⟩
  | case2 => cases hrun
  | case3 l hrest last ht ih => exact ih (h.text ht) hrun

/-- One reading between actions takes its tokens off the front of the text. -/
theorem text_tokensFrom {visible : d.Visible} (hdepth : l.depth = 0)
    (hrest : ¬ l.place.rest.isEmpty) :
    (tokensFrom d visible l.place.pos l.place.rest).map (l.tokens.toList ++ ·) =
      (l.text d).bind fun next =>
        (tokensFrom d visible next.place.pos next.place.rest).map (next.tokens.toList ++ ·) := by
  rw [tokensFrom_eq, if_neg hrest, Lexer.text]
  cases ho : opening? d.left l.place.pos l.place.rest with
  | none =>
    dsimp only [Except.bind]
    rw [tokensFrom_eq]
    simp [Place.advance, Except.map]
  | some o =>
    dsimp only
    cases hc : afterPrefix? commentOpen o.inside.rest with
    | some comment =>
      dsimp only
      cases afterComment d.right (o.inside.pos + 2) comment with
      | error cause => rfl
      | ok next =>
        dsimp only [Except.bind]
        cases tokensFrom d visible next.pos next.rest <;> simp [Except.map]
    | none =>
      dsimp only
      rw [action_eq, hdepth]
      cases actionTokens d.right 0 o.inside.pos o.inside.rest with
      | error e => rfl
      | ok result =>
        dsimp only [Except.bind, Except.map]
        cases tokensFrom d visible result.2.pos result.2.rest <;> simp

/-- The tokens of a lexer between actions are those it has, and those of the text from its place
on. -/
theorem run_finish {visible : d.Visible} (hdepth : l.depth = 0) :
    (l.run d visible).map finish =
      (tokensFrom d visible l.place.pos l.place.rest).map (l.tokens.toList ++ ·) := by
  fun_induction Lexer.run d visible l with
  | case1 l hrest =>
    rw [tokensFrom_eq, if_pos hrest]
    simp [Except.map, finish]
  | case2 l hrest e ht =>
    rw [text_tokensFrom hdepth hrest, ht]
    rfl
  | case3 l hrest next ht ih =>
    rw [ih (text_depth hdepth ht), text_tokensFrom hdepth hrest, ht]
    rfl

end Lexer

/-- The tokens of a template are those of its text from the start on. -/
theorem tokenize_eq (d : Delimiters) (source : List Char) :
    tokenize d source =
      if visible : d.Visible then tokensFrom d visible 0 source
      else .error ⟨0, .invisibleDelimiters⟩ := by
  unfold tokenize
  split
  next visible =>
    rw [Lexer.run_finish rfl]
    show (tokensFrom d visible 0 source).map ([] ++ ·) = _
    cases tokensFrom d visible 0 source <;> rfl
  next => rfl

/-- The delimiters of a template by default can be seen. -/
theorem visible_default : ({} : Delimiters).Visible := by
  decide

/-- The tokens of a template with the delimiters by default. -/
theorem tokenize_default (source : List Char) :
    tokenize {} source = tokensFrom {} visible_default 0 source := by
  rw [tokenize_eq, dif_pos visible_default]

/-- A lexer that gets through a template has no parenthesis open at its end. -/
theorem Lexer.run_depth {d : Delimiters} (visible : d.Visible) {source : List Char}
    {tokens : List Token} (h : tokenize d source = .ok tokens) :
    ((Lexer.start source).run d visible).map Lexer.depth = .ok 0 := by
  rw [tokenize, dif_pos visible] at h
  cases hrun : (Lexer.start source).run d visible with
  | error e =>
    rw [hrun] at h
    cases h
  | ok l =>
    have hdepth : l.depth = 0 := ((Between.start source).run hrun).1.depth_eq
    simp [Except.map, hdepth]

end FieldAudit.Template
