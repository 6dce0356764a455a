import FieldAudit.Proofs.ErrorPosition

/-! # The rounds of the tokenizer

The tokenizer goes through a template in rounds.  A round outside actions takes the text up to the
next action, and the action with it; a round inside an action takes a token or the delimiter that
closes the action.  `textRound` and `actionRound` are these rounds, and `insideRounds` and
`textRounds` go on with them until the action or the template ends, up to a limit on their number.

Each delimiter alone may be empty, and then a round takes nothing for it.  A round outside actions
still gets ahead, by the other delimiter, by a comment or by the text; and so does a round inside an
action that does not close it (`tokenize_rounds`).  Hence the rounds come to an end before there are
more of them than characters, and what they give is what `tokenize` gives (`textRounds_eq`). -/

namespace FieldAudit.Template

open Text

/-! ## Places of a source -/

/-- A place of a source: its offset is that of a character or of the end, and the source goes on
from there with the rest. -/
def Place.On (source : List Char) (p : Place) : Prop :=
  ∃ before, source = before ++ p.rest ∧ p.pos = byteLength before

/-- A token of a source: its lexeme is a piece of the source, which begins at its offset. -/
def Token.On (source : List Char) (t : Token) : Prop :=
  ∃ before after, source = before ++ (t.lexeme ++ after) ∧ t.pos = byteLength before

/-- The places on a source are those its start reaches. -/
theorem Place.on_iff_reaches {source : List Char} {p : Place} :
    p.On source ↔ Place.Reaches ⟨0, source⟩ p := by
  simp [Place.On, Place.Reaches]

namespace Place.On

variable {source : List Char} {p q : Place}

/-- A place reached from one on the source is on the source. -/
theorem reaches (h : p.On source) (hq : p.Reaches q) : q.On source :=
  on_iff_reaches.2 ((on_iff_reaches.1 h).trans hq)

/-- The tokens that stand after a place of a source are tokens of the source. -/
theorem tokens {tokens : List Token} (h : Layout p tokens) (hp : p.On source) :
    ∀ t ∈ tokens, t.On source := by
  induction h with
  | nil => simp
  | @token t rest tokens h ih =>
    obtain ⟨before, hsource, hpos⟩ := hp
    exact List.forall_mem_cons.2 ⟨⟨before, rest, hsource, hpos⟩,
      ih (reaches ⟨before, hsource, hpos⟩ (.advance _ _ _))⟩
  | gap hq hs h ih => exact ih (hp.reaches hq)
  | @opening t rest q tokens ht hq h ih =>
    obtain ⟨before, hsource, hpos⟩ := hp
    have hstop : Place.Reaches ⟨t.pos, t.lexeme ++ rest⟩ ⟨t.stop, rest⟩ := .advance _ _ _
    exact List.forall_mem_cons.2 ⟨⟨before, rest, hsource, hpos⟩,
      ih (reaches ⟨before, hsource, hpos⟩ (hstop.trans hq))⟩

end Place.On

/-- A place with less text after it is a later one. -/
theorem Place.Reaches.pos_lt {p q : Place} (h : p.Reaches q)
    (hlt : q.rest.length < p.rest.length) : p.pos < q.pos := by
  obtain ⟨skipped, hrest, hpos⟩ := h
  have hlen := length_le_byteLength skipped
  rw [hrest, List.length_append] at hlt
  omega

/-! ## Rounds inside an action -/

/-- What a round inside an action comes to. -/
inductive Round where
  /-- The action is closed by a token. -/
  | closed (token : Token) (next : Place)
  /-- A token is read, after which a number of parentheses are open. -/
  | went (token : Token) (depth : Nat) (next : Place)

/-- A round inside an action. -/
def actionRound (right : List Char) (depth : Nat) (p : Place) : Except Error Round :=
  match closing? right p.pos p.rest with
  | some closing =>
    if depth = 0 then .ok (.closed closing.token closing.next) else .error ⟨p.pos, .unclosedParen⟩
  | none =>
    match scan right p.rest with
    | .error cause => .error ⟨p.pos, cause⟩
    | .ok s =>
      match nesting? depth s.kind with
      | none => .error ⟨p.pos, .unexpectedRightParen⟩
      | some depth => .ok (.went ⟨s.kind, s.lexeme, p.pos⟩ depth (.advance p.pos s.lexeme s.rest))

/-- The rounds up to the end of an action, if they are no more than the limit. -/
def insideRounds (right : List Char) :
    Nat → Nat → Place → Option (Except Error (List Token × Place))
  | 0, _, _ => none
  | limit + 1, depth, p =>
    match actionRound right depth p with
    | .error e => some (.error e)
    | .ok (.closed token next) => some (.ok ([token], next))
    | .ok (.went token depth next) =>
      (insideRounds right limit depth next).map fun result =>
        result.map fun (tokens, last) => (token :: tokens, last)

/-- How a round inside an action can end: it fails where it starts, closes the action, or gets
ahead. -/
inductive ActionAdvance (source : List Char) (p : Place) : Except Error Round → Prop
  | fails {cause : Cause} : ActionAdvance source p (.error ⟨p.pos, cause⟩)
  | closes {token : Token} {next : Place} (ht : token.On source) (hn : next.On source)
      (hle : p.pos ≤ next.pos) : ActionAdvance source p (.ok (.closed token next))
  | goes {token : Token} {depth : Nat} {next : Place} (ht : token.On source) (hn : next.On source)
      (hlt : p.pos < next.pos) : ActionAdvance source p (.ok (.went token depth next))

/-- A round within an action goes on to a place of the source, or ends. -/
theorem actionRound_advance {source : List Char} {p : Place} (hp : p.On source)
    (right : List Char) (depth : Nat) : ActionAdvance source p (actionRound right depth p) := by
  unfold actionRound
  cases hc : closing? right p.pos p.rest with
  | some closing =>
    have hreaches : p.Reaches closing.next := closing?_reaches hc
    have hlayout : Layout p [closing.token] :=
      closing?_layout hc (by simp [StartsPlain]) (.nil closing.next)
    dsimp only
    split
    · exact .closes (hp.tokens hlayout _ List.mem_cons_self) (hp.reaches hreaches) hreaches.pos_le
    · exact .fails
  | none =>
    dsimp only
    cases hs : scan right p.rest with
    | error cause => exact .fails
    | ok s =>
      dsimp only
      cases nesting? depth s.kind with
      | none => exact .fails
      | some depth =>
        have happ := scan_append hs
        have hreaches : p.Reaches (.advance p.pos s.lexeme s.rest) := ⟨s.lexeme, happ.symm, rfl⟩
        obtain ⟨before, hsource, hpos⟩ := hp
        refine .goes ⟨before, s.rest, by rw [happ, hsource], hpos⟩
          (Place.On.reaches ⟨before, hsource, hpos⟩ hreaches) (hreaches.pos_lt (scan_length hs))

/-- The rounds of an action come to an end, with its tokens. -/
theorem insideRounds_eq (right : List Char) {limit : Nat} (depth : Nat) {p : Place}
    (h : p.rest.length < limit) :
    insideRounds right limit depth p = some (actionTokens right depth p.pos p.rest) := by
  -- On the limit: a round that goes on has read a token, so less text is left than rounds.
  induction limit generalizing depth p with
  | zero => exact absurd h (Nat.not_lt_zero _)
  | succ limit ih =>
    rw [insideRounds, actionRound, actionTokens_eq]
    cases hc : closing? right p.pos p.rest with
    | some closing =>
      by_cases hd : depth = 0
      · simp only [if_pos hd]
      · simp only [if_neg hd]
    | none =>
      dsimp only
      cases hs : scan right p.rest with
      | error cause => rfl
      | ok s =>
        dsimp only
        cases nesting? depth s.kind with
        | none => rfl
        | some depth =>
          have hlt : s.rest.length < limit :=
            Nat.lt_of_lt_of_le (scan_length hs) (Nat.le_of_lt_succ h)
          have hnext := ih depth (p := .advance p.pos s.lexeme s.rest) hlt
          dsimp only
          rw [hnext]
          rfl

/-! ## Rounds outside actions -/

/-- A round outside actions: the text up to the next action, and the tokens of the action, if its
rounds are no more than the limit. -/
def textRound (d : Delimiters) (limit : Nat) (p : Place) :
    Option (Except Error (List Token × Place)) :=
  match opening? d.left p.pos p.rest with
  | none => some (.ok (textToken p.pos p.rest, .advance p.pos p.rest []))
  | some o =>
    match afterPrefix? commentOpen o.inside.rest with
    | some comment =>
      match afterComment d.right (o.inside.pos + 2) comment with
      | .error cause => some (.error ⟨o.delimiter.pos, cause⟩)
      | .ok next => some (.ok (o.text, next))
    | none =>
      (insideRounds d.right limit 0 o.inside).map fun result =>
        result.map fun (tokens, next) => (o.text ++ o.delimiter :: tokens, next)

/-- The rounds up to the end of a template, if there and in each action they are no more than the
limit. -/
def textRounds (d : Delimiters) : Nat → Place → Option (Except Error (List Token))
  | 0, _ => none
  | limit + 1, p =>
    if p.rest.isEmpty then some (.ok [.eof p.pos])
    else
      match textRound d (limit + 1) p with
      | none => none
      | some (.error e) => some (.error e)
      | some (.ok (tokens, next)) =>
        (textRounds d limit next).map fun result => result.map (tokens ++ ·)

/-- How a round outside actions can end: it fails at a place of the source, or gets ahead. -/
inductive TextAdvance (source : List Char) (p : Place) :
    Option (Except Error (List Token × Place)) → Prop
  | fails {e : Error} (he : Place.Holds ⟨0, source⟩ e.pos) : TextAdvance source p (some (.error e))
  | goes {tokens : List Token} {next : Place} (ht : ∀ t ∈ tokens, t.On source)
      (hn : next.On source) (hlt : p.pos < next.pos) :
      TextAdvance source p (some (.ok (tokens, next)))

/-- A piece of text at a place of the source is a token of the source, if it is not empty. -/
theorem textToken_on {source before after : List Char} {pos : Nat}
    (hp : Place.On source ⟨pos, before ++ after⟩) : ∀ t ∈ textToken pos before, t.On source := by
  intro t ht
  obtain ⟨front, hsource, hpos⟩ := hp
  cases before with
  | nil => simp [textToken] at ht
  | cons c text =>
    obtain rfl : t = ⟨.text, c :: text, pos⟩ := by simpa [textToken] using ht
    exact ⟨front, after, hsource, hpos⟩

/-- The text before an action, the delimiter that opens it and its inside stand in the source. -/
theorem opening?_on {source left : List Char} {p : Place} {o : Opening} (hp : p.On source)
    (h : opening? left p.pos p.rest = some o) :
    (∀ t ∈ o.text, t.On source) ∧ o.delimiter.On source ∧ o.inside.On source := by
  have hinside := hp.reaches (opening?_reaches h)
  obtain ⟨before, trim, hrest, htext, hdelim, -, -⟩ := opening?_eq_some h
  obtain ⟨front, hsource, hpos⟩ := hp
  refine ⟨?_, ⟨front ++ (before ++ trimmed trim), leftMark trim ++ o.inside.rest, ?_, ?_⟩, hinside⟩
  · rw [htext]
    exact textToken_on ⟨front, by rw [hsource, hrest], hpos⟩
  · rw [hsource, hrest, hdelim]
    simp only [List.append_assoc]
  · rw [hdelim, hpos]
    simp only [byteLength_append, Nat.add_assoc]

/-- After a comment less text is left, whatever the delimiters are. -/
theorem comment_shortens {left right comment : List Char} {p next : Place} {o : Opening}
    (ho : opening? left p.pos p.rest = some o)
    (hc : afterPrefix? commentOpen o.inside.rest = some comment)
    (hn : afterComment right (o.inside.pos + 2) comment = .ok next) :
    p.Reaches next ∧ next.rest.length < p.rest.length := by
  refine ⟨comment_reaches ho hc hn, ?_⟩
  have hopening := opening?_length ho
  have hmark := afterPrefix?_length hc
  have hclose := afterComment_length hn
  simp only [commentOpen, List.length_cons] at hmark
  omega

/-- After an action less text is left, as one of its delimiters takes some of it. -/
theorem action_shortens {d : Delimiters} (visible : d.Visible) {p next : Place} {o : Opening}
    {tokens : List Token} (ho : opening? d.left p.pos p.rest = some o)
    (ha : actionTokens d.right 0 o.inside.pos o.inside.rest = .ok (tokens, next)) :
    p.Reaches next ∧ next.rest.length < p.rest.length := by
  refine ⟨action_reaches ho ha, ?_⟩
  have hopening := opening?_length ho
  have haction := actionTokens_length ha
  dsimp only at haction
  rcases visible with hl | hr
  · have hpos := List.length_pos_iff.2 hl
    omega
  · have hpos := List.length_pos_iff.2 hr
    omega

/-- The inside of an action is no longer than the text it stands in. -/
theorem inside_lt {left : List Char} {p : Place} {o : Opening} {limit : Nat}
    (ho : opening? left p.pos p.rest = some o) (h : p.rest.length < limit) :
    o.inside.rest.length < limit := by
  have hlen := opening?_length ho
  omega

/-- A round of text goes on to a place of the source, or ends. -/
theorem textRound_advance {d : Delimiters} (visible : d.Visible) {source : List Char} {p : Place}
    {limit : Nat} (hp : p.On source) (hrest : p.rest ≠ []) (hlimit : p.rest.length < limit) :
    TextAdvance source p (textRound d limit p) := by
  unfold textRound
  -- A round ends at the end of the text, behind a comment or behind an action; each time it has
  -- passed something, the last two times at least the delimiters.
  cases ho : opening? d.left p.pos p.rest with
  | none =>
    have hend : p.Reaches (.advance p.pos p.rest []) := ⟨p.rest, by simp [Place.advance], rfl⟩
    have hpiece : Place.On source ⟨p.pos, p.rest ++ []⟩ := by rwa [List.append_nil]
    exact .goes (textToken_on hpiece) (hp.reaches hend)
      (hend.pos_lt (List.length_pos_iff.2 hrest))
  | some o =>
    obtain ⟨htext, hdelim, hinside⟩ := opening?_on hp ho
    dsimp only
    cases hc : afterPrefix? commentOpen o.inside.rest with
    | some comment =>
      dsimp only
      cases hn : afterComment d.right (o.inside.pos + 2) comment with
      | error cause =>
        exact .fails ((Place.on_iff_reaches.1 hp).holds (opening?_holds ho))
      | ok next =>
        obtain ⟨hreaches, hlt⟩ := comment_shortens ho hc hn
        exact .goes htext (hp.reaches hreaches) (hreaches.pos_lt hlt)
    | none =>
      dsimp only
      rw [insideRounds_eq d.right 0 (inside_lt ho hlimit)]
      cases ha : actionTokens d.right 0 o.inside.pos o.inside.rest with
      | error e =>
        exact .fails ((Place.on_iff_reaches.1 hinside).holds (actionTokens_error_inside ha))
      | ok action =>
        obtain ⟨tokens, next⟩ := action
        obtain ⟨hreaches, hlt⟩ := action_shortens visible ho ha
        have hlayout : Layout o.inside (tokens ++ []) :=
          actionTokens_layout ha (by simp [StartsPlain]) (.nil next)
        rw [List.append_nil] at hlayout
        refine .goes ?_ (hp.reaches hreaches) (hreaches.pos_lt hlt)
        exact List.forall_mem_append.2
          ⟨htext, List.forall_mem_cons.2 ⟨hdelim, hinside.tokens hlayout⟩⟩

/-- The rounds of a template come to an end, with its tokens. -/
theorem textRounds_eq {d : Delimiters} (visible : d.Visible) {limit : Nat} {p : Place}
    (h : p.rest.length < limit) :
    textRounds d limit p = some (tokensFrom d visible p.pos p.rest) := by
  induction limit generalizing p with
  | zero => exact absurd h (Nat.not_lt_zero _)
  | succ limit ih =>
    rw [textRounds, textRound, tokensFrom_eq]
    by_cases hrest : p.rest.isEmpty
    · simp only [if_pos hrest]
    · simp only [if_neg hrest]
      cases ho : opening? d.left p.pos p.rest with
      | none =>
        -- No action is left, and the next round finds the end.
        have hpos : 0 < p.rest.length := List.length_pos_iff.2 (by simpa using hrest)
        have hend := ih (p := .advance p.pos p.rest [])
          (Nat.lt_of_lt_of_le hpos (Nat.le_of_lt_succ h))
        dsimp only
        rw [hend, tokensFrom_eq]
        rfl
      | some o =>
        dsimp only
        cases hc : afterPrefix? commentOpen o.inside.rest with
        | some comment =>
          dsimp only
          cases hn : afterComment d.right (o.inside.pos + 2) comment with
          | error cause => rfl
          | ok next =>
            have hlt := (comment_shortens ho hc hn).2
            dsimp only
            rw [ih (by omega)]
            rfl
        | none =>
          dsimp only
          rw [insideRounds_eq d.right 0 (inside_lt ho h)]
          cases ha : actionTokens d.right 0 o.inside.pos o.inside.rest with
          | error e => rfl
          | ok action =>
            obtain ⟨tokens, next⟩ := action
            have hlt := (action_shortens visible ho ha).2
            simp only [Option.map_some, Except.map]
            rw [ih (by omega)]
            cases tokensFrom d visible next.pos next.rest with
            | error e => rfl
            | ok rest => simp

/-! ## The run of the tokenizer -/

/-- From every place of a source that is not its end, a round outside actions fails at a place of
the source or gets ahead; what an action holds starts at a place of the source; from every place, a
round inside an action fails there, closes the action or gets ahead.  All of them leave places and
tokens of the source.  So the rounds come to an end, at most one for each character and one more,
with the tokens of the source. -/
theorem tokenize_rounds {d : Delimiters} (visible : d.Visible) (source : List Char) :
    (∀ p : Place, p.On source → p.rest ≠ [] → ∀ limit, p.rest.length < limit →
      TextAdvance source p (textRound d limit p)) ∧
    (∀ p : Place, p.On source → ∀ o, opening? d.left p.pos p.rest = some o →
      o.inside.On source) ∧
    (∀ p : Place, p.On source → ∀ depth,
      ActionAdvance source p (actionRound d.right depth p)) ∧
    ∀ limit, source.length < limit →
      textRounds d limit ⟨0, source⟩ = some (tokenize d source) := by
  refine ⟨?_, ?_, ?_, ?_⟩
  · intro p hp hrest limit hlimit
    exact textRound_advance visible hp hrest hlimit
  · intro p hp o ho
    exact (opening?_on hp ho).2.2
  · intro p hp depth
    exact actionRound_advance hp d.right depth
  · intro limit hlimit
    rw [textRounds_eq visible hlimit, tokenize_eq, dif_pos visible]

/-- With an empty left delimiter an action opens at once, and with an empty right delimiter it
closes at once.  The rounds get ahead and come to an end all the same. -/
theorem tokenize_rounds_one_sided :
    textRounds ⟨[], ['%']⟩ 6 ⟨0, ['.', 'a', '%', 'é', '%']⟩ =
        some (tokenize ⟨[], ['%']⟩ ['.', 'a', '%', 'é', '%']) ∧
      TextAdvance ['é', '%', '.', 'a'] ⟨2, ['%', '.', 'a']⟩
        (textRound ⟨['%'], []⟩ 4 ⟨2, ['%', '.', 'a']⟩) ∧
      ActionAdvance ['é', '%', '.', 'a'] ⟨3, ['.', 'a']⟩ (actionRound [] 0 ⟨3, ['.', 'a']⟩) ∧
      (tokenize ⟨['%'], []⟩ ['é', '%', '.', 'a']).toOption.map (·.map Token.pos) =
        some [0, 2, 3, 3, 5] := by
  have hleft := tokenize_rounds (d := ⟨[], ['%']⟩) (.inr (by decide)) ['.', 'a', '%', 'é', '%']
  have hright := tokenize_rounds (d := ⟨['%'], []⟩) (.inl (by decide)) ['é', '%', '.', 'a']
  exact ⟨hleft.2.2.2 6 (by decide),
    hright.1 _ ⟨['é'], rfl, by decide⟩ (by decide) 4 (by decide),
    hright.2.2.1 _ ⟨['é', '%'], rfl, by decide⟩ 0, by decide +kernel⟩

end FieldAudit.Template
