import FieldAudit.Proofs.TokenGrammar
import Mathlib.Data.List.DropRight

/-! # Where tokens stand

`Layout` says how a list of tokens stands in a text: each token stands where its offset says, in
order, and text that belongs to no token can be passed over only beside tokens that are no fields.
The tokens of every template are laid out in it (`tokenize_layout`); so a run of field tokens is one
unbroken piece of the template (`Layout.run`), and every lexeme is the slice at its offset
(`Layout.slice_eq`).  The tokens end with the end of the text, and nowhere before
(`tokenize_endsOnce`). -/

namespace FieldAudit.Template

open Text

/-! ## Places -/

/-- A place is followed by another one in the same text. -/
def Place.Reaches (p q : Place) : Prop :=
  ∃ skipped, p.rest = skipped ++ q.rest ∧ q.pos = p.pos + byteLength skipped

namespace Place.Reaches

/-- Reaching is transitive. -/
theorem trans {p q r : Place} (h : p.Reaches q) (h' : q.Reaches r) : p.Reaches r := by
  obtain ⟨first, hrest, hpos⟩ := h
  obtain ⟨second, hrest', hpos'⟩ := h'
  refine ⟨first ++ second, ?_, ?_⟩
  · rw [hrest, hrest', List.append_assoc]
  · rw [hpos', hpos, byteLength_append, Nat.add_assoc]

/-- Advancing over a piece reaches the place behind it. -/
theorem advance (pos : Nat) (piece rest : List Char) :
    Place.Reaches ⟨pos, piece ++ rest⟩ (.advance pos piece rest) :=
  ⟨piece, rfl, rfl⟩

/-- Positions only grow. -/
theorem pos_le {p q : Place} (h : p.Reaches q) : p.pos ≤ q.pos := by
  obtain ⟨skipped, -, hpos⟩ := h
  omega

end Place.Reaches

/-! ## Layouts -/

/-- No field stands at the front of the tokens. -/
def StartsPlain (tokens : List Token) : Prop :=
  ∀ t ∈ tokens.head?, t.kind ≠ .field

/-- The tokens stand in the text that follows a place, in order. -/
inductive Layout : Place → List Token → Prop
  | nil (p : Place) : Layout p []
  /-- A token stands at a place, and the others from its end on. -/
  | token {t : Token} {rest : List Char} {tokens : List Token} (h : Layout ⟨t.stop, rest⟩ tokens) :
      Layout ⟨t.pos, t.lexeme ++ rest⟩ (t :: tokens)
  /-- Text before a token that is no field can be passed over. -/
  | gap {p q : Place} {tokens : List Token} (hp : p.Reaches q) (hs : StartsPlain tokens)
      (h : Layout q tokens) : Layout p tokens
  /-- Text after a left delimiter can be passed over. -/
  | opening {t : Token} {rest : List Char} {q : Place} {tokens : List Token}
      (ht : t.kind = .leftDelim) (hp : Place.Reaches ⟨t.stop, rest⟩ q) (h : Layout q tokens) :
      Layout ⟨t.pos, t.lexeme ++ rest⟩ (t :: tokens)

namespace Layout

/-- The tokens after the first stand in the text after its place. -/
theorem tail {p : Place} {t : Token} {tokens : List Token} (h : Layout p (t :: tokens)) :
    ∃ q, p.Reaches q ∧ Layout q tokens := by
  generalize hts : t :: tokens = all at h
  induction h with
  | nil => cases hts
  | token h => cases hts; exact ⟨_, .advance _ _ _, h⟩
  | gap hp hs h ih =>
    obtain ⟨r, hr, hl⟩ := ih hts
    exact ⟨r, hp.trans hr, hl⟩
  | opening ht hp h => cases hts; exact ⟨_, (Place.Reaches.advance _ _ _).trans hp, h⟩

/-- A field at the front stands at the very place, and what follows it stands at its end. -/
theorem field {p : Place} {t : Token} {tokens : List Token} (h : Layout p (t :: tokens))
    (ht : t.kind = .field) :
    ∃ rest, p = ⟨t.pos, t.lexeme ++ rest⟩ ∧ Layout ⟨t.stop, rest⟩ tokens := by
  generalize hts : t :: tokens = all at h
  induction h with
  | nil => cases hts
  | token h => cases hts; exact ⟨_, rfl, h⟩
  | gap hp hs h ih => subst hts; exact absurd ht (hs t rfl)
  | opening hd hp h =>
    cases hts
    rw [ht] at hd
    cases hd

/-- Fields at the front stand in one piece at the very place. -/
theorem run {p : Place} {fields tokens : List Token} (h : Layout p (fields ++ tokens))
    (hf : ∀ t ∈ fields, t.kind = .field) :
    ∃ rest, p.rest = fields.flatMap Token.lexeme ++ rest ∧
      Layout (.advance p.pos (fields.flatMap Token.lexeme) rest) tokens := by
  induction fields generalizing p with
  | nil => exact ⟨p.rest, rfl, h⟩
  | cons t fields ih =>
    obtain ⟨rest, rfl, hl⟩ := h.field (hf t List.mem_cons_self)
    obtain ⟨rest', hrest, hl'⟩ := ih hl fun u hu => hf u (List.mem_cons_of_mem _ hu)
    refine ⟨rest', ?_, ?_⟩
    · rw [List.flatMap_cons, List.append_assoc]
      exact congrArg _ hrest
    · rw [List.flatMap_cons, Place.advance, byteLength_append, ← Nat.add_assoc]
      exact hl'

/-- A token after a text of as many bytes as its offset says ends with its lexeme. -/
theorem stop_eq {t : Token} {before : List Char} (h : t.pos = byteLength before) :
    t.stop = byteLength (before ++ t.lexeme) := by
  rw [byteLength_append, ← h, Token.stop]

/-- A token is cut out of the source at its position. -/
theorem slice_lexeme {t : Token} {before : List Char} (h : t.pos = byteLength before)
    (rest : List Char) : slice t.pos t.stop (before ++ (t.lexeme ++ rest)) = t.lexeme := by
  rw [Token.stop, h, slice_append]

/-- The lexeme of a token is the slice of the text at its offset. -/
theorem slice_eq {p : Place} {tokens : List Token} (h : Layout p tokens) {before : List Char}
    (hp : p.pos = byteLength before) :
    ∀ t ∈ tokens, slice t.pos t.stop (before ++ p.rest) = t.lexeme := by
  -- What has been passed of the text moves into the text before.
  induction h generalizing before with
  | nil => simp
  | @token t rest tokens h ih =>
    intro u hu
    rcases List.mem_cons.1 hu with rfl | hu
    · exact slice_lexeme hp rest
    · rw [← List.append_assoc]
      exact ih (stop_eq hp) u hu
  | @gap p q tokens hq hs h ih =>
    obtain ⟨skipped, hrest, hpos⟩ := hq
    rw [hrest, ← List.append_assoc]
    exact ih (by rw [hpos, hp, byteLength_append])
  | @opening t rest q tokens ht hq h ih =>
    obtain ⟨skipped, hrest, hpos⟩ := hq
    intro u hu
    rcases List.mem_cons.1 hu with rfl | hu
    · exact slice_lexeme hp rest
    · rw [show rest = skipped ++ q.rest from hrest, ← List.append_assoc, ← List.append_assoc]
      exact ih (by rw [hpos, byteLength_append, ← stop_eq hp]) u hu

/-- Tokens stand in order, each from its place on. -/
theorem ordered {p : Place} {tokens : List Token} (h : Layout p tokens) :
    (∀ t ∈ tokens, p.pos ≤ t.pos) ∧ tokens.Pairwise fun t u => t.stop ≤ u.pos := by
  induction h with
  | nil => simp
  | @token t rest tokens h ih =>
    refine ⟨?_, List.pairwise_cons.2 ⟨ih.1, ih.2⟩⟩
    intro u hu
    rcases List.mem_cons.1 hu with rfl | hu
    · exact Nat.le_refl _
    · exact Nat.le_trans (Nat.le_add_right ..) (ih.1 u hu)
  | gap hq hs h ih => exact ⟨fun t ht => Nat.le_trans hq.pos_le (ih.1 t ht), ih.2⟩
  | @opening t rest q tokens ht hq h ih =>
    have hstop : ∀ u ∈ tokens, t.stop ≤ u.pos := fun u hu => Nat.le_trans hq.pos_le (ih.1 u hu)
    refine ⟨?_, List.pairwise_cons.2 ⟨hstop, ih.2⟩⟩
    intro u hu
    rcases List.mem_cons.1 hu with rfl | hu
    · exact Nat.le_refl _
    · exact Nat.le_trans (Nat.le_add_right ..) (hstop u hu)

end Layout

/-! ## Closing and opening delimiters -/

/-- A trim marker beside a delimiter: the space that stands next to its minus, and the spaces of the
text on the other side of the delimiter, which it takes away. -/
structure Trim where
  mark : Char
  spaces : List Char
  isSpace_mark : isSpace mark = true
  isSpace_spaces : ∀ c ∈ spaces, isSpace c = true

/-- The spaces that the marker of a delimiter takes away. -/
def trimmed : Option Trim → List Char
  | none => []
  | some trim => trim.spaces

/-- The marker after a left delimiter. -/
def leftMark : Option Trim → List Char
  | none => []
  | some trim => ['-', trim.mark]

/-- The marker before a right delimiter. -/
def rightMark : Option Trim → List Char
  | none => []
  | some trim => [trim.mark, '-']

/-- No space stands at the front of a text. -/
def BareFront (text : List Char) : Prop :=
  ∀ c ∈ text.head?, isSpace c = false

/-- No space stands at the end of a text. -/
def BareEnd (text : List Char) : Prop :=
  ∀ c ∈ text.getLast?, isSpace c = false

/-- Text without its leading spaces begins bare. -/
theorem bareFront_dropWhile (text : List Char) : BareFront (text.dropWhile isSpace) := by
  intro c hc
  have h := List.head?_dropWhile_not isSpace text
  rw [Option.mem_def.1 hc] at h
  exact h

/-- Text without its trailing spaces ends bare. -/
theorem bareEnd_trimEnd (text : List Char) : BareEnd (trimEnd isSpace text) := by
  intro c hc
  rw [trimEnd, List.getLast?_reverse] at hc
  exact bareFront_dropWhile text.reverse c hc

/-- Spaces take one byte. -/
theorem utf8Size_of_isSpace {c : Char} (h : isSpace c = true) : c.utf8Size = 1 := by
  simp only [isSpace, Bool.or_eq_true, decide_eq_true_eq] at h
  rcases h with ((rfl | rfl) | rfl) | rfl <;> decide

/-- The trimmed right delimiter has a space and a dash in front. -/
theorem afterTrimmedRight?_eq_some {right text rest : List Char}
    (h : afterTrimmedRight? right text = some rest) :
    ∃ c, isSpace c = true ∧ text = c :: '-' :: (right ++ rest) := by
  unfold afterTrimmedRight? at h
  split at h
  next c tail =>
    split at h
    next hc => exact ⟨c, hc, by rw [afterPrefix?_eq_some h]⟩
    next => cases h
  next => cases h

/-- A closing delimiter stands after its marker, and what the marker takes away comes after it. -/
theorem closing?_eq_some {right text : List Char} {pos : Nat} {c : Closing}
    (h : closing? right pos text = some c) :
    ∃ trim, text = rightMark trim ++ (right ++ (trimmed trim ++ c.next.rest)) ∧
      c.token = ⟨.rightDelim, right, pos + byteLength (rightMark trim)⟩ ∧
      c.next.pos = c.token.stop + byteLength (trimmed trim) ∧
      (trim.isSome → BareFront c.next.rest) := by
  unfold closing? at h
  split at h
  next rest hr =>
    obtain ⟨space, hspace, rfl⟩ := afterTrimmedRight?_eq_some hr
    cases h
    refine ⟨some ⟨space, rest.takeWhile isSpace, hspace, fun _ => List.mem_takeWhile_imp⟩,
      ?_, ?_, rfl, fun _ => bareFront_dropWhile rest⟩
    · exact congrArg (space :: '-' :: right ++ ·) List.takeWhile_append_dropWhile.symm
    · simp only [rightMark, byteLength_cons, byteLength_nil, utf8Size_of_isSpace hspace]
      rfl
  next =>
    obtain ⟨rest, hr, rfl⟩ := Option.map_eq_some_iff.1 h
    have htext : text = right ++ rest := afterPrefix?_eq_some hr
    exact ⟨none, htext, rfl, rfl, by simp⟩

/-- A closing delimiter leads on to the place behind it. -/
theorem closing?_reaches {right text : List Char} {pos : Nat} {c : Closing}
    (h : closing? right pos text = some c) : Place.Reaches ⟨pos, text⟩ c.next := by
  obtain ⟨trim, rfl, htoken, hpos, -⟩ := closing?_eq_some h
  refine ⟨rightMark trim ++ (right ++ trimmed trim), by simp, ?_⟩
  simp only [hpos, htoken, Token.stop, byteLength_append]
  omega

/-- A closing delimiter is laid out in front of the tokens that follow. -/
theorem closing?_layout {right text : List Char} {pos : Nat} {c : Closing}
    (h : closing? right pos text = some c) {tokens : List Token} (hs : StartsPlain tokens)
    (hl : Layout c.next tokens) : Layout ⟨pos, text⟩ (c.token :: tokens) := by
  obtain ⟨trim, rfl, htoken, hpos, -⟩ := closing?_eq_some h
  have hafter : Layout ⟨c.token.stop, trimmed trim ++ c.next.rest⟩ tokens :=
    .gap ⟨trimmed trim, rfl, hpos⟩ hs hl
  rw [htoken] at hafter ⊢
  refine .gap ⟨rightMark trim, rfl, rfl⟩ ?_ (.token hafter)
  rintro t ⟨⟩
  simp

/-- The trimming marker of a left delimiter is a dash and a space. -/
theorem afterLeftTrim?_eq_some {text rest : List Char} (h : afterLeftTrim? text = some rest) :
    ∃ c, isSpace c = true ∧ text = '-' :: c :: rest := by
  unfold afterLeftTrim? at h
  split at h
  next c tail =>
    split at h
    next hc => cases h; exact ⟨c, hc, rfl⟩
    next => cases h
  next => cases h

/-- An opening delimiter stands after the text before it and what its marker takes away of that
text, and the inside of the action begins after the marker. -/
theorem opening?_eq_some {left text : List Char} {pos : Nat} {o : Opening}
    (h : opening? left pos text = some o) :
    ∃ before trim, text = before ++ (trimmed trim ++ (left ++ (leftMark trim ++ o.inside.rest))) ∧
      o.text = textToken pos before ∧
      o.delimiter = ⟨.leftDelim, left, pos + byteLength before + byteLength (trimmed trim)⟩ ∧
      o.inside.pos = o.delimiter.stop + byteLength (leftMark trim) ∧
      (trim.isSome → BareEnd before) := by
  obtain ⟨⟨before, after⟩, hsplit, rfl⟩ := Option.map_eq_some_iff.1 h
  rw [splitFirst?_eq_some hsplit]
  dsimp only
  split
  next inside hinside =>
    obtain ⟨space, hspace, rfl⟩ := afterLeftTrim?_eq_some hinside
    -- With a marker, what is trimmed off the text before stands between the text and the delimiter.
    have htrim : trimEnd isSpace before ++ before.rtakeWhile isSpace = before :=
      List.rdropWhile_append_rtakeWhile
    refine ⟨trimEnd isSpace before,
      some ⟨space, before.rtakeWhile isSpace, hspace, fun _ => List.mem_rtakeWhile_imp⟩,
      ?_, rfl, ?_, ?_, fun _ => bareEnd_trimEnd before⟩
    · simp only [trimmed, leftMark]
      rw [← List.append_assoc (trimEnd isSpace before), htrim]
      rfl
    · rw [trimmed, Nat.add_assoc, ← byteLength_append, htrim]
    · simp only [leftMark, byteLength_cons, byteLength_nil, utf8Size_of_isSpace hspace]
      rfl
  next => exact ⟨before, none, rfl, rfl, rfl, rfl, by simp⟩

/-- An opening leads on to the place inside the action. -/
theorem opening?_reaches {left text : List Char} {pos : Nat} {o : Opening}
    (h : opening? left pos text = some o) : Place.Reaches ⟨pos, text⟩ o.inside := by
  obtain ⟨before, trim, rfl, -, hdelim, hinside, -⟩ := opening?_eq_some h
  refine ⟨before ++ (trimmed trim ++ (left ++ leftMark trim)), by simp, ?_⟩
  simp only [hinside, hdelim, Token.stop, byteLength_append]
  omega

/-- The token of a stretch of text, if any, is laid out in front of the tokens behind it. -/
theorem textToken_layout {pos : Nat} {before after : List Char} {tokens : List Token}
    (h : Layout (.advance pos before after) tokens) :
    Layout ⟨pos, before ++ after⟩ (textToken pos before ++ tokens) := by
  cases before with
  | nil => exact h
  | cons c rest => exact Layout.token (t := ⟨.text, c :: rest, pos⟩) h

/-- A stretch of text begins plainly, or leaves the beginning to what follows. -/
theorem textToken_startsPlain (pos : Nat) (text : List Char) {tokens : List Token}
    (h : StartsPlain tokens) : StartsPlain (textToken pos text ++ tokens) := by
  cases text with
  | nil => exact h
  | cons c rest => rintro t ⟨⟩; simp

/-! ## Tokens of templates -/

/-- The tokens of an action stand before those that follow the action. -/
theorem actionTokens_layout {right text : List Char} {depth pos : Nat} {action : List Token}
    {next : Place} (h : actionTokens right depth pos text = .ok (action, next))
    {tokens : List Token} (hs : StartsPlain tokens) (hl : Layout next tokens) :
    Layout ⟨pos, text⟩ (action ++ tokens) := by
  rw [actionTokens_eq_ok_iff] at h
  induction h with
  | close hc => exact closing?_layout hc hs hl
  | @token depth depth' pos text s inner next hc hscan hd h ih =>
    rw [← scan_append hscan]
    exact Layout.token (t := ⟨s.kind, s.lexeme, pos⟩) (ih hl)

/-- A comment leads on to the place behind it. -/
theorem afterComment_reaches {right text : List Char} {pos : Nat} {next : Place}
    (h : afterComment right pos text = .ok next) : Place.Reaches ⟨pos, text⟩ next := by
  unfold afterComment at h
  split at h
  next => cases h
  next body rest hb =>
    split at h
    next c hc =>
      cases h
      refine Place.Reaches.trans ?_ (closing?_reaches hc)
      refine ⟨body ++ commentClose, ?_, ?_⟩
      · rw [splitFirst?_eq_some hb, List.append_assoc]
      · rw [byteLength_append, Nat.add_assoc]
        rfl
    next => cases h

/-- The text goes on after a comment. -/
theorem comment_reaches {left right text comment : List Char} {pos : Nat} {o : Opening}
    {next : Place} (ho : opening? left pos text = some o)
    (hc : afterPrefix? commentOpen o.inside.rest = some comment)
    (hn : afterComment right (o.inside.pos + 2) comment = .ok next) :
    Place.Reaches ⟨pos, text⟩ next := by
  have hcomment : o.inside.Reaches ⟨o.inside.pos + 2, comment⟩ :=
    ⟨commentOpen, afterPrefix?_eq_some hc, rfl⟩
  exact (opening?_reaches ho).trans (hcomment.trans (afterComment_reaches hn))

/-- The tokens of a text are laid out on it and begin plainly. -/
theorem TextReads.layout {d : Delimiters} {pos : Nat} {text : List Char} {tokens : List Token}
    (h : TextReads d pos text tokens) : Layout ⟨pos, text⟩ tokens ∧ StartsPlain tokens := by
  have eof_plain (pos : Nat) : StartsPlain [.eof pos] := by rintro t ⟨⟩; simp [Token.eof]
  induction h with
  | @finished pos => exact ⟨Layout.token (t := .eof pos) (.nil _), eof_plain pos⟩
  | @text pos text =>
    have hend : Layout (.advance pos text []) [.eof (pos + byteLength text)] :=
      Layout.token (t := .eof (pos + byteLength text)) (.nil _)
    have hl := textToken_layout hend
    rw [List.append_nil] at hl
    exact ⟨hl, textToken_startsPlain _ _ (eof_plain _)⟩
  | @comment pos text comment o next rest hne ho hc hn h ih =>
    obtain ⟨hl, hs⟩ := ih
    obtain ⟨before, trim, rfl, htext, hdelim, hinside, -⟩ := opening?_eq_some ho
    rw [htext]
    -- The whole action is passed over: its delimiter, the comment and the delimiter after it.
    have hopen : Place.Reaches (.advance pos before
        (trimmed trim ++ (d.left ++ (leftMark trim ++ o.inside.rest)))) o.inside := by
      refine ⟨trimmed trim ++ (d.left ++ leftMark trim), by simp [Place.advance], ?_⟩
      simp only [hinside, hdelim, Place.advance, Token.stop, byteLength_append]
      omega
    have hcomment : o.inside.Reaches ⟨o.inside.pos + 2, comment⟩ :=
      ⟨commentOpen, afterPrefix?_eq_some hc, rfl⟩
    have hskip := hopen.trans (hcomment.trans (afterComment_reaches hn))
    exact ⟨textToken_layout (.gap hskip hs hl), textToken_startsPlain _ _ hs⟩
  | @action pos text o action rest next hne ho hc ha h ih =>
    obtain ⟨hl, hs⟩ := ih
    obtain ⟨before, trim, rfl, htext, hdelim, hinside, -⟩ := opening?_eq_some ho
    have hafter : Place.Reaches ⟨o.delimiter.stop, leftMark trim ++ o.inside.rest⟩ o.inside :=
      ⟨leftMark trim, rfl, hinside⟩
    have hopen (others : List Token) : StartsPlain (o.delimiter :: others) := by
      rintro t ⟨⟩
      simp [hdelim]
    rw [hdelim] at hafter hopen
    rw [htext, hdelim]
    have hl' := Layout.opening rfl hafter (actionTokens_layout ha hs hl)
    exact ⟨textToken_layout (.gap ⟨trimmed trim, rfl, rfl⟩ (hopen _) hl'),
      textToken_startsPlain _ _ (hopen _)⟩

/-- The tokens of a template stand in it. -/
theorem tokenize_layout {d : Delimiters} {source : List Char} {tokens : List Token}
    (h : tokenize d source = .ok tokens) : Layout ⟨0, source⟩ tokens :=
  (tokenize_reads h).layout.1

/-! ## What holds of every token -/

/-- What holds of the right delimiter and of every token that is scanned holds of all tokens of an
action. -/
theorem actionTokens_forall {P : Token → Prop} {right text : List Char} {depth pos : Nat}
    {action : List Token} {next : Place} (hright : ∀ pos, P ⟨.rightDelim, right, pos⟩)
    (hscan : ∀ text s pos, scan right text = .ok s → P ⟨s.kind, s.lexeme, pos⟩)
    (h : actionTokens right depth pos text = .ok (action, next)) : ∀ t ∈ action, P t := by
  rw [actionTokens_eq_ok_iff] at h
  induction h with
  | close hc =>
    obtain ⟨trim, -, htoken, -⟩ := closing?_eq_some hc
    rw [List.forall_mem_singleton, htoken]
    exact hright _
  | token hc hs hd h ih => exact List.forall_mem_cons.2 ⟨hscan _ _ _ hs, ih⟩

/-- What holds of every text token holds of those of a stretch of text. -/
theorem textToken_forall {P : Token → Prop}
    (htext : ∀ pos text, text ≠ [] → P ⟨.text, text, pos⟩) (pos : Nat) (text : List Char) :
    ∀ t ∈ textToken pos text, P t := by
  cases text with
  | nil => exact List.forall_mem_nil _
  | cons c rest => exact List.forall_mem_singleton.2 (htext pos _ (List.cons_ne_nil c rest))

/-- What holds of texts, of the delimiters, of the end and of every token that is scanned holds of
all tokens of a template. -/
theorem tokenize_forall {P : Token → Prop} {d : Delimiters} {source : List Char}
    {tokens : List Token} (htext : ∀ pos text, text ≠ [] → P ⟨.text, text, pos⟩)
    (hleft : ∀ pos, P ⟨.leftDelim, d.left, pos⟩) (hright : ∀ pos, P ⟨.rightDelim, d.right, pos⟩)
    (heof : ∀ pos, P (.eof pos))
    (hscan : ∀ text s pos, scan d.right text = .ok s → P ⟨s.kind, s.lexeme, pos⟩)
    (h : tokenize d source = .ok tokens) : ∀ t ∈ tokens, P t := by
  have before {pos : Nat} {text : List Char} {o : Opening}
      (ho : opening? d.left pos text = some o) : (∀ t ∈ o.text, P t) ∧ P o.delimiter := by
    obtain ⟨before, trim, -, hotext, hdelim, -⟩ := opening?_eq_some ho
    rw [hotext, hdelim]
    exact ⟨textToken_forall htext _ _, hleft _⟩
  replace h := tokenize_reads h
  generalize 0 = pos at h
  induction h with
  | finished => exact List.forall_mem_singleton.2 (heof _)
  | text =>
    exact List.forall_mem_append.2
      ⟨textToken_forall htext _ _, List.forall_mem_singleton.2 (heof _)⟩
  | comment hne ho hc hn h ih => exact List.forall_mem_append.2 ⟨(before ho).1, ih⟩
  | action hne ho hc ha h ih =>
    have haction := actionTokens_forall hright hscan ha
    obtain ⟨hotext, hdelim⟩ := before ho
    exact List.forall_mem_append.2 ⟨hotext, List.forall_mem_cons.2
      ⟨hdelim, List.forall_mem_append.2 ⟨haction, ih⟩⟩⟩

/-! ## The end of the tokens -/

/-- A token starts with a point if it is a field. -/
def Token.Dotted (t : Token) : Prop :=
  t.kind = .field → ∃ name, t.lexeme = '.' :: name

/-- A token before the end of the text. -/
def Token.Proper (t : Token) : Prop :=
  t.kind ≠ .eof ∧ t.Dotted

/-- Tokens other than the end and the fields are proper. -/
theorem Token.Proper.of_ne {t : Token} (he : t.kind ≠ .eof) (hf : t.kind ≠ .field) : t.Proper :=
  ⟨he, fun h => absurd h hf⟩

/-- Whether tokens of a kind stand inside actions only. -/
def Token.Kind.isInner : Token.Kind → Bool
  | .text | .leftDelim | .rightDelim | .eof => false
  | _ => true

/-- A word stands in an action and is no field. -/
theorem wordKind_isInner (word : List Char) :
    (wordKind word).isInner = true ∧ wordKind word ≠ .field := by
  unfold wordKind
  dsimp only
  split
  next => exact ⟨rfl, by simp⟩
  next => split <;> exact ⟨rfl, by simp⟩

/-- A scanned number is a number. -/
theorem scanNumber_kind {text : List Char} {s : Scan} (h : scanNumber text = .ok s) :
    s.kind = .number := by
  unfold scanNumber at h
  dsimp only at h
  split at h
  next => cases h; rfl
  next => cases h

/-- Punctuation stands in an action and is no field. -/
theorem punctuation?_isInner {c : Char} {kind : Token.Kind} (h : punctuation? c = some kind) :
    kind.isInner = true ∧ kind ≠ .field := by
  unfold punctuation? at h
  split at h <;> cases h <;> decide

/-- What is read inside an action is a token of the inside, and a field starts with a point. -/
theorem scan_isInner {right text : List Char} {s : Scan} (h : scan right text = .ok s)
    (pos : Nat) : s.kind.isInner = true ∧ Token.Dotted ⟨s.kind, s.lexeme, pos⟩ := by
  cases scan_scanned h with
  | punctuation hk =>
    obtain ⟨hi, hf⟩ := punctuation?_isInner hk
    exact ⟨hi, fun h => absurd h hf⟩
  | field hc hb => exact ⟨rfl, fun _ => ⟨_, rfl⟩⟩
  | number hn =>
    rw [Token.Dotted, scanNumber_kind hn]
    exact ⟨rfl, by simp⟩
  | word hc hb =>
    obtain ⟨hi, hf⟩ := wordKind_isInner _
    exact ⟨hi, fun h => absurd h hf⟩
  | _ => exact ⟨rfl, by simp [Token.Dotted]⟩

/-- Inside an action no token is the end of the text. -/
theorem scan_proper {right text : List Char} {s : Scan} (h : scan right text = .ok s)
    (pos : Nat) : Token.Proper ⟨s.kind, s.lexeme, pos⟩ := by
  obtain ⟨hi, hd⟩ := scan_isInner h pos
  refine ⟨fun he => ?_, hd⟩
  rw [show s.kind = .eof from he] at hi
  cases hi

/-- The tokens of an action are proper. -/
theorem actionTokens_proper {right text : List Char} {depth pos : Nat} {action : List Token}
    {next : Place} (h : actionTokens right depth pos text = .ok (action, next)) :
    ∀ t ∈ action, t.Proper :=
  actionTokens_forall (fun _ => .of_ne (by simp) (by simp)) (fun _ _ pos hs => scan_proper hs pos) h

/-- The token of a stretch of text is proper. -/
theorem textToken_proper {pos : Nat} {text : List Char} : ∀ t ∈ textToken pos text, t.Proper :=
  textToken_forall (fun _ _ _ => .of_ne (by simp) (by simp)) pos text

/-- Tokens that end with the end of the text, and nowhere before. -/
def EndsOnce (tokens : List Token) : Prop :=
  ∃ front pos, tokens = front ++ [.eof pos] ∧ ∀ t ∈ front, t.Proper

/-- Proper tokens may be put in front of tokens that end once. -/
theorem EndsOnce.append {left right : List Token} (hl : ∀ t ∈ left, t.Proper)
    (hr : EndsOnce right) : EndsOnce (left ++ right) := by
  obtain ⟨front, pos, rfl, hf⟩ := hr
  refine ⟨left ++ front, pos, (List.append_assoc ..).symm, fun t ht => ?_⟩
  rcases List.mem_append.1 ht with ht | ht
  · exact hl t ht
  · exact hf t ht

/-- The tokens of a text end once. -/
theorem TextReads.endsOnce {d : Delimiters} {pos : Nat} {text : List Char} {tokens : List Token}
    (h : TextReads d pos text tokens) : EndsOnce tokens := by
  have eof_ends (pos : Nat) : EndsOnce [.eof pos] := ⟨[], pos, rfl, by simp⟩
  induction h with
  | finished => exact eof_ends _
  | text => exact .append textToken_proper (eof_ends _)
  | comment hne ho hc hn h ih =>
    obtain ⟨before, trim, -, htext, -⟩ := opening?_eq_some ho
    rw [htext]
    exact .append textToken_proper ih
  | @action pos text o action rest next hne ho hc ha h ih =>
    obtain ⟨before, trim, -, htext, hdelim, -⟩ := opening?_eq_some ho
    rw [htext]
    have hopen : ∀ t ∈ [o.delimiter], t.Proper :=
      List.forall_mem_singleton.2 (.of_ne (by simp [hdelim]) (by simp [hdelim]))
    exact .append textToken_proper (.append hopen (.append (actionTokens_proper ha) ih))

/-- The tokens of a source end once. -/
theorem tokenize_endsOnce {d : Delimiters} {source : List Char} {tokens : List Token}
    (h : tokenize d source = .ok tokens) : EndsOnce tokens :=
  (tokenize_reads h).endsOnce

/-- The fields among tokens that end once begin with their dot. -/
theorem EndsOnce.dotted {tokens : List Token} (h : EndsOnce tokens) : ∀ t ∈ tokens, t.Dotted := by
  obtain ⟨front, pos, rfl, hf⟩ := h
  intro t ht
  rcases List.mem_append.1 ht with ht | ht
  · exact (hf t ht).2
  · rw [List.mem_singleton] at ht
    subst ht
    intro hk
    cases hk

/-- Where the end of the text is next, no other token is left. -/
theorem EndsOnce.suffix_of_eof {tokens rest : List Token} {t : Token} (h : EndsOnce tokens)
    (hs : t :: rest <:+ tokens) (ht : t.kind = .eof) : rest = [] := by
  obtain ⟨front, pos, rfl, hf⟩ := h
  obtain ⟨read, hread⟩ := hs
  -- The suffix starts before the last token or with it, and no token before is the end.
  rcases List.append_eq_append_iff.1 hread with ⟨more, rfl, hmore⟩ | ⟨more, rfl, hmore⟩
  · cases more with
    | nil => cases hmore; rfl
    | cons u more =>
      cases hmore
      exact absurd ht (hf t (by simp)).1
  · cases more with
    | nil => cases hmore; rfl
    | cons u more =>
      have := congrArg List.length hmore
      simp at this

end FieldAudit.Template
