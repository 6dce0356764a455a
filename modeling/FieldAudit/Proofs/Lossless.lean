import FieldAudit.Proofs.TokenLayout
import Mathlib.Data.List.Chain

/-! # Tokens and the text between them

A template is cut into segments: texts, comments and actions, each with the trim markers of its
delimiters and the spaces that the markers take away.  The segments make up the template, and its
tokens are those of the segments (`tokenize_segments`).  So no text is lost: between two tokens
stand only trim markers, trimmed spaces and comments, and `tokenize_lossless` says which of them
where. -/

namespace FieldAudit.Template

open Text

/-! ## Segments -/

/-- A token inside an action, wherever the action stands. -/
structure Part where
  kind : Token.Kind
  lexeme : List Char
  isInner_kind : kind.isInner = true

/-- A piece of a template outside other actions: a text, a comment or an action.  The delimiters of
comments and actions can have trim markers. -/
inductive Segment where
  | text (chars : List Char) (ne_nil : chars ≠ [])
  | comment (left : Option Trim) (body : List Char) (closed : ¬ commentClose <:+: body)
      (right : Option Trim)
  | action (left : Option Trim) (parts : List Part) (right : Option Trim)

/-- The text of a comment between and with its delimiters. -/
def commentAction (d : Delimiters) (left : Option Trim) (body : List Char) (right : Option Trim) :
    List Char :=
  d.left ++ (leftMark left ++ (commentOpen ++ (body ++
    (commentClose ++ (rightMark right ++ d.right)))))

namespace Segment

/-- The text of a segment, with the spaces that its markers take away. -/
def chars (d : Delimiters) : Segment → List Char
  | text chars _ => chars
  | comment left body _ right => trimmed left ++ (commentAction d left body right ++ trimmed right)
  | action left parts right =>
    trimmed left ++ (d.left ++ (leftMark left ++ (parts.flatMap Part.lexeme ++
      (rightMark right ++ (d.right ++ trimmed right)))))

/-- The marker of the left delimiter. -/
def left? : Segment → Option Trim
  | text .. => none
  | comment left .. => left
  | action left .. => left

/-- The marker of the right delimiter. -/
def right? : Segment → Option Trim
  | text .. => none
  | comment _ _ _ right => right
  | action _ _ right => right

/-- A segment can stand before another one: a marker leaves no space at the side of a text that it
trims. -/
structure Meets (first second : Segment) : Prop where
  bareEnd : ∀ chars h, first = text chars h → second.left?.isSome → BareEnd chars
  bareFront : ∀ chars h, second = text chars h → first.right?.isSome → BareFront chars

/-- A text, or an action whose delimiters have no markers. -/
def isPlain : Segment → Bool
  | text .. => true
  | comment .. => false
  | action left _ right => left.isNone && right.isNone

end Segment

/-- The tokens of the inside of an action and of its right delimiter. -/
def insideTokens (right : List Char) (trim : Option Trim) (pos : Nat) : List Part → List Token
  | [] => [⟨.rightDelim, right, pos + byteLength (rightMark trim)⟩]
  | part :: parts =>
    ⟨part.kind, part.lexeme, pos⟩ ::
      insideTokens right trim (pos + byteLength part.lexeme) parts

/-- The tokens of a segment at an offset. -/
def Segment.tokens (d : Delimiters) (pos : Nat) : Segment → List Token
  | .text chars _ => [⟨.text, chars, pos⟩]
  | .comment .. => []
  | .action left parts right =>
    let delimiter : Token := ⟨.leftDelim, d.left, pos + byteLength (trimmed left)⟩
    delimiter :: insideTokens d.right right (delimiter.stop + byteLength (leftMark left)) parts

/-- The tokens of segments from an offset on, the last of them the end of the text. -/
def segmentTokens (d : Delimiters) (pos : Nat) : List Segment → List Token
  | [] => [.eof pos]
  | segment :: rest =>
    segment.tokens d pos ++ segmentTokens d (pos + byteLength (segment.chars d)) rest

/-- The text and the tokens from an offset on are those of segments. -/
structure Segmented (d : Delimiters) (pos : Nat) (text : List Char) (tokens : List Token)
    (segments : List Segment) : Prop where
  chars_eq : segments.flatMap (Segment.chars d) = text
  tokens_eq : segmentTokens d pos segments = tokens
  meets : segments.IsChain Segment.Meets

/-- A segment that is no text stands before others, and after a text that may be empty. -/
theorem Segmented.prepend {d : Delimiters} {pos : Nat} {before rest : List Char}
    {tokens : List Token} {segments : List Segment} {segment : Segment}
    (h : Segmented d (pos + byteLength before + byteLength (segment.chars d)) rest tokens segments)
    (ht : ∀ chars h, segment ≠ .text chars h) (hl : segment.left?.isSome → BareEnd before)
    (hr : segment.right?.isSome → BareFront rest) :
    ∃ segments, Segmented d pos (before ++ (segment.chars d ++ rest))
      (textToken pos before ++ (segment.tokens d (pos + byteLength before) ++ tokens))
      segments := by
  obtain ⟨rfl, rfl, hm⟩ := h
  have hcons : (segment :: segments).IsChain Segment.Meets := by
    cases segments with
    | nil => exact .singleton _
    | cons next segments =>
      refine .cons_cons ⟨fun chars hne he => absurd he (ht chars hne), ?_⟩ hm
      -- A text that follows stands at the front of the rest.
      rintro chars hne rfl hsome c hc
      refine hr hsome c ?_
      rw [List.flatMap_cons, Segment.chars, List.head?_append_of_ne_nil _ hne]
      exact hc
  cases before with
  | nil => exact ⟨segment :: segments, rfl, rfl, hcons⟩
  | cons c before =>
    refine ⟨.text (c :: before) (List.cons_ne_nil c before) :: segment :: segments, rfl, rfl,
      .cons_cons ⟨?_, ?_⟩ hcons⟩
    · -- The new text is the only one before the segment.
      rintro chars hne ⟨⟩ hsome
      exact hl hsome
    · intro chars hne he
      exact absurd he (ht chars hne)

/-! ## The segments of a template -/

/-- The tokens of an action are those of its parts and its right delimiter. -/
theorem actionTokens_parts {right text : List Char} {depth pos : Nat} {action : List Token}
    {next : Place} (h : actionTokens right depth pos text = .ok (action, next)) :
    ∃ parts trim, text = parts.flatMap Part.lexeme ++
        (rightMark trim ++ (right ++ (trimmed trim ++ next.rest))) ∧
      action = insideTokens right trim pos parts ∧
      next.pos = pos + byteLength (parts.flatMap Part.lexeme ++
        (rightMark trim ++ (right ++ trimmed trim))) ∧
      (trim.isSome → BareFront next.rest) := by
  rw [actionTokens_eq_ok_iff] at h
  -- Each token is one more part in front; the delimiter at the end leaves the trim.
  induction h with
  | close hc =>
    obtain ⟨trim, rfl, htoken, hpos, hbare⟩ := closing?_eq_some hc
    refine ⟨[], trim, rfl, by rw [htoken]; rfl, ?_, hbare⟩
    simp only [hpos, htoken, Token.stop, List.flatMap_nil, List.nil_append, byteLength_append]
    omega
  | @token depth depth' pos text s inner next hc hscan hd h ih =>
    obtain ⟨parts, trim, hrest, rfl, hpos, hbare⟩ := ih
    refine ⟨⟨s.kind, s.lexeme, (scan_isInner hscan pos).1⟩ :: parts, trim, ?_, rfl, ?_, hbare⟩
    · rw [List.flatMap_cons, List.append_assoc, ← hrest]
      exact (scan_append hscan).symm
    · rw [hpos, List.flatMap_cons, List.append_assoc, byteLength_append s.lexeme, Nat.add_assoc]

/-- A comment goes on to the first closing mark, and a right delimiter follows. -/
theorem afterComment_eq_ok {right text : List Char} {pos : Nat} {next : Place}
    (h : afterComment right pos text = .ok next) :
    ∃ body trim, ¬ commentClose <:+: body ∧
      text = body ++ (commentClose ++ (rightMark trim ++ (right ++ (trimmed trim ++ next.rest)))) ∧
      next.pos = pos + byteLength (body ++
        (commentClose ++ (rightMark trim ++ (right ++ trimmed trim)))) ∧
      (trim.isSome → BareFront next.rest) := by
  unfold afterComment at h
  split at h
  next => cases h
  next body rest hb =>
    split at h
    next c hc =>
      cases h
      obtain ⟨trim, rfl, htoken, hpos, hbare⟩ := closing?_eq_some hc
      refine ⟨body, trim, splitFirst?_not_infix (List.cons_ne_nil _ _) hb, splitFirst?_eq_some hb,
        ?_, hbare⟩
      have hmark : byteLength commentClose = 2 := rfl
      simp only [hpos, htoken, Token.stop, byteLength_append, hmark]
      omega
    next => cases h

/-- The tokens of a text are those of its segments. -/
theorem TextReads.segments {d : Delimiters} {pos : Nat} {text : List Char} {tokens : List Token}
    (h : TextReads d pos text tokens) : ∃ segments, Segmented d pos text tokens segments := by
  -- A step of the tokenizer is one segment, and the text before an action one more: the segments of
  -- the rest go on where it ends.
  induction h with
  | finished => exact ⟨[], rfl, rfl, .nil⟩
  | @text pos text hne ho =>
    refine ⟨[.text text hne], by simp [Segment.chars], ?_, .singleton _⟩
    rw [textToken, if_neg (by simpa using hne)]
    rfl
  | @comment pos text comment o next rest hne ho hc hn h ih =>
    obtain ⟨segments, hs⟩ := ih
    obtain ⟨before, left, rfl, htext, hdelim, hinside, hl⟩ := opening?_eq_some ho
    obtain ⟨body, right, hbody, rfl, hnext, hbare⟩ := afterComment_eq_ok hn
    have hchars : (Segment.comment left body hbody right).chars d ++ next.rest =
        trimmed left ++ (d.left ++ (leftMark left ++ o.inside.rest)) := by
      rw [afterPrefix?_eq_some hc]
      simp [Segment.chars, commentAction]
    have hpos : next.pos =
        pos + byteLength before + byteLength ((Segment.comment left body hbody right).chars d) := by
      have hmark : byteLength commentOpen = 2 := rfl
      simp only [hnext, hinside, hdelim, Token.stop, Segment.chars, commentAction,
        byteLength_append, hmark]
      omega
    rw [hpos] at hs
    rw [htext, ← hchars]
    exact hs.prepend (by simp) hl hbare
  | @action pos text o action rest next hne ho hc ha h ih =>
    obtain ⟨segments, hs⟩ := ih
    obtain ⟨before, left, rfl, htext, hdelim, hinside, hl⟩ := opening?_eq_some ho
    obtain ⟨parts, right, hparts, haction, hnext, hbare⟩ := actionTokens_parts ha
    have hchars : (Segment.action left parts right).chars d ++ next.rest =
        trimmed left ++ (d.left ++ (leftMark left ++ o.inside.rest)) := by
      rw [hparts]
      simp [Segment.chars]
    have hpos : next.pos =
        pos + byteLength before + byteLength ((Segment.action left parts right).chars d) := by
      simp only [hnext, hinside, hdelim, Token.stop, Segment.chars, byteLength_append]
      omega
    have htokens : o.delimiter :: (action ++ rest) =
        (Segment.action left parts right).tokens d (pos + byteLength before) ++ rest := by
      rw [haction, hinside, hdelim]
      rfl
    rw [hpos] at hs
    rw [htext, ← hchars, htokens]
    exact hs.prepend (by simp) hl hbare

/-- The tokens of a source come from segments of it. -/
theorem tokenize_segments {d : Delimiters} {source : List Char} {tokens : List Token}
    (h : tokenize d source = .ok tokens) : ∃ segments, Segmented d 0 source tokens segments :=
  (tokenize_reads h).segments

/-! ## The text between tokens -/

/-- Text outside actions that leaves no token: spaces and comments. -/
inductive Skipped (d : Delimiters) : List Char → Prop
  | nil : Skipped d []
  | space {c : Char} {rest : List Char} (hc : isSpace c = true) (h : Skipped d rest) :
      Skipped d (c :: rest)
  | comment (left : Option Trim) {body : List Char} (closed : ¬ commentClose <:+: body)
      (right : Option Trim) {rest : List Char} (h : Skipped d rest) :
      Skipped d (commentAction d left body right ++ rest)

namespace Skipped

/-- What is skipped in two stretches is skipped. -/
theorem append {d : Delimiters} {first second : List Char} (h : Skipped d first)
    (h' : Skipped d second) : Skipped d (first ++ second) := by
  induction h with
  | nil => exact h'
  | space hc h ih => exact .space hc ih
  | comment left closed right h ih =>
    rw [List.append_assoc]
    exact .comment left closed right ih

/-- Spaces are skipped. -/
theorem of_isSpace {d : Delimiters} {spaces : List Char} (h : ∀ c ∈ spaces, isSpace c = true) :
    Skipped d spaces := by
  induction spaces with
  | nil => exact .nil
  | cons c rest ih =>
    exact .space (h c List.mem_cons_self) (ih fun c hc => h c (List.mem_cons_of_mem _ hc))

/-- The spaces of a trimming marker are skipped. -/
theorem trimmed (d : Delimiters) (trim : Option Trim) : Skipped d (trimmed trim) := by
  cases trim with
  | none => exact .nil
  | some trim => exact of_isSpace trim.isSpace_spaces

/-- The characters of a comment are skipped, its delimiters included. -/
theorem chars {d : Delimiters} {left right : Option Trim} {body : List Char}
    (closed : ¬ commentClose <:+: body) :
    Skipped d ((Segment.comment left body closed right).chars d) :=
  (trimmed d left).append (.comment left closed right (trimmed d right))

end Skipped

/-- Where a text between tokens begins: outside actions, right after a left delimiter, or further
inside an action. -/
inductive Side where
  | outside
  | opened
  | inside
  deriving DecidableEq, Repr

/-- Where the text after a token begins. -/
def Side.after : Side → Token.Kind → Side
  | _, .leftDelim => .opened
  | _, .rightDelim => .outside
  | .outside, _ => .outside
  | _, _ => .inside

/-- Nothing, or the marker after a left delimiter: a minus and a space. -/
def IsLeftMarker (gap : List Char) : Prop :=
  gap = [] ∨ ∃ c, isSpace c = true ∧ gap = ['-', c]

/-- Nothing, or the marker before a right delimiter: a space and a minus. -/
def IsMarkerBefore (kind : Token.Kind) (gap : List Char) : Prop :=
  gap = [] ∨ kind = .rightDelim ∧ ∃ c, isSpace c = true ∧ gap = [c, '-']

/-- What can stand between tokens before one of a kind. -/
def Side.Allows (d : Delimiters) : Side → Token.Kind → List Char → Prop
  | .outside, _, gap => Skipped d gap
  | .opened, kind, gap =>
    ∃ first second, IsLeftMarker first ∧ IsMarkerBefore kind second ∧ gap = first ++ second
  | .inside, kind, gap => IsMarkerBefore kind gap

/-- From an offset on, only text that is allowed there stands before and between the tokens. -/
def Spaced (d : Delimiters) (source : List Char) : Side → Nat → List Token → Prop
  | _, _, [] => True
  | side, stop, t :: rest =>
    side.Allows d t.kind (slice stop t.pos source) ∧ Spaced d source (side.after t.kind) t.stop rest

/-- The mark in front of an action is a marker. -/
theorem isLeftMarker_leftMark (trim : Option Trim) : IsLeftMarker (leftMark trim) := by
  cases trim with
  | none => exact .inl rfl
  | some trim => exact .inr ⟨trim.mark, trim.isSpace_mark, rfl⟩

/-- The mark behind an action is a marker. -/
theorem isMarkerBefore_rightMark (trim : Option Trim) :
    IsMarkerBefore .rightDelim (rightMark trim) := by
  cases trim with
  | none => exact .inl rfl
  | some trim => exact .inr ⟨rfl, trim.mark, trim.isSpace_mark, rfl⟩

/-- A token that stands in an action leaves the reader in the action. -/
theorem Side.after_of_isInner {side : Side} {kind : Token.Kind} (hs : side ≠ .outside)
    (hk : kind.isInner = true) : side.after kind = .inside := by
  cases side with
  | outside => exact absurd rfl hs
  | opened => cases kind <;> first | rfl | cases hk
  | inside => cases kind <;> first | rfl | cases hk

/-- What a left delimiter leaves before the next token inside its action: at most its marker, and
nothing once another token has come. -/
def Side.Starts : Side → List Char → Prop
  | .outside, _ => False
  | .opened, gap => IsLeftMarker gap
  | .inside, gap => gap = []

/-- A gap that may start here may stand in front of a token with its marker. -/
theorem Side.Starts.allows {d : Delimiters} {side : Side} {gap marker : List Char}
    {kind : Token.Kind} (h : side.Starts gap) (hm : IsMarkerBefore kind marker) :
    side.Allows d kind (gap ++ marker) := by
  cases side with
  | outside => exact h.elim
  | opened => exact ⟨gap, marker, h, hm, rfl⟩
  | inside =>
    rw [show gap = [] from h]
    exact hm

/-- A right delimiter leads out of the action. -/
theorem Side.after_rightDelim (side : Side) : side.after .rightDelim = .outside := by
  cases side <;> rfl

/-- A token is spaced after an allowed gap. -/
theorem Spaced.cons {d : Delimiters} {side : Side} {source before gap rest : List Char} {t : Token}
    {tokens : List Token} (hs : source = before ++ (gap ++ rest))
    (ht : t.pos = byteLength before + byteLength gap) (hg : side.Allows d t.kind gap)
    (h : Spaced d source (side.after t.kind) t.stop tokens) :
    Spaced d source side (byteLength before) (t :: tokens) := by
  refine ⟨?_, h⟩
  rw [hs, ht, slice_append]
  exact hg

/-- Inside an action only markers beside the delimiters stand between tokens. -/
theorem insideTokens_spaced {d : Delimiters} {source before gap tail : List Char} {side : Side}
    {parts : List Part} {trim : Option Trim} {tokens : List Token}
    (hs : source = before ++ (gap ++ (parts.flatMap Part.lexeme ++
      (rightMark trim ++ (d.right ++ tail)))))
    (hg : side.Starts gap)
    (h : Spaced d source .outside (byteLength (before ++ (gap ++ (parts.flatMap Part.lexeme ++
      (rightMark trim ++ d.right))))) tokens) :
    Spaced d source side (byteLength before)
      (insideTokens d.right trim (byteLength before + byteLength gap) parts ++ tokens) := by
  -- The gap is the marker of the left delimiter up to the first part, and empty from there on.
  induction parts generalizing before gap side with
  | nil =>
    have hsource : source = before ++ ((gap ++ rightMark trim) ++ (d.right ++ tail)) := by
      rw [hs]
      simp
    refine Spaced.cons hsource ?_ (hg.allows (isMarkerBefore_rightMark trim)) ?_
    · rw [byteLength_append, Nat.add_assoc]
    · rw [Side.after_rightDelim]
      have hstop : byteLength before + byteLength gap + byteLength (rightMark trim) +
          byteLength d.right = byteLength (before ++ (gap ++ (rightMark trim ++ d.right))) := by
        simp only [byteLength_append]
        omega
      rw [Token.stop, hstop]
      exact h
  | cons part parts ih =>
    have hallows : side.Allows d part.kind gap := by
      rw [← List.append_nil gap]
      exact hg.allows (.inl rfl)
    have hside : side ≠ .outside := by
      rintro rfl
      exact hg
    refine Spaced.cons hs rfl hallows ?_
    rw [Side.after_of_isInner hside part.isInner_kind]
    have hstop : byteLength before + byteLength gap + byteLength part.lexeme =
        byteLength (before ++ (gap ++ part.lexeme)) := by
      simp only [byteLength_append]
      omega
    have hsource : source = (before ++ (gap ++ part.lexeme)) ++ ([] ++
        (parts.flatMap Part.lexeme ++ (rightMark trim ++ (d.right ++ tail)))) := by
      rw [hs]
      simp
    rw [Token.stop, hstop]
    exact ih hsource rfl (by simpa using h)

/-- Between the tokens of segments stands only what is allowed there. -/
theorem segmentTokens_spaced {d : Delimiters} {source before gap : List Char}
    {segments : List Segment} (hs : source = before ++ (gap ++ segments.flatMap (Segment.chars d)))
    (hg : Skipped d gap) :
    Spaced d source .outside (byteLength before)
      (segmentTokens d (byteLength before + byteLength gap) segments) := by
  -- Comments leave no token, so they go into the gap before the next one.
  induction segments generalizing before gap with
  | nil => exact Spaced.cons hs rfl hg trivial
  | cons segment segments ih =>
    cases segment with
    | text chars hne =>
      refine Spaced.cons hs rfl hg ?_
      have hstop : byteLength before + byteLength gap + byteLength chars =
          byteLength (before ++ (gap ++ chars)) := by
        simp only [byteLength_append]
        omega
      have hsource : source = (before ++ (gap ++ chars)) ++
          ([] ++ segments.flatMap (Segment.chars d)) := by
        rw [hs]
        simp [Segment.chars]
      simp only [Token.stop, Segment.chars, hstop]
      exact ih hsource .nil
    | comment left body closed right =>
      have hsource : source = before ++ ((gap ++
          (Segment.comment left body closed right).chars d) ++
            segments.flatMap (Segment.chars d)) := by
        rw [hs]
        simp
      have h := ih hsource (hg.append (.chars closed))
      rw [byteLength_append, ← Nat.add_assoc] at h
      exact h
    | action left parts right =>
      have hsource : source = before ++ ((gap ++ trimmed left) ++ (d.left ++ (leftMark left ++
          (parts.flatMap Part.lexeme ++ (rightMark right ++ (d.right ++ (trimmed right ++
            segments.flatMap (Segment.chars d)))))))) := by
        rw [hs]
        simp [Segment.chars]
      refine Spaced.cons hsource ?_ (hg.append (.trimmed d left)) ?_
      · rw [byteLength_append, Nat.add_assoc]
      · -- After the left delimiter its marker comes before the inside, and after the right one the
        -- spaces that its marker takes away come before the next segment.
        have hinside : source = (before ++ (gap ++ (trimmed left ++ d.left))) ++ (leftMark left ++
            (parts.flatMap Part.lexeme ++ (rightMark right ++ (d.right ++ (trimmed right ++
              segments.flatMap (Segment.chars d)))))) := by
          rw [hsource]
          simp
        have hrest : source = (before ++ (gap ++ (trimmed left ++ d.left)) ++ (leftMark left ++
            (parts.flatMap Part.lexeme ++ (rightMark right ++ d.right)))) ++ (trimmed right ++
              segments.flatMap (Segment.chars d)) := by
          rw [hsource]
          simp
        have hstart : Side.opened.Starts (leftMark left) := isLeftMarker_leftMark left
        have h := insideTokens_spaced hinside hstart (ih hrest (.trimmed d right))
        simp only [byteLength_append, Segment.chars, ← Nat.add_assoc] at h ⊢
        exact h

/-! ## Tokens outside actions -/

/-- A token can stand before another one: a right delimiter leaves its action. -/
def Token.MayPrecede (t u : Token) : Prop :=
  t.kind = .rightDelim → u.kind.isInner = false

/-- Tokens that start outside actions, and go on outside them after every right delimiter. -/
structure StartsOutside (tokens : List Token) : Prop where
  front : ∀ t ∈ tokens.head?, t.kind.isInner = false
  after : tokens.IsChain Token.MayPrecede

/-- A token that stands outside may be put in front. -/
theorem StartsOutside.cons {t : Token} {tokens : List Token} (h : StartsOutside tokens)
    (ht : t.kind.isInner = false) : StartsOutside (t :: tokens) := by
  refine ⟨?_, List.isChain_cons.2 ⟨fun u hu _ => h.front u hu, h.after⟩⟩
  rintro u ⟨⟩
  exact ht

/-- Inside an action only the last token is a right delimiter. -/
theorem isChain_insideTokens {right : List Char} {trim : Option Trim} {pos : Nat}
    {parts : List Part} {tokens : List Token} (h : StartsOutside tokens) :
    (insideTokens right trim pos parts ++ tokens).IsChain Token.MayPrecede := by
  induction parts generalizing pos with
  | nil => exact List.isChain_cons.2 ⟨fun u hu _ => h.front u hu, h.after⟩
  | cons part parts ih =>
    refine List.isChain_cons.2 ⟨fun u _ hk => ?_, ih⟩
    have hinner := part.isInner_kind
    rw [show part.kind = .rightDelim from hk] at hinner
    cases hinner

/-- The tokens of segments start outside of any action. -/
theorem segmentTokens_startsOutside (d : Delimiters) (pos : Nat) (segments : List Segment) :
    StartsOutside (segmentTokens d pos segments) := by
  induction segments generalizing pos with
  | nil => exact .cons ⟨by simp, .nil⟩ rfl
  | cons segment segments ih =>
    have hrest := ih (pos + byteLength (segment.chars d))
    cases segment with
    | text chars hne => exact hrest.cons rfl
    | comment left body closed right => exact hrest
    | action left parts right =>
      -- A left delimiter stands outside its action, and may have any token after it.
      refine ⟨?_, List.isChain_cons.2 ⟨fun u _ hk => ?_, isChain_insideTokens hrest⟩⟩
      · rintro t ⟨⟩
        rfl
      · cases hk

/-- The tokens of a source start outside of any action. -/
theorem tokenize_startsOutside {d : Delimiters} {source : List Char} {tokens : List Token}
    (h : tokenize d source = .ok tokens) : StartsOutside tokens := by
  obtain ⟨segments, -, rfl, -⟩ := tokenize_segments h
  exact segmentTokens_startsOutside d 0 segments

/-! ## Losslessness -/

/-- The last token is the end of the text. -/
theorem getLast?_segmentTokens (d : Delimiters) (pos : Nat) (segments : List Segment) :
    (segmentTokens d pos segments).getLast? =
      some (.eof (pos + byteLength (segments.flatMap (Segment.chars d)))) := by
  induction segments generalizing pos with
  | nil => rfl
  | cons segment segments ih =>
    rw [segmentTokens, List.getLast?_append, ih, List.flatMap_cons, byteLength_append,
      Nat.add_assoc]
    rfl

/-- Without markers, an action is the lexemes of its tokens. -/
theorem flatMap_lexeme_insideTokens (right : List Char) (pos : Nat) (parts : List Part) :
    (insideTokens right none pos parts).flatMap Token.lexeme =
      parts.flatMap Part.lexeme ++ right := by
  induction parts generalizing pos with
  | nil => simp [insideTokens]
  | cons part parts ih => simp [insideTokens, ih]

/-- Without markers and comments, a text is the lexemes of its tokens. -/
theorem flatMap_lexeme_segmentTokens (d : Delimiters) (pos : Nat) {segments : List Segment}
    (h : ∀ segment ∈ segments, segment.isPlain) :
    (segmentTokens d pos segments).flatMap Token.lexeme =
      segments.flatMap (Segment.chars d) := by
  induction segments generalizing pos with
  | nil => rfl
  | cons segment segments ih =>
    have hrest := ih (pos + byteLength (segment.chars d)) fun s hs =>
      h s (List.mem_cons_of_mem _ hs)
    rw [segmentTokens, List.flatMap_append, hrest, List.flatMap_cons]
    congr 1
    have hplain := h segment List.mem_cons_self
    cases segment with
    | text chars hne => simp [Segment.tokens, Segment.chars]
    | comment => cases hplain
    | action left parts right =>
      simp only [Segment.isPlain, Bool.and_eq_true, Option.isNone_iff_eq_none] at hplain
      obtain ⟨rfl, rfl⟩ := hplain
      rw [Segment.tokens, List.flatMap_cons, flatMap_lexeme_insideTokens]
      simp [Segment.chars, trimmed, leftMark, rightMark]

/-- Tokens of a template that lose nothing of it. -/
structure Lossless (d : Delimiters) (source : List Char) (tokens : List Token) : Prop where
  /-- A lexeme is the slice of the template at the offset of its token. -/
  slice_eq : ∀ t ∈ tokens, slice t.pos t.stop source = t.lexeme
  /-- The tokens stand in order and do not overlap. -/
  ordered : tokens.Pairwise fun t u => t.stop ≤ u.pos
  /-- The last token is the end of the template. -/
  last : tokens.getLast? = some (.eof (byteLength source))
  /-- Inside actions the tokens follow one another but for the markers of the delimiters, and
  outside actions only spaces and comments stand between them. -/
  spaced : Spaced d source .outside 0 tokens
  /-- The template is made of texts, comments and actions with the markers that are recognised.  A
  text that a marker trims has no space on that side, and without markers and comments the lexemes
  are the template. -/
  segmented : ∃ segments : List Segment,
    segments.flatMap (Segment.chars d) = source ∧ segmentTokens d 0 segments = tokens ∧
    (∀ front chars h next back, segments = front ++ .text chars h :: next :: back →
      next.left?.isSome → BareEnd chars) ∧
    (∀ front previous chars h back, segments = front ++ previous :: .text chars h :: back →
      previous.right?.isSome → BareFront chars) ∧
    ((∀ segment ∈ segments, segment.isPlain) → tokens.flatMap Token.lexeme = source)

/-- Nothing of a template is lost on the way to its tokens, whatever the delimiters. -/
theorem tokenize_lossless {d : Delimiters} {source : List Char} {tokens : List Token}
    (h : tokenize d source = .ok tokens) : Lossless d source tokens := by
  obtain ⟨segments, hchars, htokens, hmeets⟩ := tokenize_segments h
  have hlayout := tokenize_layout h
  have hmeets' := List.isChain_iff_forall_rel_of_append_cons_cons.1 hmeets
  have hsource : source = [] ++ ([] ++ segments.flatMap (Segment.chars d)) := hchars.symm
  have hempty : (0 : Nat) = byteLength [] := rfl
  refine ⟨hlayout.slice_eq hempty, hlayout.ordered.2, ?_, ?_, segments, hchars, htokens, ?_, ?_, ?_⟩
  · rw [← htokens, getLast?_segmentTokens, hchars, Nat.zero_add]
  · rw [← htokens]
    exact segmentTokens_spaced hsource .nil
  · intro front chars hne next back he
    exact (hmeets' he).bareEnd chars hne rfl
  · intro front previous chars hne back he
    exact (hmeets' he).bareFront chars hne rfl
  · intro hplain
    rw [← htokens, flatMap_lexeme_segmentTokens d 0 hplain, hchars]

/-- A template with markers on both sides of an action and before a comment. -/
def markedSource : List Char :=
  "a \x7b\x7b- .B -\x7d\x7d\n c \x7b\x7b- /* d */\x7d\x7d\t".toList

/-- The tokens of that template. -/
def markedTokens : List Token :=
  [⟨.text, ['a'], 0⟩, ⟨.leftDelim, "\x7b\x7b".toList, 2⟩, ⟨.field, ['.', 'B'], 6⟩,
   ⟨.rightDelim, "\x7d\x7d".toList, 10⟩, ⟨.text, ['c'], 14⟩, ⟨.text, ['\t'], 29⟩, .eof 30]

/-- A source with markers and a comment is made again from its tokens and what was skipped. -/
theorem tokenize_lossless_marked :
    tokenize {} markedSource = .ok markedTokens ∧ Lossless {} markedSource markedTokens := by
  have h : tokenize {} markedSource = .ok markedTokens := by decide +kernel
  exact ⟨h, tokenize_lossless h⟩

end FieldAudit.Template
