import FieldAudit.Proofs.TokenLayout
import Mathlib.Data.List.Chain

/-! # The shape of token lists

The tokens of a template are texts and actions, and then the end.  `TokenStream` says so: an action
is a left delimiter, tokens of the inside and a right delimiter, and its parentheses are balanced.
No two spaces stand side by side.  The tokens of every template have this shape
(`tokenize_stream`), whatever its delimiters. -/

namespace FieldAudit.Template

open Text

/-! ## Parentheses -/

/-- The number of parentheses that tokens open. -/
def leftParens (tokens : List Token) : Nat :=
  tokens.countP (·.kind = .leftParen)

/-- The number of parentheses that tokens close. -/
def rightParens (tokens : List Token) : Nat :=
  tokens.countP (·.kind = .rightParen)

/-- Tokens close the parentheses that are open before them and their own, each after it was
opened. -/
structure Closes (depth : Nat) (tokens : List Token) : Prop where
  sound : ∀ front, front <+: tokens → rightParens front ≤ depth + leftParens front
  total : rightParens tokens = depth + leftParens tokens

/-- Nothing is open where there are no tokens. -/
theorem Closes.nil : Closes 0 [] := by
  refine ⟨fun front hf => ?_, rfl⟩
  rw [List.prefix_nil.1 hf]
  exact Nat.le_refl _

/-- A token changes the depth by the parentheses it counts for. -/
theorem nesting?_eq_some {depth depth' : Nat} {t : Token} (h : nesting? depth t.kind = some depth')
    (tokens : List Token) :
    depth + leftParens (t :: tokens) + rightParens tokens =
      depth' + leftParens tokens + rightParens (t :: tokens) := by
  unfold nesting? at h
  split at h
  next hk =>
    cases h
    simp [leftParens, rightParens, hk]
    omega
  next hk =>
    split at h
    · cases h
    · cases h
      simp [leftParens, rightParens, hk]
      omega
  next hl hr =>
    cases h
    simp only [leftParens, rightParens, List.countP_cons, decide_eq_true_eq, if_neg hl, if_neg hr,
      Nat.add_zero]

/-- One more token in front changes the number of open parentheses. -/
theorem Closes.cons {depth depth' : Nat} {t : Token} {tokens : List Token}
    (hn : nesting? depth t.kind = some depth') (h : Closes depth' tokens) :
    Closes depth (t :: tokens) := by
  constructor
  · intro front hf
    rcases List.prefix_cons_iff.1 hf with rfl | ⟨rest, rfl, hrest⟩
    · exact Nat.zero_le _
    · have hstep := nesting?_eq_some hn rest
      have hsound := h.sound rest hrest
      omega
  · have hstep := nesting?_eq_some hn tokens
    have htotal := h.total
    omega

/-! ## Shapes -/

/-- A token of the inside of an action.  A field has a name, and a variable may have none. -/
structure Token.IsInside (t : Token) : Prop where
  kind : t.kind.isInner = true
  field : t.kind = .field →
    ∃ name, name ≠ [] ∧ t.lexeme = '.' :: name ∧ ∀ c ∈ name, isWordChar c = true
  dollar : t.kind = .variable → ∃ name, t.lexeme = '$' :: name ∧ ∀ c ∈ name, isWordChar c = true

/-- Inner tokens other than fields and variables may stand inside an action as they are. -/
theorem Token.IsInside.of_plain {t : Token} (hi : t.kind.isInner = true)
    (hk : t.kind ≠ .field ∧ t.kind ≠ .variable) : t.IsInside :=
  ⟨hi, fun hf => absurd hf hk.1, fun hv => absurd hv hk.2⟩

/-- Texts and actions in any order, and the end after them. -/
inductive TokenStream (d : Delimiters) : List Token → Prop
  | finished (pos : Nat) : TokenStream d [.eof pos]
  /-- A text is not empty, and no action could start in it. -/
  | text {t : Token} {tokens : List Token} (ht : t.kind = .text) (hne : t.lexeme ≠ [])
      (hl : ¬ d.left <:+: t.lexeme) (h : TokenStream d tokens) : TokenStream d (t :: tokens)
  | action {left right : Token} {inside tokens : List Token} (hl : left.kind = .leftDelim)
      (hi : ∀ t ∈ inside, t.IsInside) (hc : Closes 0 inside) (hr : right.kind = .rightDelim)
      (h : TokenStream d tokens) : TokenStream d (left :: (inside ++ right :: tokens))

/-- Two tokens are not both spaces. -/
def Token.Apart (t u : Token) : Prop :=
  ¬ (t.kind = .space ∧ u.kind = .space)

/-- A token that is no space stands apart from what follows. -/
theorem isChain_cons_of_ne_space {t : Token} {tokens : List Token} (ht : t.kind ≠ .space)
    (h : tokens.IsChain Token.Apart) : (t :: tokens).IsChain Token.Apart :=
  List.isChain_cons.2 ⟨fun _ _ hspaces => ht hspaces.1, h⟩

/-! ## Spaces -/

/-- No run of spaces could go on at the start of a text. -/
def SpaceEnds (right text : List Char) : Prop :=
  BareFront text ∨ (afterTrimmedRight? right text).isSome = true

/-- Spaces end where a word or a delimiter begins. -/
theorem spanSpace_ends (right text : List Char) : SpaceEnds right (spanSpace right text).2 := by
  induction text with
  | nil => exact .inl (by simp [spanSpace, BareFront])
  | cons c rest ih =>
    rw [spanSpace]
    split
    next => exact ih
    next h =>
      rw [Bool.and_eq_true, not_and_or, Bool.not_eq_true] at h
      rcases h with hc | hmarker
      · exact .inl (by rintro x ⟨⟩; exact hc)
      · exact .inr (by simpa [Option.isSome_iff_ne_none] using hmarker)

/-- Punctuation is neither a space nor a name. -/
theorem punctuation?_plain {c : Char} {kind : Token.Kind} (h : punctuation? c = some kind) :
    kind ≠ .space ∧ kind ≠ .field ∧ kind ≠ .variable := by
  unfold punctuation? at h
  split at h <;> cases h <;> decide

/-- A word is no space, field or variable. -/
theorem wordKind_plain (word : List Char) :
    wordKind word ≠ .space ∧ wordKind word ≠ .field ∧ wordKind word ≠ .variable := by
  unfold wordKind
  dsimp only
  split
  next => simp
  next => split <;> decide

/-- A space is read only where a space stands, and leaves none to be read. -/
theorem scan_space {right text : List Char} {s : Scan} (h : scan right text = .ok s)
    (hk : s.kind = .space) : ¬ BareFront text ∧ SpaceEnds right s.rest := by
  cases scan_scanned h with
  | @space c rest hc =>
    refine ⟨fun hbare => ?_, spanSpace_ends right rest⟩
    rw [hbare c rfl] at hc
    cases hc
  | punctuation hp => exact absurd hk (punctuation?_plain hp).1
  | number hn =>
    rw [scanNumber_kind hn] at hk
    cases hk
  | word hc hb => exact absurd hk (wordKind_plain _).1
  | _ => cases hk

/-- What is read inside an action is a token of the inside. -/
theorem scan_isInside {right text : List Char} {s : Scan} (h : scan right text = .ok s)
    (pos : Nat) : Token.IsInside ⟨s.kind, s.lexeme, pos⟩ := by
  have hi : s.kind.isInner = true := (scan_isInner h pos).1
  cases scan_scanned h with
  | @field c rest hc hb =>
    refine ⟨hi, fun _ => ⟨c :: rest.takeWhile isWordChar, List.cons_ne_nil _ _, rfl, ?_⟩,
      fun hk => by cases hk⟩
    exact List.forall_mem_cons.2 ⟨hc, fun x => List.mem_takeWhile_imp⟩
  | dollar hb =>
    exact ⟨hi, (fun hk => by cases hk), fun _ => ⟨_, rfl, fun x => List.mem_takeWhile_imp⟩⟩
  | punctuation hp => exact .of_plain hi (punctuation?_plain hp).2
  | number hn => exact .of_plain hi (by simp [scanNumber_kind hn])
  | word hc hb => exact .of_plain hi (wordKind_plain _).2
  | _ => exact .of_plain hi (by simp)

/-! ## Actions -/

/-- Where no run of spaces could go on, the tokens of an action do not start with a space. -/
theorem ActionReads.front {right text : List Char} {depth pos : Nat} {action : List Token}
    {next : Place} (h : ActionReads right depth pos text action next)
    (hs : SpaceEnds right text) : ∀ t ∈ action.head?, t.kind ≠ .space := by
  cases h with
  | close hc =>
    obtain ⟨trim, -, htoken, -⟩ := closing?_eq_some hc
    rintro t ⟨⟩
    simp [htoken]
  | token hc hscan hd h =>
    rintro t ⟨⟩ hk
    -- A marker would have closed the action, so a character that is no space is next.
    have hmarker : afterTrimmedRight? right text = none := by
      unfold closing? at hc
      split at hc
      next => cases hc
      next hnone => exact hnone
    rcases hs with hbare | hsome
    · exact (scan_space hscan hk).1 hbare
    · rw [hmarker] at hsome
      cases hsome

/-- The tokens of an action after its left delimiter, with some parentheses open before them. -/
theorem ActionReads.shape {right text : List Char} {depth pos : Nat} {action : List Token}
    {next : Place} (h : ActionReads right depth pos text action next) :
    ∃ inside close, action = inside ++ [close] ∧ close.kind = .rightDelim ∧
      (∀ t ∈ inside, t.IsInside) ∧ Closes depth inside ∧ action.IsChain Token.Apart := by
  induction h with
  | @close pos text closing hc =>
    obtain ⟨trim, -, htoken, -⟩ := closing?_eq_some hc
    exact ⟨[], closing.token, rfl, by rw [htoken], by simp, .nil, List.isChain_singleton _⟩
  | @token depth depth' pos text s tokens next hc hscan hd h ih =>
    obtain ⟨inside, close, rfl, hclose, hinside, hcloses, hchain⟩ := ih
    refine ⟨⟨s.kind, s.lexeme, pos⟩ :: inside, close, rfl, hclose,
      List.forall_mem_cons.2 ⟨scan_isInside hscan pos, hinside⟩, .cons hd hcloses,
      List.isChain_cons.2 ⟨?_, hchain⟩⟩
    rintro u hu ⟨hk, hspace⟩
    exact h.front (scan_space hscan hk).2 u hu hspace

/-! ## Texts -/

/-- A pattern that is not found does not occur. -/
theorem not_infix_of_splitFirst?_eq_none {pattern text : List Char}
    (h : splitFirst? pattern text = none) : ¬ pattern <:+: text := by
  induction text with
  | nil =>
    intro hin
    obtain rfl := List.infix_nil.1 hin
    simp [splitFirst?] at h
  | cons c rest ih =>
    rw [splitFirst?] at h
    split at h
    next => cases h
    next hnone =>
      intro hin
      rcases List.infix_cons_iff.1 hin with ⟨tail, htail⟩ | hin
      · rw [← htail, afterPrefix?_append] at hnone
        cases hnone
      · exact ih (Option.map_eq_none_iff.1 h) hin

/-- An empty pattern occurs at once. -/
theorem splitFirst?_nil (text : List Char) : splitFirst? [] text = some ([], text) := by
  cases text <;> rfl

/-- The text before the first action does not hold the left delimiter. -/
theorem opening?_text {left text : List Char} {pos : Nat} {o : Opening}
    (h : opening? left pos text = some o) :
    ∃ before, o.text = textToken pos before ∧ (before ≠ [] → ¬ left <:+: before) := by
  obtain ⟨⟨before, after⟩, hsplit, rfl⟩ := Option.map_eq_some_iff.1 h
  have hbefore : before ≠ [] → ¬ left <:+: before := by
    intro hne
    by_cases hl : left = []
    · rw [hl, splitFirst?_nil] at hsplit
      cases hsplit
      exact absurd rfl hne
    · exact splitFirst?_not_infix hl hsplit
  dsimp only
  split
  next =>
    -- Trimming leaves a beginning of the text, and that has no delimiter in it either.
    have htrim : trimEnd isSpace before <+: before := List.rdropWhile_prefix isSpace before
    refine ⟨trimEnd isSpace before, rfl, fun hne hin => ?_⟩
    refine hbefore (fun hnil => hne ?_) (hin.trans htrim.isInfix)
    rw [hnil] at htrim ⊢
    exact List.prefix_nil.1 htrim
  next => exact ⟨before, rfl, hbefore⟩

/-- A shape goes on after a piece of text. -/
theorem TokenStream.textToken {d : Delimiters} {text : List Char} {tokens : List Token} (pos : Nat)
    (hl : text ≠ [] → ¬ d.left <:+: text) (h : TokenStream d tokens) :
    TokenStream d (textToken pos text ++ tokens) := by
  cases text with
  | nil => exact h
  | cons c rest =>
    have hne := List.cons_ne_nil c rest
    exact .text (t := ⟨.text, c :: rest, pos⟩) rfl hne (hl hne) h

/-- Text tokens stand apart from what follows. -/
theorem isChain_textToken (pos : Nat) (text : List Char) {tokens : List Token}
    (h : tokens.IsChain Token.Apart) : (textToken pos text ++ tokens).IsChain Token.Apart := by
  cases text with
  | nil => exact h
  | cons c rest => exact isChain_cons_of_ne_space (t := ⟨.text, c :: rest, pos⟩) (by simp) h

/-! ## Templates -/

/-- The tokens of a text form a stream in which spaces stand apart. -/
theorem TextReads.stream {d : Delimiters} {pos : Nat} {text : List Char} {tokens : List Token}
    (h : TextReads d pos text tokens) : TokenStream d tokens ∧ tokens.IsChain Token.Apart := by
  induction h with
  | finished => exact ⟨.finished _, List.isChain_singleton _⟩
  | @text pos text hne ho =>
    have hnone := not_infix_of_splitFirst?_eq_none (Option.map_eq_none_iff.1 ho)
    exact ⟨.textToken pos (fun _ => hnone) (.finished _),
      isChain_textToken pos text (List.isChain_singleton _)⟩
  | @comment pos text comment o next rest hne ho hc hn h ih =>
    obtain ⟨hstream, hchain⟩ := ih
    obtain ⟨before, htext, hbefore⟩ := opening?_text ho
    rw [htext]
    exact ⟨.textToken pos hbefore hstream, isChain_textToken pos before hchain⟩
  | @action pos text o action rest next hne ho hc ha h ih =>
    obtain ⟨hstream, hchain⟩ := ih
    obtain ⟨before, htext, hbefore⟩ := opening?_text ho
    obtain ⟨_, _, -, -, hdelim, -⟩ := opening?_eq_some ho
    obtain ⟨inside, close, haction, hclose, hinside, hcloses, hspaces⟩ :=
      (actionTokens_eq_ok_iff.1 ha).shape
    have hopen : o.delimiter.kind = .leftDelim := by rw [hdelim]
    rw [htext]
    constructor
    · rw [haction, List.append_assoc]
      exact .textToken pos hbefore (.action hopen hinside hcloses hclose hstream)
    · refine isChain_textToken pos before (isChain_cons_of_ne_space (by simp [hopen]) ?_)
      refine List.isChain_append.2 ⟨hspaces, hchain, ?_⟩
      rw [haction, List.getLast?_concat]
      -- Before the seam stands the closing delimiter, which is no space.
      rintro t ⟨⟩ u - ⟨hk, -⟩
      rw [hclose] at hk
      cases hk

/-- The tokens of a template are texts and actions and then the end, and no two of them that stand
side by side are spaces. -/
theorem tokenize_stream {d : Delimiters} {source : List Char} {tokens : List Token}
    (h : tokenize d source = .ok tokens) : TokenStream d tokens ∧ tokens.IsChain Token.Apart :=
  (tokenize_reads h).stream

/-- A template with parentheses and a trimmed action has a stream of tokens. -/
theorem tokenize_stream_parentheses :
    ∃ tokens, tokenize {} "a\x7b\x7b (.B)  $ -\x7d\x7d c".toList = .ok tokens ∧
      tokens.map Token.kind = [.text, .leftDelim, .space, .leftParen, .field, .rightParen, .space,
        .variable, .rightDelim, .text, .eof] ∧
      TokenStream {} tokens ∧ tokens.IsChain Token.Apart := by
  have h : tokenize {} "a\x7b\x7b (.B)  $ -\x7d\x7d c".toList = .ok
      [⟨.text, ['a'], 0⟩, ⟨.leftDelim, ['\x7b', '\x7b'], 1⟩, ⟨.space, [' '], 3⟩,
       ⟨.leftParen, ['('], 4⟩, ⟨.field, ['.', 'B'], 5⟩, ⟨.rightParen, [')'], 7⟩,
       ⟨.space, [' ', ' '], 8⟩, ⟨.variable, ['$'], 10⟩, ⟨.rightDelim, ['\x7d', '\x7d'], 13⟩,
       ⟨.text, ['c'], 16⟩, .eof 17] := by
    decide +kernel
  exact ⟨_, h, rfl, tokenize_stream h⟩

end FieldAudit.Template
