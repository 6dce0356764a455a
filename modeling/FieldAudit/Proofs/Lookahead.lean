import FieldAudit.Proofs.Lossless

/-! # How far tokens look ahead

A token inside an action looks at what follows it, but never past the right delimiter of its action.
So a text in which an action is closed can go on in any way: its tokens stay the same
(`scan_extend`).  The delimiters are the default ones here. -/

namespace FieldAudit.Template

open Text

/-- The default right delimiter. -/
def braces : List Char := ['\x7d', '\x7d']

/-! ## Parts of longer texts -/

/-- A prefix is looked for in no more text than it is long. -/
theorem afterPrefix?_extend {expected text : List Char} (h : expected.length ≤ text.length)
    (more : List Char) :
    afterPrefix? expected (text ++ more) = (afterPrefix? expected text).map (· ++ more) := by
  by_cases hp : expected <+: text
  · obtain ⟨rest, rfl⟩ := hp
    rw [List.append_assoc, afterPrefix?_append, afterPrefix?_append]
    rfl
  · have hnone {text : List Char} (hn : ¬ expected <+: text) : afterPrefix? expected text = none :=
      if_neg (by rwa [List.isPrefixOf_iff_prefix])
    have hq : ¬ expected <+: text ++ more := fun hq =>
      hp (List.prefix_of_prefix_length_le hq (List.prefix_append text more) h)
    rw [hnone hp, hnone hq]
    rfl

/-- The first occurrence of a pattern stays the first when the text grows. -/
theorem splitFirst?_extend {pattern text before after : List Char}
    (h : splitFirst? pattern text = some (before, after)) (more : List Char) :
    splitFirst? pattern (text ++ more) = some (before, after ++ more) := by
  induction text generalizing before after with
  | nil =>
    simp only [splitFirst?] at h
    split at h
    next hp =>
      cases h
      rw [List.isEmpty_iff.1 hp]
      cases more with
      | nil => rfl
      | cons c more => rfl
    next => cases h
  | cons c rest ih =>
    -- The pattern is found in the text, so at each place up to there it fits into what is left.
    have hlen : pattern.length ≤ (c :: rest).length := by
      rw [splitFirst?_eq_some h]
      simp only [List.length_append]
      omega
    simp only [splitFirst?] at h
    rw [List.cons_append, splitFirst?, ← List.cons_append, afterPrefix?_extend hlen]
    cases hp : afterPrefix? pattern (c :: rest) with
    | some tail =>
      rw [hp] at h
      cases h
      rfl
    | none =>
      rw [hp] at h
      obtain ⟨⟨b, a⟩, hb, he⟩ := Option.map_eq_some_iff.1 h
      cases he
      simp only [Option.map_none, ih hb, Option.map_some]

/-- A quoted span that closes does not depend on what follows it. -/
theorem spanQuoted_extend {quote : Char} (hq : quote ≠ '\\') {text : List Char}
    {parts : List Char × List Char} (h : spanQuoted quote text = some parts) (more : List Char) :
    spanQuoted quote (text ++ more) = some (parts.1, parts.2 ++ more) := by
  obtain ⟨body, hbody, hb⟩ := spanQuoted_body h
  have htext : text ++ more = body ++ quote :: (parts.2 ++ more) := by
    rw [← spanQuoted_append h, hbody]
    simp
  rw [htext, spanQuoted_of_body hq hb, hbody]

/-- A raw span that closes does not depend on what follows it. -/
theorem spanRaw_extend {text : List Char} {parts : List Char × List Char}
    (h : spanRaw text = some parts) (more : List Char) :
    spanRaw (text ++ more) = some (parts.1, parts.2 ++ more) := by
  obtain ⟨⟨body, rest⟩, hbody, rfl⟩ := Option.map_eq_some_iff.1 h
  rw [spanRaw, splitFirst?_extend hbody]
  rfl

/-- A span that stops before the end stops there when the text grows. -/
theorem spanWhile_extend {p : Char → Bool} {text : List Char} (h : (spanWhile p text).2 ≠ [])
    (more : List Char) :
    spanWhile p (text ++ more) = ((spanWhile p text).1, (spanWhile p text).2 ++ more) := by
  induction text with
  | nil => exact absurd rfl h
  | cons c rest ih =>
    by_cases hc : p c = true
    · have hrest : (spanWhile p rest).2 ≠ [] := by
        simpa [spanWhile, hc] using h
      have ih := ih hrest
      simp only [spanWhile, Prod.mk.injEq] at ih ⊢
      simp [hc, ih]
    · simp [spanWhile, hc]

/-- A span of at most one character looks at one character. -/
theorem spanOne_extend (p : Char → Bool) {text : List Char} (h : text ≠ []) (more : List Char) :
    spanOne p (text ++ more) = ((spanOne p text).1, (spanOne p text).2 ++ more) := by
  cases text with
  | nil => exact absurd rfl h
  | cons c rest => by_cases hc : p c <;> simp [spanOne, hc]

/-! ## Numbers -/

/-- The base of a number shows in two characters. -/
theorem spanBase_extend {text : List Char} (h : 2 ≤ text.length) (more : List Char) :
    spanBase (text ++ more) =
      ((spanBase text).1, (spanBase text).2.1, (spanBase text).2.2 ++ more) := by
  match text, h with
  | c :: letter :: rest, _ =>
    by_cases hc : c = '0'
    · subst hc
      simp only [List.cons_append, spanBase]
      cases Base.ofLetter? letter <;> rfl
    · have hplain (tail : List Char) :
          spanBase (c :: letter :: tail) = ([], .decimal, c :: letter :: tail) := by
        rw [spanBase]
        intro _ _ he
        exact absurd (List.cons.inj he).1 hc
      rw [List.cons_append, List.cons_append, hplain, hplain]
      rfl

/-- A fraction that stops before the end stops there when the text grows. -/
theorem spanFraction_extend {base : Base} {text : List Char}
    (h : (spanFraction base text).2 ≠ []) (more : List Char) :
    spanFraction base (text ++ more) =
      ((spanFraction base text).1, (spanFraction base text).2 ++ more) := by
  cases text with
  | nil => exact absurd rfl h
  | cons c rest =>
    by_cases hc : c = '.'
    · subst hc
      simp only [spanFraction] at h
      simp only [List.cons_append, spanFraction, spanWhile_extend h]
    · have hplain (tail : List Char) : spanFraction base (c :: tail) = ([], c :: tail) := by
        rw [spanFraction]
        intro _ he
        exact absurd (List.cons.inj he).1 hc
      rw [List.cons_append, hplain, hplain]
      rfl

/-- An exponent that stops before the end stops there when the text grows. -/
theorem spanExponent_extend {base : Base} {text : List Char}
    (h : (spanExponent base text).2 ≠ []) (more : List Char) :
    spanExponent base (text ++ more) =
      ((spanExponent base text).1, (spanExponent base text).2 ++ more) := by
  cases text with
  | nil => exact absurd rfl h
  | cons c rest =>
    simp only [List.cons_append, spanExponent] at h ⊢
    by_cases hc : base.isExponentMark c = true
    · rw [if_pos hc] at h
      simp only [if_pos hc]
      have hrest : rest ≠ [] := by
        rintro rfl
        exact h rfl
      rw [spanOne_extend _ hrest, spanWhile_extend h]
    · simp only [if_neg hc]
      rfl

/-- A number with two more characters behind it does not depend on what follows those. -/
theorem spanNumber_extend {text : List Char} (h : 2 ≤ (spanNumber text).2.length)
    (more : List Char) :
    spanNumber (text ++ more) = ((spanNumber text).1, (spanNumber text).2 ++ more) := by
  have rest_le {taken rest text : List Char} (happ : taken ++ rest = text)
      (hr : 2 ≤ rest.length) : 2 ≤ text.length := by
    rw [← happ, List.length_append]
    omega
  have ne_nil {rest : List Char} (hr : 2 ≤ rest.length) : rest ≠ [] := by
    rintro rfl
    cases hr
  -- What is left at the end is left after each of the pieces.
  unfold spanNumber at h ⊢
  dsimp only at h ⊢
  have hexponent := rest_le (spanOne_append _ _) h
  have hfraction := rest_le (spanExponent_append _ _) hexponent
  have hwhole := rest_le (spanFraction_append _ _) hfraction
  have hbase := rest_le (spanWhile_append _ _) hwhole
  have hsign := rest_le (spanBase_append _) hbase
  have htext := rest_le (spanOne_append _ _) hsign
  simp only [spanOne_extend _ (ne_nil htext), spanBase_extend hsign,
    spanWhile_extend (ne_nil hwhole), spanFraction_extend (ne_nil hfraction),
    spanExponent_extend (ne_nil hexponent), spanOne_extend _ (ne_nil hexponent)]

/-! ## Tokens -/

/-- The same token, read from a text that goes on. -/
def Scan.extend (s : Scan) (more : List Char) : Scan :=
  { s with rest := s.rest ++ more }

/-- Whether a word may end is told by the two characters behind it. -/
theorem badFollower?_extend {text : List Char} (h : 2 ≤ text.length) (more : List Char) :
    badFollower? braces (text ++ more) = badFollower? braces text := by
  match text, h with
  | c :: d :: rest, _ =>
    have hp : braces.isPrefixOf (c :: d :: rest ++ more) = braces.isPrefixOf (c :: d :: rest) := by
      simp [braces, List.isPrefixOf]
    rw [List.cons_append] at hp ⊢
    rw [badFollower?, badFollower?, hp]

/-- A word with two more characters behind it is scanned alike when the text grows. -/
theorem scanWord_extend {taken rest : List Char} {kind : Token.Kind} {s : Scan}
    (h : scanWord braces kind (taken, rest) = .ok s) (hr : 2 ≤ s.rest.length) (more : List Char) :
    scanWord braces kind (taken, rest ++ more) = .ok (s.extend more) := by
  obtain rfl := scanWord_eq_ok h
  unfold scanWord at h ⊢
  dsimp only at h hr ⊢
  rw [badFollower?_extend hr]
  cases hb : badFollower? braces rest with
  | some c => rw [hb] at h; cases h
  | none => rfl

/-- A word that is not the end of the text leaves something of it. -/
theorem ne_nil_of_scanWord {right taken rest : List Char} {kind : Token.Kind} {s : Scan}
    (h : scanWord right kind (taken, rest) = .ok s) (hr : 2 ≤ s.rest.length) : rest ≠ [] := by
  rintro rfl
  rw [scanWord_eq_ok h] at hr
  cases hr

/-- A number with two more characters behind it is scanned alike when the text grows. -/
theorem scanNumber_extend {text : List Char} {s : Scan} (h : scanNumber text = .ok s)
    (hr : 2 ≤ s.rest.length) (more : List Char) :
    scanNumber (text ++ more) = .ok (s.extend more) := by
  unfold scanNumber at h ⊢
  dsimp only at h ⊢
  split at h
  next hnumber =>
    cases h
    dsimp only at hr
    rw [spanNumber_extend hr]
    dsimp only
    -- Only the next character tells whether a word follows.
    have hword : ((spanNumber text).2 ++ more).takeWhile isWordChar =
        (spanNumber text).2.takeWhile isWordChar := by
      rw [Bool.and_eq_true, List.isEmpty_iff] at hnumber
      cases hrest : (spanNumber text).2 with
      | nil => rw [hrest] at hr; cases hr
      | cons c rest =>
        rw [hrest] at hnumber
        have hc : isWordChar c = false := by
          by_contra hc
          rw [Bool.not_eq_false] at hc
          rw [List.takeWhile_cons_of_pos hc] at hnumber
          cases hnumber.2
        rw [List.cons_append, List.takeWhile_cons_of_neg (by simp [hc]),
          List.takeWhile_cons_of_neg (by simp [hc])]
    rw [hword, if_pos hnumber]
    rfl
  next => cases h

/-- What begins with a dot and has two more characters behind it is scanned alike when the text
grows. -/
theorem scanDot_extend {rest : List Char} {s : Scan} (h : scanDot braces rest = .ok s)
    (hr : 2 ≤ s.rest.length) (more : List Char) :
    scanDot braces (rest ++ more) = .ok (s.extend more) := by
  cases rest with
  | nil => cases h; cases hr
  | cons c rest =>
    unfold scanDot at h ⊢
    rw [List.cons_append]
    dsimp only at h ⊢
    by_cases hd : c.isDigit = true
    · rw [if_pos hd] at h ⊢
      exact scanNumber_extend h hr more
    · rw [if_neg hd] at h ⊢
      by_cases hw : isWordChar c = true
      · rw [if_pos hw] at h ⊢
        rw [← List.cons_append, spanWhile_extend (ne_nil_of_scanWord h hr)]
        exact scanWord_extend h hr more
      · rw [if_neg hw] at h ⊢
        cases h
        rfl

/-- A text that holds the default right delimiter has at least two characters. -/
theorem two_le_length {text : List Char} (h : braces <:+: text) : 2 ≤ text.length :=
  h.length_le

/-- Neither a minus nor the character before it belongs to a right delimiter. -/
theorem braces_infix_of_minus {c : Char} {rest : List Char} (h : braces <:+: c :: '-' :: rest) :
    braces <:+: rest := by
  rcases List.infix_cons_iff.1 h with hp | h
  · simp [braces, List.cons_prefix_cons] at hp
  · rcases List.infix_cons_iff.1 h with hp | h
    · simp [braces, List.cons_prefix_cons] at hp
    · exact h

/-- The trimmed right delimiter is looked for no further than the delimiter. -/
theorem afterTrimmedRight?_extend {text : List Char} (h : braces <:+: text) (more : List Char) :
    afterTrimmedRight? braces (text ++ more) =
      (afterTrimmedRight? braces text).map (· ++ more) := by
  -- Two characters tell whether there is a marker, and behind one the braces still lie in the text.
  match text, two_le_length h with
  | c :: d :: rest, _ =>
    by_cases hd : d = '-'
    · subst hd
      simp only [List.cons_append, afterTrimmedRight?]
      by_cases hc : isSpace c = true
      · rw [if_pos hc, if_pos hc, afterPrefix?_extend (braces_infix_of_minus h).length_le]
      · rw [if_neg hc, if_neg hc]
        rfl
    · have hnone (tail : List Char) : afterTrimmedRight? braces (c :: d :: tail) = none := by
        rw [afterTrimmedRight?]
        rintro _ _ ⟨⟩
        exact hd rfl
      rw [List.cons_append, List.cons_append, hnone, hnone]
      rfl

/-- Spaces are read up to the same place, if the action is closed after them. -/
theorem spanSpace_extend {text : List Char} (h : braces <:+: (spanSpace braces text).2)
    (more : List Char) :
    spanSpace braces (text ++ more) =
      ((spanSpace braces text).1, (spanSpace braces text).2 ++ more) := by
  induction text with
  | nil => simp [spanSpace, braces] at h
  | cons c rest ih =>
    -- A space ends the run if it is a marker, and that is seen before the braces.
    have htext : braces <:+: c :: rest := by
      rw [← spanSpace_append braces (c :: rest)]
      exact h.trans (List.suffix_append _ _).isInfix
    have hmarker := afterTrimmedRight?_extend htext more
    rw [List.cons_append] at hmarker ⊢
    simp only [spanSpace] at h ⊢
    rw [hmarker, Option.isNone_map]
    by_cases hc : (isSpace c && (afterTrimmedRight? braces (c :: rest)).isNone) = true
    · rw [if_pos hc] at h ⊢
      rw [if_pos hc, ih h]
    · rw [if_neg hc, if_neg hc]
      rfl

/-- The token at the front of a text in which its action is closed does not depend on how the text
goes on after that. -/
theorem scan_extend {text : List Char} {s : Scan} (h : scan braces text = .ok s)
    (hr : braces <:+: s.rest) (more : List Char) :
    scan braces (text ++ more) = .ok (s.extend more) := by
  have hlen : 2 ≤ s.rest.length := two_le_length hr
  cases text with
  | nil => cases h
  | cons c rest =>
    rw [List.cons_append]
    unfold scan at h ⊢
    dsimp only at h ⊢
    by_cases hspace : isSpace c = true
    · rw [if_pos hspace] at h ⊢
      cases h
      rw [spanSpace_extend hr]
      rfl
    rw [if_neg hspace] at h ⊢
    cases hp : punctuation? c with
    | some kind =>
      rw [hp] at h
      cases h
      rfl
    | none =>
      rw [hp] at h
      dsimp only at h ⊢
      by_cases hcolon : c = ':'
      · rw [if_pos hcolon] at h ⊢
        split at h
        next tail => cases h; rfl
        next => cases h
      rw [if_neg hcolon] at h ⊢
      -- A closing quote stands before the right delimiter.
      by_cases hdouble : c = doubleQuote
      · rw [if_pos hdouble] at h ⊢
        obtain ⟨parts, hparts, rfl⟩ := scanQuoted_eq_ok h
        rw [spanQuoted_extend (by decide) hparts]
        rfl
      rw [if_neg hdouble] at h ⊢
      by_cases hback : c = backquote
      · rw [if_pos hback] at h ⊢
        obtain ⟨parts, hparts, rfl⟩ := scanQuoted_eq_ok h
        rw [spanRaw_extend hparts]
        rfl
      rw [if_neg hback] at h ⊢
      by_cases hsingle : c = singleQuote
      · rw [if_pos hsingle] at h ⊢
        obtain ⟨parts, hparts, rfl⟩ := scanQuoted_eq_ok h
        rw [spanQuoted_extend (by decide) hparts]
        rfl
      rw [if_neg hsingle] at h ⊢
      -- Words and numbers end before the right delimiter.
      by_cases hdollar : c = '$'
      · rw [if_pos hdollar] at h ⊢
        rw [spanWhile_extend (ne_nil_of_scanWord h hlen)]
        exact scanWord_extend h hlen more
      rw [if_neg hdollar] at h ⊢
      by_cases hdot : c = '.'
      · rw [if_pos hdot] at h ⊢
        exact scanDot_extend h hlen more
      rw [if_neg hdot] at h ⊢
      by_cases hnumber : (Literal.isSign c || c.isDigit) = true
      · rw [if_pos hnumber] at h ⊢
        exact scanNumber_extend h hlen more
      rw [if_neg hnumber] at h ⊢
      by_cases hword : isWordChar c = true
      · rw [if_pos hword] at h ⊢
        rw [← List.cons_append, spanWhile_extend (ne_nil_of_scanWord h hlen)]
        exact scanWord_extend h hlen more
      · rw [if_neg hword] at h
        cases h

end FieldAudit.Template
