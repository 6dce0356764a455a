import FieldAudit.Proofs.Lookahead
import FieldAudit.Proofs.TrimMarker

/-! # Tokens from one action to the next

The tokens of a text after an action are those of that text on its own, moved by what stands before
it (`tokenize_after_action`).  A trim marker at the end of the action takes the spaces off the text
that follows, and nothing else crosses the boundary: what comes before it does not look past it
(`tokensFrom_extend`), and offsets only move along (`tokensFrom_shift`). -/

namespace FieldAudit.Template

open Text

/-! ## Moving tokens -/

/-- A token that stands further on by a number of bytes. -/
def Token.shift (n : Nat) (t : Token) : Token :=
  { t with pos := t.pos + n }

/-- An error that shows further on by a number of bytes. -/
def Error.shift (n : Nat) (e : Error) : Error :=
  { e with pos := e.pos + n }

/-- A place further on by a number of bytes. -/
def Place.shift (n : Nat) (place : Place) : Place :=
  { place with pos := place.pos + n }

/-- The first action of a text that stands further on. -/
def Opening.shift (n : Nat) (o : Opening) : Opening :=
  ⟨o.text.map (Token.shift n), o.delimiter.shift n, o.inside.shift n⟩

/-- A closing delimiter that stands further on. -/
def Closing.shift (n : Nat) (c : Closing) : Closing :=
  ⟨c.token.shift n, c.next.shift n⟩

/-- A closing delimiter is found whatever the position counts from. -/
theorem closing?_shift (right : List Char) (pos n : Nat) (text : List Char) :
    closing? right (pos + n) text = (closing? right pos text).map (Closing.shift n) := by
  unfold closing?
  cases afterTrimmedRight? right text with
  | some rest =>
    simp only [Option.map_some, Closing.shift, Token.shift, Place.shift, Place.skipSpace,
      Place.advance, Option.some.injEq, Closing.mk.injEq, Token.mk.injEq, Place.mk.injEq, true_and,
      and_true]
    omega
  | none =>
    cases afterPrefix? right text with
    | none => rfl
    | some rest =>
      simp only [Option.map_some, Closing.shift, Token.shift, Place.shift, Place.advance,
        Option.some.injEq, Closing.mk.injEq, Place.mk.injEq, true_and, and_true]
      omega

/-- The token of a stretch of text moves with the position it starts at. -/
theorem textToken_shift (pos n : Nat) (text : List Char) :
    textToken (pos + n) text = (textToken pos text).map (Token.shift n) := by
  cases text <;> rfl

/-- The opening of the next action moves with the position the text starts at. -/
theorem opening?_shift (left : List Char) (pos n : Nat) (text : List Char) :
    opening? left (pos + n) text = (opening? left pos text).map (Opening.shift n) := by
  unfold opening?
  cases splitFirst? left text with
  | none => rfl
  | some parts =>
    obtain ⟨before, after⟩ := parts
    simp only [Option.map_some, Option.some.injEq]
    cases afterLeftTrim? after with
    | some inside =>
      simp only [Opening.shift, Token.shift, Place.shift, Token.stop, textToken_shift,
        Opening.mk.injEq, Token.mk.injEq, Place.mk.injEq, true_and, and_true]
      omega
    | none =>
      simp only [Opening.shift, Token.shift, Place.shift, Token.stop, textToken_shift,
        Opening.mk.injEq, Token.mk.injEq, Place.mk.injEq, true_and, and_true]
      omega

/-- What follows a comment moves with the position the comment starts at. -/
theorem afterComment_shift (right : List Char) (pos n : Nat) (text : List Char) :
    afterComment right (pos + n) text = (afterComment right pos text).map (Place.shift n) := by
  unfold afterComment
  cases splitFirst? commentClose text with
  | none => rfl
  | some parts =>
    obtain ⟨body, rest⟩ := parts
    have hpos : pos + n + byteLength body + 2 = pos + byteLength body + 2 + n := by omega
    simp only
    rw [hpos, closing?_shift]
    cases closing? right (pos + byteLength body + 2) rest <;> rfl

/-- The tokens of an action, its end and its errors all move with the position it starts at. -/
theorem actionTokens_shift (right : List Char) (depth pos n : Nat) (text : List Char) :
    actionTokens right depth (pos + n) text =
      ((actionTokens right depth pos text).map fun result =>
        (result.1.map (Token.shift n), result.2.shift n)).mapError (Error.shift n) := by
  -- Four ways to stop here and two to go on behind a token; only the last two need the induction
  -- hypothesis.
  fun_induction actionTokens right depth pos text with
  | case1 pos text closing hc =>
    rw [actionTokens_eq, closing?_shift, hc]
    rfl
  | case2 depth pos text closing hc hd =>
    rw [actionTokens_eq, closing?_shift, hc]
    simp only [Option.map_some, if_neg hd]
    rfl
  | case3 depth pos text hc cause hs =>
    rw [actionTokens_eq, closing?_shift, hc, hs]
    rfl
  | case4 depth pos text hc s hs hd =>
    rw [actionTokens_eq, closing?_shift, hc, hs]
    simp only [Option.map_none, hd]
    rfl
  | case5 depth pos text hc s hs depth' hd e hr ih =>
    rw [actionTokens_eq, closing?_shift, hc, hs]
    simp only [Option.map_none, hd]
    rw [Nat.add_right_comm, ih, hr]
    rfl
  | case6 depth pos text hc s hs depth' hd inner next hr ih =>
    rw [actionTokens_eq, closing?_shift, hc, hs]
    simp only [Option.map_none, hd]
    rw [Nat.add_right_comm, ih, hr]
    rfl

/-- The tokens of a text that stands further on are the same, further on. -/
theorem tokensFrom_shift (d : Delimiters) (visible : d.Visible) (pos n : Nat) (text : List Char) :
    tokensFrom d visible (pos + n) text =
      ((tokensFrom d visible pos text).map (List.map (Token.shift n))).mapError
        (Error.shift n) := by
  -- Each step finds the same further on, so that the recursion goes on further on, too.
  have ho' {pos : Nat} {text : List Char} {o : Opening} (ho : opening? d.left pos text = some o) :
      opening? d.left (pos + n) text = some (o.shift n) := by
    rw [opening?_shift, ho]
    rfl
  have hn' {pos : Nat} {comment : List Char} {next : Place}
      (hn : afterComment d.right (pos + 2) comment = .ok next) :
      afterComment d.right (pos + n + 2) comment = .ok (next.shift n) := by
    rw [Nat.add_right_comm, afterComment_shift, hn]
    rfl
  have ha' {pos : Nat} {inside : List Char} {action : List Token × Place}
      (ha : actionTokens d.right 0 pos inside = .ok action) :
      actionTokens d.right 0 (pos + n) inside =
        .ok (action.1.map (Token.shift n), action.2.shift n) := by
    rw [actionTokens_shift, ha]
    rfl
  fun_induction tokensFrom d visible pos text with
  | case1 pos text he =>
    rw [tokensFrom_eq, if_pos he]
    rfl
  | case2 pos text he ho =>
    rw [tokensFrom_eq, if_neg he, opening?_shift, ho]
    simp only [Option.map_none, Except.map, Except.mapError, List.map_append, textToken_shift,
      List.map_cons, List.map_nil, Token.shift, Token.eof, Nat.add_right_comm]
  | case3 pos text he o ho comment hc cause hn =>
    rw [tokensFrom_eq, if_neg he, opening?_shift, ho]
    dsimp only [Option.map_some, Opening.shift, Place.shift]
    rw [hc]
    dsimp only
    rw [Nat.add_right_comm, afterComment_shift, hn]
    rfl
  | case4 pos text he o ho comment hc next hn e hr ih =>
    rw [tokensFrom_comment he (ho' ho) hc (hn' hn)]
    dsimp only [Place.shift]
    rw [ih, hr]
    rfl
  | case5 pos text he o ho comment hc next hn rest hr ih =>
    rw [tokensFrom_comment he (ho' ho) hc (hn' hn)]
    dsimp only [Place.shift]
    rw [ih, hr]
    dsimp only [Except.map, Except.mapError, Opening.shift]
    rw [List.map_append]
  | case6 pos text he o ho hc e ha =>
    rw [tokensFrom_eq, if_neg he, opening?_shift, ho]
    dsimp only [Option.map_some, Opening.shift, Place.shift]
    rw [hc]
    dsimp only
    rw [actionTokens_shift, ha]
    rfl
  | case7 pos text he o ho hc action ha e hr ih =>
    rw [tokensFrom_action he (ho' ho) hc (ha' ha)]
    dsimp only [Place.shift]
    rw [ih, hr]
    rfl
  | case8 pos text he o ho hc action ha rest hr ih =>
    rw [tokensFrom_action he (ho' ho) hc (ha' ha)]
    dsimp only [Place.shift]
    rw [ih, hr]
    dsimp only [Except.map, Except.mapError, Opening.shift]
    rw [List.map_append, List.map_cons, List.map_append]

/-! ## Texts that go on after an action -/

/-- Where a text goes on after an action: past the spaces, if its right delimiter has a marker. -/
def Place.resume (marked : Bool) (place : Place) : Place :=
  if marked then place.skipSpace else place

/-- Where a text goes on is followed by what the text has more, if anything is left there or what
follows starts with no space. -/
theorem Place.resume_extend {marked : Bool} {pos : Nat} {after more : List Char}
    (h : (Place.resume marked ⟨pos, after⟩).rest ≠ [] ∨ more.dropWhile isSpace = more) :
    Place.resume marked ⟨pos, after ++ more⟩ =
      ⟨(Place.resume marked ⟨pos, after⟩).pos,
        (Place.resume marked ⟨pos, after⟩).rest ++ more⟩ := by
  cases marked with
  | false => rfl
  | true =>
    have hdrop : (after ++ more).dropWhile isSpace = after.dropWhile isSpace ++ more := by
      by_cases hrest : after.dropWhile isSpace = []
      · have hmore := h.resolve_left fun hne => hne hrest
        rw [List.dropWhile_append, hrest]
        simpa using hmore
      · rw [List.dropWhile_append, if_neg (by simpa using hrest)]
    have htake : (after ++ more).takeWhile isSpace = after.takeWhile isSpace := by
      have hsplit := List.takeWhile_append_dropWhile (p := isSpace) (l := after ++ more)
      rw [hdrop, ← List.append_assoc] at hsplit
      have hafter := List.append_cancel_right hsplit
      exact List.append_cancel_right
        (hafter.trans (List.takeWhile_append_dropWhile (p := isSpace) (l := after)).symm)
    simp only [resume, if_true, skipSpace, advance, hdrop, htake]

/-- A right delimiter is the same however the text goes on, and its marker stands before it. -/
theorem closing?_extend {text front : List Char} {pos : Nat} {c : Closing}
    (h : closing? braces pos text = some c) (hf : endsInMarker front = false) :
    ∃ marker after, text = marker ++ (braces ++ after) ∧
      c.token = ⟨.rightDelim, braces, pos + byteLength marker⟩ ∧
      ∀ more, closing? braces pos (text ++ more) =
        some ⟨c.token, .resume (endsInMarker (front ++ marker)) ⟨c.token.stop, after ++ more⟩⟩ := by
  unfold closing? at h
  cases ht : afterTrimmedRight? braces text with
  | some rest =>
    rw [ht] at h
    cases h
    -- With a marker: it is the space and the minus before the delimiter.
    obtain ⟨space, hspace, htext⟩ := afterTrimmedRight?_eq_some ht
    have hbraces : braces <:+: text := ⟨[space, '-'], rest, by simp [htext]⟩
    have hmarker : byteLength [space, '-'] = 2 := by
      simp [utf8Size_of_isSpace hspace]
      rfl
    refine ⟨[space, '-'], rest, htext, by rw [hmarker], fun more => ?_⟩
    rw [closing?, afterTrimmedRight?_extend hbraces, ht, endsInMarker_append, hspace]
    rfl
  | none =>
    rw [ht] at h
    -- Without one, whatever stands in front must not end in a marker either.
    obtain ⟨rest, hr, rfl⟩ := Option.map_eq_some_iff.1 h
    have htext : text = braces ++ rest := afterPrefix?_eq_some hr
    have hbraces : braces <:+: text := ⟨[], rest, htext.symm⟩
    refine ⟨[], rest, htext, rfl, fun more => ?_⟩
    rw [closing?, afterTrimmedRight?_extend hbraces, ht, List.append_nil, hf, htext,
      List.append_assoc, afterPrefix?_append]
    rfl

/-- Text that holds the right delimiter but does not begin with it begins with it no more when it
grows: nothing behind it can complete a delimiter at its front. -/
theorem closing?_none_extend {text : List Char} {pos : Nat} (h : closing? braces pos text = none)
    (hbraces : braces <:+: text) (more : List Char) :
    closing? braces pos (text ++ more) = none := by
  unfold closing? at h ⊢
  rw [afterTrimmedRight?_extend hbraces]
  cases ht : afterTrimmedRight? braces text with
  | some rest => rw [ht] at h; cases h
  | none =>
    rw [ht] at h
    have hp : afterPrefix? braces text = none := Option.map_eq_none_iff.1 h
    dsimp only [Option.map_none]
    rw [afterPrefix?_extend hbraces.length_le, hp]
    rfl

/-- An action is the same however the text goes on after it. -/
theorem actionTokens_extend {text front : List Char} {depth pos : Nat} {action : List Token}
    {next : Place} (h : actionTokens braces depth pos text = .ok (action, next))
    (hf : endsInMarker front = false) :
    ∃ inside after, text = inside ++ (braces ++ after) ∧
      action.getLast? = some ⟨.rightDelim, braces, pos + byteLength inside⟩ ∧
      ∀ more, actionTokens braces depth pos (text ++ more) =
        .ok (action, .resume (endsInMarker (front ++ inside))
          (.advance pos (inside ++ braces) (after ++ more))) := by
  rw [actionTokens_eq_ok_iff] at h
  -- What has been read of the action goes into the text before it.
  induction h generalizing front with
  | @close pos text closing hc =>
    obtain ⟨marker, after, htext, htoken, hmore⟩ := closing?_extend hc hf
    refine ⟨marker, after, htext, by rw [htoken]; rfl, fun more => ?_⟩
    have hstop : closing.token.stop = pos + byteLength (marker ++ braces) := by
      rw [htoken, Token.stop, byteLength_append, Nat.add_assoc]
    rw [actionTokens_eq, hmore, hstop]
    rfl
  | @token depth depth' pos text s inner next hc hs hd h ih =>
    obtain ⟨inside, after, hrest, hlast, hmore⟩ := ih (scan_unmarked hs front)
    have hbraces : braces <:+: s.rest := ⟨inside, after, by rw [hrest, List.append_assoc]⟩
    have htext : text = s.lexeme ++ inside ++ (braces ++ after) := by
      rw [List.append_assoc, ← hrest, scan_append hs]
    refine ⟨s.lexeme ++ inside, after, htext, ?_, fun more => ?_⟩
    · rw [List.getLast?_cons, hlast, byteLength_append, Nat.add_assoc]
      rfl
    · have hbraces' : braces <:+: text :=
        hbraces.trans ⟨s.lexeme, [], by rw [List.append_nil, scan_append hs]⟩
      rw [actionTokens_eq, closing?_none_extend hc hbraces', scan_extend hs hbraces]
      dsimp only [Scan.extend]
      rw [hd]
      dsimp only
      rw [hmore, ← List.append_assoc front, List.append_assoc s.lexeme, Place.advance,
        Place.advance, byteLength_append s.lexeme, Nat.add_assoc]
      rfl

/-- An action leaves what follows it and what the text has more. -/
theorem actionTokens_extend_of_ne {text : List Char} {depth pos : Nat} {action : List Token}
    {next : Place} (h : actionTokens braces depth pos text = .ok (action, next)) (more : List Char)
    (hne : next.rest ≠ [] ∨ more.dropWhile isSpace = more) :
    actionTokens braces depth pos (text ++ more) = .ok (action, ⟨next.pos, next.rest ++ more⟩) := by
  have hnil : endsInMarker [] = false := rfl
  obtain ⟨inside, after, -, -, hmore⟩ := actionTokens_extend h hnil
  have hnext := hmore []
  rw [List.append_nil, List.append_nil, h] at hnext
  obtain rfl : next = _ := congrArg Prod.snd (Except.ok.inj hnext)
  rw [hmore, Place.advance, Place.resume_extend hne]
  rfl

/-- A comment leaves what follows it and what the text has more. -/
theorem afterComment_extend {text : List Char} {pos : Nat} {next : Place}
    (h : afterComment braces pos text = .ok next) (more : List Char)
    (hne : next.rest ≠ [] ∨ more.dropWhile isSpace = more) :
    afterComment braces pos (text ++ more) = .ok ⟨next.pos, next.rest ++ more⟩ := by
  unfold afterComment at h
  split at h
  next => cases h
  next body rest hb =>
    split at h
    next c hc =>
      have hnil : endsInMarker [] = false := rfl
      obtain ⟨marker, after, -, -, hmore⟩ := closing?_extend hc hnil
      have hnext := hmore []
      rw [List.append_nil, List.append_nil, hc] at hnext
      obtain rfl : next = _ := (Except.ok.inj h).symm.trans
        (congrArg Closing.next (Option.some.inj hnext))
      rw [afterComment, splitFirst?_extend hb]
      dsimp only
      rw [hmore, Place.resume_extend hne]
    next => cases h

/-- An action that opens well before the end of the text opens in the same way when the text grows.
-/
theorem opening?_extend {left text : List Char} {pos : Nat} {o : Opening}
    (h : opening? left pos text = some o) (hr : 2 ≤ o.inside.rest.length) (more : List Char) :
    opening? left pos (text ++ more) =
      some ⟨o.text, o.delimiter, ⟨o.inside.pos, o.inside.rest ++ more⟩⟩ := by
  obtain ⟨⟨before, after⟩, hsplit, rfl⟩ := Option.map_eq_some_iff.1 h
  rw [opening?, splitFirst?_extend hsplit]
  -- Two characters are enough to tell whether the left delimiter has a marker.
  have htrim : afterLeftTrim? (after ++ more) = (afterLeftTrim? after).map (· ++ more) := by
    have hlen : 2 ≤ after.length := by
      dsimp only at hr
      split at hr
      next inside hi =>
        obtain ⟨space, -, rfl⟩ := afterLeftTrim?_eq_some hi
        simp only [List.length_cons]
        omega
      next => exact hr
    match after, hlen with
    | c :: d :: rest, _ =>
      by_cases hc : c = '-'
      · subst hc
        by_cases hd : isSpace d = true <;> simp [afterLeftTrim?, hd]
      · have hnone (tail : List Char) : afterLeftTrim? (c :: d :: tail) = none := by
          rw [afterLeftTrim?]
          rintro _ _ ⟨⟩
          exact hc rfl
        rw [List.cons_append, List.cons_append, hnone, hnone]
        rfl
  simp only [Option.map_some, htrim]
  cases afterLeftTrim? after <;> rfl

/-! ## Templates that go on after an action -/

/-- The marker of a right delimiter stands inside the action: the left delimiter ends in none. -/
theorem endsInMarker_opening {text : List Char} {pos : Nat} {o : Opening}
    (h : opening? ({} : Delimiters).left pos text = some o) :
    ∃ front, text = front ++ o.inside.rest ∧ o.inside.pos = pos + byteLength front ∧
      ∀ before, endsInMarker (before ++ front) = false := by
  obtain ⟨before, trim, htext, -, hdelim, hinside, -⟩ := opening?_eq_some h
  refine ⟨before ++ (trimmed trim ++ (({} : Delimiters).left ++ leftMark trim)), ?_, ?_, ?_⟩
  · rw [htext]
    simp only [List.append_assoc]
  · rw [hinside, hdelim]
    simp only [Token.stop, byteLength_append]
    omega
  · intro earlier
    cases trim with
    | none =>
      refine endsInMarker_of_getLast? (c := '\x7b') ?_ (by decide)
      simp [leftMark, List.getLast?_append]
    | some trim =>
      refine endsInMarker_of_getLast? (c := trim.mark) ?_ ?_
      · simp [leftMark, List.getLast?_append]
      · intro hmark
        have hspace := trim.isSpace_mark
        rw [hmark] at hspace
        cases hspace

/-- Tokens that end with a right delimiter, where the text ends. -/
structure EndsInAction (pos : Nat) (text : List Char) (tokens : List Token) (close : Token) :
    Prop where
  last : tokens.getLast? = some close
  kind : close.kind = .rightDelim
  stop : close.stop = pos + byteLength text

namespace EndsInAction

variable {pos : Nat} {text : List Char} {close : Token}

/-- A text is not where the tokens end. -/
theorem ne_nil {tokens : List Token} {before : List Char}
    (h : EndsInAction pos text (textToken pos before ++ tokens) close) : tokens ≠ [] := by
  rintro rfl
  have hlast := h.last
  rw [List.append_nil] at hlast
  cases before with
  | nil => cases hlast
  | cons c rest =>
    cases hlast
    cases h.kind

/-- The tokens from a place further on end where those of the whole text do. -/
theorem reaches {left right : List Token} {next : Place}
    (h : EndsInAction pos text (left ++ right) close) (hr : Place.Reaches ⟨pos, text⟩ next)
    (hne : right ≠ []) : EndsInAction next.pos next.rest right close := by
  obtain ⟨skipped, htext, hpos⟩ := hr
  have hlast := h.last
  rw [List.getLast?_append_of_ne_nil _ hne] at hlast
  refine ⟨hlast, h.kind, ?_⟩
  dsimp only at htext hpos
  rw [h.stop, htext, hpos, byteLength_append, Nat.add_assoc]

end EndsInAction

/-- A list that ends once, put behind another, keeps the end for itself. -/
theorem EndsOnce.of_append {left right tokens : List Token} {stop : Nat} (h : EndsOnce right)
    (he : left ++ right = tokens ++ [.eof stop]) :
    ∃ back, right = back ++ [.eof stop] ∧ tokens = left ++ back := by
  obtain ⟨back, pos, rfl, -⟩ := h
  rw [← List.append_assoc] at he
  obtain ⟨htokens, hstop⟩ := List.append_inj' he rfl
  exact ⟨back, by rw [hstop], htokens.symm⟩

/-- Reading an action reaches the place behind its delimiter. -/
theorem actionTokens_reaches {right text : List Char} {depth pos : Nat} {action : List Token}
    {next : Place} (h : actionTokens right depth pos text = .ok (action, next)) :
    Place.Reaches ⟨pos, text⟩ next := by
  obtain ⟨parts, trim, htext, -, hpos, -⟩ := actionTokens_parts h
  exact ⟨_, by rw [htext]; simp only [List.append_assoc], hpos⟩

/-- The text goes on after an action. -/
theorem action_reaches {left right text : List Char} {pos : Nat} {o : Opening}
    {action : List Token} {next : Place} (ho : opening? left pos text = some o)
    (ha : actionTokens right 0 o.inside.pos o.inside.rest = .ok (action, next)) :
    Place.Reaches ⟨pos, text⟩ next :=
  (opening?_reaches ho).trans (actionTokens_reaches ha)

/-- A text that has tokens is not empty. -/
theorem TextReads.ne_nil {d : Delimiters} {pos stop : Nat} {text : List Char}
    {tokens : List Token} (h : TextReads d pos text (tokens ++ [.eof stop])) (hne : tokens ≠ []) :
    text ≠ [] := by
  rintro rfl
  generalize hall : tokens ++ [Token.eof stop] = all at h
  cases h with
  | finished =>
    have hnil : tokens ++ [Token.eof stop] = [] ++ _ := hall
    exact hne (List.append_inj' hnil rfl).1
  | text hn => exact absurd rfl hn
  | comment hn => exact absurd rfl hn
  | action hn => exact absurd rfl hn

/-- Putting two lists in front one after the other is putting them in front together. -/
theorem map_append_map {ε : Type} (front back : List Token) (result : Except ε (List Token)) :
    (result.map (back ++ ·)).map (front ++ ·) = result.map (front ++ back ++ ·) := by
  cases result with
  | error e => rfl
  | ok tokens =>
    show Except.ok (front ++ (back ++ tokens)) = Except.ok (front ++ back ++ tokens)
    rw [List.append_assoc]

section FirstAction

variable {visible : ({} : Delimiters).Visible} {pos : Nat} {text comment : List Char}
  {o : Opening} {action : List Token} {next : Place}

/-- A text in which an action opens is not empty, and stays so when it grows. -/
theorem not_isEmpty_extend (ho : opening? ({} : Delimiters).left pos text = some o)
    (hlen : commentOpen.length ≤ o.inside.rest.length) (more : List Char) :
    ¬ (text ++ more).isEmpty := by
  obtain ⟨front, htext, -⟩ := endsInMarker_opening ho
  have hne : o.inside.rest ≠ [] := fun hnil => by simp [hnil, commentOpen] at hlen
  simp [htext, hne]

/-- A comment that comes first is skipped, however the text goes on. -/
theorem tokensFrom_comment_extend (ho : opening? ({} : Delimiters).left pos text = some o)
    (hc : afterPrefix? commentOpen o.inside.rest = some comment)
    (hn : afterComment braces (o.inside.pos + 2) comment = .ok next) (more : List Char)
    (hne : next.rest ≠ [] ∨ more.dropWhile isSpace = more) :
    tokensFrom {} visible pos (text ++ more) =
      (tokensFrom {} visible next.pos (next.rest ++ more)).map (o.text ++ ·) := by
  have hlen : commentOpen.length ≤ o.inside.rest.length := by
    rw [afterPrefix?_eq_some hc, List.length_append]
    exact Nat.le_add_right _ _
  have hc' : afterPrefix? commentOpen (o.inside.rest ++ more) = some (comment ++ more) := by
    rw [afterPrefix?_extend hlen, hc]
    rfl
  exact tokensFrom_comment (not_isEmpty_extend ho hlen more) (opening?_extend ho hlen more) hc'
    (afterComment_extend hn more hne)

/-- An action that comes first has the same tokens, however the text goes on, if it still ends. -/
theorem tokensFrom_action_extend (ho : opening? ({} : Delimiters).left pos text = some o)
    (hc : afterPrefix? commentOpen o.inside.rest = none)
    (ha : actionTokens braces 0 o.inside.pos o.inside.rest = .ok (action, next))
    {more : List Char} {place : Place}
    (ha' : actionTokens braces 0 o.inside.pos (o.inside.rest ++ more) = .ok (action, place)) :
    tokensFrom {} visible pos (text ++ more) =
      (tokensFrom {} visible place.pos place.rest).map (o.text ++ o.delimiter :: action ++ ·) := by
  have hlen : commentOpen.length ≤ o.inside.rest.length :=
    Nat.le_trans (Nat.le_add_left 2 _) (actionTokens_length ha)
  have hc' : afterPrefix? commentOpen (o.inside.rest ++ more) = none := by
    rw [afterPrefix?_extend hlen, hc]
    rfl
  rw [tokensFrom_action (not_isEmpty_extend ho hlen more) (opening?_extend ho hlen more) hc' ha']
  congr 1
  funext tokens
  simp

end FirstAction

/-- A text whose last action ends with it keeps its tokens however it goes on, and the tokens of
what follows come after them. -/
theorem tokensFrom_extend {visible : ({} : Delimiters).Visible} {pos stop : Nat} {text : List Char}
    {tokens : List Token} {close : Token}
    (h : tokensFrom {} visible pos text = .ok (tokens ++ [.eof stop]))
    (hclose : EndsInAction pos text tokens close) (before more : List Char) :
    tokensFrom {} visible pos (text ++ more) =
      (tokensFrom {} visible
        (Place.resume (endsInMarker ((before ++ text).rdrop 2)) ⟨close.stop, more⟩).pos
        (Place.resume (endsInMarker ((before ++ text).rdrop 2)) ⟨close.stop, more⟩).rest).map
        (tokens ++ ·) := by
  generalize hall : tokens ++ [Token.eof stop] = all at h
  rw [tokensFrom_eq_ok_iff] at h
  -- By the rules of the tokenizer.  What has been read goes over into `before`, since the last
  -- marker may stand anywhere in the text.
  induction h generalizing tokens before with
  | finished =>
    have hnil : tokens ++ [Token.eof stop] = [] ++ _ := hall
    obtain ⟨rfl, -⟩ := List.append_inj' hnil rfl
    cases hclose.last
  -- A text without actions has no last action.
  | @text pos text hne ho =>
    obtain ⟨rfl, -⟩ := List.append_inj' hall rfl
    rw [← List.append_nil (textToken pos text)] at hclose
    exact absurd rfl hclose.ne_nil
  | @comment pos text comment o next rest hne ho hc hn h ih =>
    obtain ⟨back, rfl, rfl⟩ := h.endsOnce.of_append hall.symm
    obtain ⟨chars, trim, -, hotext, -⟩ := opening?_eq_some ho
    have hback : back ≠ [] := by
      rw [hotext] at hclose
      exact hclose.ne_nil
    have hreaches := comment_reaches ho hc hn
    have hnext := h.ne_nil hback
    have ih := fun skipped => ih (hclose.reaches hreaches hback) (before ++ skipped) rfl
    obtain ⟨skipped, hskipped, -⟩ := hreaches
    dsimp only at hskipped
    rw [tokensFrom_comment_extend ho hc hn more (.inl hnext), ih skipped, List.append_assoc before,
      ← hskipped, map_append_map]
  | @action pos text o action rest next hne ho hc ha h ih =>
    have happ : o.text ++ o.delimiter :: action ++ rest = tokens ++ [.eof stop] := by
      rw [hall]
      simp
    obtain ⟨back, rfl, rfl⟩ := h.endsOnce.of_append happ
    obtain ⟨front, htext, hinside, hfront⟩ := endsInMarker_opening ho
    obtain ⟨inside, after, hrest, hlast, hext⟩ := actionTokens_extend ha (hfront before)
    by_cases hback : back = []
    · -- The last action: it goes up to the end of the text.
      subst hback
      rw [List.append_nil] at hclose ⊢
      have hclose_eq :
          (⟨.rightDelim, braces, o.inside.pos + byteLength inside⟩ : Token) = close := by
        have hall := hclose.last
        rw [List.getLast?_append, List.getLast?_cons, hlast] at hall
        exact Option.some.inj hall
      have hafter : after = [] := by
        have hstop := hclose.stop
        rw [← hclose_eq, htext, hinside, hrest] at hstop
        simp only [Token.stop, byteLength_append] at hstop
        have hlen := length_le_byteLength after
        exact List.length_eq_zero_iff.1 (by omega)
      subst hafter
      have hstop : o.inside.pos + byteLength (inside ++ braces) = close.stop := by
        rw [← hclose_eq, Token.stop, byteLength_append, Nat.add_assoc]
      have hdrop : (before ++ text).rdrop 2 = before ++ front ++ inside := by
        rw [htext, hrest, List.append_nil, ← List.append_assoc, ← List.append_assoc]
        exact List.rdrop_append_length
      rw [tokensFrom_action_extend ho hc ha (hext more), hdrop, ← hstop]
      rfl
    · -- Tokens follow the action, so the spaces that its marker takes all stand in the first text.
      have hreaches := action_reaches ho ha
      have ha' := actionTokens_extend_of_ne ha more (.inl (h.ne_nil hback))
      have ih := fun skipped => ih (hclose.reaches hreaches hback) (before ++ skipped) rfl
      obtain ⟨skipped, hskipped, -⟩ := hreaches
      dsimp only at hskipped
      rw [tokensFrom_action_extend ho hc ha ha', ih skipped, List.append_assoc before, ← hskipped,
        map_append_map]

/-- The tokens of a text and of one more after it, if the first ends with an action: the lexer has
no parenthesis open behind the first, and the tokens are those of each, where those of the second
stand further on.  If the right delimiter before the second has a trim marker, then it takes away
the spaces at its front. -/
theorem tokenize_after_action {a : List Char} {tokens : List Token} {close : Token} {stop : Nat}
    (h : tokenize {} a = .ok (tokens ++ [.eof stop])) (hlast : tokens.getLast? = some close)
    (hkind : close.kind = .rightDelim) (hstop : close.stop = byteLength a) (b : List Char) :
    let marked := endsInMarker (a.rdrop ({} : Delimiters).right.length)
    let rest := if marked then b.dropWhile isSpace else b
    let n := byteLength a + byteLength b - byteLength rest
    ((Lexer.start a).run {} visible_default).map Lexer.depth = .ok 0 ∧
      tokenize {} (a ++ b) =
        match tokenize {} rest with
        | .ok following => .ok (tokens ++ following.map (Token.shift n))
        | .error e => .error (e.shift n) := by
  have hclose : EndsInAction 0 a tokens close := ⟨hlast, hkind, by rw [hstop, Nat.zero_add]⟩
  intro marked rest n
  -- The second text starts behind the spaces that a marker takes, `n` bytes further on.
  have hplace : Place.resume marked ⟨close.stop, b⟩ = ⟨0 + n, rest⟩ := by
    have hb : byteLength b =
        byteLength (b.takeWhile isSpace) + byteLength (b.dropWhile isSpace) := by
      rw [← byteLength_append, List.takeWhile_append_dropWhile]
    rw [hstop]
    cases hm : marked with
    | false =>
      simp only [Place.resume, rest, n, hm, Bool.false_eq_true, if_false, Place.mk.injEq, and_true]
      omega
    | true =>
      simp only [Place.resume, rest, n, hm, if_true, Place.skipSpace, Place.advance, Place.mk.injEq,
        and_true]
      omega
  refine ⟨Lexer.run_depth visible_default h, ?_⟩
  rw [tokenize_default] at h
  rw [tokenize_default, tokensFrom_extend h hclose [] b, tokenize_default]
  show Except.map _ (tokensFrom _ _ (Place.resume marked _).pos (Place.resume marked _).rest) = _
  rw [hplace, tokensFrom_shift]
  cases tokensFrom {} visible_default 0 rest <;> rfl

/-- A template that ends with a marked right delimiter. -/
def markedAction : List Char :=
  "\x7b\x7b.A -\x7d\x7d".toList

/-- A trimming marker at the end of an action takes the spaces of the text behind it. -/
theorem tokenize_after_action_marked :
    ∃ tokens, tokenize {} markedAction = .ok (tokens ++ [.eof 8]) ∧
      tokenize {} (markedAction ++ " \nb".toList) =
        .ok (tokens ++ [⟨.text, ['b'], 10⟩, .eof 11]) := by
  have h : tokenize {} markedAction =
      .ok ([⟨.leftDelim, "\x7b\x7b".toList, 0⟩, ⟨.field, ['.', 'A'], 2⟩,
        ⟨.rightDelim, "\x7d\x7d".toList, 6⟩] ++ [.eof 8]) := by decide +kernel
  refine ⟨_, h, (tokenize_after_action h rfl rfl (by decide) _).2.trans ?_⟩
  decide +kernel

end FieldAudit.Template
