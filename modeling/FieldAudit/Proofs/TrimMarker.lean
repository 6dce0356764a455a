import FieldAudit.Proofs.TokenGrammar
import Mathlib.Data.List.Basic
import Mathlib.Data.List.TakeWhile

/-! # Trim markers before right delimiters

A space and a minus before a right delimiter are its trim marker, and nothing else: no token inside
an action ends in such a pair, so the text before the delimiter shows whether it has a marker
(`scan_unmarked`).  A minus can end the exponent of a number, but no number holds a space. -/

namespace FieldAudit.Template

open Text

/-! ## Ends of texts -/

/-- Whether a text ends with the trim marker of a right delimiter: a space and a minus. -/
def endsInMarker (text : List Char) : Bool :=
  match text.reverse with
  | '-' :: c :: _ => isSpace c
  | _ => false

/-- A text ends in a marker if its dash has a space in front. -/
theorem endsInMarker_append (front : List Char) (c : Char) :
    endsInMarker (front ++ [c, '-']) = isSpace c := by
  simp [endsInMarker]

/-- A text that does not end in a dash does not end in a marker. -/
theorem endsInMarker_of_getLast? {text : List Char} {c : Char} (h : text.getLast? = some c)
    (hc : c ≠ '-') : endsInMarker text = false := by
  rw [List.getLast?_eq_head?_reverse] at h
  obtain ⟨rest, hrest⟩ := List.head?_eq_some_iff.1 h
  rw [endsInMarker, hrest]
  split
  next he => exact absurd (List.cons.inj he).1 hc
  next => rfl

/-- A token that does not end like a marker, whatever stands before it. -/
def Unmarked (lexeme : List Char) : Prop :=
  ∀ front, endsInMarker (front ++ lexeme) = false

/-- A lexeme without a dash has no marker. -/
theorem unmarked_of_not_mem {lexeme : List Char} (hne : lexeme ≠ []) (h : '-' ∉ lexeme) :
    Unmarked lexeme := by
  intro front
  refine endsInMarker_of_getLast? (c := lexeme.getLast hne) ?_ ?_
  · rw [List.getLast?_append_of_ne_nil _ hne, List.getLast?_eq_some_getLast hne]
  · rintro he
    exact h (he ▸ List.getLast_mem hne)

/-- A lexeme that does not end in a dash has no marker. -/
theorem unmarked_concat {front : List Char} {c : Char} (hc : c ≠ '-') :
    Unmarked (front ++ [c]) := by
  intro before
  refine endsInMarker_of_getLast? (c := c) ?_ hc
  rw [← List.append_assoc, List.getLast?_concat]

/-- A minus on its own can end a marker, and so can one after a space. -/
theorem unmarked_of_solid {lexeme : List Char} (hne : lexeme ≠ []) (hminus : lexeme ≠ ['-'])
    (h : ∀ c ∈ lexeme, isSpace c = false) : Unmarked lexeme := by
  intro front
  rcases lexeme.eq_nil_or_concat' with rfl | ⟨init, last, rfl⟩
  · exact absurd rfl hne
  · by_cases hlast : last = '-'
    · subst hlast
      rcases init.eq_nil_or_concat' with rfl | ⟨init, c, rfl⟩
      · exact absurd rfl hminus
      · rw [List.append_assoc init, ← List.append_assoc]
        exact (endsInMarker_append _ c).trans (h c (by simp))
    · exact unmarked_concat hlast front

/-! ## Characters of numbers -/

/-- A class without the four spaces holds no spaces. -/
theorem isSpace_eq_false {p : Char → Bool} (hblank : p ' ' = false) (htab : p '\t' = false)
    (hreturn : p '\r' = false) (hnewline : p '\n' = false) :
    ∀ c, p c = true → isSpace c = false := by
  intro c hc
  by_contra hs
  rw [Bool.not_eq_false] at hs
  simp only [isSpace, Bool.or_eq_true, decide_eq_true_eq] at hs
  rcases hs with ((rfl | rfl) | rfl) | rfl <;> simp_all

/-- A span of at most one character holds a character of its class. -/
theorem mem_spanOne {p : Char → Bool} {text : List Char} {c : Char}
    (h : c ∈ (spanOne p text).1) : p c = true := by
  cases text with
  | nil => cases h
  | cons d rest =>
    by_cases hd : p d = true
    · rw [spanOne, if_pos hd, List.mem_singleton] at h
      rw [h, hd]
    · rw [spanOne, if_neg hd] at h
      cases h

/-- No base takes a space for a digit or for an exponent mark. -/
def Base.Solid (base : Base) : Prop :=
  (∀ c, base.isDigit c = true → isSpace c = false) ∧
    ∀ c, base.isExponentMark c = true → isSpace c = false

/-- Decimal numbers hold no spaces. -/
theorem Base.solid_decimal : Base.decimal.Solid :=
  ⟨isSpace_eq_false (by decide) (by decide) (by decide) (by decide),
    isSpace_eq_false (by decide) (by decide) (by decide) (by decide)⟩

/-- Numbers of an announced base hold no spaces, nor does its letter. -/
theorem Base.solid_ofLetter? {letter : Char} {base : Base} (h : Base.ofLetter? letter = some base) :
    isSpace letter = false ∧ base.Solid := by
  have hletter : isSpace letter = false :=
    isSpace_eq_false (p := fun c => (Base.ofLetter? c).isSome) rfl rfl rfl rfl letter
      (by simp [h])
  refine ⟨hletter, ?_⟩
  unfold Base.ofLetter? at h
  split at h
  next =>
    cases h
    exact ⟨isSpace_eq_false rfl rfl rfl rfl, isSpace_eq_false rfl rfl rfl rfl⟩
  next =>
    split at h
    next =>
      cases h
      exact ⟨isSpace_eq_false rfl rfl rfl rfl, isSpace_eq_false rfl rfl rfl rfl⟩
    next =>
      split at h
      next =>
        cases h
        exact ⟨isSpace_eq_false rfl rfl rfl rfl, isSpace_eq_false rfl rfl rfl rfl⟩
      next => cases h

/-- The base of a number, and its digits, hold no spaces. -/
theorem spanBase_solid (text : List Char) :
    (∀ c ∈ (spanBase text).1, isSpace c = false) ∧ (spanBase text).2.1.Solid := by
  unfold spanBase
  split
  next letter rest =>
    cases hl : Base.ofLetter? letter with
    | some base =>
      obtain ⟨hletter, hbase⟩ := Base.solid_ofLetter? hl
      refine ⟨fun c hc => ?_, hbase⟩
      simp only [List.mem_cons, List.not_mem_nil, or_false] at hc
      rcases hc with rfl | rfl
      · rfl
      · exact hletter
    | none => exact ⟨by simp, Base.solid_decimal⟩
  next => exact ⟨by simp, Base.solid_decimal⟩

/-- A fraction holds no spaces. -/
theorem spanFraction_solid {base : Base} (hbase : base.Solid) (text : List Char) :
    ∀ c ∈ (spanFraction base text).1, isSpace c = false := by
  intro c hc
  unfold spanFraction at hc
  split at hc
  next rest =>
    rcases List.mem_cons.1 hc with rfl | hc
    · rfl
    · exact hbase.1 c (List.mem_takeWhile_imp hc)
  next => cases hc

/-- A sign is no space. -/
theorem isSpace_of_isSign : ∀ c, Literal.isSign c = true → isSpace c = false :=
  isSpace_eq_false rfl rfl rfl rfl

/-- An exponent holds no spaces. -/
theorem spanExponent_solid {base : Base} (hbase : base.Solid) (text : List Char) :
    ∀ c ∈ (spanExponent base text).1, isSpace c = false := by
  intro c hc
  cases text with
  | nil => cases hc
  | cons d rest =>
    unfold spanExponent at hc
    dsimp only at hc
    by_cases hd : base.isExponentMark d = true
    · rw [if_pos hd] at hc
      rcases List.mem_cons.1 hc with rfl | hc
      · exact hbase.2 _ hd
      · rcases List.mem_append.1 hc with hc | hc
        · exact isSpace_of_isSign c (mem_spanOne hc)
        · exact Base.solid_decimal.1 c (List.mem_takeWhile_imp hc)
    · rw [if_neg hd] at hc
      cases hc

/-- A number holds no spaces. -/
theorem spanNumber_solid (text : List Char) : ∀ c ∈ (spanNumber text).1, isSpace c = false := by
  intro c hc
  obtain ⟨hletters, hbase⟩ := spanBase_solid (spanOne Literal.isSign text).2
  simp only [spanNumber, List.mem_append] at hc
  rcases hc with hc | hc | hc | hc | hc | hc
  · exact isSpace_of_isSign c (mem_spanOne hc)
  · exact hletters c hc
  · exact hbase.1 c (List.mem_takeWhile_imp hc)
  · exact spanFraction_solid hbase _ c hc
  · exact spanExponent_solid hbase _ c hc
  · have hi : c = 'i' := by simpa using mem_spanOne hc
    rw [hi]
    rfl

/-! ## Ends of tokens -/

/-- A scanned number ends in no marker. -/
theorem scanNumber_unmarked {text : List Char} {s : Scan} (h : scanNumber text = .ok s) :
    Unmarked s.lexeme := by
  have hne := (scanNumber_eq_ok h).2
  unfold scanNumber at h
  dsimp only at h
  split at h
  next hd =>
    cases h
    refine unmarked_of_solid hne ?_ (spanNumber_solid text)
    intro hminus
    dsimp only at hminus
    rw [hminus] at hd
    cases hd
  next => cases h

/-- Names and keywords hold no minus. -/
theorem word_unmarked {word : List Char} (hne : word ≠ [])
    (hw : ∀ c ∈ word, isWordChar c = true ∨ c = '$' ∨ c = '.') : Unmarked word := by
  refine unmarked_of_not_mem hne fun hmem => ?_
  rcases hw '-' hmem with hw | hw | hw <;> cases hw

/-- A quoted literal ends with its quote. -/
theorem quoted_unmarked {quote : Char} (hq : quote ≠ '-') (body : List Char) :
    Unmarked (quote :: (body ++ [quote])) :=
  @unmarked_concat (quote :: body) quote hq

/-- A span of spaces holds spaces only. -/
theorem mem_spanSpace {right text : List Char} {c : Char} (h : c ∈ (spanSpace right text).1) :
    isSpace c = true := by
  induction text with
  | nil => cases h
  | cons d rest ih =>
    simp only [spanSpace] at h
    split at h
    next hd =>
      rw [Bool.and_eq_true] at hd
      rcases List.mem_cons.1 h with rfl | h
      · exact hd.1
      · exact ih h
    next => cases h

/-- No token ends like the marker of a right delimiter after it. -/
theorem scan_unmarked {right text : List Char} {s : Scan} (h : scan right text = .ok s) :
    Unmarked s.lexeme := by
  have wordChar {rest : List Char} {c : Char} (hc : c ∈ rest.takeWhile isWordChar) :
      isWordChar c = true ∨ c = '$' ∨ c = '.' :=
    .inl (List.mem_takeWhile_imp hc)
  -- Of all tokens only a number can end in a minus.
  cases scan_scanned h with
  | space hc =>
    refine unmarked_of_not_mem (by simp) fun hmem => ?_
    rcases List.mem_cons.1 hmem with rfl | hmem
    · cases hc
    · cases mem_spanSpace hmem
  | punctuation hk =>
    refine unmarked_of_not_mem (by simp) fun hmem => ?_
    rw [← List.mem_singleton.1 hmem] at hk
    cases hk
  | declare => exact unmarked_of_not_mem (by simp) (by simp)
  | string hp =>
    obtain ⟨body, hbody, -⟩ := spanQuoted_body hp
    rw [hbody]
    exact quoted_unmarked (by decide) body
  | rawString hp =>
    obtain ⟨⟨body, rest⟩, -, rfl⟩ := Option.map_eq_some_iff.1 hp
    exact quoted_unmarked (by decide) body
  | charConstant hp =>
    obtain ⟨body, hbody, -⟩ := spanQuoted_body hp
    rw [hbody]
    exact quoted_unmarked (by decide) body
  | dollar =>
    exact word_unmarked (by simp) (List.forall_mem_cons.2 ⟨.inr (.inl rfl), fun _ => wordChar⟩)
  | field hc =>
    exact word_unmarked (by simp) (List.forall_mem_cons.2
      ⟨.inr (.inr rfl), List.forall_mem_cons.2 ⟨.inl hc, fun _ => wordChar⟩⟩)
  | dot => exact unmarked_of_not_mem (by simp) (by simp)
  | number hn => exact scanNumber_unmarked hn
  | word hc => exact word_unmarked (by simp) (List.forall_mem_cons.2 ⟨.inl hc, fun _ => wordChar⟩)

end FieldAudit.Template
