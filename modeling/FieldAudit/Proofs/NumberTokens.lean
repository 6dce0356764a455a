import FieldAudit.Proofs.NumberForm
import FieldAudit.Proofs.TokenLayout
import FieldAudit.Template.Tree

/-! # Numbers among the tokens

A number literal is accepted by two passes.  A scanner takes the longest piece of the text that has
the shape of a number, and the check looks at the piece.  Together they accept the complete
decimals, the digits in base eight and base two that fit into 64 bits, and in base sixteen anything
of the shape that follows the letter (`tokenize_numbers`).  The last are not all numbers: `0xp` has
no digit at all (`parse_markOnly`). -/

namespace FieldAudit.Template

open Literal

/-! ## Scanning -/

/-- A span of at most one character is such a character or nothing. -/
theorem spanOne_fst (q : Char → Bool) (text : List Char) :
    ∃ found : Option Char, (spanOne q text).1 = found.toList ∧ ∀ c ∈ found, q c = true := by
  cases text with
  | nil => exact ⟨none, rfl, nofun⟩
  | cons c rest =>
    by_cases hc : q c = true
    · exact ⟨some c, by simp [spanOne, hc], by simpa using hc⟩
    · exact ⟨none, by simp [spanOne, hc], nofun⟩

/-- A span holds only characters of its class. -/
theorem spanWhile_fst {q : Char → Bool} {text : List Char} :
    ∀ c ∈ (spanWhile q text).1, q c = true :=
  fun _ hc => List.mem_takeWhile_imp hc

/-- A spanned fraction is a point with digits of the base, or nothing. -/
theorem spanFraction_fst (base : Base) (text : List Char) :
    ∃ fraction : Option (List Char),
      (spanFraction base text).1 = (fraction.map ('.' :: ·)).getD [] ∧
        ∀ c ∈ fraction.getD [], base.isDigit c = true := by
  unfold spanFraction
  split
  next rest => exact ⟨some (spanWhile base.isDigit rest).1, rfl, spanWhile_fst⟩
  next => exact ⟨none, rfl, nofun⟩

/-- A spanned exponent fits the base's mark, or is nothing. -/
theorem spanExponent_fst (base : Base) (text : List Char) :
    ∃ exponent : Option Exponent,
      (spanExponent base text).1 = (exponent.map Exponent.text).getD [] ∧
        ∀ e ∈ exponent, e.Fits base.isExponentMark Base.decimal.isDigit := by
  cases text with
  | nil => exact ⟨none, rfl, nofun⟩
  | cons c rest =>
    rw [spanExponent]
    split
    next hc =>
      obtain ⟨sign, hsign, hs⟩ := spanOne_fst isSign rest
      refine ⟨some ⟨c, sign, (spanWhile Base.decimal.isDigit (spanOne isSign rest).2).1⟩, ?_, ?_⟩
      · simp [Exponent.text, hsign]
      · rintro e ⟨⟩
        exact ⟨hc, hs, spanWhile_fst⟩
    next => exact ⟨none, rfl, nofun⟩

/-- The letters in front of a number and the base that they announce. -/
inductive Announces : List Char → Base → Prop
  | decimal : Announces [] .decimal
  | letter {letter : Char} {base : Base} (h : Base.ofLetter? letter = some base) :
      Announces ['0', letter] base

/-- The base that is spanned is the one its letters announce. -/
theorem spanBase_announces (text : List Char) :
    Announces (spanBase text).1 (spanBase text).2.1 := by
  unfold spanBase
  split
  · split
    next base hb => exact .letter hb
    next => exact .decimal
  · exact .decimal

/-- A base letter announces hexadecimal digits or those of a word base. -/
theorem ofLetter?_eq_some {letter : Char} {base : Base} (h : Base.ofLetter? letter = some base) :
    letter ∈ ['x', 'X'] ∧
        base = ⟨fun c => (digit? 16 c).isSome || c = '_', fun c => c = 'p' || c = 'P'⟩ ∨
      ∃ letters n, (letters, n) ∈ wordBases ∧ letter ∈ letters ∧
        base = ⟨fun c => (digit? n c).isSome || c = '_', isDecimalMark⟩ := by
  unfold Base.ofLetter? at h
  split at h
  next hx => cases h; exact .inl ⟨by simpa using hx, rfl⟩
  next =>
    split at h
    next ho => cases h; exact .inr ⟨['o', 'O'], 8, by decide, by simpa using ho, rfl⟩
    next =>
      split at h
      next hb => cases h; exact .inr ⟨['b', 'B'], 2, by decide, by simpa using hb, rfl⟩
      next => cases h

/-- The parts that a scanner takes for a number. -/
theorem spanNumber_parts (text : List Char) :
    ∃ (sign imaginary : Option Char) (letters : List Char) (base : Base) (p : Parts),
      (spanNumber text).1 = sign.toList ++ ((letters ++ p.text) ++ imaginary.toList) ∧
        (∀ c ∈ sign, isSign c = true) ∧ (∀ c ∈ imaginary, c = 'i') ∧ Announces letters base ∧
        p.Fits base.isDigit base.isExponentMark Base.decimal.isDigit := by
  -- One span after the other, each starting where the one before it ends.
  obtain ⟨sign, hsign, hs⟩ := spanOne_fst isSign text
  generalize hb : spanBase (spanOne isSign text).2 = b
  have hletters := spanBase_announces (spanOne isSign text).2
  rw [hb] at hletters
  generalize hw : spanWhile b.2.1.isDigit b.2.2 = w
  have hwhole : ∀ c ∈ w.1, b.2.1.isDigit c = true := by rw [← hw]; exact spanWhile_fst
  obtain ⟨fraction, hfraction, hf⟩ := spanFraction_fst b.2.1 w.2
  obtain ⟨exponent, hexponent, he⟩ := spanExponent_fst b.2.1 (spanFraction b.2.1 w.2).2
  obtain ⟨imaginary, himaginary, hi⟩ :=
    spanOne_fst (· = 'i') (spanExponent b.2.1 (spanFraction b.2.1 w.2).2).2
  refine ⟨sign, imaginary, b.1, b.2.1, ⟨w.1, fraction, exponent⟩, ?_, hs, by simpa using hi,
    hletters, List.forall_mem_append.2 ⟨hwhole, hf⟩, he⟩
  simp only [spanNumber, hb, hw, hsign, hfraction, hexponent, himaginary, Parts.text, Parts.point,
    Parts.power, List.append_assoc]

/-- What a number of the scanner is without its sign, its underscores and its imaginary mark: a
decimal, a number in base sixteen, or something after a zero and the letter of another base. -/
theorem spanNumber_trims (text : List Char) :
    ∃ plain, Trims (spanNumber text).1 plain ∧
      ((∃ p, DecimalForm p plain) ∨ (∃ p, HexForm p plain) ∨
        ∃ letters base, (letters, base) ∈ wordBases ∧
          ∃ letter ∈ letters, ∃ digits, plain = '0' :: letter :: digits ∧
            digits.head? ≠ some '+' ∧ 'i' ∉ digits) := by
  obtain ⟨sign, imaginary, letters, base, p, htext, hs, hi, hl, hp⟩ := spanNumber_parts text
  have hsign : sign.toList ∈ [[], ['+'], ['-']] := by
    cases sign with
    | none => exact List.mem_cons_self
    | some c => obtain rfl | rfl := isSign_iff.1 (hs c rfl) <;> decide
  have himaginary : imaginary.toList ∈ [[], ['i']] := by
    cases imaginary with
    | none => exact List.mem_cons_self
    | some c => rw [hi c rfl]; decide
  refine ⟨(letters ++ p.text).filter (· ≠ '_'), ⟨_, _, _, htext, hsign, himaginary, rfl⟩, ?_⟩
  rw [List.filter_append]
  -- The classes of the scanner hold the underscore, and without it they are those of the forms.
  have hdecimal (c : Char) (hc : Base.decimal.isDigit c = true) (hne : c ≠ '_') :
      c.isDigit = true := by
    simpa [Base.decimal, hne] using hc
  cases hl with
  | decimal => exact .inl ⟨p.plain, Parts.filter_text hp rfl, hp.plain hdecimal hdecimal⟩
  | @letter letter _ hl =>
    have hletter : letter ≠ '_' := by rintro rfl; cases hl
    have hletters : ['0', letter].filter (· ≠ '_') = ['0', letter] := by simp [hletter]
    rw [hletters]
    refine .inr ?_
    obtain ⟨hx, rfl⟩ | ⟨letters, n, hb, hletter, rfl⟩ := ofLetter?_eq_some hl
    · refine .inl ⟨p.plain, letter, hx, ?_, hp.plain (fun c hc hne => ?_) hdecimal⟩
      · rw [Parts.filter_text hp rfl]
        rfl
      · simpa [hne] using hc
    -- The scanner takes points and exponents in these bases too; it is the check that refuses them.
    · have hplain : p.plain.Fits (fun c => (digit? n c).isSome) isDecimalMark Char.isDigit :=
        hp.plain (fun c hc hne => by simpa [hne] using hc) hdecimal
      refine .inr ⟨letters, n, hb, letter, hletter, p.plain.text, ?_, ?_, ?_⟩
      · rw [Parts.filter_text hp rfl]
        rfl
      · intro hplus
        cases Parts.isSign_head hplain (fun _ => isSign_of_digit?)
          (fun _ => isSign_of_isDecimalMark) '+' hplus
      · exact Parts.not_mem_text hplain rfl

/-- Punctuation is no number. -/
theorem punctuation?_ne_number {c : Char} {kind : Token.Kind} (h : punctuation? c = some kind) :
    decide (kind = .number) = false := by
  unfold punctuation? at h
  split at h <;> cases h <;> rfl

/-- A word is no number. -/
theorem wordKind_ne_number (word : List Char) : wordKind word ≠ .number := by
  intro h
  unfold wordKind at h
  dsimp only at h
  split at h
  next => cases h
  next => split at h <;> cases h

/-- The lexeme of a number token is what the scanner takes for a number. -/
theorem tokenize_number {d : Delimiters} {source : List Char} {tokens : List Token}
    (h : tokenize d source = .ok tokens) :
    ∀ t ∈ tokens, t.kind = .number → ∃ text, t.lexeme = (spanNumber text).1 := by
  have hnone {t : Token} (hk : decide (t.kind = .number) = false) :
      t.kind = .number → ∃ text, t.lexeme = (spanNumber text).1 :=
    fun h => absurd h (of_decide_eq_false hk)
  refine tokenize_forall (fun _ _ _ => hnone rfl) (fun _ => hnone rfl) (fun _ => hnone rfl)
    (fun _ => hnone rfl) (fun text s pos hs => ?_) h
  cases scan_scanned hs with
  | number hn =>
    unfold scanNumber at hn
    dsimp only at hn
    split at hn
    next => cases hn; exact fun _ => ⟨text, rfl⟩
    next => cases hn
  | punctuation hk => exact hnone (punctuation?_ne_number hk)
  | word => exact hnone (decide_eq_false (wordKind_ne_number _))
  | _ => exact hnone rfl

/-- Which number literals of a template are accepted: a decimal with digits before its exponent and
in it, digits alone in base eight and base two, and in base sixteen anything that follows the
letter. -/
theorem tokenize_numbers {d : Delimiters} {source : List Char} {tokens : List Token}
    (h : tokenize d source = .ok tokens) {t : Token} (ht : t ∈ tokens) (hk : t.kind = .number) :
    isNumber t.lexeme = true ↔ ∃ plain, Trims t.lexeme plain ∧
      ((∃ p, DecimalForm p plain ∧ p.Complete) ∨
        (∃ n < 2 ^ 64, WordForm ['o', 'O'] 8 n plain) ∨
        (∃ n < 2 ^ 64, WordForm ['b', 'B'] 2 n plain) ∨
        ∃ p, HexForm p plain ∧ p.text ≠ []) := by
  constructor
  · intro hn
    obtain ⟨text, hlexeme⟩ := tokenize_number h t ht hk
    obtain ⟨plain, htrims, hform⟩ := spanNumber_trims text
    rw [← hlexeme] at htrims
    refine ⟨plain, htrims, ?_⟩
    obtain ⟨p, rfl, hfits⟩ | ⟨p, letter, hl, rfl, hfits⟩ |
      ⟨letters, base, hb, letter, hl, digits, rfl, hplus, hi⟩ := hform
    · exact .inl ⟨p, ⟨rfl, hfits⟩, (isNumber_decimal htrims hfits).1 hn⟩
    · exact .inr (.inr (.inr ⟨p, ⟨letter, hl, rfl, hfits⟩, (isNumber_hex htrims hl hfits).1 hn⟩))
    · obtain ⟨hne, n, hlt, hnumeral⟩ := (isNumber_word htrims hl hb hplus hi).1 hn
      have hword : WordForm letters base n ('0' :: letter :: digits) :=
        ⟨letter, hl, digits, rfl, hne, hnumeral⟩
      simp only [wordBases, List.mem_cons, List.not_mem_nil, or_false, Prod.mk.injEq] at hb
      obtain ⟨rfl, rfl⟩ | ⟨rfl, rfl⟩ := hb
      · exact .inr (.inl ⟨n, hlt, hword⟩)
      · exact .inr (.inr (.inl ⟨n, hlt, hword⟩))
  · rintro ⟨plain, htrims, hform⟩
    obtain ⟨p, ⟨rfl, hfits⟩, hp⟩ | ⟨n, hlt, hform⟩ | ⟨n, hlt, hform⟩ |
      ⟨p, ⟨letter, hl, rfl, hfits⟩, hp⟩ := hform
    · exact (isNumber_decimal htrims hfits).2 hp
    · exact isNumber_of_wordForm List.mem_cons_self htrims hlt hform
    · exact isNumber_of_wordForm (List.mem_cons_of_mem _ List.mem_cons_self) htrims hlt hform
    · exact (isNumber_hex htrims hl hfits).2 hp

/-- The tokens of a number with a sign, underscores, a fraction, an exponent and an imaginary
mark. -/
def fullNumber : List Token :=
  [⟨.leftDelim, "\x7b\x7b".toList, 0⟩, ⟨.number, "-0x_1._8P+1_i".toList, 2⟩,
    ⟨.rightDelim, "\x7d\x7d".toList, 15⟩, .eof 17]

/-- A number with every part is a token, and is accepted exactly if it is well formed. -/
theorem tokenize_numbers_full :
    tokenize {} "\x7b\x7b-0x_1._8P+1_i\x7d\x7d".toList = .ok fullNumber ∧
      (isNumber "-0x_1._8P+1_i".toList = true ↔ ∃ plain, Trims "-0x_1._8P+1_i".toList plain ∧
        ((∃ p, DecimalForm p plain ∧ p.Complete) ∨
          (∃ n < 2 ^ 64, WordForm ['o', 'O'] 8 n plain) ∨
          (∃ n < 2 ^ 64, WordForm ['b', 'B'] 2 n plain) ∨
          ∃ p, HexForm p plain ∧ p.text ≠ [])) := by
  have h : tokenize {} "\x7b\x7b-0x_1._8P+1_i\x7d\x7d".toList = .ok fullNumber := by decide +kernel
  exact ⟨h, tokenize_numbers h (List.mem_cons_of_mem _ List.mem_cons_self) rfl⟩

/-- After the letter for base sixteen a mark alone is accepted, though it denotes no number. -/
theorem parse_markOnly :
    (⟨.number, ['0', 'x', 'p'], 8⟩ : Token) ∈
        (tokenize {} "\x7b\x7bprint 0xp\x7d\x7d".toList).toOption.getD [] ∧
      (parse {} "\x7b\x7bprint 0xp\x7d\x7d".toList).toOption.isSome = true ∧
      isNumber ['0', 'x', 'p'] = true ∧ ∀ plain, Trims ['0', 'x', 'p'] plain → ¬Denotes plain := by
  refine ⟨by decide +kernel, by decide +kernel, by decide, fun plain htrims => ?_⟩
  rw [htrims.eq_filter (by simp [isSign]) (by decide)]
  exact not_denotes (by decide) (List.forall_mem_singleton.2 rfl)

end FieldAudit.Template
