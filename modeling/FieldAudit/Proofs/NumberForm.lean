import FieldAudit.Proofs.Spelling
import FieldAudit.Template.Token.Scan

/-! # The form of number literals

A number literal without its sign, its underscores and its imaginary mark is a decimal, or a zero
and a letter for its base with the number after it.  `Parts` are the digits, the point and the
exponent of a number, of which any digits may be missing.  The check of a number literal asks for
them in different ways: a decimal has to be `Complete` (`isNumber_decimal`), in base eight and base
two there must be digits and nothing else (`isNumber_word`), but in base sixteen each character is
looked at alone, so there it is enough that something follows the letter (`isNumber_hex`). -/

namespace FieldAudit.Literal

open Template (isDecimalMark)

/-! ## Parts of a number -/

/-- An exponent: a mark, an optional sign and digits. -/
structure Exponent where
  mark : Char
  sign : Option Char
  digits : List Char

namespace Exponent

def text (e : Exponent) : List Char :=
  e.mark :: (e.sign.toList ++ e.digits)

/-- The mark and the digits are in given classes of characters. -/
structure Fits (mark decimal : Char → Bool) (e : Exponent) : Prop where
  mark : mark e.mark = true
  sign : ∀ c ∈ e.sign, isSign c = true
  digits : ∀ c ∈ e.digits, decimal c = true

end Exponent

/-- A number without the letters for its base: digits, an optional point with digits after it, and
an optional exponent. -/
structure Parts where
  whole : List Char
  fraction : Option (List Char)
  exponent : Option Exponent

namespace Parts

/-- The digits around the point. -/
def mantissa (p : Parts) : List Char :=
  p.whole ++ p.fraction.getD []

def point (p : Parts) : List Char :=
  (p.fraction.map ('.' :: ·)).getD []

def power (p : Parts) : List Char :=
  (p.exponent.map Exponent.text).getD []

def text (p : Parts) : List Char :=
  p.whole ++ (p.point ++ p.power)

/-- The digits and the mark are in given classes of characters.  The digits of an exponent have a
class of their own, since they are decimal in every base. -/
structure Fits (digit mark decimal : Char → Bool) (p : Parts) : Prop where
  mantissa : ∀ c ∈ p.mantissa, digit c = true
  exponent : ∀ e ∈ p.exponent, e.Fits mark decimal

/-- There are digits around the point, and in the exponent if there is one. -/
def Complete (p : Parts) : Prop :=
  p.mantissa ≠ [] ∧ ∀ e ∈ p.exponent, e.digits ≠ []

end Parts

/-! ## Forms of numbers -/

/-- A number literal and the same without its sign, its underscores and its imaginary mark. -/
def Trims (lexeme plain : List Char) : Prop :=
  ∃ sign core imaginary, lexeme = sign ++ (core ++ imaginary) ∧ sign ∈ [[], ['+'], ['-']] ∧
    imaginary ∈ [[], ['i']] ∧ plain = core.filter (· ≠ '_')

/-- A decimal by its parts. -/
def DecimalForm (p : Parts) (plain : List Char) : Prop :=
  plain = p.text ∧ p.Fits Char.isDigit isDecimalMark Char.isDigit

/-- A number in base sixteen by its parts. -/
def HexForm (p : Parts) (plain : List Char) : Prop :=
  ∃ letter ∈ ['x', 'X'], plain = '0' :: letter :: p.text ∧
    p.Fits (fun c => (digit? 16 c).isSome) (fun c => c = 'p' || c = 'P') Char.isDigit

/-- A number of digits alone, after a zero and one of some letters. -/
def WordForm (letters : List Char) (base n : Nat) (plain : List Char) : Prop :=
  ∃ letter ∈ letters, ∃ digits, plain = '0' :: letter :: digits ∧ digits ≠ [] ∧
    Numeral base n digits

/-- The letters for base eight and base two. -/
def wordBases : List (List Char × Nat) :=
  [(['o', 'O'], 8), (['b', 'B'], 2)]

/-- A number of one of the forms with no digits missing. -/
def Denotes (plain : List Char) : Prop :=
  (∃ p, DecimalForm p plain ∧ p.Complete) ∨ (∃ n, WordForm ['o', 'O'] 8 n plain) ∨
    (∃ n, WordForm ['b', 'B'] 2 n plain) ∨ ∃ p, HexForm p plain ∧ p.Complete

/-! ## Digits, signs and lower case -/

/-- A digit lies between `0` and `9`. -/
theorem isDigit_iff {c : Char} : c.isDigit = true ↔ '0' ≤ c ∧ c ≤ '9' := by
  simp [Char.isDigit, Char.le_def]

/-- A decimal digit is a hexadecimal digit. -/
theorem isSome_digit?_of_isDigit {c : Char} (h : c.isDigit = true) :
    (digit? 16 c).isSome = true := by
  obtain ⟨hl, hh⟩ := isDigit_iff.1 h
  obtain ⟨n, hn, -, rfl⟩ := eq_ofNat_of_range hl hh
  have : n ≤ 9 := hn
  interval_cases n <;> rfl

/-- There are two signs. -/
theorem isSign_iff {c : Char} : isSign c = true ↔ c = '+' ∨ c = '-' := by
  simp [isSign]

/-- A digit is no sign. -/
theorem isSign_of_digit? {base : Nat} {c : Char} (h : (digit? base c).isSome = true) :
    isSign c = false := by
  rw [Bool.eq_false_iff]
  intro hs
  obtain rfl | rfl := isSign_iff.1 hs <;> cases h

/-- A decimal digit is no sign. -/
theorem isSign_of_isDigit {c : Char} (h : c.isDigit = true) : isSign c = false :=
  isSign_of_digit? (isSome_digit?_of_isDigit h)

/-- An exponent mark is no sign. -/
theorem isSign_of_isDecimalMark {c : Char} (h : isDecimalMark c = true) : isSign c = false := by
  obtain rfl | rfl : c = 'e' ∨ c = 'E' := by simpa [isDecimalMark] using h
  · rfl
  · rfl

/-- Lower case changes capital letters only. -/
theorem toLower_cases (c : Char) : c.toLower = c ∨ 'A' ≤ c ∧ c ≤ 'Z' := by
  unfold Char.toLower
  split
  next h => exact .inr h
  next => exact .inl rfl

/-- The value of a digit does not depend on its case. -/
theorem digit?_toLower (base : Nat) (c : Char) : digit? base c.toLower = digit? base c := by
  rcases toLower_cases c with h | ⟨hl, hh⟩
  · rw [h]
  · obtain ⟨n, hn, -, rfl⟩ := eq_ofNat_of_range hl hh
    have : n ≤ 25 := hn
    interval_cases n <;> rfl

/-- Decimal digits have no case. -/
theorem toLower_of_isDigit {c : Char} (h : c.isDigit = true) : c.toLower = c := by
  rcases toLower_cases c with h' | ⟨hl, -⟩
  · exact h'
  · exact absurd (Char.le_trans hl (isDigit_iff.1 h).2) (by decide)

/-- Nothing but a plus becomes one in lower case. -/
theorem eq_plus_of_toLower {c : Char} (h : c.toLower = '+') : c = '+' := by
  obtain hc | ⟨hl, hh⟩ := toLower_cases c
  · rw [← hc, h]
  · obtain ⟨n, hn, -, rfl⟩ := eq_ofNat_of_range hl hh
    have : n ≤ 25 := hn
    interval_cases n <;> cases h

namespace Parts

variable {p : Parts}

/-! ## Characters of a number -/

/-- The point and the digits behind it hold nothing else. -/
theorem mem_point {c : Char} (hc : c ∈ p.point) : c = '.' ∨ c ∈ p.mantissa := by
  rw [point] at hc
  cases hf : p.fraction with
  | none => simp [hf] at hc
  | some ds =>
    rw [hf] at hc
    obtain rfl | hc := List.mem_cons.1 hc
    · exact .inl rfl
    · exact .inr (List.mem_append_right _ (by rwa [hf]))

/-- An exponent holds its mark, its sign and its digits only. -/
theorem mem_power {c : Char} (hc : c ∈ p.power) :
    ∃ e ∈ p.exponent, c = e.mark ∨ c ∈ e.sign ∨ c ∈ e.digits := by
  rw [power] at hc
  cases he : p.exponent with
  | none => simp [he] at hc
  | some e =>
    rw [he] at hc
    refine ⟨e, rfl, ?_⟩
    simpa [Exponent.text] using hc

/-- A number holds digits, a point, a mark and a sign only. -/
theorem mem_text {digit mark decimal : Char → Bool} (h : p.Fits digit mark decimal) {c : Char}
    (hc : c ∈ p.text) :
    digit c = true ∨ c = '.' ∨ mark c = true ∨ isSign c = true ∨ decimal c = true := by
  rw [text, List.mem_append, List.mem_append] at hc
  obtain hc | hc | hc := hc
  · exact .inl (h.mantissa c (List.mem_append_left _ hc))
  · obtain hc | hc := mem_point hc
    · exact .inr (.inl hc)
    · exact .inl (h.mantissa c hc)
  · obtain ⟨e, he, rfl | hc | hc⟩ := mem_power hc
    · exact .inr (.inr (.inl (h.exponent e he).mark))
    · exact .inr (.inr (.inr (.inl ((h.exponent e he).sign c hc))))
    · exact .inr (.inr (.inr (.inr ((h.exponent e he).digits c hc))))

/-- A number does not hold a character it has no part for. -/
theorem not_mem_text {digit mark decimal : Char → Bool} (h : p.Fits digit mark decimal) {c : Char}
    (hc : (digit c || c = '.' || mark c || isSign c || decimal c) = false) : c ∉ p.text := by
  intro hmem
  obtain hmem | hmem | hmem | hmem | hmem := mem_text h hmem <;> simp [hmem] at hc

/-- The digits of the mantissa stand in the text. -/
theorem mem_text_of_mantissa {c : Char} (hc : c ∈ p.mantissa) : c ∈ p.text := by
  obtain hc | hc := List.mem_append.1 hc
  · exact List.mem_append_left _ hc
  · refine List.mem_append_right _ (List.mem_append_left _ ?_)
    cases hf : p.fraction with
    | none => rw [hf] at hc; cases hc
    | some ds =>
      rw [hf] at hc
      rw [point, hf]
      exact List.mem_cons_of_mem _ hc

/-- A sign stands only in an exponent. -/
theorem isSign_head {digit mark decimal : Char → Bool} (h : p.Fits digit mark decimal)
    (hd : ∀ c, digit c = true → isSign c = false) (hm : ∀ c, mark c = true → isSign c = false) :
    ∀ c ∈ p.text.head?, isSign c = false := by
  intro c hc
  obtain ⟨whole, fraction, exponent⟩ := p
  cases whole with
  | cons d whole =>
    cases hc
    exact hd c (h.mantissa c List.mem_cons_self)
  | nil =>
    cases fraction with
    | some ds => cases hc; rfl
    | none =>
      cases exponent with
      | some e => cases hc; exact hm e.mark (h.exponent e rfl).mark
      | none => cases hc

/-- The parts without underscores. -/
def plain (p : Parts) : Parts where
  whole := p.whole.filter (· ≠ '_')
  fraction := p.fraction.map (·.filter (· ≠ '_'))
  exponent := p.exponent.map fun e => { e with digits := e.digits.filter (· ≠ '_') }

/-- A number without underscores is the text without underscores. -/
theorem filter_text {digit mark decimal : Char → Bool} (h : p.Fits digit mark decimal)
    (hmark : mark '_' = false) : p.text.filter (· ≠ '_') = p.plain.text := by
  -- The point, the mark and the sign are no underscores; only digits are left out.
  have hpoint : p.point.filter (· ≠ '_') = p.plain.point := by
    cases hf : p.fraction <;> simp [point, plain, hf]
  have hpower : p.power.filter (· ≠ '_') = p.plain.power := by
    cases he : p.exponent with
    | none => simp [power, plain, he]
    | some e =>
      have hm : e.mark ≠ '_' := by
        intro hm
        have := (h.exponent e he).mark
        rw [hm, hmark] at this
        cases this
      have hs : e.sign.toList.filter (· ≠ '_') = e.sign.toList := by
        refine List.filter_eq_self.2 fun c hc => ?_
        obtain rfl | rfl := isSign_iff.1 ((h.exponent e he).sign c (Option.mem_toList.1 hc)) <;> rfl
      simp only [power, plain, he, Option.map_some, Option.getD_some, Exponent.text]
      rw [List.filter_cons_of_pos (by simpa using hm), List.filter_append, hs]
  rw [text, List.filter_append, List.filter_append, hpoint, hpower]
  rfl

/-- A number whose parts fit still fits without underscores. -/
theorem Fits.plain {digit digit' mark decimal decimal' : Char → Bool}
    (h : p.Fits digit mark decimal) (hd : ∀ c, digit c = true → c ≠ '_' → digit' c = true)
    (hdec : ∀ c, decimal c = true → c ≠ '_' → decimal' c = true) :
    p.plain.Fits digit' mark decimal' := by
  have hmantissa : p.plain.mantissa = p.mantissa.filter (· ≠ '_') := by
    cases hf : p.fraction <;> simp [Parts.mantissa, Parts.plain, hf]
  constructor
  · intro c hc
    rw [hmantissa, List.mem_filter] at hc
    exact hd c (h.mantissa c hc.1) (by simpa using hc.2)
  · intro e he
    obtain ⟨e', he', rfl⟩ := Option.mem_map.1 he
    have hfits := h.exponent e' he'
    refine ⟨hfits.mark, hfits.sign, fun c hc => ?_⟩
    obtain ⟨hc, hne⟩ := List.mem_filter.1 hc
    exact hdec c (hfits.digits c hc) (by simpa using hne)

/-- The parts of a decimal in lower case. -/
def lower (p : Parts) : Parts where
  whole := p.whole
  fraction := p.fraction
  exponent := p.exponent.map fun e => { e with mark := 'e' }

/-- A number in lower case is the text in lower case. -/
theorem map_toLower_text (h : p.Fits Char.isDigit isDecimalMark Char.isDigit) :
    p.text.map Char.toLower = p.lower.text := by
  -- Only the mark of the exponent is a letter.
  have hdigits {ds : List Char} (hds : ∀ c ∈ ds, c.isDigit = true) : ds.map Char.toLower = ds :=
    (List.map_congr_left fun c hc => toLower_of_isDigit (hds c hc)).trans (List.map_id ds)
  obtain ⟨hwhole, hfraction⟩ := List.forall_mem_append.1 h.mantissa
  have hpoint : p.point.map Char.toLower = p.lower.point := by
    cases hf : p.fraction with
    | none => simp [point, lower, hf]
    | some ds =>
      have hds : ∀ c ∈ ds, c.isDigit = true := by rwa [hf] at hfraction
      simp only [point, lower, hf, Option.map_some, Option.getD_some, List.map_cons, hdigits hds]
      rfl
  have hpower : p.power.map Char.toLower = p.lower.power := by
    cases he : p.exponent with
    | none => simp [power, lower, he]
    | some e =>
      obtain ⟨hmark, hsign, he'⟩ := h.exponent e he
      have hm : e.mark.toLower = 'e' := by
        obtain hm | hm : e.mark = 'e' ∨ e.mark = 'E' := by simpa [isDecimalMark] using hmark
        · rw [hm]; rfl
        · rw [hm]; rfl
      have hs : e.sign.toList.map Char.toLower = e.sign.toList := by
        cases hs : e.sign with
        | none => rfl
        | some c => obtain rfl | rfl := isSign_iff.1 (hsign c hs) <;> rfl
      simp only [power, lower, he, Option.map_some, Option.getD_some, Exponent.text, List.map_cons,
        List.map_append, hm, hs, hdigits he']
  rw [text, List.map_append, List.map_append, hpoint, hpower, hdigits hwhole]
  rfl

/-- A number whose parts fit still fits in lower case, with the one mark. -/
theorem Fits.lower (h : p.Fits Char.isDigit isDecimalMark Char.isDigit) :
    p.lower.Fits Char.isDigit (· = 'e') Char.isDigit := by
  refine ⟨h.mantissa, fun e he => ?_⟩
  obtain ⟨e', he', rfl⟩ := Option.mem_map.1 he
  exact ⟨rfl, (h.exponent e' he').sign, (h.exponent e' he').digits⟩

/-- Case has no part in whether a number is complete. -/
theorem complete_lower : p.lower.Complete ↔ p.Complete := by
  cases he : p.exponent <;> simp [Complete, lower, mantissa, he]

end Parts

/-! ## Decimals -/

/-- An exponent is accepted exactly if it has digits. -/
theorem isExponent_text {e : Exponent} (h : e.Fits (· = 'e') Char.isDigit) :
    isExponent e.text = true ↔ e.digits ≠ [] := by
  obtain ⟨mark, sign, digits⟩ := e
  obtain ⟨hmark, hsign, hdigits⟩ := h
  obtain rfl : mark = 'e' := by simpa using hmark
  have hall : digits.all Char.isDigit = true := List.all_eq_true.2 hdigits
  cases sign with
  | some c =>
    have hc : isSign c = true := hsign c rfl
    simpa [Exponent.text, isExponent, hc] using fun _ => hdigits
  | none =>
    cases digits with
    | nil => simp [Exponent.text, isExponent]
    | cons c digits =>
      have hc := isSign_of_isDigit (hdigits c List.mem_cons_self)
      simp [Exponent.text, isExponent, hc, hall]

namespace Parts

variable {p : Parts}

/-- A number's exponent is accepted exactly if there is none or it has digits. -/
theorem isExponent_power (h : p.Fits Char.isDigit (· = 'e') Char.isDigit) :
    isExponent p.power = true ↔ ∀ e ∈ p.exponent, e.digits ≠ [] := by
  obtain ⟨whole, fraction, exponent⟩ := p
  cases exponent with
  | none => simp [power, isExponent]
  | some e => simpa [power] using isExponent_text (h.exponent e rfl)

/-- An exponent is empty or begins with its mark. -/
theorem power_cases {digit decimal : Char → Bool} (h : p.Fits digit (· = 'e') decimal) :
    p.power = [] ∨ ∃ rest, p.power = 'e' :: rest := by
  obtain ⟨whole, fraction, exponent⟩ := p
  cases exponent with
  | none => exact .inl rfl
  | some e =>
    have he : e.mark = 'e' := by simpa using (h.exponent e rfl).mark
    exact .inr ⟨e.sign.toList ++ e.digits, by rw [← he]; rfl⟩

/-- An unsigned decimal is accepted exactly if it is complete. -/
theorem isUnsignedDecimal_text (h : p.Fits Char.isDigit (· = 'e') Char.isDigit) :
    isUnsignedDecimal p.text = true ↔ p.Complete := by
  obtain ⟨hwhole, hfraction⟩ := List.forall_mem_append.1 h.mantissa
  have htake : p.power.takeWhile Char.isDigit = [] := by
    rcases power_cases h with hp | ⟨rest, hp⟩ <;> simp [hp]
  have hdrop : p.power.dropWhile Char.isDigit = p.power := by
    rcases power_cases h with hp | ⟨rest, hp⟩ <;> simp [hp]
  have hpoint : ∀ rest, p.power ≠ '.' :: rest := by
    rcases power_cases h with hp | ⟨rest, hp⟩ <;> simp [hp]
  rw [Complete, ← isExponent_power h, isUnsignedDecimal, text,
    List.takeWhile_append_of_pos hwhole, List.dropWhile_append_of_pos hwhole, mantissa, point]
  cases hf : p.fraction with
  | none => simp [htake, hdrop]
  | some ds =>
    have hds : ∀ c ∈ ds, c.isDigit = true := by simpa [hf] using hfraction
    simp [List.takeWhile_append_of_pos hds, List.dropWhile_append_of_pos hds, htake, hdrop,
      or_iff_not_imp_left]

end Parts

/-- Without a sign or an `n`, which the names of infinity and of what is no number hold, a decimal
is an unsigned one. -/
theorem isDecimal_eq {text : List Char} (hsign : ∀ c ∈ text.head?, isSign c = false)
    (hn : 'n' ∉ text) : isDecimal text = isUnsignedDecimal text := by
  have hinf : text ≠ "inf".toList := by rintro rfl; exact hn (by decide)
  have hinfinity : text ≠ "infinity".toList := by rintro rfl; exact hn (by decide)
  have hnan : text ≠ "nan".toList := by rintro rfl; exact hn (by decide)
  -- The names stay closed, so that no list of their characters is compared.
  unfold isDecimal
  generalize "inf".toList = inf at *
  generalize "infinity".toList = infinity at *
  generalize "nan".toList = nan at *
  cases text with
  | nil => simp [hinf, hinfinity, hnan]
  | cons c rest => simp [hsign c rfl, hinf, hinfinity, hnan]

/-! ## Digits alone -/

/-- Folding digits is taking all of them. -/
theorem foldl_digits (base : Nat) (start : Option Nat) (digits : List Char) :
    digits.foldl (fun value c => do return (← value) * base + (← digit? base c)) start =
      start.bind fun value =>
        (takeDigits base digits.length value digits).toOption.map Prod.fst := by
  induction digits generalizing start with
  | nil => cases start <;> rfl
  | cons c digits ih =>
    rw [List.foldl_cons, ih]
    cases start with
    | none => rfl
    | some value =>
      rw [Option.bind_some, List.length_cons, takeDigits]
      cases digit? base c <;> rfl

/-- Digits have a value exactly if they are a numeral of it. -/
theorem digitsValue?_eq_some_iff {base n : Nat} {digits : List Char} :
    digitsValue? base digits = some n ↔ Numeral base n digits := by
  rw [digitsValue?, foldl_digits, Option.bind_some]
  constructor
  · intro h
    cases hd : takeDigits base digits.length 0 digits with
    | error fault => rw [hd] at h; cases h
    | ok result =>
      rw [hd] at h
      cases h
      obtain ⟨ds, m, htext, hlength, hm, htotal⟩ := takeDigits_eq_ok_iff.1 hd
      obtain rfl : ds = digits := List.IsPrefix.eq_of_length ⟨_, htext.symm⟩ hlength
      simpa [htotal] using hm
  · intro h
    have hok : takeDigits base digits.length 0 digits = .ok (n, []) :=
      takeDigits_eq_ok_iff.2 ⟨digits, n, by simp, rfl, h, by simp⟩
    rw [hok]
    rfl

/-- A numeral is made of digits. -/
theorem Numeral.digit?_ne_none {base n : Nat} {digits : List Char} (h : Numeral base n digits) :
    ∀ c ∈ digits, digit? base c ≠ none := by
  induction digits generalizing n with
  | nil => exact fun _ => nofun
  | cons c digits ih =>
    obtain ⟨d, m, hd, hm, -⟩ := numeral_cons.1 h
    refine List.forall_mem_cons.2 ⟨?_, ih hm⟩
    rw [digit?_eq_some_iff.2 hd]
    exact Option.some_ne_none d

/-- Case has no part in the value of a numeral. -/
theorem numeral_map_toLower {base n : Nat} {digits : List Char} :
    Numeral base n (digits.map Char.toLower) ↔ Numeral base n digits := by
  have hdigit (d : Nat) (c : Char) : IsDigit base d c.toLower ↔ IsDigit base d c := by
    rw [← digit?_eq_some_iff, digit?_toLower, digit?_eq_some_iff]
  simp [Numeral, List.forall₂_map_right_iff, hdigit]

/-- A word is a numeral of at least one digit that fits 64 bits. -/
theorem isWord_iff {base : Nat} {text : List Char} (hplus : text.head? ≠ some '+') :
    isWord base text = true ↔ text ≠ [] ∧ ∃ n < 2 ^ 64, Numeral base n text := by
  have hvalue : (∃ n < 2 ^ 64, Numeral base n text) ↔
      ∃ n < 2 ^ 64, digitsValue? base text = some n := by
    simp only [digitsValue?_eq_some_iff]
  rw [hvalue]
  unfold isWord
  split
  next rest => exact absurd rfl hplus
  next =>
    dsimp only
    cases digitsValue? base text <;> simp

/-! ## The check -/

/-- The bare form of a number is its trimmed text in lower case. -/
theorem Trims.bareNumber {lexeme plain : List Char} (h : Trims lexeme plain)
    (hsign : ∀ c ∈ plain.head?, isSign c = false) (hi : 'i' ∉ plain) :
    bareNumber lexeme = plain.map Char.toLower := by
  obtain ⟨sign, core, imaginary, rfl, hs, him, rfl⟩ := h
  -- What is cut off are signs in front and marks behind, and the core has neither there.
  have hsigns : ∀ c ∈ sign, isSign c = true := by
    simp only [List.mem_cons, List.not_mem_nil, or_false] at hs
    rcases hs with rfl | rfl | rfl <;> simp [isSign]
  have hmarks : ∀ c ∈ imaginary.reverse, decide (c = 'i') = true := by
    simp only [List.mem_cons, List.not_mem_nil, or_false] at him
    rcases him with rfl | rfl <;> simp
  have hcore : (core ++ imaginary).dropWhile isSign = core ++ imaginary := by
    cases core with
    | nil =>
      simp only [List.mem_cons, List.not_mem_nil, or_false] at him
      rcases him with rfl | rfl <;> rfl
    | cons c core =>
      refine List.dropWhile_cons_of_neg fun hc => ?_
      have hne : c ≠ '_' := by rintro rfl; cases hc
      rw [List.filter_cons_of_pos (by simpa using hne)] at hsign
      rw [hsign c rfl] at hc
      cases hc
  have hrest : core.reverse.dropWhile (· = 'i') = core.reverse := by
    cases hr : core.reverse with
    | nil => rfl
    | cons c rest =>
      refine List.dropWhile_cons_of_neg fun hc => hi (List.mem_filter.2 ⟨?_, rfl⟩)
      rw [← of_decide_eq_true hc, ← List.mem_reverse, hr]
      exact List.mem_cons_self
  rw [Literal.bareNumber, List.dropWhile_append_of_pos hsigns, hcore, List.reverse_append,
    List.dropWhile_append_of_pos hmarks, hrest, List.reverse_reverse]

/-- A decimal is accepted if no digits are missing. -/
theorem isNumber_decimal {lexeme : List Char} {p : Parts} (ht : Trims lexeme p.text)
    (h : p.Fits Char.isDigit isDecimalMark Char.isDigit) :
    isNumber lexeme = true ↔ p.Complete := by
  have hlower := h.lower
  have hbare : bareNumber lexeme = p.lower.text := by
    have hhead := Parts.isSign_head h (fun _ => isSign_of_isDigit) fun _ => isSign_of_isDecimalMark
    rw [ht.bareNumber hhead (Parts.not_mem_text h rfl), Parts.map_toLower_text h]
  have hhead : ∀ c ∈ p.lower.text.head?, isSign c = false := by
    refine Parts.isSign_head hlower (fun _ => isSign_of_isDigit) fun c hc => ?_
    rw [of_decide_eq_true hc]
    rfl
  rw [← Parts.complete_lower, ← Parts.isUnsignedDecimal_text hlower, isNumber, hbare]
  split
  next digits hx => exact absurd (by simp [hx]) (Parts.not_mem_text hlower (c := 'x') rfl)
  next digits ho => exact absurd (by simp [ho]) (Parts.not_mem_text hlower (c := 'o') rfl)
  next digits hb => exact absurd (by simp [hb]) (Parts.not_mem_text hlower (c := 'b') rfl)
  next => rw [isDecimal_eq hhead (Parts.not_mem_text hlower rfl)]

/-- The bare form of a number with a base is its trimmed text in lower case. -/
theorem Trims.bareNumber_letter {lexeme rest : List Char} {letter : Char}
    (h : Trims lexeme ('0' :: letter :: rest)) (hl : letter ≠ 'i') (hi : 'i' ∉ rest) :
    Literal.bareNumber lexeme = '0' :: letter.toLower :: rest.map Char.toLower := by
  have hmem : 'i' ∉ '0' :: letter :: rest := by simp [hl.symm, hi]
  rw [h.bareNumber (by simp [isSign]) hmem]
  rfl

/-- In base sixteen any digits may be missing, as long as something follows the letter. -/
theorem isNumber_hex {lexeme : List Char} {letter : Char} {p : Parts}
    (ht : Trims lexeme ('0' :: letter :: p.text)) (hl : letter ∈ ['x', 'X'])
    (h : p.Fits (fun c => (digit? 16 c).isSome) (fun c => c = 'p' || c = 'P') Char.isDigit) :
    isNumber lexeme = true ↔ p.text ≠ [] := by
  have hbare : bareNumber lexeme = '0' :: 'x' :: p.text.map Char.toLower := by
    simp only [List.mem_cons, List.not_mem_nil, or_false] at hl
    rcases hl with rfl | rfl <;>
      exact ht.bareNumber_letter (by decide) (Parts.not_mem_text h (by decide))
  -- Every character that the form allows is allowed in base sixteen, so only emptiness matters.
  have hall : ∀ c ∈ p.text.map Char.toLower,
      ((digit? 16 c).isSome || c = '.' || c = 'p' || isSign c) = true := by
    intro c hc
    obtain ⟨c', hc', rfl⟩ := List.mem_map.1 hc
    rw [digit?_toLower]
    obtain hd | rfl | hm | hs | hd := Parts.mem_text h hc'
    · simp [hd]
    · rfl
    · obtain rfl | rfl : c' = 'p' ∨ c' = 'P' := by simpa using hm
      · rfl
      · rfl
    · obtain rfl | rfl := isSign_iff.1 hs <;> rfl
    · simp [isSome_digit?_of_isDigit hd]
  rw [isNumber, hbare]
  change isHexNumber (p.text.map Char.toLower) = true ↔ _
  rw [isHexNumber, List.all_eq_true.2 hall]
  simp

/-- In base eight and base two there must be digits after the letter, and nothing else. -/
theorem isNumber_word {lexeme digits : List Char} {letter : Char} {letters : List Char} {base : Nat}
    (ht : Trims lexeme ('0' :: letter :: digits)) (hl : letter ∈ letters)
    (hb : (letters, base) ∈ wordBases)
    (hplus : digits.head? ≠ some '+') (hi : 'i' ∉ digits) :
    isNumber lexeme = true ↔ digits ≠ [] ∧ ∃ n < 2 ^ 64, Numeral base n digits := by
  have hhead : (digits.map Char.toLower).head? ≠ some '+' := by
    cases digits with
    | nil => exact (Option.some_ne_none _).symm
    | cons c digits =>
      intro hc
      exact hplus (congrArg some (eq_plus_of_toLower (Option.some.inj hc)))
  have hword : isWord base (digits.map Char.toLower) = true ↔
      digits ≠ [] ∧ ∃ n < 2 ^ 64, Numeral base n digits := by
    simp [isWord_iff hhead, numeral_map_toLower]
  rw [← hword, isNumber]
  simp only [wordBases, List.mem_cons, List.not_mem_nil, or_false, Prod.mk.injEq] at hb
  obtain ⟨rfl, rfl⟩ | ⟨rfl, rfl⟩ := hb
  · simp only [List.mem_cons, List.not_mem_nil, or_false] at hl
    rcases hl with rfl | rfl <;> rw [ht.bareNumber_letter (by decide) hi] <;> rfl
  · simp only [List.mem_cons, List.not_mem_nil, or_false] at hl
    rcases hl with rfl | rfl <;> rw [ht.bareNumber_letter (by decide) hi] <;> rfl

/-- A number of one of the word bases is accepted if it fits 64 bits. -/
theorem isNumber_of_wordForm {lexeme plain letters : List Char} {base n : Nat}
    (hb : (letters, base) ∈ wordBases) (ht : Trims lexeme plain) (hn : n < 2 ^ 64)
    (h : WordForm letters base n plain) : isNumber lexeme = true := by
  obtain ⟨letter, hl, digits, rfl, hne, hnumeral⟩ := h
  have hdigit := hnumeral.digit?_ne_none
  have hplus : digits.head? ≠ some '+' := fun h => hdigit '+' (List.mem_of_head? h) rfl
  have hi : 'i' ∉ digits := fun h => hdigit 'i' h rfl
  exact (isNumber_word ht hl hb hplus hi).2 ⟨hne, n, hn, hnumeral⟩

/-! ## Numbers without digits -/

/-- What is left of a number literal is known if it has neither a sign nor an imaginary mark. -/
theorem Trims.eq_filter {lexeme plain : List Char} (h : Trims lexeme plain)
    (hsign : ∀ c ∈ lexeme.head?, isSign c = false) (hi : lexeme.getLast? ≠ some 'i') :
    plain = lexeme.filter (· ≠ '_') := by
  obtain ⟨sign, core, imaginary, rfl, hs, him, rfl⟩ := h
  simp only [List.mem_cons, List.not_mem_nil, or_false] at hs him
  obtain rfl | rfl | rfl := hs
  · obtain rfl | rfl := him
    · rw [List.nil_append, List.append_nil]
    · exact absurd (by simp) hi
  · cases hsign '+' rfl
  · cases hsign '-' rfl

/-- In base sixteen there is no number without a digit. -/
theorem not_denotes {letter : Char} {rest : List Char} (hl : letter ∈ ['x', 'X'])
    (hrest : ∀ c ∈ rest, digit? 16 c = none) : ¬Denotes ('0' :: letter :: rest) := by
  simp only [List.mem_cons, List.not_mem_nil, or_false] at hl
  rintro (⟨p, ⟨htext, hfits⟩, -⟩ | ⟨n, letter', hl', digits, htext, -⟩ |
    ⟨n, letter', hl', digits, htext, -⟩ | ⟨p, ⟨letter', -, htext, hfits⟩, hmantissa, -⟩)
  · have hmem : letter ∈ p.text := by simp [← htext]
    rcases hl with rfl | rfl <;> exact Parts.not_mem_text hfits rfl hmem
  · cases htext
    rcases hl with rfl | rfl <;> exact absurd hl' (by decide)
  · cases htext
    rcases hl with rfl | rfl <;> exact absurd hl' (by decide)
  · obtain ⟨c, hc⟩ := List.exists_mem_of_ne_nil _ hmantissa
    have hdigit := hfits.mantissa c hc
    have hmem := Parts.mem_text_of_mantissa hc
    rw [← (List.cons.inj (List.cons.inj htext).2).2] at hmem
    rw [hrest c hmem] at hdigit
    cases hdigit

end FieldAudit.Literal
