import FieldAudit.Literal
import Mathlib.Data.List.Forall2
import Mathlib.Data.Nat.Digits.Defs
import Mathlib.Tactic.IntervalCases

/-! # Spellings of a text

A text has many spellings between quotes: a character stands for itself, or an escape stands for it
by a letter or by digits, and each character is written on its own.  `Spelling` says which spellings
there are, by the digits of a number and not by the way in which a reader adds them up.  Reading
accepts exactly the spellings and gives the text (`decodeBody_eq_ok_iff`).

The numbers in escapes are small.  `decodeBody32` reads in 32 bits and gives up where a number does
not fit; it never does (`decodeBody32_eq`). -/

namespace FieldAudit.Literal

open Text

/-! ## Numerals -/

/-- A digit by its value, in lower or in upper case. -/
def IsDigit (base d : Nat) (c : Char) : Prop :=
  d < base ∧ ("0123456789abcdef".toList[d]? = some c ∨ "0123456789ABCDEF".toList[d]? = some c)

/-- A number in positional notation, with its most significant digit in front. -/
def Numeral (base n : Nat) (digits : List Char) : Prop :=
  ∃ ds, List.Forall₂ (IsDigit base) ds digits ∧ n = Nat.ofDigits base ds.reverse

/-- A character of a range by its distance from the first one. -/
theorem eq_ofNat_of_range {low high c : Char} (hl : low ≤ c) (hh : c ≤ high) :
    ∃ n ≤ high.toNat - low.toNat, c.toNat - low.toNat = n ∧ c = Char.ofNat (low.toNat + n) := by
  have hle : low.toNat ≤ c.toNat := hl
  refine ⟨_, Nat.sub_le_sub_right (show c.toNat ≤ high.toNat from hh) _, rfl, ?_⟩
  rw [Nat.add_sub_cancel' hle, Char.ofNat_toNat]

/-- The digits that are read are those of the two tables. -/
theorem digit?_eq_some_iff {base d : Nat} {c : Char} :
    digit? base c = some d ↔ IsDigit base d c := by
  constructor
  · intro h
    obtain ⟨hv, hd⟩ := Option.filter_eq_some_iff.1 h
    refine ⟨by simpa using hd, ?_⟩
    -- In each of the three ranges the character is known from its value.
    split at hv
    next hr =>
      obtain ⟨n, hn, hvalue, rfl⟩ := eq_ofNat_of_range hr.1 hr.2
      rw [hvalue] at hv
      have : n ≤ 9 := hn
      interval_cases n <;> cases hv <;> exact .inl rfl
    next =>
      split at hv
      next hr =>
        obtain ⟨n, hn, hvalue, rfl⟩ := eq_ofNat_of_range hr.1 hr.2
        rw [hvalue] at hv
        have : n ≤ 5 := hn
        interval_cases n <;> cases hv <;> exact .inl rfl
      next =>
        split at hv
        next hr =>
          obtain ⟨n, hn, hvalue, rfl⟩ := eq_ofNat_of_range hr.1 hr.2
          rw [hvalue] at hv
          have : n ≤ 5 := hn
          interval_cases n <;> cases hv <;> exact .inr rfl
        next => cases hv
  · rintro ⟨hd, hc⟩
    have hlt : d < 16 := by
      rcases hc with hc | hc
      · exact (List.getElem?_eq_some_iff.1 hc).1
      · exact (List.getElem?_eq_some_iff.1 hc).1
    refine Option.filter_eq_some_iff.2 ⟨?_, by simpa using hd⟩
    interval_cases d <;> rcases hc with hc | hc <;> cases hc <;> decide

/-- The first digit counts most. -/
theorem ofDigits_reverse_cons (base d : Nat) (ds : List Nat) :
    Nat.ofDigits base (d :: ds).reverse =
      d * base ^ ds.length + Nat.ofDigits base ds.reverse := by
  rw [List.reverse_cons, Nat.ofDigits_append, Nat.ofDigits_singleton, List.length_reverse,
    Nat.mul_comm, Nat.add_comm]

/-- No digits spell zero. -/
@[simp] theorem numeral_nil {base n : Nat} : Numeral base n [] ↔ n = 0 := by
  simp [Numeral]

/-- A numeral is its first digit, weighed by the length of the others, and the others. -/
theorem numeral_cons {base n : Nat} {c : Char} {digits : List Char} :
    Numeral base n (c :: digits) ↔
      ∃ d m, IsDigit base d c ∧ Numeral base m digits ∧ n = d * base ^ digits.length + m := by
  constructor
  · rintro ⟨ds, hds, rfl⟩
    obtain ⟨d, tail, hd, htail, rfl⟩ := List.forall₂_cons_right_iff.1 hds
    exact ⟨d, _, hd, ⟨tail, htail, rfl⟩, by rw [ofDigits_reverse_cons, htail.length_eq]⟩
  · rintro ⟨d, m, hd, ⟨tail, htail, rfl⟩, rfl⟩
    exact ⟨d :: tail, .cons hd htail, by rw [ofDigits_reverse_cons, htail.length_eq]⟩

/-- Every value below the base has a digit. -/
theorem exists_isDigit {base d : Nat} (hbase : base ≤ 16) (hd : d < base) :
    ∃ c, IsDigit base d c := by
  have hlength : d < "0123456789abcdef".toList.length := Nat.lt_of_lt_of_le hd hbase
  exact ⟨_, hd, .inl (List.getElem?_eq_getElem hlength)⟩

/-- A number of so many digits is below that power of the base. -/
theorem Numeral.lt_pow {base n : Nat} {digits : List Char} (h : Numeral base n digits) :
    n < base ^ digits.length := by
  induction digits generalizing n with
  | nil => simp [numeral_nil.1 h]
  | cons c digits ih =>
    obtain ⟨d, m, hd, hm, rfl⟩ := numeral_cons.1 h
    calc d * base ^ digits.length + m
      _ < d * base ^ digits.length + base ^ digits.length := Nat.add_lt_add_left (ih hm) _
      _ = (d + 1) * base ^ digits.length := (Nat.succ_mul _ _).symm
      _ ≤ base * base ^ digits.length := Nat.mul_le_mul_right _ hd.1
      _ = base ^ (c :: digits).length := (Nat.pow_succ').symm

/-- The numbers with a given number of digits. -/
theorem exists_numeral_iff {base : Nat} (hbase : base ≤ 16) {n count : Nat} :
    (∃ digits : List Char, digits.length = count ∧ Numeral base n digits) ↔ n < base ^ count := by
  constructor
  · rintro ⟨digits, rfl, hdigits⟩
    exact hdigits.lt_pow
  · intro h
    induction count generalizing n with
    | zero => exact ⟨[], rfl, numeral_nil.2 (by simpa using h)⟩
    | succ count ih =>
      -- The first digit is the quotient by the power of the base, and the others write the rest.
      have hpow : 0 < base ^ count := Nat.pos_of_mul_pos_right (Nat.zero_lt_of_lt h)
      have hd : n / base ^ count < base := by
        rw [Nat.div_lt_iff_lt_mul hpow, ← Nat.pow_succ']
        exact h
      obtain ⟨c, hc⟩ := exists_isDigit hbase hd
      obtain ⟨digits, hlength, hdigits⟩ := ih (Nat.mod_lt n hpow)
      refine ⟨c :: digits, by rw [List.length_cons, hlength],
        numeral_cons.2 ⟨_, _, hc, hdigits, ?_⟩⟩
      rw [hlength, Nat.mul_comm, Nat.div_add_mod]

/-- Reading digits reads a numeral of their number and adds it up after what has been read. -/
theorem takeDigits_eq_ok_iff {base count value total : Nat} {text rest : List Char} :
    takeDigits base count value text = .ok (total, rest) ↔
      ∃ digits n, text = digits ++ rest ∧ digits.length = count ∧ Numeral base n digits ∧
        total = value * base ^ count + n := by
  fun_induction takeDigits base count value text with
  | case1 value text =>
    constructor
    · intro h
      cases h
      exact ⟨[], 0, by simp⟩
    · rintro ⟨digits, n, rfl, hlength, hn, rfl⟩
      obtain rfl := List.length_eq_zero_iff.1 hlength
      simp [numeral_nil.1 hn]
  | case2 =>
    -- The text ends before the digits do.
    refine iff_of_false (fun h => by cases h) ?_
    rintro ⟨digits, n, htext, hlength, -, -⟩
    rw [(List.append_eq_nil_iff.1 htext.symm).1] at hlength
    cases hlength
  | case3 count value c text d hd ih =>
    rw [ih]
    constructor
    · rintro ⟨digits, n, rfl, hlength, hn, rfl⟩
      refine ⟨c :: digits, d * base ^ count + n, rfl, by rw [List.length_cons, hlength], ?_, ?_⟩
      · exact numeral_cons.2 ⟨d, n, digit?_eq_some_iff.1 hd, hn, by rw [hlength]⟩
      · rw [Nat.pow_succ', Nat.add_mul, Nat.mul_assoc, Nat.add_assoc]
    · rintro ⟨digits, n, htext, hlength, hn, rfl⟩
      obtain ⟨d', digits, rfl⟩ := List.exists_cons_of_length_eq_add_one hlength
      obtain ⟨rfl, rfl⟩ := List.cons.inj htext
      obtain ⟨d', m, hd', hm, rfl⟩ := numeral_cons.1 hn
      obtain rfl : d = d' := Option.some.inj (hd.symm.trans (digit?_eq_some_iff.2 hd'))
      have hlength : digits.length = count := Nat.succ.inj hlength
      refine ⟨digits, m, rfl, hlength, hm, ?_⟩
      rw [hlength, Nat.pow_succ', Nat.add_mul, Nat.mul_assoc, Nat.add_assoc]
  | case4 count value c text hd =>
    -- The next character is no digit.
    refine iff_of_false (fun h => by cases h) ?_
    rintro ⟨digits, n, htext, hlength, hn, -⟩
    obtain ⟨d', digits, rfl⟩ := List.exists_cons_of_length_eq_add_one hlength
    obtain ⟨rfl, rfl⟩ := List.cons.inj htext
    obtain ⟨d, m, hd', -, -⟩ := numeral_cons.1 hn
    rw [digit?_eq_some_iff.2 hd'] at hd
    cases hd

/-! ## Escapes -/

/-- The escapes by a letter, each with the character that it stands for. -/
def letterEscapes : List (Char × Char) :=
  [('a', '\x07'), ('b', '\x08'), ('f', '\x0c'), ('n', '\n'), ('r', '\r'), ('t', '\t'),
    ('v', '\x0b'), ('\\', '\\')]

/-- What can follow a backslash between two quotes to stand for a character. -/
inductive Escapes (quote : Char) : Char → List Char → Prop
  | letter {letter c : Char} (hl : (letter, c) ∈ letterEscapes) : Escapes quote c [letter]
  | quote : Escapes quote quote [quote]
  | hex {letter c : Char} {count : Nat} {digits : List Char} (hf : (letter, count) ∈ hexForms)
      (hl : digits.length = count) (hn : Numeral 16 c.toNat digits) :
      Escapes quote c (letter :: digits)
  | octal {c : Char} {digits : List Char} (hl : digits.length = 3) (hn : Numeral 8 c.toNat digits)
      (hc : c.toNat ≤ 255) : Escapes quote c digits

/-- What can stand between two quotes for a text. -/
inductive Spelling (quote : Char) : List Char → List Char → Prop
  | nil : Spelling quote [] []
  | plain {c : Char} {text body : List Char} (hn : c ≠ '\n') (hb : c ≠ '\\') (hq : c ≠ quote)
      (h : Spelling quote text body) : Spelling quote (c :: text) (c :: body)
  | escape {c : Char} {spelled text body : List Char} (he : Escapes quote c spelled)
      (h : Spelling quote text body) : Spelling quote (c :: text) ('\\' :: (spelled ++ body))

/-- A value is a character exactly if it is the code point of one. -/
theorem scalar?_eq_some_iff {value : Nat} {c : Char} :
    scalar? value = some c ↔ c.toNat = value := by
  unfold scalar?
  constructor
  · intro h
    split at h
    next hv => cases h; rw [Char.ofNat, dif_pos hv]; rfl
    next => cases h
  · rintro rfl
    rw [if_pos (show c.toNat.isValidChar from c.valid), Char.ofNat_toNat]

/-- A hexadecimal escape reads exactly the numeral of its character. -/
theorem hexEscape_eq_ok_iff {letter c : Char} {count : Nat} {text rest : List Char} :
    hexEscape letter count text = .ok (c, rest) ↔
      ∃ digits, text = digits ++ rest ∧ digits.length = count ∧ Numeral 16 c.toNat digits := by
  have hdigits : (∃ digits, text = digits ++ rest ∧ digits.length = count ∧
      Numeral 16 c.toNat digits) ↔ takeDigits 16 count 0 text = .ok (c.toNat, rest) := by
    simp [takeDigits_eq_ok_iff]
  rw [hdigits, hexEscape]
  split
  next fault h => simp [h]
  next value tail h =>
    rw [h]
    split
    next c' hc' =>
      -- The number that was read is that of a character, and of no other one.
      have hvalue := scalar?_eq_some_iff.1 hc'
      constructor
      · intro h
        cases h
        rw [hvalue]
      · intro h
        cases h
        rw [Char.toNat_inj.1 hvalue]
    next hnone =>
      refine iff_of_false (fun h => by cases h) ?_
      intro h
      cases h
      rw [scalar?_eq_some_iff.2 rfl] at hnone
      cases hnone

/-- An octal escape reads three digits, of a value that fits a byte. -/
theorem octalEscape_eq_ok_iff {first : Nat} {c : Char} {text rest : List Char} :
    octalEscape first text = .ok (c, rest) ↔
      takeDigits 8 2 first text = .ok (c.toNat, rest) ∧ c.toNat ≤ 255 := by
  rw [octalEscape]
  split
  next fault h => simp [h]
  next value tail h =>
    rw [h]
    -- Every number up to 255 is that of a character.
    have hof {value : Nat} (hle : value ≤ 255) : (Char.ofNat value).toNat = value :=
      scalar?_eq_some_iff.1 (if_pos (.inl (by omega)))
    split
    next hle =>
      constructor
      · intro h
        cases h
        rw [hof hle]
        exact ⟨rfl, hle⟩
      · rintro ⟨h, -⟩
        cases h
        rw [Char.ofNat_toNat]
    next hgt =>
      refine iff_of_false (fun h => by cases h) ?_
      rintro ⟨h, hle⟩
      cases h
      exact hgt hle

section

variable {quote : Char} (hq : quote = doubleQuote ∨ quote = singleQuote)

include hq

/-- An escape of one letter is a listed one or the quote itself. -/
theorem simpleEscape?_eq_some_iff {letter c : Char} :
    simpleEscape? quote letter = some c ↔
      (letter, c) ∈ letterEscapes ∨ letter = quote ∧ c = quote := by
  constructor
  · intro h
    unfold simpleEscape? at h
    split at h
    case h_9 =>
      split at h
      next hletter => cases h; exact .inr ⟨hletter, rfl⟩
      next => cases h
    all_goals
      cases h
      exact .inl (by decide)
  · rintro (h | ⟨rfl, rfl⟩)
    · simp only [letterEscapes, List.mem_cons, Prod.mk.injEq, List.not_mem_nil, or_false] at h
      rcases h with ⟨rfl, rfl⟩ | ⟨rfl, rfl⟩ | ⟨rfl, rfl⟩ | ⟨rfl, rfl⟩ | ⟨rfl, rfl⟩ | ⟨rfl, rfl⟩ |
        ⟨rfl, rfl⟩ | ⟨rfl, rfl⟩ <;> rfl
    · rcases hq with rfl | rfl <;> rfl

/-- The letters of the hexadecimal forms read as many digits as their form has. -/
theorem takeEscape_of_hexForms {letter : Char} {count : Nat} (hf : (letter, count) ∈ hexForms)
    (rest : List Char) : takeEscape quote (letter :: rest) = hexEscape letter count rest := by
  simp only [hexForms, List.mem_cons, Prod.mk.injEq, List.not_mem_nil, or_false] at hf
  rcases hq with rfl | rfl <;> rcases hf with ⟨rfl, rfl⟩ | ⟨rfl, rfl⟩ | ⟨rfl, rfl⟩ <;> rfl

/-- An octal digit reads two more. -/
theorem takeEscape_of_octalDigit {letter : Char} {first : Nat} (hd : digit? 8 letter = some first)
    (rest : List Char) : takeEscape quote (letter :: rest) = octalEscape first rest := by
  obtain ⟨hlt, hletter⟩ := digit?_eq_some_iff.1 hd
  interval_cases first <;> rcases hletter with hletter | hletter <;> cases hletter <;>
    rcases hq with rfl | rfl <;> rfl

/-- After a backslash, exactly an escape is read. -/
theorem takeEscape_eq_ok_iff {c : Char} {text rest : List Char} :
    takeEscape quote text = .ok (c, rest) ↔
      ∃ spelled, text = spelled ++ rest ∧ Escapes quote c spelled := by
  constructor
  · intro h
    cases text with
    | nil => cases h
    | cons letter tail =>
      obtain ⟨c', hc', hs⟩ | ⟨count, hf, hs⟩ | ⟨first, hd, hs⟩ | hs :=
        takeEscape_cases quote letter tail
      · rw [hs] at h
        cases h
        refine ⟨[letter], rfl, ?_⟩
        obtain hl | ⟨rfl, rfl⟩ := (simpleEscape?_eq_some_iff hq).1 hc'
        · exact .letter hl
        · exact .quote
      · rw [hs] at h
        obtain ⟨digits, rfl, hl, hn⟩ := hexEscape_eq_ok_iff.1 h
        exact ⟨letter :: digits, rfl, .hex hf hl hn⟩
      · rw [hs] at h
        obtain ⟨hdigits, hc⟩ := octalEscape_eq_ok_iff.1 h
        obtain ⟨digits, n, rfl, hl, hn, hvalue⟩ := takeDigits_eq_ok_iff.1 hdigits
        refine ⟨letter :: digits, rfl, .octal (by rw [List.length_cons, hl]) ?_ hc⟩
        exact numeral_cons.2 ⟨first, n, digit?_eq_some_iff.1 hd, hn, by rw [hl, hvalue]⟩
      · rw [hs] at h
        cases h
  · rintro ⟨spelled, rfl, he⟩
    cases he with
    | letter hl =>
      rw [List.singleton_append, takeEscape, (simpleEscape?_eq_some_iff hq).2 (.inl hl)]
    | quote =>
      rw [List.singleton_append, takeEscape, (simpleEscape?_eq_some_iff hq).2 (.inr ⟨rfl, rfl⟩)]
    | hex hf hl hn =>
      rw [List.cons_append, takeEscape_of_hexForms hq hf]
      exact hexEscape_eq_ok_iff.2 ⟨_, rfl, hl, hn⟩
    -- The first digit chooses the escape, and the reader goes on from its value.
    | octal hl hn hc =>
      obtain ⟨letter, digits, rfl⟩ := List.exists_cons_of_length_eq_add_one hl
      obtain ⟨first, n, hd, hn, hvalue⟩ := numeral_cons.1 hn
      have hl : digits.length = 2 := Nat.succ.inj hl
      rw [List.cons_append, takeEscape_of_octalDigit hq (digit?_eq_some_iff.2 hd)]
      refine octalEscape_eq_ok_iff.2 ⟨takeDigits_eq_ok_iff.2 ⟨digits, n, rfl, hl, hn, ?_⟩, hc⟩
      rw [hvalue, hl]

/-- Exactly the spellings of a text are read as the text. -/
theorem decodeBody_eq_ok_iff {text body : List Char} :
    decodeBody quote body = .ok text ↔ Spelling quote text body := by
  have hbackslash : '\\' ≠ quote := by rcases hq with rfl | rfl <;> decide
  constructor
  · intro h
    fun_induction decodeBody quote body generalizing text with
    | case1 => cases h; exact .nil
    | case2 => cases h
    | case3 => cases h
    | case4 => cases h
    | case5 => cases h
    | case6 rest result htake decoded hd _ _ ih =>
      cases h
      obtain ⟨spelled, rfl, he⟩ := (takeEscape_eq_ok_iff hq).1 htake
      exact .escape he (ih hd)
    | case7 => cases h
    | case8 c rest hn hc hb decoded hd ih =>
      cases h
      exact .plain hn hb hc (ih hd)
  · intro h
    induction h with
    | nil => rw [decodeBody]
    | plain hn hb hc h ih => rw [decodeBody, if_neg hn, if_neg hc, if_neg hb, ih]
    | @escape c spelled text body he h ih =>
      have htake : takeEscape quote (spelled ++ body) = .ok (c, body) :=
        (takeEscape_eq_ok_iff hq).2 ⟨spelled, rfl, he⟩
      rw [decodeBody, if_neg (by decide), if_neg hbackslash, if_pos rfl]
      split
      next h => rw [htake] at h; cases h
      next h => rw [htake] at h; cases h; rw [ih]

end

/-! ## Reading in 32 bits -/

/-- The first number that does not fit into 32 bits. -/
def wordLimit : Nat :=
  2 ^ 32

/-- `takeDigits` where each number has to fit into 32 bits, and nothing if one does not. -/
def takeDigits32 (base : Nat) : Nat → Nat → List Char → Option (Except Fault (Nat × List Char))
  | 0, value, text => some (.ok (value, text))
  | _ + 1, _, [] => some (.error .truncatedNumericEscape)
  | count + 1, value, c :: rest =>
    match digit? base c with
    | some d =>
      if value * base < wordLimit ∧ value * base + d < wordLimit then
        takeDigits32 base count (value * base + d) rest
      else none
    | none => some (.error .truncatedNumericEscape)

/-- `hexEscape` in 32 bits. -/
def hexEscape32 (letter : Char) (count : Nat) (text : List Char) :
    Option (Except Fault (Char × List Char)) :=
  match takeDigits32 16 count 0 text with
  | none => none
  | some (.error fault) => some (.error fault)
  | some (.ok (value, rest)) =>
    match scalar? value with
    | some c => some (.ok (c, rest))
    | none => some (.error (.invalidEscape letter))

/-- `octalEscape` in 32 bits. -/
def octalEscape32 (first : Nat) (text : List Char) : Option (Except Fault (Char × List Char)) :=
  match takeDigits32 8 2 first text with
  | none => none
  | some (.error fault) => some (.error fault)
  | some (.ok (value, rest)) =>
    some (if value ≤ 255 then .ok (Char.ofNat value, rest) else .error .octalOutOfRange)

/-- `takeEscape` in 32 bits. -/
def takeEscape32 (quote : Char) : List Char → Option (Except Fault (Char × List Char))
  | [] => some (.error .unterminatedEscape)
  | letter :: rest =>
    match simpleEscape? quote letter with
    | some c => some (.ok (c, rest))
    | none =>
      if letter = 'x' then hexEscape32 'x' 2 rest
      else if letter = 'u' then hexEscape32 'u' 4 rest
      else if letter = 'U' then hexEscape32 'U' 8 rest
      else
        match digit? 8 letter with
        | some first => octalEscape32 first rest
        | none => some (.error .unknownEscape)

/-- Digits fit if the largest number that they could write after what has been read does. -/
theorem takeDigits32_eq {base count value : Nat} (h : (value + 1) * base ^ count ≤ wordLimit)
    (text : List Char) :
    takeDigits32 base count value text = some (takeDigits base count value text) := by
  fun_induction takeDigits base count value text with
  | case1 => rw [takeDigits32]
  | case2 => rw [takeDigits32]
  | case3 count value c rest d hd ih =>
    -- The digit is less than the base, so the bound holds again for the digits that are left.
    have hlt : d < base := (digit?_eq_some_iff.1 hd).1
    have hpow : 1 ≤ base ^ count := Nat.pow_pos (Nat.zero_lt_of_lt hlt)
    have hstep : (value * base + d + 1) * base ^ count ≤ wordLimit :=
      calc (value * base + d + 1) * base ^ count
        _ ≤ (value * base + base) * base ^ count := Nat.mul_le_mul_right _ (by omega)
        _ = (value + 1) * base ^ (count + 1) := by rw [← Nat.succ_mul, Nat.mul_assoc, Nat.pow_succ']
        _ ≤ wordLimit := h
    have hnext : value * base + d + 1 ≤ wordLimit :=
      (Nat.le_mul_of_pos_right _ hpow).trans hstep
    rw [takeDigits32, hd]
    dsimp only
    rw [if_pos ⟨by omega, by omega⟩, ih hstep]
  | case4 count value c rest hd => rw [takeDigits32, hd]

/-- Hexadecimal digits that fit 32 bits are read alike with and without the bound. -/
theorem hexEscape32_eq {letter : Char} {count : Nat} (h : 16 ^ count ≤ wordLimit)
    (text : List Char) : hexEscape32 letter count text = some (hexEscape letter count text) := by
  rw [hexEscape32, takeDigits32_eq (by simpa using h), hexEscape]
  cases takeDigits 16 count 0 text with
  | error fault => rfl
  | ok result => dsimp only; cases scalar? result.1 <;> rfl

/-- Three octal digits fit 32 bits. -/
theorem octalEscape32_eq {first : Nat} (h : first < 8) (text : List Char) :
    octalEscape32 first text = some (octalEscape first text) := by
  have hlimit : (first + 1) * 8 ^ 2 ≤ wordLimit :=
    (Nat.mul_le_mul_right _ h).trans (by decide)
  rw [octalEscape32, takeDigits32_eq hlimit, octalEscape]
  cases takeDigits 8 2 first text <;> rfl

/-- No escape exceeds 32 bits, so the bound is never met. -/
theorem takeEscape32_eq (quote : Char) (text : List Char) :
    takeEscape32 quote text = some (takeEscape quote text) := by
  cases text with
  | nil => rfl
  | cons letter rest =>
    rw [takeEscape32, takeEscape]
    cases simpleEscape? quote letter with
    | some c => rfl
    | none =>
      dsimp only
      rw [hexEscape32_eq (show 16 ^ 2 ≤ wordLimit by decide),
        hexEscape32_eq (show 16 ^ 4 ≤ wordLimit by decide),
        hexEscape32_eq (show 16 ^ 8 ≤ wordLimit by decide), apply_ite some, apply_ite some,
        apply_ite some]
      cases hd : digit? 8 letter with
      | none => rfl
      | some first => dsimp only; rw [octalEscape32_eq (digit?_eq_some_iff.1 hd).1]

/-- `decodeBody` in 32 bits. -/
def decodeBody32 (quote : Char) (text : List Char) : Option (Except Fault (List Char)) :=
  match text with
  | [] => some (.ok [])
  | c :: rest =>
    if c = '\n' then some (.error .newline)
    else if c = quote then some (.error .unescapedQuote)
    else if c = '\\' then
      match _h : takeEscape32 quote rest with
      | none => none
      | some (.error fault) => some (.error fault)
      | some (.ok result) => (decodeBody32 quote result.2).map (·.map (result.1 :: ·))
    else (decodeBody32 quote rest).map (·.map (c :: ·))
termination_by text.length
decreasing_by
  · rw [takeEscape32_eq] at _h
    have := takeEscape_length (Option.some.inj _h)
    simp only [List.length_cons]
    omega
  · simp

/-- A body fails where its first escape does. -/
theorem decodeBody32_of_error {quote : Char} {rest : List Char} {fault : Fault}
    (hq : '\\' ≠ quote) (h : takeEscape quote rest = .error fault) :
    decodeBody32 quote ('\\' :: rest) = some (.error fault) := by
  rw [decodeBody32, if_neg (by decide), if_neg hq, if_pos rfl]
  split <;> rename_i h32 <;> rw [takeEscape32_eq, h] at h32 <;> cases h32
  rfl

/-- A body goes on behind its first escape. -/
theorem decodeBody32_of_ok {quote : Char} {rest : List Char} {result : Char × List Char}
    (hq : '\\' ≠ quote) (h : takeEscape quote rest = .ok result) :
    decodeBody32 quote ('\\' :: rest) =
      (decodeBody32 quote result.2).map (·.map (result.1 :: ·)) := by
  rw [decodeBody32, if_neg (by decide), if_neg hq, if_pos rfl]
  split <;> rename_i h32 <;> rw [takeEscape32_eq, h] at h32 <;> cases h32
  rfl

/-- No number in a literal is too large for 32 bits. -/
theorem decodeBody32_eq (quote : Char) (body : List Char) :
    decodeBody32 quote body = some (decodeBody quote body) := by
  fun_induction decodeBody quote body with
  | case1 => rw [decodeBody32]
  | case2 => rw [decodeBody32, if_pos rfl]
  | case3 rest hn => rw [decodeBody32, if_neg hn, if_pos rfl]
  | case4 rest fault htake hn hq => exact decodeBody32_of_error hq htake
  | case5 rest result htake fault hf hn hq ih => rw [decodeBody32_of_ok hq htake, ih, hf]; rfl
  | case6 rest result htake decoded hd hn hq ih => rw [decodeBody32_of_ok hq htake, ih, hd]; rfl
  | case7 c rest hn hq hb fault hf ih =>
    rw [decodeBody32, if_neg hn, if_neg hq, if_neg hb, ih, hf]
    rfl
  | case8 c rest hn hq hb decoded hd ih =>
    rw [decodeBody32, if_neg hn, if_neg hq, if_neg hb, ih, hd]
    rfl

/-! ## Literals -/

/-- What stands between its two quotes decides what a literal is read as. -/
theorem unquote_cons_eq_ok_iff {quote : Char} (hq : isQuote quote = true) {rest text : List Char} :
    unquote (quote :: rest) = .ok text ↔
      ∃ body, rest = body ++ [quote] ∧ decode quote body = .ok text := by
  have hread : unquote (quote :: rest) = .ok text ↔ read (quote :: rest) = .ok text := by
    rw [unquote]
    cases read (quote :: rest) <;> simp [Except.mapError]
  rw [hread, read, hq, Bool.not_true, if_neg Bool.false_ne_true]
  split
  next hlast =>
    refine iff_of_false (fun h => by cases h) ?_
    rintro ⟨body, rfl, -⟩
    exact hlast List.getLast?_concat
  next hlast =>
    rw [not_not] at hlast
    obtain ⟨body, rfl⟩ := List.getLast?_eq_some_iff.1 hlast
    rw [List.dropLast_concat]
    constructor
    · exact fun h => ⟨body, rfl, h⟩
    · rintro ⟨body', hbody, h⟩
      rwa [List.append_cancel_right hbody]

/-- Between single quotes only one character can be spelled. -/
theorem decode_eq_ok_iff {quote : Char} (hq : quote = doubleQuote ∨ quote = singleQuote)
    {text body : List Char} :
    decode quote body = .ok text ↔
      Spelling quote text body ∧ (quote = singleQuote → text.length = 1) := by
  have hraw : quote ≠ backquote := by rcases hq with rfl | rfl <;> decide
  rw [decode, if_neg hraw, ← decodeBody_eq_ok_iff hq]
  cases decodeBody quote body with
  | error fault => simp
  | ok decoded =>
    dsimp only
    split <;> grind

/-- A literal between double quotes is read as a text exactly if it spells the text, and one
between single quotes that spells a text is read as it exactly if the text is one character.  A raw
literal is read without its carriage returns.  A character has a spelling by digits exactly if its
number has so many digits, and no number is too large for 32 bits. -/
theorem unquote_spellings :
    (∀ literal text, literal.head? = some doubleQuote → (unquote literal = .ok text ↔
      ∃ body, literal = doubleQuote :: (body ++ [doubleQuote]) ∧ Spelling doubleQuote text body)) ∧
    (∀ text body, Spelling singleQuote text body →
      (unquote (singleQuote :: (body ++ [singleQuote])) = .ok text ↔ text.length = 1)) ∧
    (∀ text, backquote ∉ text →
      unquote (backquote :: (text ++ [backquote])) = .ok (text.filter (· ≠ '\r'))) ∧
    (∀ base ∈ [8, 16], ∀ n count,
      (∃ digits : List Char, digits.length = count ∧ Numeral base n digits) ↔ n < base ^ count) ∧
    ∀ quote body, decodeBody32 quote body = some (decodeBody quote body) := by
  refine ⟨?_, ?_, ?_, ?_, decodeBody32_eq⟩
  · intro literal text hhead
    obtain ⟨rest, rfl⟩ := List.head?_eq_some_iff.1 hhead
    simp [unquote_cons_eq_ok_iff (show isQuote doubleQuote = true by decide),
      decode_eq_ok_iff (.inl rfl), show doubleQuote ≠ singleQuote by decide]
  · intro text body hs
    rw [unquote_cons_eq_ok_iff (by decide)]
    constructor
    · rintro ⟨body', -, hdecode⟩
      exact ((decode_eq_ok_iff (.inr rfl)).1 hdecode).2 rfl
    · exact fun hl => ⟨body, rfl, (decode_eq_ok_iff (.inr rfl)).2 ⟨hs, fun _ => hl⟩⟩
  · intro text htext
    refine (unquote_cons_eq_ok_iff (by decide)).2 ⟨text, rfl, ?_⟩
    rw [decode, if_pos rfl, if_neg (by simpa using htext)]
  · intro base hbase n count
    simp only [List.mem_cons, List.not_mem_nil, or_false] at hbase
    exact exists_numeral_iff (by omega)

example : unquote "\x22\\x41\\101\\u00e9\\U0001f600\\\x22\x22".toList = .ok "AAé😀\x22".toList := by
  decide +kernel

end FieldAudit.Literal
