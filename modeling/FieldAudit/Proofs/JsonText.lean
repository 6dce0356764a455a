import Mathlib.Algebra.Field.Rat

/-! # JSON texts

The grammar of JSON as a relation between a text, the value at its front and the text after it
(`Reads`), with all kinds of values, escapes and numbers.  Blanks are skipped where the grammar
has them, and a number takes all digits that it can.  A text has at most one value
(`Denotes.unique`), so the value of a text may be called its decoding. -/

namespace FieldAudit.Report

/-- The values of JSON texts.  The members of an object keep their order. -/
inductive JsonValue where
  | null
  | boolean (value : Bool)
  | number (value : ℚ)
  | string (value : String)
  | array (items : List JsonValue)
  | object (members : List (String × JsonValue))

namespace JsonText

/-- The four blank characters. -/
def isBlank (c : Char) : Bool :=
  c = ' ' || c = '\t' || c = '\n' || c = '\r'

/-- A text without the blanks at its front. -/
def skip (text : List Char) : List Char :=
  text.dropWhile isBlank

/-! ## Numbers -/

/-- A run of digits at the front of a text, which is not empty and as long as it can be. -/
structure Digits (text digits rest : List Char) : Prop where
  ne_nil : digits ≠ []
  digits_eq : digits = text.takeWhile Char.isDigit
  rest_eq : rest = text.dropWhile Char.isDigit

/-- The number that digits denote. -/
def natural (digits : List Char) : ℕ :=
  Nat.ofDigitChars 10 digits 0

/-- The whole part of a number has no zero at its front, unless it is zero. -/
inductive Whole : List Char → ℕ → List Char → Prop
  | zero (rest : List Char) : Whole ('0' :: rest) 0 rest
  | digits {text digits rest : List Char} (hzero : text.head? ≠ some '0')
      (h : Digits text digits rest) : Whole text (natural digits) rest

inductive Fraction : List Char → ℚ → List Char → Prop
  | none {text : List Char} (h : text.head? ≠ some '.') : Fraction text 0 text
  | digits {text digits rest : List Char} (h : Digits text digits rest) :
      Fraction ('.' :: text) (natural digits / 10 ^ digits.length) rest

/-- The mark of an exponent. -/
def isExponentMark (c : Char) : Bool :=
  c = 'e' || c = 'E'

inductive Exponent : List Char → ℤ → List Char → Prop
  | none {text : List Char} (h : ∀ c ∈ text.head?, isExponentMark c = false) : Exponent text 0 text
  | unsigned {c : Char} {text digits rest : List Char} (hc : isExponentMark c = true)
      (h : Digits text digits rest) : Exponent (c :: text) (natural digits) rest
  | plus {c : Char} {text digits rest : List Char} (hc : isExponentMark c = true)
      (h : Digits text digits rest) : Exponent (c :: '+' :: text) (natural digits) rest
  | minus {c : Char} {text digits rest : List Char} (hc : isExponentMark c = true)
      (h : Digits text digits rest) : Exponent (c :: '-' :: text) (-(natural digits : ℤ)) rest

inductive Number : List Char → ℚ → List Char → Prop
  | unsigned {text afterWhole afterFraction rest : List Char} {whole : ℕ} {fraction : ℚ}
      {exponent : ℤ} (hwhole : Whole text whole afterWhole)
      (hfraction : Fraction afterWhole fraction afterFraction)
      (hexponent : Exponent afterFraction exponent rest) :
      Number text ((whole + fraction) * 10 ^ exponent) rest
  | negative {text afterWhole afterFraction rest : List Char} {whole : ℕ} {fraction : ℚ}
      {exponent : ℤ} (hwhole : Whole text whole afterWhole)
      (hfraction : Fraction afterWhole fraction afterFraction)
      (hexponent : Exponent afterFraction exponent rest) :
      Number ('-' :: text) (-((whole + fraction) * 10 ^ exponent)) rest

section

variable {text digits digits' rest rest' : List Char}

/-- Digits are read in one way. -/
theorem Digits.unique (h : Digits text digits rest) (h' : Digits text digits' rest') :
    digits = digits' ∧ rest = rest' :=
  ⟨h.digits_eq.trans h'.digits_eq.symm, h.rest_eq.trans h'.rest_eq.symm⟩

/-- Digits begin with a digit. -/
theorem Digits.exists_head (h : Digits text digits rest) :
    ∃ c more, text = c :: more ∧ c.isDigit = true := by
  cases text with
  | nil => exact absurd h.digits_eq h.ne_nil
  | cons c more =>
    refine ⟨c, more, rfl, ?_⟩
    by_contra hc
    exact h.ne_nil (h.digits_eq.trans (List.takeWhile_cons_of_neg hc))

/-- A whole number begins with a digit. -/
theorem Whole.exists_head {whole : ℕ} (h : Whole text whole rest) :
    ∃ c more, text = c :: more ∧ c.isDigit = true := by
  cases h with
  | zero => exact ⟨'0', rest, rfl, rfl⟩
  | digits _ h => exact h.exists_head

/-- A whole number is read in one way. -/
theorem Whole.unique {whole whole' : ℕ} (h : Whole text whole rest) (h' : Whole text whole' rest') :
    whole = whole' ∧ rest = rest' := by
  cases h with
  | zero =>
    cases h' with
    | zero => exact ⟨rfl, rfl⟩
    | digits hzero _ => exact absurd rfl hzero
  | digits hzero h =>
    cases h' with
    | zero => exact absurd rfl hzero
    | digits _ h' =>
      obtain ⟨rfl, rfl⟩ := h.unique h'
      exact ⟨rfl, rfl⟩

/-- A fraction is read in one way. -/
theorem Fraction.unique {fraction fraction' : ℚ} (h : Fraction text fraction rest)
    (h' : Fraction text fraction' rest') : fraction = fraction' ∧ rest = rest' := by
  cases h with
  | none hpoint =>
    cases h' with
    | none => exact ⟨rfl, rfl⟩
    | digits => exact absurd rfl hpoint
  | digits h =>
    cases h' with
    | none hpoint => exact absurd rfl hpoint
    | digits h' =>
      obtain ⟨rfl, rfl⟩ := h.unique h'
      exact ⟨rfl, rfl⟩

/-- A sign is no digit. -/
theorem Digits.not_sign {c : Char} (h : Digits (c :: text) digits rest) (hc : c = '+' ∨ c = '-') :
    False := by
  obtain ⟨_, _, heq, hdigit⟩ := h.exists_head
  cases heq
  rcases hc with rfl | rfl <;> cases hdigit

/-- An exponent is read in one way. -/
theorem Exponent.unique {exponent exponent' : ℤ} (h : Exponent text exponent rest)
    (h' : Exponent text exponent' rest') : exponent = exponent' ∧ rest = rest' := by
  have hmark {c : Char} {more : List Char} (hc : isExponentMark c = true)
      (hnone : ∀ b ∈ (c :: more).head?, isExponentMark b = false) : False := by
    rw [hnone c rfl] at hc
    cases hc
  -- The first two characters tell the rules apart: an exponent mark, then a sign or a digit.
  cases h with
  | none hnone =>
    cases h' with
    | none => exact ⟨rfl, rfl⟩
    | unsigned hc | plus hc | minus hc => exact (hmark hc hnone).elim
  | unsigned hc h =>
    cases h' with
    | none hnone => exact (hmark hc hnone).elim
    | unsigned _ h' =>
      obtain ⟨rfl, rfl⟩ := h.unique h'
      exact ⟨rfl, rfl⟩
    | plus => exact (h.not_sign (.inl rfl)).elim
    | minus => exact (h.not_sign (.inr rfl)).elim
  | plus hc h =>
    cases h' with
    | none hnone => exact (hmark hc hnone).elim
    | unsigned _ h' => exact (h'.not_sign (.inl rfl)).elim
    | plus _ h' =>
      obtain ⟨rfl, rfl⟩ := h.unique h'
      exact ⟨rfl, rfl⟩
  | minus hc h =>
    cases h' with
    | none hnone => exact (hmark hc hnone).elim
    | unsigned _ h' => exact (h'.not_sign (.inr rfl)).elim
    | minus _ h' =>
      obtain ⟨rfl, rfl⟩ := h.unique h'
      exact ⟨rfl, rfl⟩

/-- A number is read in one way. -/
theorem Number.unique {value value' : ℚ} (h : Number text value rest)
    (h' : Number text value' rest') : value = value' ∧ rest = rest' := by
  -- A number without a sign starts with a digit, so the rules exclude each other.
  cases h with
  | unsigned hwhole hfraction hexponent =>
    cases h' with
    | unsigned hwhole' hfraction' hexponent' =>
      obtain ⟨rfl, rfl⟩ := hwhole.unique hwhole'
      obtain ⟨rfl, rfl⟩ := hfraction.unique hfraction'
      obtain ⟨rfl, rfl⟩ := hexponent.unique hexponent'
      exact ⟨rfl, rfl⟩
    | negative =>
      obtain ⟨_, _, heq, hdigit⟩ := hwhole.exists_head
      cases heq
      cases hdigit
  | negative hwhole hfraction hexponent =>
    cases h' with
    | unsigned hwhole' =>
      obtain ⟨_, _, heq, hdigit⟩ := hwhole'.exists_head
      cases heq
      cases hdigit
    | negative hwhole' hfraction' hexponent' =>
      obtain ⟨rfl, rfl⟩ := hwhole.unique hwhole'
      obtain ⟨rfl, rfl⟩ := hfraction.unique hfraction'
      obtain ⟨rfl, rfl⟩ := hexponent.unique hexponent'
      exact ⟨rfl, rfl⟩

/-- A number starts with a minus or a digit. -/
theorem Number.exists_head {value : ℚ} (h : Number text value rest) :
    ∃ c more, text = c :: more ∧ (c = '-' ∨ c.isDigit = true) := by
  cases h with
  | unsigned hwhole =>
    obtain ⟨c, more, htext, hc⟩ := hwhole.exists_head
    exact ⟨c, more, htext, .inr hc⟩
  | negative => exact ⟨'-', _, rfl, .inl rfl⟩

end

/-! ## Strings -/

/-- The character that stands for another one after a backslash. -/
def shortEscape? (c : Char) : Option Char :=
  if c = '\x22' || c = '\\' || c = '/' then some c
  else if c = 'b' then some '\x08'
  else if c = 'f' then some '\x0c'
  else if c = 'n' then some '\n'
  else if c = 'r' then some '\r'
  else if c = 't' then some '\t'
  else none

def hexDigit? (c : Char) : Option ℕ :=
  if c.isDigit then some (c.toNat - '0'.toNat)
  else if 'a' ≤ c ∧ c ≤ 'f' then some (c.toNat - 'a'.toNat + 10)
  else if 'A' ≤ c ∧ c ≤ 'F' then some (c.toNat - 'A'.toNat + 10)
  else none

/-- The number of four digits in base sixteen. -/
def codeUnit? (a b c d : Char) : Option ℕ := do
  return 4096 * (← hexDigit? a) + 256 * (← hexDigit? b) + 16 * (← hexDigit? c) + (← hexDigit? d)

/-- The characters of a string up to its closing quote. -/
inductive Characters : List Char → List Char → List Char → Prop
  | close (rest : List Char) : Characters ('\x22' :: rest) [] rest
  | plain {c : Char} {text value rest : List Char} (hcontrol : 0x20 ≤ c.toNat) (hquote : c ≠ '\x22')
      (hslash : c ≠ '\\') (h : Characters text value rest) :
      Characters (c :: text) (c :: value) rest
  | short {c e : Char} {text value rest : List Char} (he : shortEscape? e = some c)
      (h : Characters text value rest) : Characters ('\\' :: e :: text) (c :: value) rest
  | unit {a b c d : Char} {text value rest : List Char} {n : ℕ} (hn : codeUnit? a b c d = some n)
      (hvalid : n < 0xd800 ∨ 0xe000 ≤ n) (h : Characters text value rest) :
      Characters ('\\' :: 'u' :: a :: b :: c :: d :: text) (Char.ofNat n :: value) rest
  | pair {a b c d a' b' c' d' : Char} {text value rest : List Char} {high low : ℕ}
      (hhigh : codeUnit? a b c d = some high) (hlow : codeUnit? a' b' c' d' = some low)
      (hhighs : 0xd800 ≤ high ∧ high < 0xdc00) (hlows : 0xdc00 ≤ low ∧ low < 0xe000)
      (h : Characters text value rest) :
      Characters ('\\' :: 'u' :: a :: b :: c :: d :: '\\' :: 'u' :: a' :: b' :: c' :: d' :: text)
        (Char.ofNat (0x10000 + 0x400 * (high - 0xd800) + (low - 0xdc00)) :: value) rest

/-- The characters of a string are read in one way. -/
theorem Characters.unique {text value value' rest rest' : List Char}
    (h : Characters text value rest) (h' : Characters text value' rest') :
    value = value' ∧ rest = rest' := by
  -- The first two characters decide the rule.  Where they start an escape by number, the number
  -- does: a single one is a character, and the first of a pair is not.
  induction h generalizing value' rest' with
  | close rest =>
    cases h' with
    | close => exact ⟨rfl, rfl⟩
    | plain _ hquote => exact absurd rfl hquote
  | plain hcontrol hquote hslash h ih =>
    cases h' with
    | close => exact absurd rfl hquote
    | plain _ _ _ h' =>
      obtain ⟨rfl, rfl⟩ := ih h'
      exact ⟨rfl, rfl⟩
    | short | unit | pair => exact absurd rfl hslash
  | short he h ih =>
    cases h' with
    | plain _ _ hslash => exact absurd rfl hslash
    | short he' h' =>
      obtain ⟨rfl, rfl⟩ := ih h'
      rw [he] at he'
      cases he'
      exact ⟨rfl, rfl⟩
    | unit | pair => cases he
  | unit hn hvalid h ih =>
    cases h' with
    | plain _ _ hslash => exact absurd rfl hslash
    | short he' => cases he'
    | unit hn' _ h' =>
      obtain ⟨rfl, rfl⟩ := ih h'
      rw [hn] at hn'
      cases hn'
      exact ⟨rfl, rfl⟩
    | pair hhigh _ hhighs =>
      rw [hn] at hhigh
      cases hhigh
      omega
  | pair hhigh hlow hhighs hlows h ih =>
    cases h' with
    | plain _ _ hslash => exact absurd rfl hslash
    | short he' => cases he'
    | unit hn hvalid =>
      rw [hhigh] at hn
      cases hn
      omega
    | pair hhigh' hlow' _ _ h' =>
      obtain ⟨rfl, rfl⟩ := ih h'
      rw [hhigh] at hhigh'
      rw [hlow] at hlow'
      cases hhigh'
      cases hlow'
      exact ⟨rfl, rfl⟩

/-! ## Values -/

mutual

/-- A text starts with a value, and the second text follows it. -/
inductive Reads : List Char → JsonValue → List Char → Prop
  | null (rest : List Char) : Reads ('n' :: 'u' :: 'l' :: 'l' :: rest) .null rest
  | true (rest : List Char) : Reads ('t' :: 'r' :: 'u' :: 'e' :: rest) (.boolean true) rest
  | false (rest : List Char) :
      Reads ('f' :: 'a' :: 'l' :: 's' :: 'e' :: rest) (.boolean false) rest
  | number {text rest : List Char} {value : ℚ} (h : Number text value rest) :
      Reads text (.number value) rest
  | string {text value rest : List Char} (h : Characters text value rest) :
      Reads ('\x22' :: text) (.string (String.ofList value)) rest
  | emptyArray {text rest : List Char} (h : skip text = ']' :: rest) :
      Reads ('[' :: text) (.array []) rest
  | array {text rest : List Char} {items : List JsonValue} (h : Elements (skip text) items rest) :
      Reads ('[' :: text) (.array items) rest
  | emptyObject {text rest : List Char} (h : skip text = '\x7d' :: rest) :
      Reads ('\x7b' :: text) (.object []) rest
  | object {text rest : List Char} {members : List (String × JsonValue)}
      (h : Members (skip text) members rest) : Reads ('\x7b' :: text) (.object members) rest

/-- The items of an array and its closing bracket. -/
inductive Elements : List Char → List JsonValue → List Char → Prop
  | last {text after rest : List Char} {item : JsonValue} (h : Reads text item after)
      (hclose : skip after = ']' :: rest) : Elements text [item] rest
  | more {text after next rest : List Char} {item : JsonValue} {items : List JsonValue}
      (h : Reads text item after) (hcomma : skip after = ',' :: next)
      (hitems : Elements (skip next) items rest) : Elements text (item :: items) rest

/-- A member of an object. -/
inductive Member : List Char → String × JsonValue → List Char → Prop
  | named {text name afterName colon rest : List Char} {value : JsonValue}
      (hname : Characters text name afterName) (hcolon : skip afterName = ':' :: colon)
      (h : Reads (skip colon) value rest) :
      Member ('\x22' :: text) (String.ofList name, value) rest

/-- The members of an object and its closing bracket. -/
inductive Members : List Char → List (String × JsonValue) → List Char → Prop
  | last {text after rest : List Char} {member : String × JsonValue} (h : Member text member after)
      (hclose : skip after = '\x7d' :: rest) : Members text [member] rest
  | more {text after next rest : List Char} {member : String × JsonValue}
      {members : List (String × JsonValue)} (h : Member text member after)
      (hcomma : skip after = ',' :: next) (hmembers : Members (skip next) members rest) :
      Members text (member :: members) rest

end

/-- A text is a value with blanks around it. -/
def Denotes (text : List Char) (value : JsonValue) : Prop :=
  ∃ rest, Reads (skip text) value rest ∧ skip rest = []

/-- No value starts with a bracket that closes. -/
theorem Reads.not_closing {text rest : List Char} {value : JsonValue}
    (h : Reads (']' :: text) value rest) : False := by
  cases h with
  | number h =>
    obtain ⟨c, more, heq, hc⟩ := h.exists_head
    cases heq
    rcases hc with hc | hc <;> cases hc

/-- Members do not begin with the closing brace. -/
theorem Members.not_closing {text rest : List Char} {members : List (String × JsonValue)}
    (h : Members ('\x7d' :: text) members rest) : False := by
  cases h with
  | last h => cases h
  | more h => cases h

/-- Elements do not begin with the closing bracket. -/
theorem Elements.not_closing {text rest : List Char} {items : List JsonValue}
    (h : Elements (']' :: text) items rest) : False := by
  cases h with
  | last h => exact h.not_closing
  | more h => exact h.not_closing

/-- What starts with a letter, a quote or a bracket is no number. -/
theorem Number.not_of_head {c : Char} {text rest : List Char} {value : ℚ}
    (h : Number (c :: text) value rest) (hc : c ≠ '-') (hdigit : c.isDigit = false) : False := by
  obtain ⟨_, _, heq, hhead⟩ := h.exists_head
  cases heq
  rcases hhead with hhead | hhead
  · exact hc hhead
  · rw [hdigit] at hhead
    cases hhead

mutual

/-- A value is read in one way: what begins a text says which kind of value it is, and where it
ends. -/
theorem Reads.unique {text rest rest' : List Char} {value value' : JsonValue}
    (h : Reads text value rest) (h' : Reads text value' rest') : value = value' ∧ rest = rest' := by
  -- The first character decides the rule; after an opening bracket it matters whether the closing
  -- one comes next.
  cases h with
  | null | true | false =>
    cases h' with
    | number h' => exact (h'.not_of_head (by decide) (by decide)).elim
    | _ => exact ⟨rfl, rfl⟩
  | number h =>
    cases h' with
    | number h' =>
      obtain ⟨rfl, rfl⟩ := h.unique h'
      exact ⟨rfl, rfl⟩
    | _ => exact (h.not_of_head (by decide) (by decide)).elim
  | string h =>
    cases h' with
    | number h' => exact (h'.not_of_head (by decide) (by decide)).elim
    | string h' =>
      obtain ⟨rfl, rfl⟩ := h.unique h'
      exact ⟨rfl, rfl⟩
  | emptyArray h =>
    cases h' with
    | number h' => exact (h'.not_of_head (by decide) (by decide)).elim
    | emptyArray h' =>
      rw [h] at h'
      cases h'
      exact ⟨rfl, rfl⟩
    | array h' =>
      rw [h] at h'
      exact h'.not_closing.elim
  | array h =>
    cases h' with
    | number h' => exact (h'.not_of_head (by decide) (by decide)).elim
    | emptyArray h' =>
      rw [h'] at h
      exact h.not_closing.elim
    | array h' =>
      obtain ⟨rfl, rfl⟩ := h.unique h'
      exact ⟨rfl, rfl⟩
  | emptyObject h =>
    cases h' with
    | number h' => exact (h'.not_of_head (by decide) (by decide)).elim
    | emptyObject h' =>
      rw [h] at h'
      cases h'
      exact ⟨rfl, rfl⟩
    | object h' =>
      rw [h] at h'
      exact h'.not_closing.elim
  | object h =>
    cases h' with
    | number h' => exact (h'.not_of_head (by decide) (by decide)).elim
    | emptyObject h' =>
      rw [h'] at h
      exact h.not_closing.elim
    | object h' =>
      obtain ⟨rfl, rfl⟩ := h.unique h'
      exact ⟨rfl, rfl⟩

/-- The elements of an array are read in one way. -/
theorem Elements.unique {text rest rest' : List Char} {items items' : List JsonValue}
    (h : Elements text items rest) (h' : Elements text items' rest') :
    items = items' ∧ rest = rest' := by
  -- Behind the first item comes a comma or the closing bracket.
  cases h with
  | last h hclose =>
    cases h' with
    | last h' hclose' =>
      obtain ⟨rfl, rfl⟩ := h.unique h'
      rw [hclose] at hclose'
      cases hclose'
      exact ⟨rfl, rfl⟩
    | more h' hcomma' =>
      obtain ⟨rfl, rfl⟩ := h.unique h'
      rw [hclose] at hcomma'
      cases hcomma'
  | more h hcomma hitems =>
    cases h' with
    | last h' hclose' =>
      obtain ⟨rfl, rfl⟩ := h.unique h'
      rw [hcomma] at hclose'
      cases hclose'
    | more h' hcomma' hitems' =>
      obtain ⟨rfl, rfl⟩ := h.unique h'
      rw [hcomma] at hcomma'
      cases hcomma'
      obtain ⟨rfl, rfl⟩ := hitems.unique hitems'
      exact ⟨rfl, rfl⟩

/-- A member of an object is read in one way. -/
theorem Member.unique {text rest rest' : List Char} {member member' : String × JsonValue}
    (h : Member text member rest) (h' : Member text member' rest') :
    member = member' ∧ rest = rest' := by
  cases h with
  | named hname hcolon h =>
    cases h' with
    | named hname' hcolon' h' =>
      obtain ⟨rfl, rfl⟩ := hname.unique hname'
      rw [hcolon] at hcolon'
      cases hcolon'
      obtain ⟨rfl, rfl⟩ := h.unique h'
      exact ⟨rfl, rfl⟩

/-- The members of an object are read in one way. -/
theorem Members.unique {text rest rest' : List Char} {members members' : List (String × JsonValue)}
    (h : Members text members rest) (h' : Members text members' rest') :
    members = members' ∧ rest = rest' := by
  cases h with
  | last h hclose =>
    cases h' with
    | last h' hclose' =>
      obtain ⟨rfl, rfl⟩ := h.unique h'
      rw [hclose] at hclose'
      cases hclose'
      exact ⟨rfl, rfl⟩
    | more h' hcomma' =>
      obtain ⟨rfl, rfl⟩ := h.unique h'
      rw [hclose] at hcomma'
      cases hcomma'
  | more h hcomma hmembers =>
    cases h' with
    | last h' hclose' =>
      obtain ⟨rfl, rfl⟩ := h.unique h'
      rw [hcomma] at hclose'
      cases hclose'
    | more h' hcomma' hmembers' =>
      obtain ⟨rfl, rfl⟩ := h.unique h'
      rw [hcomma] at hcomma'
      cases hcomma'
      obtain ⟨rfl, rfl⟩ := hmembers.unique hmembers'
      exact ⟨rfl, rfl⟩

end

/-- A text has at most one value. -/
theorem Denotes.unique {text : List Char} {value value' : JsonValue} (h : Denotes text value)
    (h' : Denotes text value') : value = value' := by
  obtain ⟨rest, hread, -⟩ := h
  obtain ⟨rest', hread', -⟩ := h'
  exact (hread.unique hread').1

end JsonText

end FieldAudit.Report
