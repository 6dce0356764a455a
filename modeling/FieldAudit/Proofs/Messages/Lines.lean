import FieldAudit.Failure
import Mathlib.Data.List.Basic

/-! # Texts on one line

A text without a line break.  Messages are put together from fixed texts, numbers, quoted texts and
names.  Fixed texts and numbers have no line break, and a quoted text has none whatever it quotes,
since a line break is written as an escape.  What is wrong with a literal is told on one line, too,
so a message about a malformed literal is on one line if the literal is. -/

namespace FieldAudit

/-- A text without a line break. -/
def OneLine (text : String) : Prop :=
  '\n' ∉ text.toList

instance (text : String) : Decidable (OneLine text) :=
  inferInstanceAs (Decidable (¬ _))

namespace OneLine

/-- A concatenation is one line exactly if both parts are. -/
theorem append_iff {first second : String} :
    OneLine (first ++ second) ↔ OneLine first ∧ OneLine second := by
  simp [OneLine]

/-- Lines that are put together without a break are one line. -/
theorem append {first second : String} (hfirst : OneLine first) (hsecond : OneLine second) :
    OneLine (first ++ second) :=
  append_iff.2 ⟨hfirst, hsecond⟩

/-- A text is one line exactly if it has no line break. -/
theorem ofList_iff {text : List Char} : OneLine (String.ofList text) ↔ '\n' ∉ text := by
  simp [OneLine]

/-- A list of lines joined by a line is one line. -/
theorem intercalate {separator : String} {texts : List String} (hseparator : OneLine separator)
    (htexts : ∀ text ∈ texts, OneLine text) : OneLine (separator.intercalate texts) := by
  induction texts with
  | nil =>
    rw [String.intercalate_nil]
    decide
  | cons first rest ih =>
    obtain ⟨hfirst, hrest⟩ := List.forall_mem_cons.1 htexts
    cases rest with
    | nil => rwa [String.intercalate_singleton]
    | cons second rest =>
      rw [String.intercalate_cons_cons]
      exact (hfirst.append hseparator).append (ih hrest)

/-! ## Numbers -/

/-- Digits are not line breaks. -/
theorem not_mem_toDigits {base : Nat} (hbase : 1 < base) (n : Nat) :
    '\n' ∉ Nat.toDigits base n := by
  induction n using Nat.strongRecOn with
  | ind n ih =>
    rw [Nat.toDigits_eq_if hbase]
    split
    next => simp
    next hlarge =>
      have hsmaller := ih (n / base) (Nat.div_lt_self (by omega) hbase)
      simp [hsmaller]

/-- A number is one line. -/
theorem toString_nat (n : Nat) : OneLine (toString n) := by
  show '\n' ∉ n.repr.toList
  rw [Nat.toList_repr]
  exact not_mem_toDigits (by decide) n

end OneLine

/-! ## Quoted texts -/

namespace Text

/-- An escaped character is no line break. -/
theorem not_mem_escapeChar {quote : Char} (c : Char) : '\n' ∉ escapeChar quote c := by
  -- A newline has an escape of its own; what is written as it is, is no newline.
  have hdigits := OneLine.not_mem_toDigits (by decide : 1 < 16) c.toNat
  unfold escapeChar
  split
  · decide
  split
  · decide
  split
  · decide
  split
  · decide
  next hc =>
    have hc : '\n' ≠ c := fun h => hc h.symm
    split
    · simp [hc]
    split
    · simp [codePointEscape, hexDigits, hdigits]
    · simp [hc]

/-- A quoted text is one line, whatever it quotes. -/
theorem oneLine_quoted (text : List Char) : OneLine (String.ofList (quoted text)) := by
  have hquote : '\n' ≠ doubleQuote := by decide
  rw [OneLine.ofList_iff]
  simp [quoted, hquote, not_mem_escapeChar]

/-- A quoted character is one line. -/
theorem oneLine_quotedChar (c : Char) : OneLine (String.ofList (quotedChar c)) := by
  have hquote : '\n' ≠ singleQuote := by decide
  rw [OneLine.ofList_iff]
  simp [quotedChar, hquote, not_mem_escapeChar]

end Text

/-! ## Literals -/

namespace Literal

/-- Digits that run out are not reported as an invalid escape. -/
theorem takeDigits_ne_invalidEscape {base count value : Nat} {text : List Char} {letter : Char} :
    takeDigits base count value text ≠ .error (.invalidEscape letter) := by
  intro h
  fun_induction takeDigits base count value text with
  | case1 => cases h
  | case2 => cases h
  | case3 _ _ _ _ _ _ ih => exact ih h
  | case4 => cases h

/-- A hexadecimal escape that fails reports its own letter. -/
theorem hexEscape_invalidEscape {named letter : Char} {count : Nat} {text : List Char}
    (h : hexEscape named count text = .error (.invalidEscape letter)) : letter = named := by
  unfold hexEscape at h
  split at h
  next hdigits =>
    cases h
    exact absurd hdigits takeDigits_ne_invalidEscape
  next =>
    split at h
    · cases h
    · cases h
      rfl

/-- An octal escape is not reported as an invalid escape. -/
theorem octalEscape_ne_invalidEscape {first : Nat} {text : List Char} {letter : Char} :
    octalEscape first text ≠ .error (.invalidEscape letter) := by
  intro h
  unfold octalEscape at h
  split at h
  next hdigits =>
    cases h
    exact absurd hdigits takeDigits_ne_invalidEscape
  next => split at h <;> cases h

/-- Only the letters of hexadecimal forms are reported as invalid escapes. -/
theorem takeEscape_invalidEscape {quote letter : Char} {text : List Char}
    (h : takeEscape quote text = .error (.invalidEscape letter)) :
    letter ∈ hexForms.map Prod.fst := by
  cases text with
  | nil => cases h
  | cons c rest =>
    obtain ⟨c', -, hs⟩ | ⟨count, hf, hs⟩ | ⟨first, -, hs⟩ | hs := takeEscape_cases quote c rest
    · rw [hs] at h
      cases h
    · rw [hs] at h
      rw [hexEscape_invalidEscape h]
      exact List.mem_map_of_mem hf
    · rw [hs] at h
      exact absurd h octalEscape_ne_invalidEscape
    · rw [hs] at h
      cases h

/-- In a body, only the letters of hexadecimal forms are reported as invalid escapes. -/
theorem decodeBody_invalidEscape {quote letter : Char} {text : List Char}
    (h : decodeBody quote text = .error (.invalidEscape letter)) :
    letter ∈ hexForms.map Prod.fst := by
  fun_induction decodeBody quote text with
  | case1 => cases h
  | case2 => cases h
  | case3 => cases h
  | case4 =>
    rename_i hescape _ _
    cases h
    exact takeEscape_invalidEscape hescape
  | case5 =>
    rename_i hbody _ _ ih
    cases h
    exact ih hbody
  | case6 => cases h
  | case7 =>
    rename_i hbody ih
    cases h
    exact ih hbody
  | case8 => cases h

/-- In a literal, only the letters of hexadecimal forms are reported as invalid escapes. -/
theorem read_invalidEscape {literal : List Char} {letter : Char}
    (h : read literal = .error (.invalidEscape letter)) : letter ∈ hexForms.map Prod.fst := by
  unfold read at h
  split at h
  next => cases h
  next quote rest =>
    split at h
    next => cases h
    next =>
      split at h
      next => cases h
      next =>
        unfold decode at h
        split at h
        next => split at h <;> cases h
        next =>
          split at h
          next hbody =>
            cases h
            exact decodeBody_invalidEscape hbody
          next => split at h <;> cases h

/-- What is wrong with a literal is told on one line. -/
theorem oneLine_reason {literal : List Char} {fault : Fault} (h : read literal = .error fault) :
    OneLine fault.reason := by
  cases fault with
  | invalidEscape letter =>
    have hletter : '\n' ≠ letter := by
      rintro rfl
      exact absurd (read_invalidEscape h) (by decide)
    have hsingleton : OneLine (String.singleton letter) := by simpa [OneLine] using hletter
    exact .append (.append (by decide) hsingleton) (by decide)
  | _ => decide +kernel

/-- A literal that cannot be unquoted is reported as it stands, with its fault. -/
theorem unquote_eq_error {literal : List Char} {malformed : Malformed}
    (h : unquote literal = .error malformed) :
    malformed.literal = literal ∧ read literal = .error malformed.fault := by
  unfold unquote at h
  cases hread : read literal with
  | ok text =>
    rw [hread] at h
    cases h
  | error fault =>
    rw [hread] at h
    cases h
    exact ⟨rfl, rfl⟩

end Literal

end FieldAudit
