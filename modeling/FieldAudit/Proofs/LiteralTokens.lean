import FieldAudit.Proofs.Messages.Templates
import FieldAudit.Proofs.Spelling

/-! # Literals among the tokens

A scanner looks for the end of a literal and a reader decodes its body, and they walk over it in
different steps: after a backslash the scanner skips one character, while the reader takes an escape
of up to nine.  They stay in step since the characters that an escape takes beyond the first are
digits, which mean nothing to the scanner.  So the reader never meets what the scanner would not let
pass, and all that can be wrong with the literal of a token is an escape, or the number of
characters in a character constant (`tokenize_literals`). -/

namespace FieldAudit.Literal

open Text

/-! ## Bodies of literals -/

namespace Body

variable {quote : Char}

/-- What follows an escaped character is a body again. -/
theorem of_skip {c : Char} {rest : List Char} (h : Body quote ('\\' :: c :: rest)) :
    Body quote rest := by
  cases h with
  | plain _ hb => exact absurd rfl hb
  | skip _ h => exact h

/-- What follows a plain character is a body again. -/
theorem of_cons {c : Char} {rest : List Char} (hc : c ≠ '\\') (h : Body quote (c :: rest)) :
    Body quote rest := by
  cases h with
  | plain _ _ _ h => exact h
  | skip => exact absurd rfl hc

/-- What follows digits is a body again. -/
theorem of_digits {base n : Nat} {digits rest : List Char} (hd : Numeral base n digits)
    (h : Body quote (digits ++ rest)) : Body quote rest := by
  induction digits generalizing n with
  | nil => exact h
  | cons c digits ih =>
    obtain ⟨d, m, hc, hm, -⟩ := numeral_cons.1 hd
    have hbackslash : c ≠ '\\' := by
      rintro rfl
      cases digit?_eq_some_iff.2 hc
    exact ih hm (h.of_cons hbackslash)

/-- What follows an escape is again a body. -/
theorem of_escapes {c : Char} {spelled rest : List Char} (he : Escapes quote c spelled)
    (h : Body quote ('\\' :: (spelled ++ rest))) : Body quote rest := by
  cases he with
  | letter => exact h.of_skip
  | quote => exact h.of_skip
  | hex _ _ hn => exact of_digits hn h.of_skip
  | octal hl hn _ =>
    obtain ⟨first, digits, rfl⟩ := List.exists_cons_of_length_eq_add_one hl
    obtain ⟨d, m, -, hm, -⟩ := numeral_cons.1 hn
    exact of_digits hm h.of_skip

end Body

/-! ## Faults of escapes -/

/-- What can be wrong with an escape after which the literal goes on, with the wording. -/
def escapeFaults : List (Fault × String) :=
  [(.truncatedNumericEscape, "truncated numeric escape"),
    (.invalidEscape 'u', "invalid \\u escape"),
    (.invalidEscape 'U', "invalid \\U escape"),
    (.octalOutOfRange, "octal escape out of range"),
    (.unknownEscape, "unknown escape sequence")]

/-- Digits fail in one way only, by running out. -/
theorem takeDigits_eq_error {base count value : Nat} {text : List Char} {fault : Fault}
    (h : takeDigits base count value text = .error fault) : fault = .truncatedNumericEscape := by
  fun_induction takeDigits base count value text with
  | case1 => cases h
  | case2 => cases h; rfl
  | case3 _ _ _ _ _ _ ih => exact ih h
  | case4 => cases h; rfl

/-- What can be wrong with an escape in base sixteen.  Two digits always give a character. -/
theorem hexEscape_eq_error {letter : Char} {count : Nat} {text : List Char} {fault : Fault}
    (hf : (letter, count) ∈ hexForms) (h : hexEscape letter count text = .error fault) :
    (fault, fault.reason) ∈ escapeFaults := by
  unfold hexEscape at h
  split at h
  next hd => cases h; rw [takeDigits_eq_error hd]; decide
  next value rest hd =>
    split at h
    next => cases h
    next hnone =>
      cases h
      simp only [hexForms, List.mem_cons, Prod.mk.injEq, List.not_mem_nil, or_false] at hf
      obtain ⟨rfl, rfl⟩ | ⟨rfl, rfl⟩ | ⟨rfl, rfl⟩ := hf
      -- Two digits write a number below 256, and each of these is a character.
      · obtain ⟨digits, n, -, hl, hn, rfl⟩ := takeDigits_eq_ok_iff.1 hd
        have hlt := hn.lt_pow
        rw [hl] at hlt
        have hvalid : (0 * 16 ^ 2 + n).isValidChar := .inl (by omega)
        rw [scalar?, if_pos hvalid] at hnone
        cases hnone
      · decide
      · decide

/-- An octal escape fails with one of the listed faults. -/
theorem octalEscape_eq_error {first : Nat} {text : List Char} {fault : Fault}
    (h : octalEscape first text = .error fault) : (fault, fault.reason) ∈ escapeFaults := by
  unfold octalEscape at h
  split at h
  next hd => cases h; rw [takeDigits_eq_error hd]; decide
  next =>
    split at h
    next => cases h
    next => cases h; decide

/-- An escape fails with one of the listed faults. -/
theorem takeEscape_eq_error {quote letter : Char} {rest : List Char} {fault : Fault}
    (h : takeEscape quote (letter :: rest) = .error fault) :
    (fault, fault.reason) ∈ escapeFaults := by
  obtain ⟨c, -, hs⟩ | ⟨count, hf, hs⟩ | ⟨first, -, hs⟩ | hs := takeEscape_cases quote letter rest
  · rw [hs] at h
    cases h
  · rw [hs] at h
    exact hexEscape_eq_error hf h
  · rw [hs] at h
    exact octalEscape_eq_error h
  · rw [hs] at h
    cases h
    decide

section

variable {quote : Char} (hq : quote = doubleQuote ∨ quote = singleQuote)

include hq

/-- In a body only an escape can be wrong. -/
theorem decodeBody_eq_error {body : List Char} {fault : Fault} (hb : Body quote body)
    (h : decodeBody quote body = .error fault) : (fault, fault.reason) ∈ escapeFaults := by
  fun_induction decodeBody quote body with
  | case1 => cases h
  | case2 rest =>
    cases hb with
    | plain hn => exact absurd rfl hn
  | case3 rest hn =>
    cases hb with
    | plain _ _ hne => exact absurd rfl hne
    | skip => rcases hq with hq | hq <;> cases hq
  | case4 rest fault htake hn hne =>
    cases h
    cases hb with
    | plain _ hne => exact absurd rfl hne
    | skip => exact takeEscape_eq_error htake
  -- The escape may have taken digits that the scanner passed one by one; what follows is a body.
  | case5 rest result htake fault hf hn hne ih =>
    cases h
    obtain ⟨spelled, rfl, he⟩ := (takeEscape_eq_ok_iff hq).1 htake
    exact ih (.of_escapes he hb) hf
  | case6 => cases h
  | case7 c rest hn hne hc fault hf ih =>
    cases h
    cases hb with
    | plain _ _ _ hrest => exact ih hrest hf
    | skip => exact absurd rfl hc
  | case8 => cases h

/-- What can be wrong with a literal whose body the scanner lets pass. -/
theorem unquote_body {body : List Char} (hb : Body quote body) :
    (∃ text, unquote (quote :: (body ++ [quote])) = .ok text) ∨
      ∃ m, unquote (quote :: (body ++ [quote])) = .error m ∧
        ((m.fault, m.fault.reason) ∈ escapeFaults ∨
          quote = singleQuote ∧ m.fault = .notOneCharacter) := by
  have hread : read (quote :: (body ++ [quote])) = decode quote body := by
    rcases hq with rfl | rfl <;>
      rw [read, if_neg (by decide), if_neg (by simp), List.dropLast_concat]
  have hraw : quote ≠ backquote := by rcases hq with rfl | rfl <;> decide
  rw [unquote, hread, decode, if_neg hraw]
  cases hd : decodeBody quote body with
  | error fault => exact .inr ⟨_, rfl, .inl (decodeBody_eq_error hq hb hd)⟩
  | ok text =>
    dsimp only
    split
    next hs => exact .inr ⟨_, rfl, .inr ⟨hs.1, rfl⟩⟩
    next => exact .inl ⟨text, rfl⟩

end

end FieldAudit.Literal

namespace FieldAudit.Template

open Text Literal

/-- What can be wrong with a literal of a template, with the wording, by the kind of its token.
With a raw string nothing can. -/
def Token.Kind.faults : Token.Kind → List (Fault × String)
  | .string => escapeFaults
  | .charConstant =>
    (.notOneCharacter, "character constant must hold exactly one character") :: escapeFaults
  | _ => []

/-- Whether the literal of a token can be read or has one of the faults of the token's kind. -/
def Token.IsReadable (t : Token) : Prop :=
  (∃ text, unquote t.lexeme = .ok text) ∨
    ∃ m, unquote t.lexeme = .error m ∧ (m.fault, m.fault.reason) ∈ t.kind.faults

/-- A literal that is scanned is readable. -/
theorem scan_isReadable {right text : List Char} {s : Scan} {pos : Nat}
    (h : scan right text = .ok s) (hl : s.kind.isLiteral = true) :
    Token.IsReadable ⟨s.kind, s.lexeme, pos⟩ := by
  -- A body in quotes can be unquoted or has an escape that cannot.  A character constant can also
  -- fail by the number of its characters.
  cases scan_scanned h with
  | string hp =>
    obtain ⟨body, hbody, hb⟩ := spanQuoted_body hp
    obtain hok | ⟨m, herror, hm | ⟨hquote, -⟩⟩ := unquote_body (.inl rfl) hb
    · exact .inl (by rwa [hbody])
    · exact .inr ⟨m, by rwa [hbody], hm⟩
    · exact absurd hquote (by decide)
  | charConstant hp =>
    obtain ⟨body, hbody, hb⟩ := spanQuoted_body hp
    obtain hok | ⟨m, herror, hm | ⟨-, hm⟩⟩ := unquote_body (.inr rfl) hb
    · exact .inl (by rwa [hbody])
    · exact .inr ⟨m, by rwa [hbody], List.mem_cons_of_mem _ hm⟩
    · exact .inr ⟨m, by rwa [hbody], by rw [hm]; exact List.mem_cons_self⟩
  | rawString hp => exact .inl (unquote_spanRaw hp)
  | punctuation hk => simp [isLiteral_punctuation? hk] at hl
  | word => simp [isLiteral_wordKind] at hl
  | number hn => simp [scanNumber_kind hn, Token.Kind.isLiteral] at hl
  | _ => cases hl

/-- The literal of every token can be read, or it has one of the faults of its kind. -/
theorem tokenize_literals {d : Delimiters} {source : List Char} {tokens : List Token}
    (h : tokenize d source = .ok tokens) {t : Token} (ht : t ∈ tokens)
    (hl : t.kind.isLiteral = true) :
    (∃ text, unquote t.lexeme = .ok text) ∨
      ∃ m, unquote t.lexeme = .error m ∧ (m.fault, m.fault.reason) ∈ t.kind.faults := by
  have hnone {t : Token} (hk : t.kind.isLiteral = false) :
      t.kind.isLiteral = true → t.IsReadable := by
    simp [hk]
  have hall : ∀ t ∈ tokens, t.kind.isLiteral = true → t.IsReadable :=
    tokenize_forall (fun _ _ _ => hnone rfl) (fun _ => hnone rfl) (fun _ => hnone rfl)
      (fun _ => hnone rfl) (fun _ _ _ hscan => scan_isReadable hscan) h
  exact hall t ht hl

/-- The tokens of a string with an escaped backslash, an escaped quote and an escape that the end of
the string cuts short. -/
def cutEscape : List Token :=
  [⟨.leftDelim, "\x7b\x7b".toList, 0⟩, ⟨.string, "\x22\\\\\\\x22\\x4\x22".toList, 2⟩,
    ⟨.rightDelim, "\x7d\x7d".toList, 11⟩, .eof 13]

/-- A string cut within an escape is a token, and one that cannot be unquoted. -/
theorem tokenize_literals_cut :
    tokenize {} "\x7b\x7b\x22\\\\\\\x22\\x4\x22\x7d\x7d".toList = .ok cutEscape ∧
      ((∃ text, unquote "\x22\\\\\\\x22\\x4\x22".toList = .ok text) ∨
        ∃ m, unquote "\x22\\\\\\\x22\\x4\x22".toList = .error m ∧
          (m.fault, m.fault.reason) ∈ Token.Kind.faults .string) := by
  have h : tokenize {} "\x7b\x7b\x22\\\\\\\x22\\x4\x22\x7d\x7d".toList = .ok cutEscape := by
    decide +kernel
  exact ⟨h, tokenize_literals h (List.mem_cons_of_mem _ List.mem_cons_self) rfl⟩

end FieldAudit.Template
