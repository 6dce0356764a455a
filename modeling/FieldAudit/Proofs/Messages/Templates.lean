import FieldAudit.Proofs.Messages.Lines
import FieldAudit.Proofs.Reading.Failure
import FieldAudit.Proofs.TokenLayout

/-! # Messages about templates

A message about a template quotes pieces of the template with their line breaks escaped, except for
a malformed literal, which it shows as it stands.  Such a literal is the lexeme of a token
(`Error.Told`), as an error arises at the token that it shows.  Strings and character constants of a
template are on one line, and raw strings are never malformed, so every message about a template is
on one line (`parse_error_oneLine`). -/

namespace FieldAudit.Template

open Text

/-! ## Causes -/

/-- The malformed literal that a cause shows as it stands. -/
def Cause.literal? : Cause → Option Literal.Malformed
  | .malformedLiteral literal => some literal
  | _ => none

/-- The name of a keyword is one line. -/
theorem Keyword.oneLine_name (k : Keyword) : OneLine k.name := by
  cases k <;> decide

/-- The action of a keyword is told in one line. -/
theorem Keyword.oneLine_action (k : Keyword) : OneLine k.action := by
  cases k <;> decide

/-- The name of a context is one line. -/
theorem Context.oneLine_name (context : Context) : OneLine context.name := by
  cases context with
  | control k => exact k.oneLine_name
  | loopControl k => exact k.oneLine_action
  | _ => decide

/-- A token is described in one line, since its lexeme is quoted. -/
theorem Token.oneLine_describe (t : Token) : OneLine t.describe := by
  unfold describe
  split
  · decide
  next k _ => exact .append (.append (by decide) k.oneLine_name) (by decide)
  · exact oneLine_quoted _

/-- The wording of a cause is on one line, if that of its literal is. -/
theorem Cause.oneLine_message {cause : Cause}
    (h : ∀ literal, cause.literal? = some literal → OneLine literal.message) :
    OneLine cause.message := by
  cases cause with
  | malformedLiteral literal => exact h literal rfl
  | unrecognizedCharacter c => exact .append (by decide +kernel) (oneLine_quotedChar c)
  | badCharacter c => exact .append (by decide +kernel) (oneLine_quotedChar c)
  | badNumber text => exact .append (by decide +kernel) (oneLine_quoted text)
  | unexpectedToken token context =>
    exact .append (.append (.append (by decide +kernel) token.oneLine_describe) (by decide +kernel))
      context.oneLine_name
  | strayClosing k => exact .append (by decide +kernel) k.oneLine_action
  | elseInDefinition context => exact .append (by decide +kernel) context.oneLine_name
  | multipleDefinition name => exact .append (by decide +kernel) (oneLine_quoted _)
  | outsideRange k =>
    exact .append (.append k.oneLine_action (by decide +kernel)) (by decide +kernel)
  | tooManyDeclarations context => exact .append (by decide +kernel) context.oneLine_name
  | missingValue context => exact .append (by decide +kernel) context.oneLine_name
  | notExecutable stage => exact .append (by decide +kernel) (.toString_nat stage)
  | fieldAfterLiteral literal => exact .append (by decide +kernel) (oneLine_quoted literal)
  | undefinedFunction name =>
    exact .append (.append (by decide +kernel) (oneLine_quoted _)) (by decide +kernel)
  | undefinedVariable name => exact .append (by decide +kernel) (oneLine_quoted _)
  | illegalNumber text => exact .append (by decide +kernel) (oneLine_quoted text)
  | _ => decide +kernel

/-! ## Errors of readers -/

/-- If an error shows a literal, the literal is one of some tokens. -/
def Error.Told (tokens : List Token) (e : Error) : Prop :=
  ∀ literal, e.cause.literal? = some literal →
    ∃ t ∈ tokens, t.kind.isLiteral = true ∧ Literal.unquote t.lexeme = .error literal

namespace Error.Told

variable {tokens : List Token} {e : Error}

/-- An error that quotes no literal has nothing to tell. -/
theorem of_none (h : e.cause.literal? = none) : e.Told tokens := by
  intro literal hliteral
  rw [h] at hliteral
  cases hliteral

/-- What is told from some tokens is told from more. -/
theorem mono {others : List Token} (h : e.Told tokens) (hsub : tokens ⊆ others) :
    e.Told others := by
  intro literal hliteral
  obtain ⟨t, ht, htold⟩ := h literal hliteral
  exact ⟨t, hsub ht, htold⟩

end Error.Told

/-- Plain causes quote no literal. -/
theorem Cause.literal?_of_isPlain {cause : Cause} (h : cause.isPlain = true) :
    cause.literal? = none := by
  cases cause <;> first | rfl | cases h

/-- An error in a pipe shows no literal but that of a token. -/
theorem Input.Fails.told {s : Input} {e : Error} (h : s.Fails e) : e.Told s.tokens := by
  induction h with
  | @here s e h =>
    cases h with
    | plain hc => exact .of_none (Cause.literal?_of_isPlain hc)
    | literal hk hu =>
      rintro _ ⟨⟩
      have hne : s.peek.kind ≠ .eof := by
        intro heof
        rw [heof] at hk
        cases hk
      exact ⟨s.peek, Input.peek_mem_of_ne hne, hk, hu⟩
  | @skipSpace s e h ih => exact ih.mono s.skipSpace_suffix.subset
  | @tail s e hk h ih => exact ih.mono s.tail_suffix.subset
  | declare h ih => exact ih
  | phrase hr hc h ih => exact ih.mono hr.suffix.subset

/-- An error of the parser quotes a literal of its tokens, if it quotes one. -/
theorem State.Fails.told {s : State} {e : Error} (h : s.Fails e) : e.Told s.input.tokens := by
  induction h with
  | input h => exact h.told
  | @next s e hk h ih => exact ih.mono s.input.next_suffix.subset
  | @tail s e hk h ih => exact ih.mono s.input.tail_suffix.subset
  | pipe hp h ih => exact ih.mono hp.suffix.subset
  | scope h ih => exact ih
  | passage hr h ih => exact ih.mono hr.suffix.subset
  | closing hr hc => exact .of_none (Cause.literal?_of_isPlain hc)
  | define hn hi hb hd => rw [define_eq_error hd]; exact .of_none rfl

/-- A literal that an error of a template shows is one of the tokens. -/
theorem ofTokens_told {tokens : List Token} {e : Error} (h : Tree.ofTokens tokens = .error e) :
    e.Told tokens :=
  (ofTokens_fails h).told

/-! ## Literals of a template -/

/-- A literal that is on one line, or can be read. -/
def IsHarmless (literal : List Char) : Prop :=
  '\n' ∉ literal ∨ ∃ text, Literal.unquote literal = .ok text

/-- What comes of a scan is harmless: an error shows no literal, and a literal is harmless. -/
def HarmlessScan : Except Cause Scan → Prop
  | .error cause => cause.literal? = none
  | .ok s => s.kind.isLiteral = true → IsHarmless s.lexeme

/-- A scanned word is harmless, for it is no literal. -/
theorem harmless_scanWord {kind : Token.Kind} (hkind : kind.isLiteral = false) (right : List Char)
    (parts : List Char × List Char) : HarmlessScan (scanWord right kind parts) := by
  unfold scanWord
  split
  · rfl
  · simp [HarmlessScan, hkind]

/-- A scanned number is harmless. -/
theorem harmless_scanNumber (text : List Char) : HarmlessScan (scanNumber text) := by
  unfold scanNumber
  dsimp only
  split
  · simp [HarmlessScan, Token.Kind.isLiteral]
  · rfl

/-- What is scanned at a dot is harmless. -/
theorem harmless_scanDot (right rest : List Char) : HarmlessScan (scanDot right rest) := by
  unfold scanDot
  split
  · simp [HarmlessScan, Token.Kind.isLiteral]
  · split
    · exact harmless_scanNumber _
    · split
      · exact harmless_scanWord rfl _ _
      · simp [HarmlessScan, Token.Kind.isLiteral]

/-- A word is no literal. -/
theorem isLiteral_wordKind (word : List Char) : (wordKind word).isLiteral = false := by
  unfold wordKind
  dsimp only
  split
  · rfl
  · split <;> rfl

/-- Punctuation is no literal. -/
theorem isLiteral_punctuation? {c : Char} {kind : Token.Kind} (h : punctuation? c = some kind) :
    kind.isLiteral = false := by
  unfold punctuation? at h
  split at h <;> cases h <;> rfl

/-- A quoted literal stays on its line. -/
theorem harmless_scanQuoted {kind : Token.Kind} {quote : Char} {cause : Cause} {text : List Char}
    (hquote : quote ≠ '\n') (hcause : cause.literal? = none) :
    HarmlessScan (scanQuoted kind quote cause (spanQuoted quote text)) := by
  unfold scanQuoted
  split
  next parts hparts =>
    intro _
    obtain ⟨body, hbody, hb⟩ := spanQuoted_body hparts
    refine .inl ?_
    simp [hbody, hb.not_mem_newline, hquote.symm]
  next => exact hcause

/-- A raw string can always be read. -/
theorem unquote_spanRaw {text : List Char} {parts : List Char × List Char}
    (h : spanRaw text = some parts) :
    ∃ value, Literal.unquote (backquote :: parts.1) = .ok value := by
  obtain ⟨⟨body, rest⟩, hbody, rfl⟩ := Option.map_eq_some_iff.1 h
  have hnone : backquote ∉ body := by
    intro hmem
    obtain ⟨before, after, hsplit⟩ := List.append_of_mem hmem
    exact splitFirst?_not_infix (List.cons_ne_nil _ _) hbody ⟨before, after, by simp [hsplit]⟩
  have hquote : Literal.isQuote backquote = true := by decide
  have hread :
      Literal.read (backquote :: (body ++ [backquote])) = .ok (body.filter (· ≠ '\r')) := by
    simp [Literal.read, Literal.decode, hquote, hnone]
  exact ⟨_, by rw [Literal.unquote, hread]; rfl⟩

/-- A raw string that fails to close quotes no literal. -/
theorem harmless_scanRaw {cause : Cause} {text : List Char} (hcause : cause.literal? = none) :
    HarmlessScan (scanQuoted .rawString backquote cause (spanRaw text)) := by
  unfold scanQuoted
  split
  next parts hparts => exact fun _ => .inr (unquote_spanRaw hparts)
  next => exact hcause

/-- Every scan is harmless. -/
theorem harmless_scan (right text : List Char) : HarmlessScan (scan right text) := by
  cases text with
  | nil => rfl
  | cons c rest =>
    unfold scan
    dsimp only
    by_cases hspace : isSpace c = true
    · rw [if_pos hspace]
      simp [HarmlessScan, Token.Kind.isLiteral]
    rw [if_neg hspace]
    cases hkind : punctuation? c with
    | some kind => simp [HarmlessScan, isLiteral_punctuation? hkind]
    | none =>
      dsimp only
      by_cases hcolon : c = ':'
      · rw [if_pos hcolon]
        split
        · simp [HarmlessScan, Token.Kind.isLiteral]
        · rfl
      rw [if_neg hcolon]
      -- The three kinds of literals.
      by_cases hdouble : c = doubleQuote
      · rw [if_pos hdouble]
        exact harmless_scanQuoted (by decide) rfl
      rw [if_neg hdouble]
      by_cases hback : c = backquote
      · rw [if_pos hback]
        exact harmless_scanRaw rfl
      rw [if_neg hback]
      by_cases hsingle : c = singleQuote
      · rw [if_pos hsingle]
        exact harmless_scanQuoted (by decide) rfl
      rw [if_neg hsingle]
      -- Variables, fields, numbers and words are none.
      by_cases hdollar : c = '$'
      · rw [if_pos hdollar]
        exact harmless_scanWord rfl _ _
      rw [if_neg hdollar]
      by_cases hdot : c = '.'
      · rw [if_pos hdot]
        exact harmless_scanDot _ _
      rw [if_neg hdot]
      by_cases hnumber : (Literal.isSign c || c.isDigit) = true
      · rw [if_pos hnumber]
        exact harmless_scanNumber _
      rw [if_neg hnumber]
      by_cases hword : isWordChar c = true
      · rw [if_pos hword]
        exact harmless_scanWord (isLiteral_wordKind _) _ _
      · rw [if_neg hword]
        rfl

/-- A token that is harmless, if it is a literal. -/
def Token.IsHarmless (t : Token) : Prop :=
  t.kind.isLiteral = true → Template.IsHarmless t.lexeme

/-- An error within an action quotes no literal. -/
theorem actionTokens_literal? {right text : List Char} {depth pos : Nat} {e : Error}
    (h : actionTokens right depth pos text = .error e) : e.cause.literal? = none := by
  fun_induction actionTokens right depth pos text with
  | case1 => cases h
  | case2 => cases h; rfl
  | case3 depth pos text hc cause hscan =>
    cases h
    have hs := harmless_scan right text
    rw [hscan] at hs
    exact hs
  | case4 => cases h; rfl
  | case5 =>
    rename_i hr ih
    cases h
    exact ih hr
  | case6 => cases h

/-- An error in a comment quotes no literal. -/
theorem afterComment_literal? {right text : List Char} {pos : Nat} {cause : Cause}
    (h : afterComment right pos text = .error cause) : cause.literal? = none := by
  unfold afterComment at h
  split at h
  next => cases h; rfl
  next =>
    split at h
    next => cases h
    next => cases h; rfl

/-- An error of the tokenizer quotes no literal. -/
theorem tokensFrom_literal? {d : Delimiters} {visible : d.Visible} {pos : Nat} {text : List Char}
    {e : Error} (h : tokensFrom d visible pos text = .error e) : e.cause.literal? = none := by
  fun_induction tokensFrom d visible pos text with
  | case1 => cases h
  | case2 => cases h
  | case3 =>
    rename_i hn
    cases h
    exact afterComment_literal? hn
  | case4 =>
    rename_i hr ih
    cases h
    exact ih hr
  | case5 => cases h
  | case6 =>
    rename_i ha
    cases h
    exact actionTokens_literal? ha
  | case7 =>
    rename_i hr ih
    cases h
    exact ih hr
  | case8 => cases h

/-- The tokens of a source are harmless. -/
theorem tokenize_harmless {d : Delimiters} {source : List Char} {tokens : List Token}
    (h : tokenize d source = .ok tokens) : ∀ t ∈ tokens, t.IsHarmless := by
  have hnone {kind : Token.Kind} (hk : kind.isLiteral = false) (lexeme : List Char) (pos : Nat) :
      Token.IsHarmless ⟨kind, lexeme, pos⟩ := by
    simp [Token.IsHarmless, hk]
  refine tokenize_forall (fun _ _ _ => hnone rfl _ _) (fun _ => hnone rfl _ _)
    (fun _ => hnone rfl _ _) (fun _ => hnone rfl _ _) (fun text s _ hscan => ?_) h
  have hs := harmless_scan d.right text
  rw [hscan] at hs
  exact hs

/-- An error of the tokenizer quotes no literal of the source. -/
theorem tokenize_literal? {d : Delimiters} {source : List Char} {e : Error}
    (h : tokenize d source = .error e) : e.cause.literal? = none := by
  rw [tokenize_eq] at h
  split at h
  next => exact tokensFrom_literal? h
  next => cases h; rfl

/-- The wording of every error of a template is on one line. -/
theorem parse_error_oneLine {d : Delimiters} {source : List Char} {e : Error}
    (h : parse d source = .error e) : OneLine e.message := by
  refine Cause.oneLine_message fun malformed hmalformed => ?_
  unfold parse at h
  split at h
  next htokens =>
    cases h
    rw [tokenize_literal? htokens] at hmalformed
    cases hmalformed
  next tokens htokens =>
    obtain ⟨t, ht, hkind, hunquote⟩ := ofTokens_told h malformed hmalformed
    obtain ⟨hliteral, hread⟩ := Literal.unquote_eq_error hunquote
    -- The literal cannot be read, so it is on one line.
    have hline : '\n' ∉ t.lexeme := by
      rcases tokenize_harmless htokens t ht hkind with hline | ⟨text, htext⟩
      · exact hline
      · rw [hunquote] at htext
        cases htext
    rw [← hliteral] at hline
    exact .append (.append (.append (by decide) (OneLine.ofList_iff.2 hline)) (by decide))
      (Literal.oneLine_reason hread)

end FieldAudit.Template
