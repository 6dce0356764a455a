import FieldAudit.Proofs.Syntax.Formed
import Mathlib.Data.List.TakeWhile

/-! # Where tokens stand

Each token of a file takes at least one character, so it has a byte range of its own, and the ranges
follow each other.  A word is made of characters of names only, so it is on one line.  These are the
facts about tokens that the shape of syntax trees rests on: `SoundFrom` holds of the tokens of every
file. -/

namespace FieldAudit.Go

open Text

/-! ## Lexemes -/

namespace Lexeme

/-- A piece that takes at least one character. -/
def Positive (piece : Piece) : Prop :=
  ∀ text count, piece text = some count → 0 < count

/-- One character is at least one. -/
theorem positive_one (p : Char → Bool) : Positive (one p) := by
  intro text count h
  cases text with
  | nil => cases h
  | cons c rest =>
    simp only [one] at h
    split at h
    · cases h
      exact Nat.one_pos
    · cases h

/-- The pieces of a sequence only add to the count. -/
theorem foldlM_le {text : List Char} {pieces : List Piece} {start count : Nat}
    (h : pieces.foldlM (fun count piece => (piece (text.drop count)).map (count + ·)) start
      = some count) : start ≤ count := by
  induction pieces generalizing start with
  | nil => exact Nat.le_of_eq (Option.some.inj h)
  | cons piece pieces ih =>
    obtain ⟨next, hnext, h⟩ := Option.bind_eq_some_iff.1 h
    obtain ⟨more, -, rfl⟩ := Option.map_eq_some_iff.1 hnext
    exact Nat.le_trans (Nat.le_add_right start more) (ih h)

/-- A sequence that begins with something is something. -/
theorem positive_sequence {first : Piece} (h : Positive first) (rest : List Piece) :
    Positive (sequence (first :: rest)) := by
  intro text count hcount
  obtain ⟨next, hnext, hcount⟩ := Option.bind_eq_some_iff.1 hcount
  obtain ⟨more, hmore, rfl⟩ := Option.map_eq_some_iff.1 hnext
  have hpos := h _ _ hmore
  have hle := foldlM_le hcount
  omega

/-- The longest of positive pieces is positive. -/
theorem positive_longest {pieces : List Piece} (h : ∀ piece ∈ pieces, Positive piece) :
    Positive (longest pieces) := by
  intro text count hcount
  obtain ⟨piece, hpiece, hcount⟩ := List.mem_filterMap.1 (List.max?_mem hcount)
  exact h piece hpiece text count hcount

/-- Digits are at least one. -/
theorem positive_digits (base : Nat) : Positive (digits base) := by
  intro text count hcount
  obtain ⟨first, hfirst, rfl⟩ := Option.map_eq_some_iff.1 hcount
  have := positive_one _ _ _ hfirst
  omega

/-- Integers are at least one character long. -/
theorem positive_intLiteral : Positive intLiteral := by
  refine positive_longest ?_
  simp only [List.forall_mem_cons]
  exact ⟨positive_sequence (positive_one _) _, positive_one _, positive_sequence (positive_one _) _,
    positive_sequence (positive_one _) _, positive_sequence (positive_one _) _, by simp⟩

/-- Floating-point numbers are at least one character long. -/
theorem positive_floatLiteral : Positive floatLiteral := by
  refine positive_longest ?_
  simp only [List.forall_mem_cons]
  exact ⟨positive_sequence (positive_digits 10) _, positive_sequence (positive_digits 10) _,
    positive_sequence (positive_one _) _, positive_sequence (positive_one _) _, by simp⟩

/-- Imaginary numbers are at least one character long. -/
theorem positive_imaginaryLiteral : Positive imaginaryLiteral := by
  refine positive_longest ?_
  simp only [List.forall_mem_cons]
  exact ⟨positive_sequence (positive_digits 10) _, positive_sequence positive_intLiteral _,
    positive_sequence positive_floatLiteral _, by simp⟩

/-- Symbols are at least one character long. -/
theorem positive_symbol : Positive symbol := by
  intro text count hcount
  obtain ⟨found, hfound, rfl⟩ := Option.map_eq_some_iff.1 hcount
  have hall : ∀ text ∈ symbols, 0 < text.length := by decide
  exact hall found (List.mem_of_find?_eq_some hfound)

/-- A word is a character that can start a name and all that can continue it. -/
theorem word_eq_some {text : List Char} {count : Nat} (h : word text = some count) :
    ∀ c ∈ text.take count, isIdentifierStart c = true ∨ isIdentifierContinue c = true := by
  simp only [word, sequence, List.foldlM_cons, List.foldlM_nil, Option.bind_eq_bind,
    Option.bind_eq_some_iff, Option.map_eq_some_iff, Option.pure_def] at h
  obtain ⟨_, ⟨first, hfirst, rfl⟩, _, ⟨more, hmore, rfl⟩, h⟩ := h
  cases h
  cases text with
  | nil => cases hfirst
  | cons c rest =>
    simp only [one, List.drop_zero] at hfirst
    split at hfirst
    next hstart =>
      cases hfirst
      simp only [run, Nat.zero_add, List.drop_succ_cons, List.drop_zero, Option.some.injEq] at hmore
      have htaken : rest.take more = rest.takeWhile isIdentifierContinue := by
        rw [← hmore]
        exact (List.prefix_iff_eq_take.1 (List.takeWhile_prefix _)).symm
      rw [Nat.zero_add, Nat.add_comm 1, List.take_succ_cons, htaken]
      refine List.forall_mem_cons.2 ⟨.inl hstart, ?_⟩
      intro d hd
      exact .inr (List.mem_takeWhile_imp hd)
    next => cases hfirst

end Lexeme

/-- Every lexeme is at least one character long. -/
theorem positive_lexemes : ∀ entry ∈ lexemes, Lexeme.Positive entry.2 := by
  simp only [lexemes, List.forall_mem_cons]
  refine ⟨Lexeme.positive_imaginaryLiteral, Lexeme.positive_floatLiteral,
    Lexeme.positive_intLiteral, ?_, ?_, ?_, ?_, Lexeme.positive_symbol, by simp⟩
  all_goals exact Lexeme.positive_sequence (Lexeme.positive_one _) _

/-- There is only one lexeme of words. -/
theorem eq_word_of_mem_lexemes : ∀ entry ∈ lexemes, entry.1 = .word → entry.2 = Lexeme.word := by
  simp only [lexemes, List.forall_mem_cons]
  refine ⟨?_, ?_, ?_, ?_, ?_, ?_, ?_, ?_, by simp⟩
  all_goals
    intro h
    trivial

/-- The next token is one of the listed lexemes. -/
theorem nextToken?_eq_some {text : List Char} {kind : TokenKind} {count : Nat}
    (h : nextToken? text = some (kind, count)) :
    ∃ lexeme, (kind, lexeme) ∈ lexemes ∧ lexeme text = some count := by
  obtain ⟨most, -, hfound⟩ := Option.bind_eq_some_iff.1 h
  obtain ⟨⟨other, lexeme⟩, hmem, hcount⟩ := List.mem_filterMap.1 (List.mem_of_find?_eq_some hfound)
  obtain ⟨count', hlexeme, hpair⟩ := Option.map_eq_some_iff.1 hcount
  cases hpair
  exact ⟨lexeme, hmem, hlexeme⟩

/-! ## Tokens -/

/-- Spaces take one byte. -/
theorem utf8Size_of_isSpace {c : Char} (h : isSpace c = true) : c.utf8Size = 1 := by
  rw [Char.utf8Size_eq_one_iff]
  simp only [isSpace, Bool.or_eq_true, Bool.and_eq_true, decide_eq_true_eq] at h
  rcases h with ⟨-, h⟩ | rfl
  · exact Nat.le_trans h (by decide)
  · decide

/-- The length of a text in bytes is that of its string. -/
theorem utf8ByteSize_ofList (text : List Char) :
    (String.ofList text).utf8ByteSize = byteLength text := by
  induction text with
  | nil => rfl
  | cons c rest ih =>
    have hsplit : String.ofList (c :: rest) = String.singleton c ++ String.ofList rest := by
      rw [← String.toList_inj]
      simp
    rw [hsplit, String.utf8ByteSize_append, String.utf8ByteSize_singleton, ih, byteLength_cons]

/-- Tokens that are sound from some position are so from every earlier one. -/
theorem SoundFrom.mono {words : Nat → Nat → Prop} {pos pos' : Nat} {tokens : List Token}
    (h : SoundFrom words pos tokens) (hle : pos' ≤ pos) : SoundFrom words pos' tokens := by
  cases tokens with
  | nil => trivial
  | cons t rest => exact ⟨Nat.le_trans hle h.1, h.2⟩

/-- The token at the front of a text is sound. -/
theorem nextToken?_sound {source before text : List Char} {kind : TokenKind} {count : Nat}
    (hsource : source = before ++ text) (htext : text ≠ [])
    (h : nextToken? text = some (kind, count)) (newline : Bool) :
    Token.Sound (WordAt source) ⟨kind, String.ofList (text.take count), byteLength before,
      byteLength before + byteLength (text.take count), newline⟩ := by
  obtain ⟨lexeme, hlexeme, hcount⟩ := nextToken?_eq_some h
  have hpos := positive_lexemes _ hlexeme _ _ hcount
  have hlong : 0 < byteLength (text.take count) := by
    have hlength := length_le_byteLength (text.take count)
    have hnonempty := List.length_pos_iff.2 htext
    rw [List.length_take] at hlength
    omega
  refine ⟨Nat.lt_add_of_pos_right hlong, by rw [utf8ByteSize_ofList], ?_⟩
  rintro rfl
  have hpiece : lexeme = Lexeme.word := eq_word_of_mem_lexemes _ hlexeme rfl
  rw [hpiece] at hcount
  refine ⟨before, text.take count, text.drop count, ?_, rfl, rfl, ?_⟩
  · rw [hsource, List.take_append_drop]
  · intro hmem
    have hstarts : isIdentifierStart '\n' = false := by decide +kernel
    have hcontinues : isIdentifierContinue '\n' = false := by decide +kernel
    simpa [hstarts, hcontinues] using Lexeme.word_eq_some hcount '\n' hmem

/-- The tokens of the rest of a file are sound.  By induction on the fuel, with the part of the file
that has been read before the rest. -/
theorem tokensFrom_sound {source before text : List Char} {fuel : Nat} {newline : Bool}
    {list : TokenList} (hsource : source = before ++ text)
    (h : tokensFrom fuel (byteLength before) newline text = some list) :
    SoundFrom (WordAt source) (byteLength before) list.tokens := by
  -- What has been passed over grows by a space, a comment or a token in each step.
  induction fuel generalizing before text newline list with
  | zero => cases h
  | succ fuel ih =>
    cases text with
    | nil =>
      cases h
      trivial
    | cons c rest =>
      simp only [tokensFrom] at h
      split at h
      next hspace =>
        have hpos : byteLength before + 1 = byteLength (before ++ [c]) := by
          simp [utf8Size_of_isSpace hspace]
        rw [hpos] at h
        exact (ih (by simp [hsource]) h).mono (by omega)
      next =>
        split at h
        next count hcomment =>
          obtain ⟨list', hlist, rfl⟩ := Option.map_eq_some_iff.1 h
          rw [List.splitAt_eq, ← byteLength_append] at hlist
          refine (ih ?_ hlist).mono (by simp)
          rw [hsource, List.append_assoc, List.take_append_drop]
        next =>
          obtain ⟨⟨kind, count⟩, htoken, h⟩ := Option.bind_eq_some_iff.1 h
          obtain ⟨list', hlist, h⟩ := Option.bind_eq_some_iff.1 h
          cases h
          rw [List.splitAt_eq, ← byteLength_append] at hlist
          rw [List.splitAt_eq]
          refine ⟨Nat.le_refl _, nextToken?_sound hsource (List.cons_ne_nil c rest) htoken _, ?_⟩
          rw [← byteLength_append]
          exact ih (by rw [hsource, List.append_assoc, List.take_append_drop]) hlist

/-- The tokens of a file stand in order, and each word where the file has one. -/
theorem tokenize_sound {source : List Char} {list : TokenList} (h : tokenize source = some list) :
    SoundFrom (WordAt source) 0 list.tokens := by
  unfold tokenize at h
  split at h
  next c rest =>
    split at h
    next hmark =>
      have hsound : SoundFrom (WordAt (c :: rest)) (byteLength [c]) list.tokens :=
        tokensFrom_sound rfl (by simpa using h)
      exact hsound.mono (Nat.zero_le _)
    next =>
      have hsound : SoundFrom (WordAt (c :: rest)) (byteLength []) list.tokens :=
        tokensFrom_sound rfl h
      exact hsound
  next =>
    cases h
    trivial

end FieldAudit.Go
