import FieldAudit.Text.Basic
import Mathlib.Data.String.Basic

/-! # The order of texts

Texts are ordered by the numbers of their characters.  UTF-8 keeps that order: it is the order of
the bytes of the texts (`bytes_lt_bytes`), so a list in the order of `Text.le` is in byte order. -/

namespace FieldAudit.Text

/-- The bytes of a text in UTF-8. -/
def bytes (s : String) : List UInt8 :=
  s.toUTF8.data.toList

/-- The bytes of a string are those of its characters in turn. -/
theorem bytes_eq_flatMap (s : String) : bytes s = s.toList.flatMap String.utf8EncodeChar := by
  conv_lhs => rw [← String.ofList_toList (s := s)]
  rw [bytes, String.toUTF8_eq_toByteArray, String.toByteArray_ofList, List.utf8Encode,
    List.data_toByteArray]

/-- Bytes decide the order where they differ, and what follows them where they agree. -/
theorem lex_byte {m n : Nat} (hn : n < 256) (hle : m ≤ n) {left right : List UInt8}
    (h : m = n → List.Lex (· < ·) left right) :
    List.Lex (· < ·) (UInt8.ofNat m :: left) (UInt8.ofNat n :: right) := by
  rcases Nat.lt_or_eq_of_le hle with hlt | rfl
  · refine .rel (UInt8.lt_iff_toNat_lt.2 ?_)
    rw [UInt8.toNat_ofNat_of_lt' (Nat.lt_trans hlt hn), UInt8.toNat_ofNat_of_lt' hn]
    exact hlt
  · exact .cons (h rfl)

/-- The bytes of a character come before those of a later character, whatever follows either. -/
theorem lex_utf8EncodeChar {c d : Char} (h : c < d) (left right : List UInt8) :
    List.Lex (· < ·) (String.utf8EncodeChar c ++ left) (String.utf8EncodeChar d ++ right) := by
  have hlt : c.val.toNat < d.val.toNat := h
  have hd : d.val.toNat < 0x110000 := by
    rcases d.valid with hsmall | ⟨-, hlarge⟩
    · exact Nat.lt_trans hsmall (by decide)
    · exact hlarge
  simp only [String.utf8EncodeChar]
  generalize c.val.toNat = v at hlt
  generalize d.val.toNat = w at hlt hd
  -- The form of the earlier character is not the longer one.  A longer form has a greater first
  -- byte, and in two forms of one length the first byte that differs decides.
  by_cases h₁ : w ≤ 0x7f
  · rw [if_pos (by omega : v ≤ 0x7f), if_pos h₁]
    exact lex_byte (by omega) (by omega) (by omega)
  rw [if_neg h₁]
  by_cases h₂ : w ≤ 0x7ff
  · rw [if_pos h₂]
    split_ifs
    · exact lex_byte (by omega) (by omega) (by omega)
    · exact lex_byte (by omega) (by omega) fun _ => lex_byte (by omega) (by omega) (by omega)
    · omega
    · omega
  rw [if_neg h₂]
  by_cases h₃ : w ≤ 0xffff
  · rw [if_pos h₃]
    split_ifs
    · exact lex_byte (by omega) (by omega) (by omega)
    · exact lex_byte (by omega) (by omega) (by omega)
    · exact lex_byte (by omega) (by omega) fun _ =>
        lex_byte (by omega) (by omega) fun _ => lex_byte (by omega) (by omega) (by omega)
    · omega
  rw [if_neg h₃]
  split_ifs
  · exact lex_byte (by omega) (by omega) (by omega)
  · exact lex_byte (by omega) (by omega) (by omega)
  · exact lex_byte (by omega) (by omega) (by omega)
  · exact lex_byte (by omega) (by omega) fun _ => lex_byte (by omega) (by omega) fun _ =>
      lex_byte (by omega) (by omega) fun _ => lex_byte (by omega) (by omega) (by omega)

/-- The order of code points is the order of their encodings, for texts as a whole. -/
theorem lex_flatMap_utf8EncodeChar {left right : List Char} (h : List.Lex (· < ·) left right) :
    List.Lex (· < ·) (left.flatMap String.utf8EncodeChar)
      (right.flatMap String.utf8EncodeChar) := by
  induction h with
  | @nil c rest =>
    obtain ⟨b, more, hb⟩ := List.exists_cons_of_ne_nil (String.utf8EncodeChar_ne_nil (c := c))
    rw [List.flatMap_cons, hb]
    exact .nil
  | cons _ ih => exact ih.append_left _ _
  | rel h => exact lex_utf8EncodeChar h _ _

/-- Texts are ordered as their bytes are. -/
theorem bytes_lt_bytes {a b : String} : bytes a < bytes b ↔ a < b := by
  have hmono {a b : String} (h : a < b) : bytes a < bytes b := by
    rw [bytes_eq_flatMap, bytes_eq_flatMap]
    exact List.lex_lt.1 (lex_flatMap_utf8EncodeChar (List.lex_lt.2 (String.lt_iff_toList_lt.1 h)))
  refine ⟨fun h => ?_, hmono⟩
  rcases lt_trichotomy a b with hlt | rfl | hgt
  · exact hlt
  · exact absurd h (List.lt_irrefl _)
  · exact absurd h (List.lt_asymm (hmono hgt))

/-- The comparison of strings by their bytes is the order of strings. -/
theorem le_iff {a b : String} : le a b = true ↔ a ≤ b := by
  rw [le, Bool.not_eq_true', decide_eq_false_iff_not, String.not_lt]

/-- Entries that are sorted by their names come in byte order, if no name is there twice. -/
theorem mergeSort_bytes_lt {α : Type} {entries : List (String × α)}
    (h : (entries.map Prod.fst).Nodup) :
    (entries.mergeSort fun a b => le a.1 b.1).Pairwise fun a b => bytes a.1 < bytes b.1 := by
  have hsorted : (entries.mergeSort fun a b => le a.1 b.1).Pairwise fun a b => a.1 ≤ b.1 := by
    refine (List.pairwise_mergeSort ?_ ?_ entries).imp fun h => le_iff.1 h
    · intro a b c hab hbc
      exact le_iff.2 (le_trans (le_iff.1 hab) (le_iff.1 hbc))
    · intro a b
      rw [Bool.or_eq_true, le_iff, le_iff]
      exact le_total a.1 b.1
  have hdistinct : (entries.mergeSort fun a b => le a.1 b.1).Pairwise fun a b => a.1 ≠ b.1 :=
    List.pairwise_map.1 (((List.mergeSort_perm entries _).map Prod.fst).nodup_iff.2 h)
  refine (hsorted.and hdistinct).imp fun hab => bytes_lt_bytes.2 ?_
  exact lt_of_le_of_ne hab.1 hab.2

end FieldAudit.Text
