import FieldAudit.Proofs.Decoding
import FieldAudit.Text.Location
import Mathlib.Algebra.GroupWithZero.Nat
import Mathlib.Data.List.DropRight
import Mathlib.Data.Prod.Lex

/-! # Offsets as lines and columns

An offset is looked up among lines by their lengths, line by line.  `Found` says where the search
ends: on a line, past the last line, or at once where there is no line.  A greater offset is found
further on (`strictMono_locate`), also past the text.  In a text an offset is on a line of the text,
and the line is the one that the newlines before the offset say, but for the start of a line: that
is still found on the line before (`locate_exact`). -/

namespace FieldAudit.Text

/-! ## Lines by their lengths -/

/-- The number of bytes of some lines, each with the newline after it. -/
def linesSize (lengths : List Nat) : Nat :=
  (lengths.map (· + 1)).sum

@[simp] theorem linesSize_nil : linesSize [] = 0 := rfl

/-- Sizes add up over concatenation. -/
@[simp] theorem linesSize_append (left right : List Nat) :
    linesSize (left ++ right) = linesSize left + linesSize right := by
  simp [linesSize]

/-- A line takes its length and one more for its end. -/
@[simp] theorem linesSize_cons (length : Nat) (rest : List Nat) :
    linesSize (length :: rest) = length + 1 + linesSize rest := by
  simp [linesSize]

/-- The offset at which a line starts.  Lines are counted from one. -/
def lineStart (lengths : List Nat) (line : Nat) : Nat :=
  linesSize (lengths.take (line - 1))

/-- A line starts where the lines in front of it end. -/
@[simp] theorem lineStart_append (before after : List Nat) :
    lineStart (before ++ after) (before.length + 1) = linesSize before := by
  simp [lineStart]

/-- Locations are compared by their lines, and on one line by their columns. -/
def Location.key (place : Location) : ℕ ×ₗ ℕ :=
  toLex (place.line, place.column)

/-- Locations are ordered by line, then by column. -/
theorem Location.key_lt {a b : Location} :
    a.key < b.key ↔ a.line < b.line ∨ a.line = b.line ∧ a.column < b.column :=
  Prod.Lex.toLex_lt_toLex

/-- Where an offset is found among lines. -/
inductive Found (offset : Nat) : List Nat → Location → Prop
  | nowhere : Found offset [] ⟨1, offset⟩
  /-- The offset is in a line or just after its newline, and past the lines before. -/
  | line {before after : List Nat} {length : Nat} (hb : before = [] ∨ linesSize before < offset)
      (ho : offset ≤ linesSize before + length + 1) :
      Found offset (before ++ length :: after) ⟨before.length + 1, offset - linesSize before⟩
  /-- The column of an offset past all lines is still counted from the start of the last. -/
  | past {before : List Nat} {length : Nat} (ho : linesSize before + length + 1 < offset) :
      Found offset (before ++ [length]) ⟨before.length + 2, offset - linesSize before⟩

/-- What the search finds after it has passed some lines. -/
theorem locateFrom_found (offset : Nat) (passed lengths : List Nat)
    (hp : passed = [] ∨ linesSize passed < offset) :
    Found offset (passed ++ lengths)
      (locateFrom offset (passed.length + 1) (linesSize passed.dropLast) (linesSize passed)
        lengths) := by
  -- `passed` are the lines that the search has left behind, all of them before the offset.
  induction lengths generalizing passed with
  | nil =>
    rw [List.append_nil, locateFrom]
    rcases List.eq_nil_or_concat' passed with rfl | ⟨before, length, rfl⟩
    · exact .nowhere
    · have ho : linesSize before + length + 1 < offset := by simpa [Nat.add_assoc] using hp
      simpa using Found.past ho
  | cons length rest ih =>
    rw [locateFrom]
    split
    next ho => exact .line hp ho
    next ho =>
      have hnext := ih (passed ++ [length]) (.inr (by simp; omega))
      simpa [Nat.add_assoc] using hnext

/-- The search finds what it looks for. -/
theorem locate_found (offset : Nat) (lengths : List Nat) :
    Found offset lengths (locate offset lengths) :=
  locateFrom_found offset [] lengths (.inl rfl)

/-- The column is counted from the start of the line found, or of the last line. -/
theorem Found.start_le {offset : Nat} {lengths : List Nat} {place : Location}
    (h : Found offset lengths place) :
    lineStart lengths (min place.line lengths.length) ≤ offset ∧
      place.column = offset - lineStart lengths (min place.line lengths.length) := by
  cases h with
  | nowhere => exact ⟨Nat.zero_le _, rfl⟩
  | @line before after length hb ho =>
    have hmin : min (before.length + 1) (before ++ length :: after).length = before.length + 1 := by
      simp
    rw [hmin, lineStart_append]
    refine ⟨?_, rfl⟩
    rcases hb with rfl | hb
    · exact Nat.zero_le _
    · exact hb.le
  | @past before length ho =>
    have hmin : min (before.length + 2) (before ++ [length]).length = before.length + 1 := by simp
    rw [hmin, lineStart_append]
    exact ⟨by omega, rfl⟩

/-- The search never goes back to an earlier line. -/
theorem line_le_locateFrom (offset line start total : Nat) (lengths : List Nat) :
    line ≤ (locateFrom offset line start total lengths).line := by
  induction lengths generalizing line start total with
  | nil => exact Nat.le_refl _
  | cons length rest ih =>
    rw [locateFrom]
    split
    · exact Nat.le_refl _
    · exact Nat.le_of_succ_le (ih ..)

/-- Of two offsets the greater one is found further on. -/
theorem locateFrom_key_lt {a b line start total : Nat} (lengths : List Nat) (h : a < b)
    (hs : start ≤ a) (ht : total ≤ a) :
    (locateFrom a line start total lengths).key < (locateFrom b line start total lengths).key := by
  induction lengths generalizing line start total with
  | nil => exact Location.key_lt.2 (.inr ⟨rfl, Nat.sub_lt_sub_right hs h⟩)
  | cons length rest ih =>
    rw [locateFrom, locateFrom]
    by_cases ha : a ≤ total + length + 1
    · rw [if_pos ha]
      split
      · exact Location.key_lt.2 (.inr ⟨rfl, Nat.sub_lt_sub_right ht h⟩)
      · exact Location.key_lt.2 (.inl (line_le_locateFrom ..))
    · rw [if_neg ha, if_neg (by omega)]
      exact ih ht (by omega)

/-- A later offset has a later location. -/
theorem strictMono_locate (lengths : List Nat) :
    StrictMono fun offset => (locate offset lengths).key :=
  fun _ _ h => locateFrom_key_lt lengths h (Nat.zero_le _) (Nat.zero_le _)

/-! ## Lines of a text -/

/-- The byte that ends a line. -/
def newline : UInt8 := 10

/-- Lines with a newline after each of them. -/
def endedLines (lines : List (List Char)) : List Char :=
  lines.flatMap (· ++ ['\n'])

@[simp] theorem endedLines_nil : endedLines [] = [] := rfl

@[simp] theorem endedLines_cons (line : List Char) (rest : List (List Char)) :
    endedLines (line :: rest) = line ++ '\n' :: endedLines rest := by
  simp [endedLines]

/-- A text is the lines before any line of it, that line, and the lines after it. -/
theorem eq_of_splitOn {text line : List Char} {before after : List (List Char)}
    (h : splitOn '\n' text = before ++ line :: after) :
    text = endedLines before ++ (line ++ after.flatMap ('\n' :: ·)) := by
  induction text generalizing before line after with
  | nil =>
    obtain ⟨rfl, rfl, rfl⟩ : before = [] ∧ line = [] ∧ after = [] := by
      cases before <;> simp_all [splitOn]
    rfl
  | cons c rest ih =>
    rw [splitOn] at h
    split at h
    next hc =>
      subst hc
      cases before with
      | nil =>
        obtain ⟨rfl, rfl⟩ := List.cons.inj h
        -- The line is empty, and the rest starts with the first of the lines after it.
        obtain ⟨first, others, hfirst⟩ := List.exists_cons_of_ne_nil (splitOn_ne_nil '\n' rest)
        rw [hfirst, ih (show _ = [] ++ first :: others from hfirst)]
        simp
      | cons first before =>
        obtain ⟨rfl, hrest⟩ := List.cons.inj h
        rw [ih hrest]
        simp
    next hc =>
      split at h
      next hnil => exact absurd hnil (splitOn_ne_nil _ _)
      next piece pieces hpieces =>
        cases before with
        | nil =>
          obtain ⟨rfl, rfl⟩ := List.cons.inj h
          rw [ih (show _ = [] ++ piece :: pieces from hpieces)]
          simp
        | cons first before =>
          obtain ⟨rfl, rfl⟩ := List.cons.inj h
          rw [ih (show _ = (piece :: before) ++ line :: after from hpieces)]
          simp

/-- A piece does not hold the separator it was split at. -/
theorem notMem_of_mem_splitOn {separator : Char} {text piece : List Char}
    (h : piece ∈ splitOn separator text) : separator ∉ piece := by
  induction text generalizing piece with
  | nil => simp_all [splitOn]
  | cons c rest ih =>
    rw [splitOn] at h
    split at h
    next =>
      rcases List.mem_cons.1 h with rfl | h
      · exact List.not_mem_nil
      · exact ih h
    next hc =>
      split at h
      next hnil => exact absurd hnil (splitOn_ne_nil _ _)
      next first pieces hpieces =>
        rw [hpieces] at ih
        rcases List.mem_cons.1 h with rfl | h
        · exact List.not_mem_cons_of_ne_of_not_mem (Ne.symm hc) (ih List.mem_cons_self)
        · exact ih (List.mem_cons_of_mem _ h)

/-- The size of ended lines is that of their lengths. -/
theorem byteLength_endedLines (lines : List (List Char)) :
    byteLength (endedLines lines) = linesSize (lines.map byteLength) := by
  induction lines with
  | nil => rfl
  | cons line rest ih =>
    have hnewline : '\n'.utf8Size = 1 := by decide
    rw [endedLines_cons, byteLength_append, byteLength_cons, hnewline, ih, List.map_cons,
      linesSize_cons, Nat.add_assoc]

/-- There is one line break for each ended line. -/
theorem count_endedLines {lines : List (List Char)} (h : ∀ line ∈ lines, '\n' ∉ line) :
    (endedLines lines).count '\n' = lines.length := by
  induction lines with
  | nil => rfl
  | cons line rest ih =>
    obtain ⟨hline, hrest⟩ := List.forall_mem_cons.1 h
    rw [endedLines_cons, List.count_append, List.count_eq_zero_of_not_mem hline,
      List.count_cons_self, ih hrest, Nat.zero_add, List.length_cons]

/-- The lines of a source are as long as the source, and one more for the last. -/
theorem linesSize_lineLengths (source : List Char) :
    linesSize (lineLengths source) = byteLength source + 1 := by
  rcases List.eq_nil_or_concat' (splitOn '\n' source) with hnil | ⟨before, last, hsplit⟩
  · exact absurd hnil (splitOn_ne_nil _ _)
  · have hsource := congrArg byteLength (eq_of_splitOn hsplit)
    rw [List.flatMap_nil, List.append_nil, byteLength_append, byteLength_endedLines] at hsource
    simp [lineLengths, hsplit, hsource, Nat.add_assoc]

/-- Where an offset is found in a text: in a line, or at the start of the line after it. -/
inductive FoundIn (source : List Char) : Nat → Location → Prop
  | within {before after : List (List Char)} {line : List Char} {column : Nat}
      (hs : splitOn '\n' source = before ++ line :: after) (hc : column ≤ byteLength line)
      (hb : before = [] ∨ 0 < column) :
      FoundIn source (byteLength (endedLines before) + column) ⟨before.length + 1, column⟩
  | next {before after : List (List Char)} {line : List Char}
      (hs : splitOn '\n' source = before ++ line :: after) (hn : after ≠ []) :
      FoundIn source (byteLength (endedLines before) + byteLength line + 1)
        ⟨before.length + 1, byteLength line + 1⟩

/-- The location of an offset inside the source stands where the search over its lines says. -/
theorem locationOf_found {offset : Nat} {source : List Char} (h : offset ≤ byteLength source) :
    FoundIn source offset (locationOf offset source) := by
  have hsize := linesSize_lineLengths source
  have hfound := locate_found offset (lineLengths source)
  rw [← locationOf] at hfound
  generalize locationOf offset source = place at hfound ⊢
  generalize hl : lineLengths source = lengths at hfound hsize
  cases hfound with
  | nowhere => simp at hsize
  | @line before after length hb ho =>
    obtain ⟨lines, others, hsplit, rfl, hothers⟩ := List.map_eq_append_iff.1 hl
    obtain ⟨line, rest, rfl, rfl, rfl⟩ := List.map_eq_cons_iff.1 hothers
    rw [List.map_eq_nil_iff, ← byteLength_endedLines] at hb
    rw [← byteLength_endedLines] at ho ⊢
    rw [List.length_map]
    have hle : byteLength (endedLines lines) ≤ offset := by
      rcases hb with rfl | hb
      · exact Nat.zero_le _
      · exact hb.le
    obtain ⟨column, rfl⟩ := Nat.exists_eq_add_of_le hle
    rw [Nat.add_sub_cancel_left]
    by_cases hc : column ≤ byteLength line
    · exact .within hsplit hc (hb.imp_right fun h => by omega)
    · obtain rfl : column = byteLength line + 1 := by omega
      refine .next hsplit ?_
      -- No newline ends the last line.
      rintro rfl
      have hsource := congrArg byteLength (eq_of_splitOn hsplit)
      rw [List.flatMap_nil, List.append_nil, byteLength_append] at hsource
      omega
  | @past before length ho =>
    simp only [linesSize_append, linesSize_cons, linesSize_nil] at hsize
    omega

/-- An offset is found on a line of the text, and the column is counted from the start of the
line. -/
theorem FoundIn.start_add_column {source : List Char} {offset : Nat} {place : Location}
    (h : FoundIn source offset place) :
    lineStart (lineLengths source) place.line + place.column = offset ∧
      1 ≤ place.line ∧ place.line ≤ (lineLengths source).length := by
  have start {before after : List (List Char)}
      (hs : splitOn '\n' source = before ++ after) :
      lineStart (lineLengths source) (before.length + 1) = byteLength (endedLines before) := by
    have hlength : before.length = (before.map byteLength).length := by rw [List.length_map]
    rw [lineLengths, hs, List.map_append, hlength, lineStart_append, byteLength_endedLines]
  cases h with
  | within hs hc hb => exact ⟨by rw [start hs], by simp, by simp [lineLengths, hs]⟩
  | next hs hn => exact ⟨by rw [start hs, Nat.add_assoc], by simp, by simp [lineLengths, hs]⟩

/-! ## Newlines before an offset -/

/-- Only the line break has the byte of a line break in its encoding. -/
theorem eq_newline_of_mem {c : Char} (h : newline ∈ String.utf8EncodeChar c) : c = '\n' := by
  obtain ⟨b, more, hc⟩ := List.exists_cons_of_ne_nil (String.utf8EncodeChar_ne_nil (c := c))
  rw [hc] at h
  rcases List.mem_cons.1 h with rfl | h
  · have hread := encodedChar?_encode hc []
    have hnewline : encodedChar? newline (more ++ []) = some ('\n', 0) := by rfl
    rw [hnewline] at hread
    exact (Prod.mk.inj (Option.some.inj hread)).1.symm
  -- A newline does not continue a character.
  · exact absurd (by decide) (continuation?_of_mem hc h)

/-- The byte of a line break occurs exactly where a line break does. -/
theorem newline_mem_encode {text : List Char} : newline ∈ encode text ↔ '\n' ∈ text := by
  rw [encode, List.mem_flatMap]
  constructor
  · rintro ⟨c, hc, hmem⟩
    rwa [eq_newline_of_mem hmem] at hc
  · intro h
    exact ⟨'\n', h, by decide⟩

/-- Line breaks are counted alike in text and in bytes. -/
theorem count_newline_encode (text : List Char) :
    (encode text).count newline = text.count '\n' := by
  induction text with
  | nil => rfl
  | cons c rest ih =>
    rw [encode_cons, List.count_append, ih]
    by_cases hc : c = '\n'
    · subst hc
      have hone : (String.utf8EncodeChar '\n').count newline = 1 := by decide
      rw [hone, List.count_cons_self, Nat.add_comm]
    · rw [List.count_cons_of_ne hc, List.count_eq_zero_of_not_mem fun h => hc (eq_newline_of_mem h),
        Nat.zero_add]

/-- The encoding has as many bytes as the text is long. -/
theorem length_encode (text : List Char) : (encode text).length = byteLength text := by
  induction text with
  | nil => rfl
  | cons c rest ih => rw [encode_cons, List.length_append, ih, String.length_utf8EncodeChar,
      byteLength_cons]

/-- An offset is that of the first byte of a line after the first line. -/
def StartsLine (bytes : List UInt8) (offset : Nat) : Prop :=
  0 < offset ∧ bytes[offset - 1]? = some newline

instance (bytes : List UInt8) (offset : Nat) : Decidable (StartsLine bytes offset) :=
  inferInstanceAs (Decidable (_ ∧ _))

section

variable {source line : List Char} {before after : List (List Char)} {column : Nat}

/-- A line has no line break in its bytes. -/
theorem newline_notMem_encode (hs : splitOn '\n' source = before ++ line :: after) :
    newline ∉ encode line := by
  intro h
  have hmem : line ∈ splitOn '\n' source := by simp [hs]
  exact notMem_of_mem_splitOn hmem (newline_mem_encode.1 h)

/-- The bytes of ended lines hold one line break each. -/
theorem count_newline_endedLines (hs : splitOn '\n' source = before ++ after) :
    (encode (endedLines before)).count newline = before.length := by
  rw [count_newline_encode, count_endedLines]
  intro piece hp
  exact notMem_of_mem_splitOn (hs ▸ List.mem_append_left after hp)

/-- The bytes up to a place in a line. -/
theorem take_encode_within (hs : splitOn '\n' source = before ++ line :: after)
    (hc : column ≤ byteLength line) :
    (encode source).take (byteLength (endedLines before) + column) =
      encode (endedLines before) ++ (encode line).take column := by
  rw [eq_of_splitOn hs, encode_append, encode_append, ← length_encode, List.take_length_add_append,
    List.take_append_of_le_length (by rwa [length_encode])]

/-- The bytes up to the start of the next line. -/
theorem take_encode_next (hs : splitOn '\n' source = before ++ line :: after) (hn : after ≠ []) :
    (encode source).take (byteLength (endedLines before) + byteLength line + 1) =
      encode (endedLines before) ++ encode line ++ [newline] := by
  obtain ⟨next, others, rfl⟩ := List.exists_cons_of_ne_nil hn
  have hlength : byteLength (endedLines before) + byteLength line + 1 =
      (encode (endedLines before) ++ encode line ++ [newline]).length := by
    simp [length_encode, Nat.add_assoc]
  have hsource : encode source = encode (endedLines before) ++ encode line ++ [newline] ++
      encode (next ++ others.flatMap ('\n' :: ·)) := by
    rw [eq_of_splitOn hs]
    simp [encode_append, encode_cons, String.utf8EncodeChar, newline]
  rw [hlength, hsource, List.take_left]

/-- No line starts within a line. -/
theorem not_startsLine_within (hs : splitOn '\n' source = before ++ line :: after)
    (hc : column ≤ byteLength line) (hb : before = [] ∨ 0 < column) :
    ¬ StartsLine (encode source) (byteLength (endedLines before) + column) := by
  rintro ⟨hpos, hget⟩
  cases column with
  | zero =>
    obtain rfl : before = [] := hb.resolve_right (Nat.lt_irrefl 0)
    exact absurd hpos (Nat.lt_irrefl 0)
  | succ column =>
    rw [eq_of_splitOn hs, encode_append, encode_append, ← Nat.add_assoc, Nat.add_sub_cancel,
      ← length_encode, List.getElem?_append_right (Nat.le_add_right ..), Nat.add_sub_cancel_left,
      List.getElem?_append_left (by rwa [length_encode])] at hget
    exact newline_notMem_encode hs (List.mem_of_getElem? hget)

/-- The next line starts one byte behind a line. -/
theorem startsLine_next (hs : splitOn '\n' source = before ++ line :: after) (hn : after ≠ []) :
    StartsLine (encode source) (byteLength (endedLines before) + byteLength line + 1) := by
  refine ⟨Nat.succ_pos _, ?_⟩
  rw [Nat.add_sub_cancel, ← List.getElem?_take_of_lt (Nat.lt_succ_self _), take_encode_next hs hn,
    ← length_encode, ← length_encode, ← List.length_append]
  exact List.getElem?_concat_length

end

/-- The bytes of ended lines end in a line break. -/
theorem getLast?_encode_endedLines {lines : List (List Char)} :
    ∀ b ∈ (encode (endedLines lines)).getLast?, b = newline := by
  rcases List.eq_nil_or_concat' lines with rfl | ⟨before, last, rfl⟩
  · simp [endedLines, encode]
  · simp [endedLines, encode, String.utf8EncodeChar, newline]

/-- What stands after the last newline. -/
theorem rtakeWhile_append_of_notMem {front line : List UInt8}
    (hf : ∀ b ∈ front.getLast?, b = newline) (hl : newline ∉ line) :
    (front ++ line).rtakeWhile (· != newline) = line := by
  have hline : ∀ b ∈ line.reverse, (b != newline) = true := by
    intro b hb
    rw [bne_iff_ne]
    rintro rfl
    exact hl (List.mem_reverse.1 hb)
  rw [List.rtakeWhile, List.reverse_append, List.takeWhile_append_of_pos hline,
    List.reverse_append, List.reverse_reverse]
  rcases List.eq_nil_or_concat' front with rfl | ⟨init, b, rfl⟩
  · rfl
  · have hb : b = newline := hf b (by simp)
    simp [hb]

/-- Inside a line the newlines before the offset give the line, and what follows the last of them
the column. -/
theorem FoundIn.of_not_startsLine {source : List Char} {offset : Nat} {place : Location}
    (h : FoundIn source offset place) (hstart : ¬ StartsLine (encode source) offset) :
    place = ⟨1 + ((encode source).take offset).count newline,
      (((encode source).take offset).rtakeWhile (· != newline)).length⟩ := by
  cases h with
  | @within before after line column hs hc hb =>
    have hpart : newline ∉ (encode line).take column := fun hn =>
      newline_notMem_encode hs (List.mem_of_mem_take hn)
    rw [take_encode_within hs hc, List.count_append, count_newline_endedLines hs,
      List.count_eq_zero_of_not_mem hpart,
      rtakeWhile_append_of_notMem getLast?_encode_endedLines hpart, List.length_take,
      length_encode, Nat.min_eq_left hc, Nat.add_comm 1, Nat.add_zero]
  | next hs hn => exact absurd (startsLine_next hs hn) hstart

/-- The start of a line is found on the line before, one past the end of it. -/
theorem FoundIn.of_startsLine {source : List Char} {offset : Nat} {place : Location}
    (h : FoundIn source offset place) (hstart : StartsLine (encode source) offset) :
    ∃ length, (lineLengths source)[((encode source).take offset).count newline - 1]? = some length ∧
      place = ⟨((encode source).take offset).count newline, length + 1⟩ := by
  cases h with
  | within hs hc hb => exact absurd hstart (not_startsLine_within hs hc hb)
  | @next before after line hs hn =>
    have hcount : ((encode source).take
        (byteLength (endedLines before) + byteLength line + 1)).count newline =
          before.length + 1 := by
      rw [take_encode_next hs hn, List.count_append, List.count_append,
        count_newline_endedLines hs, List.count_eq_zero_of_not_mem (newline_notMem_encode hs)]
      rfl
    rw [hcount]
    exact ⟨byteLength line, by simp [lineLengths, hs], rfl⟩

/-- Offsets among lines are found in order, by line and then by column, and the column is counted
from the start of a line that is not past the offset.  An offset in a text is on a line of it, and
that line and the column are those that the newlines before the offset give, unless a line starts at
the offset, which is then found just after the line before. -/
theorem locate_exact :
    (∀ lengths, StrictMono fun offset => (locate offset lengths).key) ∧
    (∀ lengths offset,
      let place := locate offset lengths
      let start := lineStart lengths (min place.line lengths.length)
      start ≤ offset ∧ place.column = offset - start) ∧
    ∀ source offset, offset ≤ byteLength source →
      let place := locationOf offset source
      let before := (encode source).take offset
      lineStart (lineLengths source) place.line + place.column = offset ∧
      1 ≤ place.line ∧ place.line ≤ (lineLengths source).length ∧
      (¬ StartsLine (encode source) offset →
        place = ⟨1 + before.count newline, (before.rtakeWhile (· != newline)).length⟩) ∧
      (StartsLine (encode source) offset →
        ∃ length, (lineLengths source)[before.count newline - 1]? = some length ∧
          place = ⟨before.count newline, length + 1⟩) := by
  refine ⟨strictMono_locate, fun lengths offset => (locate_found offset lengths).start_le, ?_⟩
  intro source offset h
  have hfound := locationOf_found h
  obtain ⟨hsum, hpos, hle⟩ := hfound.start_add_column
  exact ⟨hsum, hpos, hle, hfound.of_not_startsLine, hfound.of_startsLine⟩

/-- An empty line between two others: its start is still on the line before it, and the start of the
line after it is on the empty line. -/
theorem locate_exact_empty_line :
    let source := "é\n\nab".toList
    3 ≤ byteLength source ∧ 4 ≤ byteLength source ∧ 5 ≤ byteLength source ∧
      StartsLine (encode source) 3 ∧ locationOf 3 source = ⟨1, 3⟩ ∧
      StartsLine (encode source) 4 ∧ locationOf 4 source = ⟨2, 1⟩ ∧
      ¬ StartsLine (encode source) 5 ∧ locationOf 5 source = ⟨3, 1⟩ := by
  have h₃ := locate_exact.2.2 "é\n\nab".toList 3 (by decide)
  have h₄ := locate_exact.2.2 "é\n\nab".toList 4 (by decide)
  have h₅ := locate_exact.2.2 "é\n\nab".toList 5 (by decide)
  refine ⟨by decide, by decide, by decide, by decide, ?_, by decide, ?_, by decide, ?_⟩
  · obtain ⟨length, hlength, hplace⟩ := h₃.2.2.2.2 (by decide)
    cases hlength
    exact hplace
  · obtain ⟨length, hlength, hplace⟩ := h₄.2.2.2.2 (by decide)
    cases hlength
    exact hplace
  · exact h₅.2.2.2.1 (by decide)

end FieldAudit.Text
