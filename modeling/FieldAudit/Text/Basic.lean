/-! # Texts measured in bytes

A text is a list of characters.  Positions in a text are byte offsets of its UTF-8 form, so every
length here is a sum of encoded sizes. -/

namespace FieldAudit.Text

/-- The number of bytes a text takes in UTF-8. -/
def byteLength : List Char → Nat
  | [] => 0
  | c :: rest => c.utf8Size + byteLength rest

@[simp] theorem byteLength_nil : byteLength [] = 0 := rfl

@[simp] theorem byteLength_cons (c : Char) (rest : List Char) :
    byteLength (c :: rest) = c.utf8Size + byteLength rest := rfl

/-- Byte lengths add up over concatenation. -/
@[simp] theorem byteLength_append (left right : List Char) :
    byteLength (left ++ right) = byteLength left + byteLength right := by
  induction left with
  | nil => simp
  | cons c rest ih => simp [ih, Nat.add_assoc]

/-- A text is at least as many bytes long as it has characters. -/
theorem length_le_byteLength (text : List Char) : text.length ≤ byteLength text := by
  induction text with
  | nil => simp
  | cons c rest ih =>
    have := c.utf8Size_pos
    simp only [List.length_cons, byteLength_cons]
    omega

/-- The text from a byte offset on.  An offset inside a character keeps that character. -/
def dropBytes : Nat → List Char → List Char
  | _, [] => []
  | 0, text => text
  | n + 1, c :: rest => dropBytes (n + 1 - c.utf8Size) rest
termination_by _ text => text.length

/-- The first characters of a text that fit into a number of bytes. -/
def takeBytes : Nat → List Char → List Char
  | _, [] => []
  | n, c :: rest => if c.utf8Size ≤ n then c :: takeBytes (n - c.utf8Size) rest else []

/-- The part of a text between two byte offsets. -/
def slice (start stop : Nat) (text : List Char) : List Char :=
  takeBytes (stop - start) (dropBytes start text)

/-- Taking as many bytes as a prefix has gives the prefix. -/
theorem takeBytes_append (left right : List Char) :
    takeBytes (byteLength left) (left ++ right) = left := by
  induction left with
  | nil =>
    cases right with
    | nil => rfl
    | cons c rest => simp [takeBytes, Nat.not_le.2 c.utf8Size_pos]
  | cons c rest ih => simp [takeBytes, ih]

/-- Dropping as many bytes as a prefix has gives what follows it. -/
theorem dropBytes_append (left right : List Char) :
    dropBytes (byteLength left) (left ++ right) = right := by
  induction left with
  | nil => cases right <;> simp [dropBytes]
  | cons c rest ih =>
    have := c.utf8Size_pos
    obtain ⟨n, hn⟩ : ∃ n, c.utf8Size + byteLength rest = n + 1 :=
      ⟨c.utf8Size + byteLength rest - 1, by omega⟩
    rw [List.cons_append, byteLength_cons, hn, dropBytes, ← hn, Nat.add_sub_cancel_left, ih]

/-- A slice at the place of a part is that part. -/
theorem slice_append (before part after : List Char) :
    slice (byteLength before) (byteLength before + byteLength part) (before ++ (part ++ after))
      = part := by
  rw [slice, dropBytes_append, Nat.add_sub_cancel_left, takeBytes_append]

/-! ## Quotes -/

/-- The quote around strings. -/
def doubleQuote : Char := '\x22'

/-- The quote around characters. -/
def singleQuote : Char := '\x27'

/-- The quote around raw strings. -/
def backquote : Char := '\x60'

/-! ## Looking for a part -/

/-- What is left of a text after an expected beginning. -/
def afterPrefix? (expected text : List Char) : Option (List Char) :=
  if expected.isPrefixOf text then some (text.drop expected.length) else none

/-- The text is the prefix that was found followed by the rest. -/
theorem afterPrefix?_eq_some {expected text rest : List Char}
    (h : afterPrefix? expected text = some rest) : text = expected ++ rest := by
  unfold afterPrefix? at h
  split at h
  next hp =>
    obtain ⟨tail, rfl⟩ := List.isPrefixOf_iff_prefix.1 hp
    simp only [List.drop_left, Option.some.injEq] at h
    rw [h]
  next => cases h

/-- A prefix is found in front of anything. -/
@[simp] theorem afterPrefix?_append (expected rest : List Char) :
    afterPrefix? expected (expected ++ rest) = some rest := by
  simp [afterPrefix?]

/-- The parts of a text before and after the first occurrence of a pattern. -/
def splitFirst? (pattern : List Char) : List Char → Option (List Char × List Char)
  | [] => if pattern.isEmpty then some ([], []) else none
  | c :: rest =>
    match afterPrefix? pattern (c :: rest) with
    | some after => some ([], after)
    | none => (splitFirst? pattern rest).map fun parts => (c :: parts.1, parts.2)

/-- The text is taken apart at the pattern and can be put together again. -/
theorem splitFirst?_eq_some {pattern text before after : List Char}
    (h : splitFirst? pattern text = some (before, after)) :
    text = before ++ (pattern ++ after) := by
  induction text generalizing before after with
  | nil =>
    simp only [splitFirst?] at h
    split at h
    next hp => simp_all
    next => cases h
  | cons c rest ih =>
    simp only [splitFirst?] at h
    split at h
    next tail ht =>
      simp only [Option.some.injEq, Prod.mk.injEq] at h
      obtain ⟨rfl, rfl⟩ := h
      simpa using afterPrefix?_eq_some ht
    next =>
      obtain ⟨⟨b, a⟩, hp, he⟩ := Option.map_eq_some_iff.1 h
      simp only [Prod.mk.injEq] at he
      obtain ⟨rfl, rfl⟩ := he
      simp [ih hp]

/-- The part before the first occurrence of a pattern does not hold it. -/
theorem splitFirst?_not_infix {pattern text before after : List Char} (hp : pattern ≠ [])
    (h : splitFirst? pattern text = some (before, after)) : ¬ pattern <:+: before := by
  induction text generalizing before after with
  | nil =>
    simp only [splitFirst?] at h
    split at h
    next he => exact absurd (List.isEmpty_iff.1 he) hp
    next => cases h
  | cons c rest ih =>
    simp only [splitFirst?] at h
    split at h
    next =>
      cases h
      simpa using hp
    next hnone =>
      obtain ⟨⟨b, a⟩, hb, he⟩ := Option.map_eq_some_iff.1 h
      cases he
      intro hin
      rcases List.infix_cons_iff.1 hin with hpre | hin
      · -- An occurrence at the front is one at the front of the whole text.
        obtain ⟨tail, htail⟩ := hpre
        rw [splitFirst?_eq_some hb, ← List.cons_append, ← htail, List.append_assoc,
          afterPrefix?_append] at hnone
        cases hnone
      · exact ih hb hin

/-- A text without the characters of a class at its end. -/
def trimEnd (p : Char → Bool) (text : List Char) : List Char :=
  (text.reverse.dropWhile p).reverse

/-- The pieces of a text between the occurrences of a separator. -/
def splitOn (separator : Char) : List Char → List (List Char)
  | [] => [[]]
  | c :: rest =>
    if c = separator then [] :: splitOn separator rest
    else
      match splitOn separator rest with
      | [] => [[c]]
      | piece :: pieces => (c :: piece) :: pieces

/-- Splitting gives at least one piece. -/
theorem splitOn_ne_nil (separator : Char) (text : List Char) : splitOn separator text ≠ [] := by
  cases text with
  | nil => simp [splitOn]
  | cons c rest =>
    simp only [splitOn]
    split
    · simp
    · split <;> simp

/-- Texts joined by a separator. -/
def join (separator : List Char) : List (List Char) → List Char
  | [] => []
  | [piece] => piece
  | piece :: rest => piece ++ separator ++ join separator rest

/-- Whether a text comes before another one, by the numbers of the characters, or is equal to it. -/
def le (a b : String) : Bool :=
  !decide (b < a)

end FieldAudit.Text
