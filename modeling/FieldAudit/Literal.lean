import FieldAudit.Text.Basic

/-! # Quoted literals

Go writes strings between double quotes, raw strings between back quotes and characters between
single quotes.  `unquote` reads such a literal, quotes included, and gives the text that it stands
for or the first fault in it. -/

namespace FieldAudit.Literal

open Text

/-- What can be wrong with a quoted literal. -/
inductive Fault where
  | empty
  | notQuoted
  | missingClosingQuote
  | backquoteInRawString
  | newline
  | unescapedQuote
  | unterminatedEscape
  | truncatedNumericEscape
  /-- A `\x`, `\u` or `\U` escape, by its letter, whose number is no character. -/
  | invalidEscape (letter : Char)
  | octalOutOfRange
  | unknownEscape
  | notOneCharacter
  deriving DecidableEq, Repr

/-- The wording of a fault. -/
def Fault.reason : Fault → String
  | .empty => "empty literal"
  | .notQuoted => "not a quoted literal"
  | .missingClosingQuote => "missing closing quote"
  | .backquoteInRawString => "backquote inside raw string"
  | .newline => "newline in quoted literal"
  | .unescapedQuote => "unescaped quote inside literal"
  | .unterminatedEscape => "unterminated escape sequence"
  | .truncatedNumericEscape => "truncated numeric escape"
  | .invalidEscape letter => "invalid \\" ++ String.singleton letter ++ " escape"
  | .octalOutOfRange => "octal escape out of range"
  | .unknownEscape => "unknown escape sequence"
  | .notOneCharacter => "character constant must hold exactly one character"

/-- A literal that cannot be read, with its first fault. -/
structure Malformed where
  literal : List Char
  fault : Fault
  deriving DecidableEq, Repr

/-- The message for a malformed literal. -/
def Malformed.message (m : Malformed) : String :=
  "invalid literal " ++ String.ofList m.literal ++ ": " ++ m.fault.reason

/-! ## Escapes -/

/-- The value of a digit in a base of at most sixteen. -/
def digit? (base : Nat) (c : Char) : Option Nat :=
  let value :=
    if '0' ≤ c ∧ c ≤ '9' then some (c.toNat - '0'.toNat)
    else if 'a' ≤ c ∧ c ≤ 'f' then some (c.toNat - 'a'.toNat + 10)
    else if 'A' ≤ c ∧ c ≤ 'F' then some (c.toNat - 'A'.toNat + 10)
    else none
  value.filter (· < base)

/-- The number that the next `count` digits write, after the digits read so far. -/
def takeDigits (base : Nat) : Nat → Nat → List Char → Except Fault (Nat × List Char)
  | 0, value, text => .ok (value, text)
  | _ + 1, _, [] => .error .truncatedNumericEscape
  | count + 1, value, c :: rest =>
    match digit? base c with
    | some d => takeDigits base count (value * base + d) rest
    | none => .error .truncatedNumericEscape

/-- The character with a given scalar value. -/
def scalar? (value : Nat) : Option Char :=
  if value.isValidChar then some (Char.ofNat value) else none

/-- The character that a one-letter escape stands for between the given quotes. -/
def simpleEscape? (quote letter : Char) : Option Char :=
  match letter with
  | 'a' => some '\x07'
  | 'b' => some '\x08'
  | 'f' => some '\x0c'
  | 'n' => some '\n'
  | 'r' => some '\r'
  | 't' => some '\t'
  | 'v' => some '\x0b'
  | '\\' => some '\\'
  | _ => if letter = quote then some quote else none

/-- An escape that gives its character by `count` digits in base sixteen. -/
def hexEscape (letter : Char) (count : Nat) (text : List Char) :
    Except Fault (Char × List Char) :=
  match takeDigits 16 count 0 text with
  | .error fault => .error fault
  | .ok (value, rest) =>
    match scalar? value with
    | some c => .ok (c, rest)
    | none => .error (.invalidEscape letter)

/-- An escape that gives its character by three digits in base eight, of which one is read. -/
def octalEscape (first : Nat) (text : List Char) : Except Fault (Char × List Char) :=
  match takeDigits 8 2 first text with
  | .error fault => .error fault
  | .ok (value, rest) =>
    if value ≤ 255 then .ok (Char.ofNat value, rest) else .error .octalOutOfRange

/-- Reads one escape from the text after its backslash. -/
def takeEscape (quote : Char) : List Char → Except Fault (Char × List Char)
  | [] => .error .unterminatedEscape
  | letter :: rest =>
    match simpleEscape? quote letter with
    | some c => .ok (c, rest)
    | none =>
      if letter = 'x' then hexEscape 'x' 2 rest
      else if letter = 'u' then hexEscape 'u' 4 rest
      else if letter = 'U' then hexEscape 'U' 8 rest
      else
        match digit? 8 letter with
        | some first => octalEscape first rest
        | none => .error .unknownEscape

/-- The letters of the escapes by digits in base sixteen, each with the number of digits. -/
def hexForms : List (Char × Nat) :=
  [('x', 2), ('u', 4), ('U', 8)]

/-- What is read after a backslash, by the first character. -/
theorem takeEscape_cases (quote letter : Char) (rest : List Char) :
    (∃ c, simpleEscape? quote letter = some c ∧
        takeEscape quote (letter :: rest) = .ok (c, rest)) ∨
      (∃ count, (letter, count) ∈ hexForms ∧
        takeEscape quote (letter :: rest) = hexEscape letter count rest) ∨
      (∃ first, digit? 8 letter = some first ∧
        takeEscape quote (letter :: rest) = octalEscape first rest) ∨
      takeEscape quote (letter :: rest) = .error .unknownEscape := by
  rw [takeEscape]
  split
  next c hc => exact .inl ⟨c, hc, rfl⟩
  next =>
    split
    next hx => exact .inr (.inl ⟨2, by simp [hx, hexForms], by rw [hx]⟩)
    next =>
      split
      next hu => exact .inr (.inl ⟨4, by simp [hu, hexForms], by rw [hu]⟩)
      next =>
        split
        next hU => exact .inr (.inl ⟨8, by simp [hU, hexForms], by rw [hU]⟩)
        next =>
          split
          next first hf => exact .inr (.inr (.inl ⟨first, hf, rfl⟩))
          next => exact .inr (.inr (.inr rfl))

/-- Reading digits never lengthens what is left to read. -/
theorem takeDigits_length {base count value : Nat} {text : List Char} {result : Nat × List Char}
    (h : takeDigits base count value text = .ok result) : result.2.length ≤ text.length := by
  fun_induction takeDigits base count value text with
  | case1 => cases h; simp
  | case2 => cases h
  | case3 _ _ _ _ _ _ ih => exact Nat.le_succ_of_le (ih h)
  | case4 => cases h

/-- A hexadecimal escape leaves no more text than it was given. -/
theorem hexEscape_length {letter : Char} {count : Nat} {text : List Char}
    {result : Char × List Char} (h : hexEscape letter count text = .ok result) :
    result.2.length ≤ text.length := by
  unfold hexEscape at h
  split at h
  next => cases h
  next value rest hd =>
    split at h
    next => cases h; exact takeDigits_length hd
    next => cases h

/-- An octal escape leaves no more text than it was given. -/
theorem octalEscape_length {first : Nat} {text : List Char} {result : Char × List Char}
    (h : octalEscape first text = .ok result) : result.2.length ≤ text.length := by
  unfold octalEscape at h
  split at h
  next => cases h
  next value rest hd =>
    split at h
    next => cases h; exact takeDigits_length hd
    next => cases h

/-- An escape takes at least the character after the backslash. -/
theorem takeEscape_length {quote : Char} {text : List Char} {result : Char × List Char}
    (h : takeEscape quote text = .ok result) : result.2.length < text.length := by
  cases text with
  | nil => cases h
  | cons letter rest =>
    rw [List.length_cons, Nat.lt_succ_iff]
    obtain ⟨c, -, hs⟩ | ⟨count, -, hs⟩ | ⟨first, -, hs⟩ | hs := takeEscape_cases quote letter rest
    · rw [hs] at h
      cases h
      exact Nat.le_refl _
    · exact hexEscape_length (hs ▸ h)
    · exact octalEscape_length (hs ▸ h)
    · rw [hs] at h
      cases h

/-! ## Literals -/

/-- The text that the body of an interpreted literal stands for. -/
def decodeBody (quote : Char) (text : List Char) : Except Fault (List Char) :=
  match text with
  | [] => .ok []
  | c :: rest =>
    if c = '\n' then .error .newline
    else if c = quote then .error .unescapedQuote
    else if c = '\\' then
      match _h : takeEscape quote rest with
      | .error fault => .error fault
      | .ok result =>
        match decodeBody quote result.2 with
        | .error fault => .error fault
        | .ok decoded => .ok (result.1 :: decoded)
    else
      match decodeBody quote rest with
      | .error fault => .error fault
      | .ok decoded => .ok (c :: decoded)
termination_by text.length
decreasing_by
  · have := takeEscape_length _h
    simp only [List.length_cons]
    omega
  · simp

/-- The text that a body between two of the given quotes stands for. -/
def decode (quote : Char) (body : List Char) : Except Fault (List Char) :=
  if quote = backquote then
    if body.contains backquote then .error .backquoteInRawString
    else .ok (body.filter (· ≠ '\r'))
  else
    match decodeBody quote body with
    | .error fault => .error fault
    | .ok text =>
      if quote = singleQuote ∧ text.length ≠ 1 then .error .notOneCharacter else .ok text

/-- Whether a character opens a literal. -/
def isQuote (c : Char) : Bool :=
  c = doubleQuote || c = singleQuote || c = backquote

/-- The text that a quoted literal stands for, or its first fault. -/
def read (literal : List Char) : Except Fault (List Char) :=
  match literal with
  | [] => .error .empty
  | quote :: rest =>
    if !isQuote quote then .error .notQuoted
    else if rest.getLast? ≠ some quote then .error .missingClosingQuote
    else decode quote rest.dropLast

/-- Reads a quoted literal. -/
def unquote (literal : List Char) : Except Malformed (List Char) :=
  (read literal).mapError fun fault => ⟨literal, fault⟩

end FieldAudit.Literal
