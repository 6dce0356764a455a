import FieldAudit.Template.Error
import FieldAudit.Template.Node

/-! # Reading tokens

The parts of the parser pass on what is left to read: the remaining tokens, together with the
variables that are visible.  Reading past the last token gives the end of the template again. -/

namespace FieldAudit.Template

/-- What is left to read, and the variables in scope with the newest first. -/
structure Input where
  tokens : List Token
  scope : List String
  deriving DecidableEq, Repr

namespace Input

/-- The number of tokens that are left. -/
def size (s : Input) : Nat :=
  s.tokens.length

/-- The next token. -/
def peek (s : Input) : Token :=
  s.tokens.headD (.eof 0)

/-- The input after its next token. -/
def tail (s : Input) : Input :=
  { s with tokens := s.tokens.tail }

/-- The input without the spaces at its start. -/
def skipSpace (s : Input) : Input :=
  { s with tokens := s.tokens.dropWhile (·.kind = .space) }

/-- The next token that is no space. -/
def peekWord (s : Input) : Token :=
  s.skipSpace.peek

/-- The input after the next token that is no space. -/
def next (s : Input) : Input :=
  s.skipSpace.tail

/-- The input with one more variable in scope. -/
def declare (s : Input) (name : String) : Input :=
  { s with scope := name :: s.scope }

/-- Skipping spaces reads no tokens back. -/
theorem size_skipSpace_le (s : Input) : s.skipSpace.size ≤ s.size :=
  (List.dropWhile_suffix _).length_le

/-- Dropping the first token leaves no more tokens. -/
theorem size_tail_le (s : Input) : s.tail.size ≤ s.size := by
  simp only [size, tail, List.length_tail]
  omega

/-- Reading the next word leaves no more tokens. -/
theorem size_next_le (s : Input) : s.next.size ≤ s.size :=
  Nat.le_trans (size_tail_le _) (size_skipSpace_le s)

/-- Only the end of the tokens can be read without coming closer to it. -/
theorem size_tail_lt {s : Input} (h : s.peek.kind ≠ .eof) : s.tail.size < s.size := by
  obtain ⟨tokens, scope⟩ := s
  cases tokens with
  | nil => exact absurd rfl h
  | cons t rest => simp [size, tail]

/-- Reading a word that is not the end of the input leaves strictly fewer tokens. -/
theorem size_next_lt {s : Input} (h : s.peekWord.kind ≠ .eof) : s.next.size < s.size :=
  Nat.lt_of_lt_of_le (size_tail_lt h) (size_skipSpace_le s)

end Input

/-- The error that a token is out of place. -/
def unexpected (t : Token) (context : Context) : Error :=
  ⟨t.pos, .unexpectedToken t context⟩

/-- The text of a literal token that must be a quoted literal. -/
def unquoteToken (t : Token) : Except Error (List Char) :=
  (Literal.unquote t.lexeme).mapError fun literal => ⟨t.pos, .malformedLiteral literal⟩

end FieldAudit.Template
