import FieldAudit.Template.Token.Scan

/-! # From template text to tokens

Text and actions alternate.  A minus beside a delimiter trims the spaces of the text next to it,
and an action that holds a comment leaves no token.  A `Lexer` goes through the template once: it
keeps its place, the number of parentheses that are open and the tokens so far. -/

namespace FieldAudit.Template

open Text

/-- A position in a template: a byte offset and the text that follows it. -/
structure Place where
  pos : Nat
  rest : List Char
  deriving DecidableEq, Repr

/-- The place after a piece of the text. -/
def Place.advance (pos : Nat) (piece rest : List Char) : Place :=
  ⟨pos + byteLength piece, rest⟩

/-- The place after the spaces that follow. -/
def Place.skipSpace (place : Place) : Place :=
  .advance place.pos (place.rest.takeWhile isSpace) (place.rest.dropWhile isSpace)

/-- A closing delimiter: its token and the place where the text goes on. -/
structure Closing where
  token : Token
  next : Place

/-- The closing delimiter at the start of a text. -/
def closing? (right : List Char) (pos : Nat) (text : List Char) : Option Closing :=
  match afterTrimmedRight? right text with
  | some rest =>
    some ⟨⟨.rightDelim, right, pos + 2⟩, (Place.advance (pos + 2) right rest).skipSpace⟩
  | none =>
    (afterPrefix? right text).map fun rest =>
      ⟨⟨.rightDelim, right, pos⟩, .advance pos right rest⟩

/-- The number of open parentheses after a token, unless it closes one that is not open. -/
def nesting? (depth : Nat) : Token.Kind → Option Nat
  | .leftParen => some (depth + 1)
  | .rightParen => if depth = 0 then none else some (depth - 1)
  | _ => some depth

/-- The mark that opens a comment. -/
def commentOpen : List Char := ['/', '*']

/-- The mark that closes a comment. -/
def commentClose : List Char := ['*', '/']

/-- The place after a comment action, given the text after the opening mark. -/
def afterComment (right : List Char) (pos : Nat) (text : List Char) : Except Cause Place :=
  match splitFirst? commentClose text with
  | none => .error .unclosedComment
  | some (body, rest) =>
    match closing? right (pos + byteLength body + 2) rest with
    | some closing => .ok closing.next
    | none => .error .commentNotAtDelimiter

/-- What follows a trim marker after a left delimiter: a minus and a space. -/
def afterLeftTrim? : List Char → Option (List Char)
  | '-' :: c :: rest => if isSpace c then some rest else none
  | _ => none

/-- The token for a piece of text, if the piece is not empty. -/
def textToken (pos : Nat) (text : List Char) : List Token :=
  if text.isEmpty then [] else [⟨.text, text, pos⟩]

/-- The text before an action, as tokens, and the inside of the action. -/
structure Opening where
  text : List Token
  delimiter : Token
  inside : Place

/-- The first action of a text. -/
def opening? (left : List Char) (pos : Nat) (text : List Char) : Option Opening :=
  (splitFirst? left text).map fun (before, after) =>
    let delimPos := pos + byteLength before
    let delimiter : Token := ⟨.leftDelim, left, delimPos⟩
    match afterLeftTrim? after with
    | some inside =>
      ⟨textToken pos (trimEnd isSpace before), delimiter, ⟨delimiter.stop + 2, inside⟩⟩
    | none => ⟨textToken pos before, delimiter, ⟨delimiter.stop, after⟩⟩

/-! ## Lengths -/

/-- What follows a prefix is shorter than the text by the prefix. -/
theorem afterPrefix?_length {expected text rest : List Char}
    (h : afterPrefix? expected text = some rest) :
    rest.length + expected.length = text.length := by
  rw [afterPrefix?_eq_some h, List.length_append, Nat.add_comm]

/-- Skipping spaces does not lengthen the rest. -/
theorem Place.skipSpace_length (place : Place) :
    place.skipSpace.rest.length ≤ place.rest.length :=
  (List.dropWhile_suffix _).length_le

/-- A trimmed right delimiter takes at least its own length off the text. -/
theorem afterTrimmedRight?_length {right text rest : List Char}
    (h : afterTrimmedRight? right text = some rest) :
    rest.length + right.length ≤ text.length := by
  unfold afterTrimmedRight? at h
  split at h
  next =>
    split at h
    next =>
      have := afterPrefix?_length h
      simp only [List.length_cons]
      omega
    next => cases h
  next => cases h

/-- A closing delimiter takes at least its own length off the text. -/
theorem closing?_length {right text : List Char} {pos : Nat} {closing : Closing}
    (h : closing? right pos text = some closing) :
    closing.next.rest.length + right.length ≤ text.length := by
  unfold closing? at h
  split at h
  next rest hr =>
    cases h
    have := afterTrimmedRight?_length hr
    have := Place.skipSpace_length (Place.advance (pos + 2) right rest)
    simp only [Place.advance] at *
    omega
  next =>
    obtain ⟨rest, hr, rfl⟩ := Option.map_eq_some_iff.1 h
    exact Nat.le_of_eq (afterPrefix?_length hr)

/-- A comment takes at least the right delimiter off the text. -/
theorem afterComment_length {right text : List Char} {pos : Nat} {next : Place}
    (h : afterComment right pos text = .ok next) :
    next.rest.length + right.length ≤ text.length := by
  unfold afterComment at h
  split at h
  next => cases h
  next body rest hb =>
    split at h
    next closing hc =>
      cases h
      have := closing?_length hc
      rw [splitFirst?_eq_some hb]
      simp only [List.length_append]
      omega
    next => cases h

/-- The inside of the first action is shorter than the text by the left delimiter at least. -/
theorem opening?_length {left text : List Char} {pos : Nat} {o : Opening}
    (h : opening? left pos text = some o) :
    o.inside.rest.length + left.length ≤ text.length := by
  obtain ⟨⟨before, after⟩, hs, rfl⟩ := Option.map_eq_some_iff.1 h
  have hlen : after.length + left.length ≤ text.length := by
    rw [splitFirst?_eq_some hs]
    simp only [List.length_append]
    omega
  simp only
  split
  next inside hi =>
    unfold afterLeftTrim? at hi
    split at hi
    next =>
      split at hi
      next =>
        cases hi
        simp only [List.length_cons] at hlen ⊢
        omega
      next => cases hi
    next => cases hi
  next => exact hlen

/-! ## Actions -/

/-- A lexer at work: its place in the template, the number of parentheses that are open, and the
tokens it has read. -/
structure Lexer where
  place : Place
  depth : Nat
  tokens : Array Token

/-- A lexer at the start of a template. -/
def Lexer.start (source : List Char) : Lexer :=
  ⟨⟨0, source⟩, 0, #[]⟩

/-- Reads an action from behind its left delimiter up to the delimiter that closes it.  The
parentheses of an action are balanced. -/
def Lexer.action (right : List Char) (l : Lexer) : Except Error Lexer :=
  match closing? right l.place.pos l.place.rest with
  | some closing =>
    if l.depth = 0 then .ok { l with place := closing.next, tokens := l.tokens.push closing.token }
    else .error ⟨l.place.pos, .unclosedParen⟩
  | none =>
    match _h : scan right l.place.rest with
    | .error cause => .error ⟨l.place.pos, cause⟩
    | .ok s =>
      match nesting? l.depth s.kind with
      | none => .error ⟨l.place.pos, .unexpectedRightParen⟩
      | some depth =>
        Lexer.action right ⟨.advance l.place.pos s.lexeme s.rest, depth,
          l.tokens.push ⟨s.kind, s.lexeme, l.place.pos⟩⟩
termination_by l.place.rest.length
decreasing_by exact scan_length _h

/-- An action takes at least its right delimiter off the text. -/
theorem Lexer.action_length {right : List Char} {l next : Lexer}
    (h : l.action right = .ok next) :
    next.place.rest.length + right.length ≤ l.place.rest.length := by
  fun_induction Lexer.action right l with
  | case1 l closing hc => cases h; exact closing?_length hc
  | case2 => cases h
  | case3 => cases h
  | case4 => cases h
  | case5 l _ s hs depth _ ih =>
    have hrest := ih h
    have hscan := scan_length hs
    simp only [Place.advance] at hrest
    omega

/-! ## Templates -/

/-- Reads the text up to the next action, and the action; or the text up to the end. -/
def Lexer.text (d : Delimiters) (l : Lexer) : Except Error Lexer :=
  match opening? d.left l.place.pos l.place.rest with
  | none =>
    .ok { l with
      place := .advance l.place.pos l.place.rest []
      tokens := l.tokens ++ textToken l.place.pos l.place.rest }
  | some o =>
    match afterPrefix? commentOpen o.inside.rest with
    | some comment =>
      match afterComment d.right (o.inside.pos + 2) comment with
      | .error cause => .error ⟨o.delimiter.pos, cause⟩
      | .ok next => .ok { l with place := next, tokens := l.tokens ++ o.text }
    | none =>
      Lexer.action d.right
        { l with place := o.inside, tokens := (l.tokens ++ o.text).push o.delimiter }

/-- Less text is left after each reading, as one of the delimiters takes some. -/
theorem Lexer.text_length {d : Delimiters} (visible : d.Visible) {l next : Lexer}
    (hrest : l.place.rest.isEmpty = false) (h : l.text d = .ok next) :
    next.place.rest.length < l.place.rest.length := by
  unfold Lexer.text at h
  split at h
  next =>
    cases h
    exact List.length_pos_iff.2 (by simpa using hrest)
  next o ho =>
    have hopening := opening?_length ho
    split at h
    next comment hc =>
      split at h
      next => cases h
      next place hn =>
        cases h
        have hmark := afterPrefix?_length hc
        have hclose := afterComment_length hn
        simp only [commentOpen, List.length_cons] at hmark
        dsimp only
        omega
    next =>
      have haction := Lexer.action_length h
      dsimp only at haction
      rcases visible with hl | hr
      · have := List.length_pos_iff.2 hl
        omega
      · have := List.length_pos_iff.2 hr
        omega

/-- Reads a template up to its end. -/
def Lexer.run (d : Delimiters) (visible : d.Visible) (l : Lexer) : Except Error Lexer :=
  if _hrest : l.place.rest.isEmpty then .ok l
  else
    match _h : l.text d with
    | .error e => .error e
    | .ok next => next.run d visible
termination_by l.place.rest.length
decreasing_by exact Lexer.text_length visible (by simpa using _hrest) _h

/-- The tokens of a template that is read, the last of them the end of the template. -/
def Lexer.finish (l : Lexer) : List Token :=
  (l.tokens.push (.eof l.place.pos)).toList

/-- The tokens of a template. -/
def tokenize (d : Delimiters) (source : List Char) : Except Error (List Token) :=
  if visible : d.Visible then ((Lexer.start source).run d visible).map Lexer.finish
  else .error ⟨0, .invisibleDelimiters⟩

end FieldAudit.Template
