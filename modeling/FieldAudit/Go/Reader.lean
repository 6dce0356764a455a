import FieldAudit.Go.Syntax
import FieldAudit.Go.Token

/-! # Readers of tokens

A reader takes tokens from the front of a stream and gives a value, or fails.  After a failure the
stream is as before, so that another reader can be tried.  Repetition stops at the first round that
fails or takes nothing, hence it always ends. -/

namespace FieldAudit.Go

/-- The tokens that are left, and where the last token taken ends. -/
structure Stream where
  tokens : List Token
  stop : Nat

/-- A reader of a value from a stream. -/
abbrev Reader := StateT Stream Option

/-- Whether a token is a given symbol. -/
def Token.isSymbol (token : Token) (text : String) : Bool :=
  token.kind = .symbol && token.text = text

/-- Whether a token is a given word. -/
def Token.isWord (token : Token) (text : String) : Bool :=
  token.kind = .word && token.text = text

namespace Reader

variable {α : Type}

/-- The next token, which stays in the stream. -/
def peek? : Reader (Option Token) :=
  fun s => some (s.tokens.head?, s)

/-- The next token, if it passes a test. -/
def take (p : Token → Bool) : Reader Token :=
  fun s =>
    match s.tokens with
    | [] => none
    | t :: rest => if p t then some (t, ⟨rest, t.stop⟩) else none

/-- A given symbol. -/
def symbol (text : String) : Reader Token :=
  take (·.isSymbol text)

/-- A given symbol that goes on with what is before it.  If lines end such a thing, the symbol is
on the same line. -/
def following (lineEnds : Bool) (text : String) : Reader Token :=
  take fun t => t.isSymbol text && !(lineEnds && t.newline)

/-- A symbol from a list that the next token is or starts with, if the rest of the token is a
symbol too.  The rest stays in the stream. -/
def split (texts : List String) : Reader Token :=
  fun s =>
    match s.tokens with
    | [] => none
    | t :: rest => do
      if t.kind ≠ .symbol then none
      else
        let text ← texts.find? fun text =>
          text.toList.isPrefixOf t.text.toList && text.length < t.text.length
        let stop := t.start + text.utf8ByteSize
        let tail := String.ofList (t.text.toList.drop text.length)
        return ({ t with text, stop }, ⟨⟨.symbol, tail, stop, t.stop, false⟩ :: rest, stop⟩)

/-- A given word. -/
def keyword (text : String) : Reader Token :=
  take (·.isWord text)

/-- Any word. -/
def word : Reader Token :=
  take (·.kind = .word)

/-- Whether the next token passes a test. -/
def next (p : Token → Bool) : Reader Bool :=
  return (← peek?).any p

/-- Succeeds if the next token passes a test, and takes nothing. -/
def check (p : Token → Bool) : Reader Unit := do
  if ← next p then return () else failure

/-- The end of a statement: the end of a line or of the file, a semicolon or a zero character. -/
def terminator : Reader Unit := do
  match ← peek? with
  | none => return ()
  | some t =>
    if t.newline then return ()
    else do
      let _ ← symbol ";" <|> symbol "\x00"
      return ()

/-- What a reader gives, if it succeeds. -/
def maybe (reader : Reader α) : Reader (Option α) :=
  (some <$> reader) <|> pure none

/-- The nodes of a reader, or none if it fails. -/
def maybeNodes (reader : Reader (List Node)) : Reader (List Node) :=
  reader <|> pure []

/-- All that a reader gives in a row. -/
def manyFrom (reader : Reader α) (s : Stream) : List α × Stream :=
  match reader s with
  | none => ([], s)
  | some (a, s₁) =>
    if _h : s₁.tokens.length < s.tokens.length then
      let (as, s₂) := manyFrom reader s₁
      (a :: as, s₂)
    else ([], s)
termination_by s.tokens.length

/-- All that a reader gives in a row. -/
def many (reader : Reader α) : Reader (List α) :=
  fun s => some (manyFrom reader s)

/-- A value extended as long as the reader succeeds. -/
def extendFrom (reader : α → Reader α) (a : α) (s : Stream) : α × Stream :=
  match reader a s with
  | none => (a, s)
  | some (a₁, s₁) =>
    if _h : s₁.tokens.length < s.tokens.length then extendFrom reader a₁ s₁ else (a, s)
termination_by s.tokens.length

/-- A value extended as long as the reader succeeds. -/
def extend (reader : α → Reader α) (a : α) : Reader α :=
  fun s => some (extendFrom reader a s)

/-- One or more values with commas between them. -/
def commaList (lineEnds : Bool) (reader : Reader α) : Reader (List α) := do
  let first ← reader
  let rest ← many (following lineEnds "," *> reader)
  return first :: rest

/-- Values between brackets, with commas between them and perhaps one after the last. -/
def bracketed (opening closing : String) (reader : Reader α) : Reader (List α) := do
  let _ ← symbol opening
  let items ← maybe (commaList false reader <* maybe (symbol ","))
  let _ ← symbol closing
  return items.getD []

/-- One or more values between brackets, with commas between them and perhaps one after the
last. -/
def bracketedSome (opening closing : String) (reader : Reader α) : Reader (List α) := do
  let items ← bracketed opening closing reader
  if items.isEmpty then failure else return items

/-- A token as a node without children. -/
def leaf (kind : Kind) (token : Token) : Node :=
  ⟨kind, .plain, token.start, token.stop, []⟩

/-- A word as a node. -/
def name (kind : Kind) : Reader Node :=
  leaf kind <$> word

/-- The nodes that a reader gives, under a node over all that it takes. -/
def spanning (kind : Kind) (reader : Reader (List Node)) : Reader Node := do
  match ← peek? with
  | none => failure
  | some t =>
    let children ← reader
    return ⟨kind, .plain, t.start, (← get).stop, children⟩

/-- A node and those that a reader gives, under a node that starts with the first. -/
def continuing (kind : Kind) (first : Node) (reader : Reader (List Node)) : Reader Node := do
  let children ← reader
  return ⟨kind, .plain, first.start, (← get).stop, first :: children⟩

end Reader

end FieldAudit.Go
