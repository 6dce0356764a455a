import FieldAudit.Go.Lexeme

/-! # Tokens of Go files

Comments and white space separate tokens.  A token knows whether a line ends between the token
before it and itself, since a line end can end a statement.  A line end inside a comment does not
count. -/

namespace FieldAudit.Go

open Text

/-- The kinds of tokens. -/
inductive TokenKind where
  | word
  | symbol
  | intLiteral
  | floatLiteral
  | imaginaryLiteral
  | runeLiteral
  | interpretedString
  | rawString
  deriving DecidableEq, Repr

/-- A token with its text and byte range, and whether a line ends before it. -/
structure Token where
  kind : TokenKind
  text : String
  start : Nat
  stop : Nat
  newline : Bool
  deriving DecidableEq, Repr

/-- The byte range of a comment. -/
structure Comment where
  start : Nat
  stop : Nat
  deriving DecidableEq, Repr

/-- The tokens and the comments of a file. -/
structure TokenList where
  tokens : List Token
  comments : List Comment

/-- Whether a character is white space between tokens. -/
def isSpace (c : Char) : Bool :=
  ('\t' ≤ c && c ≤ '\x0d') || c = ' '

/-- The kinds of tokens with their lexemes.  Of those of one length the first counts. -/
def lexemes : List (TokenKind × Lexeme.Piece) :=
  [(.imaginaryLiteral, Lexeme.imaginaryLiteral), (.floatLiteral, Lexeme.floatLiteral),
   (.intLiteral, Lexeme.intLiteral), (.runeLiteral, Lexeme.runeLiteral),
   (.interpretedString, Lexeme.interpretedString), (.rawString, Lexeme.rawString),
   (.word, Lexeme.word), (.symbol, Lexeme.symbol)]

/-- The token at the start of a text, by its kind and the number of its characters. -/
def nextToken? (text : List Char) : Option (TokenKind × Nat) :=
  let found := lexemes.filterMap fun (kind, lexeme) => (lexeme text).map (kind, ·)
  (found.map Prod.snd).max?.bind fun count => found.find? (·.2 = count)

/-! ## Files -/

/-- The tokens and comments of a text at a byte offset, read in at most `fuel` steps. -/
def tokensFrom : Nat → Nat → Bool → List Char → Option TokenList
  | 0, _, _, _ => none
  | _ + 1, _, _, [] => some ⟨[], []⟩
  | fuel + 1, pos, newline, c :: rest =>
    if isSpace c then tokensFrom fuel (pos + 1) (newline || c = '\n') rest
    else
      match Lexeme.comment (c :: rest) with
      | some count =>
        let (taken, after) := (c :: rest).splitAt count
        let stop := pos + byteLength taken
        (tokensFrom fuel stop newline after).map fun list =>
          { list with comments := ⟨pos, stop⟩ :: list.comments }
      | none => do
        let (kind, count) ← nextToken? (c :: rest)
        let (lexeme, after) := (c :: rest).splitAt count
        let stop := pos + byteLength lexeme
        let list ← tokensFrom fuel stop false after
        return { list with
          tokens := ⟨kind, String.ofList lexeme, pos, stop, newline⟩ :: list.tokens }

/-- The mark that may stand in front of a file. -/
def byteOrderMark : Char := '\ufeff'

/-- The tokens and comments of a file, unless some of it is no token. -/
def tokenize (source : List Char) : Option TokenList :=
  match source with
  | c :: rest =>
    if c = byteOrderMark then tokensFrom (rest.length + 1) c.utf8Size false rest
    else tokensFrom (source.length + 1) 0 false source
  | [] => some ⟨[], []⟩

end FieldAudit.Go
