import FieldAudit.Go.IdentifierChar
import FieldAudit.Literal
import FieldAudit.Text.Basic

/-! # Lexemes of Go files

The texts that can be tokens: names, literals and symbols.  Each is described by a function that
tells how many characters of it stand at the start of a text, or nothing if the text does not start
with one. -/

namespace FieldAudit.Go.Lexeme

open Text

/-- A symbol is read as the longest of these that fits. -/
def symbols : List String :=
  ["<<=", ">>=", "&^=", "...",
   "&&", "||", "<-", "++", "--", "==", "!=", "<=", ">=", ":=", "+=", "-=", "*=", "/=", "%=", "&=",
   "|=", "^=", "<<", ">>", "&^",
   "+", "-", "*", "/", "%", "&", "|", "^", "<", ">", "=", "!", "(", ")", "[", "]", "\x7b", "\x7d",
   ",", ";", ".", ":", "~", "\x00"]

/-- The number of characters that a piece takes from the start of a text. -/
abbrev Piece := List Char → Option Nat

/-- One character of a class. -/
def one (p : Char → Bool) : Piece
  | [] => none
  | c :: _ => if p c then some 1 else none

/-- A piece that may be absent. -/
def optional (piece : Piece) : Piece :=
  fun text => some ((piece text).getD 0)

/-- Pieces after each other. -/
def sequence (pieces : List Piece) : Piece :=
  fun text => pieces.foldlM (fun count piece => (piece (text.drop count)).map (count + ·)) 0

/-- The alternative that takes the most. -/
def longest (pieces : List Piece) : Piece :=
  fun text => (pieces.filterMap (· text)).max?

/-- The characters of the digits of a base after the first, each with an underscore before it or
not. -/
def moreDigits (base : Nat) : List Char → Nat
  | '_' :: c :: rest => if (Literal.digit? base c).isSome then moreDigits base rest + 2 else 0
  | c :: rest => if (Literal.digit? base c).isSome then moreDigits base rest + 1 else 0
  | [] => 0

/-- A digit of a base. -/
def digit (base : Nat) : Piece :=
  one fun c => (Literal.digit? base c).isSome

/-- Digits of a base with single underscores between them. -/
def digits (base : Nat) : Piece :=
  fun text => (digit base text).map (· + moreDigits base (text.drop 1))

/-- One of some characters. -/
def oneOf (chars : List Char) : Piece :=
  one chars.contains

/-- A number of digits in base sixteen. -/
def hexDigits (count : Nat) : Piece :=
  sequence (List.replicate count (digit 16))

/-- An integer in base two, eight, ten or sixteen. -/
def intLiteral : Piece :=
  longest
    [sequence [oneOf ['0'], oneOf ['b', 'B'], optional (oneOf ['_']), digits 2],
     oneOf ['0'],
     sequence [one fun c => '1' ≤ c && c ≤ '9',
       optional (sequence [optional (oneOf ['_']), digits 10])],
     sequence [oneOf ['0'], optional (oneOf ['o', 'O']), optional (oneOf ['_']), digits 8],
     sequence [oneOf ['0'], oneOf ['x', 'X'], optional (oneOf ['_']), digits 16]]

/-- An exponent with one of the given marks. -/
def exponent (marks : List Char) : Piece :=
  sequence [oneOf marks, optional (oneOf ['+', '-']), digits 10]

/-- A number with a point or an exponent. -/
def floatLiteral : Piece :=
  longest
    [sequence [digits 10, oneOf ['.'], optional (digits 10), optional (exponent ['e', 'E'])],
     sequence [digits 10, exponent ['e', 'E']],
     sequence [oneOf ['.'], digits 10, optional (exponent ['e', 'E'])],
     sequence [oneOf ['0'], oneOf ['x', 'X'],
       longest
         [sequence [optional (oneOf ['_']), digits 16, oneOf ['.'], optional (digits 16)],
          sequence [optional (oneOf ['_']), digits 16],
          sequence [oneOf ['.'], digits 16]],
       exponent ['p', 'P']]]

/-- A number with an imaginary mark. -/
def imaginaryLiteral : Piece :=
  longest
    [sequence [digits 10, oneOf ['i']], sequence [intLiteral, oneOf ['i']],
     sequence [floatLiteral, oneOf ['i']]]

/-- A character between single quotes. -/
def runeLiteral : Piece :=
  let escapes : List Piece :=
    [sequence [oneOf ['x'], hexDigits 2],
     sequence [digit 8, digit 8, digit 8],
     sequence [oneOf ['u'], hexDigits 4],
     sequence [oneOf ['U'], hexDigits 8],
     oneOf ['a', 'b', 'f', 'n', 'r', 't', 'v', '\\', singleQuote, doubleQuote]]
  sequence
    [oneOf [singleQuote],
     longest [one fun c => c ≠ singleQuote && c ≠ '\\', sequence [oneOf ['\\'], longest escapes]],
     oneOf [singleQuote]]

/-- Whether a letter may follow a backslash in a string.  Letters that need digits must have
them. -/
def isStringEscape (c : Char) (rest : List Char) : Bool :=
  if c = 'x' then (hexDigits 2 rest).isSome
  else if c = 'u' then (hexDigits 4 rest).isSome
  else if c = 'U' then (hexDigits 8 rest).isSome
  else true

/-- The rest of a string after its opening quote. -/
def stringBody : Piece
  | [] => none
  | '\\' :: c :: rest => if isStringEscape c rest then (stringBody rest).map (· + 2) else none
  | c :: rest =>
    if c = doubleQuote then some 1
    else if c = '\n' || c = '\\' then none
    else (stringBody rest).map (· + 1)

/-- A string between double quotes. -/
def interpretedString : Piece :=
  sequence [oneOf [doubleQuote], stringBody]

/-- The rest of a text up to and with a closing mark. -/
def upTo (mark : List Char) : Piece :=
  fun text => (splitFirst? mark text).map fun (before, _) => before.length + mark.length

/-- A string between back quotes. -/
def rawString : Piece :=
  sequence [oneOf [backquote], upTo [backquote]]

/-- The longest run of characters of a class. -/
def run (p : Char → Bool) : Piece :=
  fun text => some (text.takeWhile p).length

/-- A name or a keyword. -/
def word : Piece :=
  sequence [one isIdentifierStart, run isIdentifierContinue]

/-- A comment up to the end of the line, or between its marks. -/
def comment : Piece :=
  longest
    [sequence [oneOf ['/'], oneOf ['/'], run (· ≠ '\n')],
     sequence [oneOf ['/'], oneOf ['*'], upTo ['*', '/']]]

/-- The symbol at the start of a text. -/
def symbol : Piece :=
  fun text => (symbols.find? (·.toList.isPrefixOf text)).map String.length

end FieldAudit.Go.Lexeme
