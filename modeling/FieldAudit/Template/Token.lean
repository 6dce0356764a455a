import FieldAudit.Text.Basic

/-! # Template tokens

A template is text with actions between delimiters.  Tokens keep the exact piece of the template
they were read from and its byte offset. -/

namespace FieldAudit.Template

/-- The delimiters around actions. -/
structure Delimiters where
  left : List Char := "\x7b\x7b".toList
  right : List Char := "\x7d\x7d".toList
  deriving DecidableEq, Repr

/-- Delimiters that can tell actions from text: at least one of the two is not empty. -/
def Delimiters.Visible (d : Delimiters) : Prop :=
  d.left ≠ [] ∨ d.right ≠ []

instance (d : Delimiters) : Decidable d.Visible :=
  inferInstanceAs (Decidable (_ ∨ _))

/-- The words that are no identifiers. -/
inductive Keyword where
  | blockKw
  | breakKw
  | continueKw
  | defineKw
  | elseKw
  | endKw
  | ifKw
  | nilKw
  | rangeKw
  | templateKw
  | withKw
  deriving DecidableEq, Repr

/-- The spelling of a keyword. -/
def Keyword.name : Keyword → String
  | .blockKw => "block"
  | .breakKw => "break"
  | .continueKw => "continue"
  | .defineKw => "define"
  | .elseKw => "else"
  | .endKw => "end"
  | .ifKw => "if"
  | .nilKw => "nil"
  | .rangeKw => "range"
  | .templateKw => "template"
  | .withKw => "with"

/-- All keywords. -/
def Keyword.all : List Keyword :=
  [.blockKw, .breakKw, .continueKw, .defineKw, .elseKw, .endKw, .ifKw, .nilKw, .rangeKw,
   .templateKw, .withKw]

/-- The keyword with a given spelling. -/
def Keyword.ofName? (name : String) : Option Keyword :=
  Keyword.all.find? (·.name = name)

/-- A keyword is found again by its own name. -/
@[simp] theorem Keyword.ofName?_name (k : Keyword) : Keyword.ofName? k.name = some k := by
  cases k <;> decide

/-- The kinds of tokens. -/
inductive Token.Kind where
  | text
  | leftDelim
  | rightDelim
  | space
  | identifier
  | keyword (word : Keyword)
  | field
  | variable
  | dot
  | bool
  | number
  | charConstant
  | string
  | rawString
  | pipe
  | leftParen
  | rightParen
  | declare
  | assign
  | comma
  | eof
  deriving DecidableEq, Repr

/-- A token with its exact text and the byte offset at which the text starts. -/
structure Token where
  kind : Token.Kind
  lexeme : List Char
  pos : Nat
  deriving DecidableEq, Repr

namespace Token

/-- The token that ends every token list. -/
def eof (pos : Nat) : Token :=
  ⟨.eof, [], pos⟩

/-- The byte offset just after a token. -/
def stop (t : Token) : Nat :=
  t.pos + Text.byteLength t.lexeme

end Token

end FieldAudit.Template
