import FieldAudit.Text.Basic
import FieldAudit.Text.Printable

/-! # Quoted texts in messages

Messages show a text or a character between quotes.  The quote itself, the backslash and the
characters that would not show are written as escapes. -/

namespace FieldAudit.Text

/-- The digits of a number in base sixteen, in lower case. -/
def hexDigits (n : Nat) : List Char :=
  Nat.toDigits 16 n

/-- A character by its code point. -/
def codePointEscape (c : Char) : List Char :=
  ['\\', 'u', '\x7b'] ++ hexDigits c.toNat ++ ['\x7d']

/-- A character as it stands between two of the given quotes. -/
def escapeChar (quote c : Char) : List Char :=
  if c = '\x00' then ['\\', '0']
  else if c = '\t' then ['\\', 't']
  else if c = '\r' then ['\\', 'r']
  else if c = '\n' then ['\\', 'n']
  else if c = '\\' || c = quote then ['\\', c]
  else if isGraphemeExtender c || !isPrintable c then codePointEscape c
  else [c]

/-- A text between double quotes. -/
def quoted (text : List Char) : List Char :=
  doubleQuote :: text.flatMap (escapeChar doubleQuote) ++ [doubleQuote]

/-- A character between single quotes. -/
def quotedChar (c : Char) : List Char :=
  singleQuote :: escapeChar singleQuote c ++ [singleQuote]

end FieldAudit.Text
