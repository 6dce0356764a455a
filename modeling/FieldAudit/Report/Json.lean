import FieldAudit.Text.Basic

/-! # Structured reports as JSON

Values are written over several lines with two spaces for each level.  In strings only quotes,
backslashes and control characters are escaped. -/

namespace FieldAudit.Report

/-- The values of a structured report. -/
inductive Json where
  | text (value : String)
  | number (value : Nat)
  | array (items : List Json)
  | object (fields : List (String × Json))

namespace Json

/-- A digit in base sixteen. -/
def hexDigit (n : Nat) : Char :=
  Nat.digitChar n

/-- A character in a string. -/
def escaped (c : Char) : List Char :=
  if c = Text.doubleQuote then ['\\', c]
  else if c = '\\' then ['\\', c]
  else if c = '\x08' then ['\\', 'b']
  else if c = '\x09' then ['\\', 't']
  else if c = '\x0a' then ['\\', 'n']
  else if c = '\x0c' then ['\\', 'f']
  else if c = '\x0d' then ['\\', 'r']
  else if c.toNat < 0x20 then
    ['\\', 'u', '0', '0', hexDigit (c.toNat / 16), hexDigit (c.toNat % 16)]
  else [c]

/-- A string between quotes. -/
def quoted (value : String) : List Char :=
  Text.doubleQuote :: (value.toList.flatMap escaped ++ [Text.doubleQuote])

/-- A line end and the spaces of a level. -/
def newLine (level : Nat) : List Char :=
  '\n' :: List.replicate (2 * level) ' '

/-- Items between brackets, each on a line of its own. -/
def bracketed (opening closing : Char) (level : Nat) (items : List (List Char)) : List Char :=
  if items.isEmpty then [opening, closing]
  else
    opening :: (newLine (level + 1) ++ Text.join (',' :: newLine (level + 1)) items
      ++ newLine level ++ [closing])

mutual

/-- A value as text, at a level. -/
def pretty (level : Nat) : Json → List Char
  | .text value => quoted value
  | .number value => (toString value).toList
  | .array items => bracketed '[' ']' level (prettyItems (level + 1) items)
  | .object fields => bracketed '\x7b' '\x7d' level (prettyFields (level + 1) fields)

/-- The items of an array as texts. -/
def prettyItems (level : Nat) : List Json → List (List Char)
  | [] => []
  | item :: rest => pretty level item :: prettyItems level rest

/-- The fields of an object as texts. -/
def prettyFields (level : Nat) : List (String × Json) → List (List Char)
  | [] => []
  | (name, value) :: rest =>
    (quoted name ++ ':' :: ' ' :: pretty level value) :: prettyFields level rest

end

end Json

end FieldAudit.Report
