import FieldAudit.Text.Basic

/-! # Lines and columns

A byte offset is shown as a line, counted from one, and the distance in bytes from the start of
that line.  The end of a line belongs to it, together with the start of the next line; an offset
past the text is on the line after the last. -/

namespace FieldAudit.Text

/-- A line and a column. -/
structure Location where
  line : Nat
  column : Nat
  deriving DecidableEq, Repr

/-- The location of an offset among lines given by their lengths, after lines that end at `total`
and the last of which starts at `start`. -/
def locateFrom (offset line start total : Nat) : List Nat → Location
  | [] => ⟨line, offset - start⟩
  | length :: rest =>
    if offset ≤ total + length + 1 then ⟨line, offset - total⟩
    else locateFrom offset (line + 1) total (total + length + 1) rest

/-- The location of an offset among lines given by their lengths. -/
def locate (offset : Nat) (lengths : List Nat) : Location :=
  locateFrom offset 1 0 0 lengths

/-- The lengths of the lines of a text. -/
def lineLengths (text : List Char) : List Nat :=
  (splitOn '\n' text).map byteLength

/-- The location of an offset in a text. -/
def locationOf (offset : Nat) (text : List Char) : Location :=
  locate offset (lineLengths text)

end FieldAudit.Text
