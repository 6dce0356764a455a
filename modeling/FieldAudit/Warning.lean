/-! # Warnings

A warning says what a run left out, and perhaps where. -/

namespace FieldAudit

/-- A place in a file as it is shown: the line and the column count from one. -/
structure Place where
  file : String
  line : Nat
  column : Nat
  deriving DecidableEq, Repr

/-- A place in words. -/
def Place.text (place : Place) : String :=
  place.file ++ ":" ++ toString place.line ++ ":" ++ toString place.column

/-- What a run left out. -/
structure Warning where
  message : String
  place : Option Place
  deriving DecidableEq, Repr

end FieldAudit
