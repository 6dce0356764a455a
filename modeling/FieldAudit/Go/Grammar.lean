import FieldAudit.Go.Reader

/-! # The Go grammar

Expressions, types, statements and literal bodies contain each other.  A `Grammar` holds a reader
for each, and the rules say how to read each of them when the readers for the parts are given. -/

namespace FieldAudit.Go

/-- How an expression is read. -/
structure Mode where
  /-- The end of a line ends the expression. -/
  lineEnds : Bool
  /-- A brace after a type name opens a literal body. -/
  braces : Bool
  /-- A test for the type itself ends the expression. -/
  typeTest : Bool
  /-- The expression can be the first of a send, increment or decrement statement. -/
  leading : Bool

/-- The mode of an expression in a statement. -/
def Mode.statement : Mode := ⟨true, true, false, false⟩

/-- The mode of an expression that brackets or a colon end. -/
def Mode.inner : Mode := ⟨false, true, false, false⟩

/-- The mode of an expression before the body of a statement. -/
def Mode.header : Mode := ⟨false, false, false, false⟩

/-- The mode of the expression that a switch is about. -/
def Mode.switchHeader : Mode := ⟨false, false, true, false⟩

/-- The mode of an expression that the header of a switch assigns. -/
def Mode.switchValue : Mode := ⟨false, true, true, false⟩

/-- The mode for an expression that a simple statement starts with. -/
def Mode.first (mode : Mode) : Mode :=
  { mode with leading := true }

/-- Readers for the things that contain each other. -/
structure Grammar where
  type : Bool → Reader Node
  operand : Mode → Reader Node
  expression : Mode → Reader Node
  literalBody : Reader Node
  statement : Reader Node

/-- The grammar that reads nothing. -/
def Grammar.empty : Grammar where
  type _ := failure
  operand _ := failure
  expression _ := failure
  literalBody := failure
  statement := failure

end FieldAudit.Go
