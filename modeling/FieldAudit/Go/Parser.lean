import FieldAudit.Go.Syntax

/-! # Parsers of Go files

Syntax trees come from a parser, which is not a part of this library: what is said here about
packages holds for any.  A parser may be of no use at all, and it gives a tree even for a text that
is no Go file, with errors in it. -/

namespace FieldAudit.Go

/-- A parser of Go files. -/
structure Parser where
  /-- Why the parser cannot be used, if it cannot. -/
  fault : Option String
  /-- The syntax tree of a text, unless the parser gives up. -/
  tree? : List Char → Option Node

end FieldAudit.Go
