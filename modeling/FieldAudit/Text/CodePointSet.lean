/-! # Sets of code points

A set of code points is listed as closed ranges.  The tables of character classes are such lists,
in increasing order. -/

namespace FieldAudit.Text

/-- A set of code points, as a list of closed ranges. -/
abbrev CodePointSet := List (Nat × Nat)

namespace CodePointSet

/-- Whether a character lies in one of the ranges. -/
def contains (set : CodePointSet) (c : Char) : Bool :=
  set.any fun range => range.1 ≤ c.toNat && c.toNat ≤ range.2

/-- A character belongs to a set exactly if one of its ranges holds its code point. -/
theorem contains_iff {set : CodePointSet} {c : Char} :
    set.contains c = true ↔ ∃ range ∈ set, range.1 ≤ c.toNat ∧ c.toNat ≤ range.2 := by
  simp [contains]

end CodePointSet

end FieldAudit.Text
