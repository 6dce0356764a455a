import FieldAudit.Go.Cursor

/-! # Walking through a syntax tree

A traversal stands at a node and moves to the first child, to the next sibling or to the parent.  It
goes on to the first child if there is one, and otherwise to the next sibling of the nearest node
around it that has one.  What is still to be visited is `Traversal.remaining`, and each move takes
one place off it (`Traversal.remaining_eq`). -/

namespace FieldAudit.Go

/-- A node on the way through a tree: the siblings behind it, and the nodes around it with the
siblings behind them, the nearest first. -/
structure Traversal where
  node : Node
  later : List Node
  above : List (Node × List Node)

namespace Traversal

/-- The start of a traversal. -/
def start (root : Node) : Traversal :=
  ⟨root, [], []⟩

/-- The place of a node on the way. -/
def place (t : Traversal) : Cursor :=
  ⟨t.node, t.above.map Prod.fst⟩

/-- The first child. -/
def firstChild? (t : Traversal) : Option Traversal :=
  match t.node.children with
  | [] => none
  | child :: rest => some ⟨child, rest, (t.node, t.later) :: t.above⟩

/-- The next sibling. -/
def nextSibling? (t : Traversal) : Option Traversal :=
  match t.later with
  | [] => none
  | sibling :: rest => some ⟨sibling, rest, t.above⟩

/-- The parent. -/
def parent? (t : Traversal) : Option Traversal :=
  match t.above with
  | [] => none
  | (node, later) :: above => some ⟨node, later, above⟩

/-- Going up shortens the path above. -/
theorem parent?_above {t p : Traversal} (h : t.parent? = some p) :
    p.above.length < t.above.length := by
  obtain ⟨node, later, above⟩ := t
  cases above with
  | nil => cases h
  | cons first above =>
    cases h
    exact Nat.lt_succ_self _

/-- The next sibling of the node or of the nearest one around it that has one. -/
def leave? (t : Traversal) : Option Traversal :=
  match t.nextSibling? with
  | some sibling => some sibling
  | none =>
    match _h : t.parent? with
    | some parent => parent.leave?
    | none => none
termination_by t.above.length
decreasing_by exact parent?_above _h

/-- The next node on the way. -/
def next? (t : Traversal) : Option Traversal :=
  match t.firstChild? with
  | some child => some child
  | none => t.leave?

/-! ## What is still to be visited -/

/-- The places behind the nodes around a node. -/
def behind : List (Node × List Node) → List Cursor
  | [] => []
  | (_, later) :: above => Cursor.preorderAll (above.map Prod.fst) later ++ behind above

/-- The places that are not below a node and come after it. -/
def afterwards (t : Traversal) : List Cursor :=
  Cursor.preorderAll (t.above.map Prod.fst) t.later ++ behind t.above

/-- The place of a node and all that come after it. -/
def remaining (t : Traversal) : List Cursor :=
  Cursor.preorderAt (t.above.map Prod.fst) t.node ++ t.afterwards

/-- Leaving a node leads to what comes after it. -/
theorem afterwards_eq (t : Traversal) :
    t.afterwards = (t.leave?.map remaining).getD [] := by
  fun_induction leave? t with
  | case1 t sibling hsibling =>
    obtain ⟨node, later, above⟩ := t
    cases later with
    | nil => cases hsibling
    | cons first rest =>
      cases hsibling
      simp [afterwards, remaining, Cursor.preorderAll, List.append_assoc]
  | case2 t hsibling parent hparent ih =>
    obtain ⟨node, later, above⟩ := t
    cases later with
    | cons first rest => cases hsibling
    | nil =>
      cases above with
      | nil => cases hparent
      | cons first above =>
        cases hparent
        rw [← ih]
        simp [afterwards, behind, Cursor.preorderAll]
  | case3 t hsibling hparent =>
    obtain ⟨node, later, above⟩ := t
    cases later with
    | cons first rest => cases hsibling
    | nil =>
      cases above with
      | cons first above => cases hparent
      | nil => rfl

/-- The next node is where the places after the first one start. -/
theorem remaining_eq (t : Traversal) :
    t.remaining = t.place :: (t.next?.map remaining).getD [] := by
  obtain ⟨⟨kind, role, start, stop, children⟩, later, above⟩ := t
  cases children with
  | nil =>
    have hnext : next? ⟨⟨kind, role, start, stop, []⟩, later, above⟩
        = leave? ⟨⟨kind, role, start, stop, []⟩, later, above⟩ := rfl
    rw [hnext, ← afterwards_eq]
    simp [remaining, place, Cursor.preorderAt, Cursor.preorderAll]
  | cons child rest =>
    have hnext : next? ⟨⟨kind, role, start, stop, child :: rest⟩, later, above⟩
        = some ⟨child, rest, (⟨kind, role, start, stop, child :: rest⟩, later) :: above⟩ := rfl
    rw [hnext]
    simp [remaining, place, afterwards, behind, Cursor.preorderAt, Cursor.preorderAll,
      List.append_assoc]

/-- Going on leaves fewer nodes to visit. -/
theorem next?_remaining {t n : Traversal} (h : t.next? = some n) :
    n.remaining.length < t.remaining.length := by
  rw [remaining_eq t, h]
  exact Nat.lt_succ_self _

end Traversal

/-- The calls that are met from a node on, after those that have been met before. -/
def callsFrom (t : Traversal) (calls : Array Cursor) : Array Cursor :=
  let calls := if t.node.kind = .callExpression then calls.push t.place else calls
  match _h : t.next? with
  | some next => callsFrom next calls
  | none => calls
termination_by t.remaining.length
decreasing_by exact Traversal.next?_remaining _h

/-- The calls of a tree in the order in which they are met. -/
def callExpressions (root : Node) : List Cursor :=
  (callsFrom (.start root) #[]).toList

end FieldAudit.Go
