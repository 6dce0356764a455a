import FieldAudit.Go.Syntax

/-! # Places in a syntax tree

A cursor is a node together with the nodes around it, the nearest first. -/

namespace FieldAudit.Go

/-- A node and the nodes around it, from its parent to the root. -/
structure Cursor where
  node : Node
  ancestors : List Node

namespace Cursor

/-- The place of a child. -/
def child (cursor : Cursor) (node : Node) : Cursor :=
  ⟨node, cursor.node :: cursor.ancestors⟩

/-- The places of the children. -/
def children (cursor : Cursor) : List Cursor :=
  cursor.node.children.map cursor.child

/-- The places of the children that are not punctuation. -/
def named (cursor : Cursor) : List Cursor :=
  cursor.node.named.map cursor.child

/-- The places of the children that are neither punctuation nor comments. -/
def parts (cursor : Cursor) : List Cursor :=
  cursor.named.filter (·.node.kind ≠ .comment)

/-- The place of the first child that is neither punctuation nor a comment. -/
def part? (cursor : Cursor) : Option Cursor :=
  cursor.node.part?.map cursor.child

/-- The places of the children in a role. -/
def inRole (cursor : Cursor) (role : Role) : List Cursor :=
  cursor.children.filter (·.node.role = role)

/-- The place of the first child in a role. -/
def inRole? (cursor : Cursor) (role : Role) : Option Cursor :=
  (cursor.node.inRole? role).map cursor.child

/-- The items of an expression list.  Any other node is the only item of itself. -/
def items (cursor : Cursor) : List Cursor :=
  if cursor.node.kind = .expressionList then cursor.parts else [cursor]

/-- The places around a node, given the nodes around it. -/
def places : List Node → List Cursor
  | [] => []
  | node :: rest => ⟨node, rest⟩ :: places rest

/-- The places around a cursor, the nearest first. -/
def enclosing (cursor : Cursor) : List Cursor :=
  places cursor.ancestors

end Cursor

mutual

/-- All places at and below a node, each before the places below it. -/
def Cursor.preorderAt (ancestors : List Node) : Node → List Cursor
  | ⟨kind, role, start, stop, children⟩ =>
    let node : Node := ⟨kind, role, start, stop, children⟩
    ⟨node, ancestors⟩ :: Cursor.preorderAll (node :: ancestors) children

/-- All places at and below the nodes of a list. -/
def Cursor.preorderAll (ancestors : List Node) : List Node → List Cursor
  | [] => []
  | node :: rest => Cursor.preorderAt ancestors node ++ Cursor.preorderAll ancestors rest

end

/-- All places of a tree, each before the places below it. -/
def Node.preorder (root : Node) : List Cursor :=
  Cursor.preorderAt [] root

/-- The place of the smallest node at an offset: the last in order that covers it. -/
def Node.placeAt? (root : Node) (offset : Nat) : Option Cursor :=
  (root.preorder.filter fun c => c.node.start ≤ offset && offset < c.node.stop).getLast?

end FieldAudit.Go
