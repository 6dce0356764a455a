import FieldAudit.Go.Cursor
import FieldAudit.Proofs.Syntax.Shape

/-! # Places in a file

A place of a tree is its root or a child of another place.  In the tree of a file, a place lies in
the range of each place around it, and a part that leads ends before all other parts start.  So of
two places, one around the other, it can be told what stands between them. -/

namespace FieldAudit.Go

/-! ## Places of a tree -/

/-- A place of a tree, reached from its root. -/
inductive Cursor.At (root : Node) : Cursor → Prop
  | root : At root ⟨root, []⟩
  | child {c : Cursor} {n : Node} (parent : At root c) (hn : n ∈ c.node.children) :
      At root (c.child n)

namespace Cursor

variable {root : Node} {use x : Cursor}

/-- A place and the places around it. -/
def path (c : Cursor) : List Cursor :=
  c :: c.enclosing

@[simp] theorem enclosing_child (c : Cursor) (n : Node) : (c.child n).enclosing = c.path :=
  rfl

@[simp] theorem node_child (c : Cursor) (n : Node) : (c.child n).node = n :=
  rfl

mutual

/-- All that is listed below a place is a place. -/
theorem at_of_mem_preorderAt {ancestors : List Node} (node : Node) {c : Cursor}
    (hnode : At root ⟨node, ancestors⟩) (hc : c ∈ preorderAt ancestors node) : At root c := by
  obtain ⟨kind, role, start, stop, children⟩ := node
  rw [preorderAt, List.mem_cons] at hc
  rcases hc with rfl | hc
  · exact hnode
  · exact at_of_mem_preorderAll children (fun n hn => .child hnode hn) hc

/-- All that is listed below places is a place. -/
theorem at_of_mem_preorderAll {ancestors : List Node} (nodes : List Node) {c : Cursor}
    (hnodes : ∀ n ∈ nodes, At root ⟨n, ancestors⟩) (hc : c ∈ preorderAll ancestors nodes) :
    At root c := by
  match nodes with
  | [] => simp [preorderAll] at hc
  | node :: rest =>
    obtain ⟨hnode, hrest⟩ := List.forall_mem_cons.1 hnodes
    rw [preorderAll, List.mem_append] at hc
    rcases hc with hc | hc
    · exact at_of_mem_preorderAt node hnode hc
    · exact at_of_mem_preorderAll rest hrest hc

end

/-- All that is listed below a root is a place of it. -/
theorem at_of_mem_preorder (h : use ∈ root.preorder) : At root use :=
  at_of_mem_preorderAt root .root h

/-- What is around a place is a place. -/
theorem At.of_mem_path (h : At root use) (hx : x ∈ use.path) : At root x := by
  induction h with
  | root =>
    cases List.mem_singleton.1 hx
    exact .root
  | child parent hn ih =>
    rcases List.mem_cons.1 hx with rfl | hx
    · exact .child parent hn
    · exact ih hx

/-- Below a place around another one, there is a child on the way. -/
theorem At.exists_child (h : At root use) (hx : x ∈ use.enclosing) :
    ∃ n ∈ x.node.children, x.child n ∈ use.path := by
  induction h with
  | root => cases hx
  | @child c n parent hn ih =>
    rcases List.mem_cons.1 hx with rfl | hx
    · exact ⟨n, hn, by simp [path]⟩
    · obtain ⟨m, hm, hpath⟩ := ih hx
      exact ⟨m, hm, List.mem_cons_of_mem _ hpath⟩

/-- A child that is a place has a parent that is one. -/
theorem At.of_child {n : Node} (h : At root (x.child n)) : At root x ∧ n ∈ x.node.children := by
  generalize hc : x.child n = c at h
  cases h with
  | root => cases hc
  | @child c m parent hn =>
    obtain ⟨node, ancestors⟩ := x
    obtain ⟨node', ancestors'⟩ := c
    cases hc
    exact ⟨parent, hn⟩

/-- What is around a place on the way is around the end of the way. -/
theorem At.enclosing_trans (h : At root use) {y : Cursor} (hx : x ∈ use.path)
    (hy : y ∈ x.enclosing) : y ∈ use.enclosing := by
  induction h with
  | root =>
    cases List.mem_singleton.1 hx
    exact hy
  | @child c n parent hn ih =>
    rcases List.mem_cons.1 hx with rfl | hx
    · exact hy
    · exact List.mem_cons_of_mem _ (ih hx)

/-- The parent of a node on the way is around the end of the way. -/
theorem At.mem_enclosing_of_child (h : At root use) {n : Node} (hx : x.child n ∈ use.path) :
    x ∈ use.enclosing :=
  h.enclosing_trans hx (by simp [path])

/-- The named children of a place are places. -/
theorem At.mem_named (h : At root x) (hc : use ∈ x.named) : At root use := by
  obtain ⟨n, hn, rfl⟩ := List.mem_map.1 hc
  exact .child h (List.mem_of_mem_filter hn)

/-- The parts of a place are places. -/
theorem At.mem_parts (h : At root x) (hc : use ∈ x.parts) : At root use :=
  h.mem_named (List.mem_of_mem_filter hc)

/-- What plays a role below a place is a place. -/
theorem At.inRole? {role : Role} (h : At root x) (hc : x.inRole? role = some use) :
    At root use := by
  obtain ⟨n, hn, rfl⟩ := Option.map_eq_some_iff.1 hc
  exact .child h (Node.inRole?_mem hn)

/-- The items of a place are places. -/
theorem At.mem_items (h : At root x) (hc : use ∈ x.items) : At root use := by
  unfold items at hc
  split at hc
  · exact h.mem_parts hc
  · cases List.mem_singleton.1 hc
    exact h

/-! ## Places of a file -/

section

variable {words : Nat → Nat → Prop} (hroot : root.SourceFile words)

include hroot

/-- A place of a file is the file, or inert, or a shaped part. -/
theorem At.cases (h : At root use) :
    use = ⟨root, []⟩ ∨ use.node.kind ≠ .sourceFile
      ∧ (use.node.Inert ∨ use.node.kind.isSolid = true ∧ use.node.Shaped words) := by
  induction h with
  | root => exact .inl rfl
  | @child c n parent hn ih =>
    refine .inr ?_
    have hinert : n.Inert → n.kind ≠ .sourceFile
        ∧ (n.Inert ∨ n.kind.isSolid = true ∧ n.Shaped words) := by
      intro hinert
      refine ⟨?_, .inl hinert⟩
      intro hfile
      simpa [hfile, Kind.isSolid] using hinert.bare.1
    -- The parent is the file, or inert, and then its children are, or shaped.
    rcases ih with rfl | ⟨hfile, hparent | ⟨-, hshaped⟩⟩
    · by_cases hk : n.kind.isSolid = true
      · have hsolid := Node.mem_solid.2 ⟨hn, hk⟩
        exact ⟨hroot.kinds n hsolid, .inr ⟨hk, hroot.parts n hsolid⟩⟩
      · exact hinert (hroot.inert n hn (by simpa using hk))
    · exact hinert (hparent.child hn)
    · by_cases hk : n.kind.isSolid = true
      · have hsolid := Node.mem_solid.2 ⟨hn, hk⟩
        refine ⟨?_, .inr ⟨hk, hshaped.part hsolid⟩⟩
        intro (hfile : n.kind = .sourceFile)
        have hallowed := (hshaped.regular.held n hsolid).allowed
        simp [Kind.mayHold, hfile] at hallowed
      · exact hinert (hshaped.inert hn (by simpa using hk))

/-- A part of a file is shaped. -/
theorem At.shaped (h : At root use) (hfile : use.node.kind ≠ .sourceFile)
    (hsolid : use.node.kind.isSolid = true) : use.node.Shaped words := by
  rcases h.cases hroot with rfl | ⟨-, hinert | ⟨-, hshaped⟩⟩
  · exact absurd hroot.kind hfile
  · rw [hinert.bare.1] at hsolid
    cases hsolid
  · exact hshaped

/-- A place that is no part is inert. -/
theorem At.inert (h : At root use) (hk : use.node.kind.isSolid = false) : use.node.Inert := by
  rcases h.cases hroot with rfl | ⟨-, hinert | ⟨hsolid, -⟩⟩
  · simp [hroot.kind, Kind.isSolid] at hk
  · exact hinert
  · rw [hsolid] at hk
    cases hk

/-- What is around a part is a part. -/
theorem At.isSolid_of_mem_path (h : At root use) (huse : use.node.kind.isSolid = true)
    (hx : x ∈ use.path) : x.node.kind.isSolid = true := by
  induction h with
  | root =>
    cases List.mem_singleton.1 hx
    exact huse
  | @child c n parent hn ih =>
    rcases List.mem_cons.1 hx with rfl | hx
    · exact huse
    · refine ih ?_ hx
      by_contra hk
      have hinert := (parent.inert hroot (by simpa using hk)).child hn
      rw [node_child, hinert.bare.1] at huse
      cases huse

/-- A shaped node around a place: the child on the way is one of its parts. -/
theorem At.exists_part (h : At root use) (hx : x ∈ use.enclosing)
    (hfile : x.node.kind ≠ .sourceFile) (huse : use.node.kind.isSolid = true) :
    x.node.Shaped words ∧ ∃ n ∈ x.node.solid, x.child n ∈ use.path := by
  have hat := h.of_mem_path (List.mem_cons_of_mem use hx)
  have hsolid := h.isSolid_of_mem_path hroot huse (List.mem_cons_of_mem use hx)
  refine ⟨hat.shaped hroot hfile hsolid, ?_⟩
  obtain ⟨n, hn, hpath⟩ := h.exists_child hx
  exact ⟨n, Node.mem_solid.2 ⟨hn, h.isSolid_of_mem_path hroot huse hpath⟩, hpath⟩

/-- A place lies in the range of each node around it. -/
theorem At.within (h : At root use) (hx : x ∈ use.path) (hfile : x.node.kind ≠ .sourceFile)
    (huse : use.node.kind.isSolid = true) :
    x.node.start ≤ use.node.start ∧ use.node.stop ≤ x.node.stop := by
  -- Up the path: a part lies within its parent, unless that is the whole file.
  induction h with
  | root =>
    cases List.mem_singleton.1 hx
    exact absurd hroot.kind hfile
  | @child c n parent hn ih =>
    rcases List.mem_cons.1 hx with rfl | hx
    · exact ⟨Nat.le_refl _, Nat.le_refl _⟩
    · have hat : At root (c.child n) := .child parent hn
      have hk : c.node.kind.isSolid = true := hat.isSolid_of_mem_path hroot huse (by simp [path])
      have hbetween := ih hx hk
      by_cases hparent : c.node.kind = .sourceFile
      · rcases parent.cases hroot with rfl | ⟨hne, -⟩
        · cases List.mem_singleton.1 hx
          exact absurd hroot.kind hfile
        · exact absurd hparent hne
      · have hshaped := parent.shaped hroot hparent hk
        have hrange := hshaped.regular.spread.within n (Node.mem_solid.2 ⟨hn, huse⟩)
        simp only [node_child] at *
        omega

end

end Cursor

/-! ## The part that leads -/

namespace Node

variable {words : Nat → Nat → Prop} {node : Node} {parts : List Node} {first c : Node}

/-- A part that leads is the first one, so all others start after it. -/
theorem Regular.eq_or_after (h : node.Regular words parts) (hfirst : first ∈ parts)
    (hleads : first.leads = true) (hc : c ∈ parts) : c = first ∨ first.stop ≤ c.start := by
  cases parts with
  | nil => cases hc
  | cons head tail =>
    have hhead : first = head := by
      rcases List.mem_cons.1 hfirst with rfl | htail
      · rfl
      · rw [h.first first htail] at hleads
        cases hleads
    subst hhead
    rcases List.mem_cons.1 hc with rfl | hc
    · exact .inl rfl
    · exact .inr ((List.pairwise_cons.1 h.spread.ordered).1 c hc)

/-- Two parts are the same, or one ends before the other starts. -/
theorem Regular.eq_or_apart (h : node.Regular words parts) (hfirst : first ∈ parts)
    (hc : c ∈ parts) : c = first ∨ first.stop ≤ c.start ∨ c.stop ≤ first.start := by
  have hordered := h.spread.ordered
  clear h
  induction parts with
  | nil => cases hc
  | cons head tail ih =>
    obtain ⟨hhead, htail⟩ := List.pairwise_cons.1 hordered
    rcases List.mem_cons.1 hfirst with rfl | hlater
    · rcases List.mem_cons.1 hc with rfl | hc
      · exact .inl rfl
      · exact .inr (.inl (hhead c hc))
    · rcases List.mem_cons.1 hc with rfl | hc
      · exact .inr (.inr (hhead first hlater))
      · exact ih hlater hc htail

/-- What plays a structural role is a part. -/
theorem Shaped.mem_solid_of_role (h : node.Shaped words) (hc : c ∈ node.children)
    (hrole : c.role.isStructural = true) : c ∈ node.solid := by
  refine Node.mem_solid.2 ⟨hc, ?_⟩
  by_contra hk
  rw [(h.inert hc (by simpa using hk)).bare.2] at hrole
  cases hrole

/-- The only initializer of a node is found. -/
theorem Shaped.inRole?_initializer (h : node.Shaped words) (hc : c ∈ node.children)
    (hrole : c.role = .initializer) : node.inRole? .initializer = some c := by
  have hleads : ∀ d : Node, d.role = .initializer → d.leads = true := by
    intro d hd
    simp [Node.leads, hd]
  cases hfound : node.inRole? .initializer with
  | none =>
    have hnone := List.find?_eq_none.1 hfound c hc
    simp [hrole] at hnone
  | some d =>
    have hd : d.role = .initializer := by simpa using List.find?_some hfound
    have hdsolid := h.mem_solid_of_role (inRole?_mem hfound) (by simp [hd, Role.isStructural])
    have hcsolid := h.mem_solid_of_role hc (by simp [hrole, Role.isStructural])
    -- Both lead, so neither can stand after the other.
    rcases h.regular.eq_or_after hdsolid (hleads d hd) hcsolid with rfl | hafter
    · rfl
    rcases h.regular.eq_or_after hcsolid (hleads c hrole) hdsolid with rfl | hbefore
    · rfl
    have hcne := (h.part hcsolid).regular.nonempty
    have hdne := (h.part hdsolid).regular.nonempty
    omega

end Node

namespace Cursor

variable {root : Node} {use x : Cursor} {words : Nat → Nat → Prop} (hroot : root.SourceFile words)

include hroot

/-- All but the file itself stand below something. -/
theorem At.exists_parent (h : At root use) (hfile : use.node.kind ≠ .sourceFile) :
    ∃ c n, use = Cursor.child c n := by
  cases h with
  | root => exact absurd hroot.kind hfile
  | @child c n parent hn => exact ⟨c, n, rfl⟩

/-- No file stands below another node. -/
theorem At.child_kind {n : Node} (h : At root (x.child n)) : n.kind ≠ .sourceFile := by
  rcases h.cases hroot with heq | ⟨hfile, -⟩
  · cases heq
  · exact hfile

/-- What is selected from an operand is named as a field. -/
theorem At.kind_of_field (h : At root x) (hfile : x.node.kind ≠ .sourceFile)
    (hsolid : x.node.kind.isSolid = true) (hfield : x.inRole? .field = some use) :
    use.node.kind = .fieldIdentifier := by
  obtain ⟨n, hn, rfl⟩ := Option.map_eq_some_iff.1 hfield
  have hrole : n.role = .field := by simpa using List.find?_some hn
  have hshaped := h.shaped hroot hfile hsolid
  have hpart := hshaped.mem_solid_of_role (Node.inRole?_mem hn)
    (by simp [hrole, Role.isStructural])
  exact (hshaped.regular.held n hpart).field hrole

/-- From inside a node, the part of it that leads is around the place or ends before it. -/
theorem At.mem_path_or_before (h : At root use) (hx : x ∈ use.enclosing)
    (hfile : x.node.kind ≠ .sourceFile) (huse : use.node.kind.isSolid = true) {first : Node}
    (hfirst : first ∈ x.node.solid) (hleads : first.leads = true) :
    x.child first ∈ use.path ∨ first.stop ≤ use.node.start := by
  obtain ⟨hshaped, n, hn, hpath⟩ := h.exists_part hroot hx hfile huse
  rcases hshaped.regular.eq_or_after hfirst hleads hn with rfl | hafter
  · exact .inl hpath
  · have hkind := (h.of_mem_path hpath).child_kind hroot
    have hwithin := h.within hroot hpath hkind huse
    exact .inr (Nat.le_trans hafter hwithin.1)

/-- A part of a node around a use that is not around the use itself, but around a place before it,
ends before the use. -/
theorem At.stop_le_of_apart {n : Node} {d : Cursor} (hd : At root d) (huse : At root use)
    (hx : x ∈ use.enclosing) (hfile : x.node.kind ≠ .sourceFile) (hpath : x.child n ∈ d.path)
    (hapart : x.child n ∉ use.path) (hbefore : d.node.stop ≤ use.node.start)
    (hdSolid : d.node.kind.isSolid = true) (huseSolid : use.node.kind.isSolid = true)
    (huseFile : use.node.kind ≠ .sourceFile) : n.stop ≤ use.node.start := by
  have hchild := hd.of_mem_path hpath
  have hnSolid : n.kind.isSolid = true := hd.isSolid_of_mem_path hroot hdSolid hpath
  obtain ⟨hshaped, m, hm, hmpath⟩ := huse.exists_part hroot hx hfile huseSolid
  have hn := Node.mem_solid.2 ⟨hchild.of_child.2, hnSolid⟩
  have hdWithin := hd.within hroot hpath (hchild.child_kind hroot) hdSolid
  have huseWithin := huse.within hroot hmpath ((huse.of_mem_path hmpath).child_kind hroot)
    huseSolid
  rw [node_child] at hdWithin huseWithin
  rcases hshaped.regular.eq_or_apart hn hm with rfl | hafter | hafter
  · exact absurd hmpath hapart
  · omega
  · -- The use would be before the place that ends before it.
    have hdFile : d.node.kind ≠ .sourceFile := by
      intro hk
      rcases hd.cases hroot with rfl | ⟨hdFile, -⟩
      · cases List.mem_singleton.1 hpath
      · exact hdFile hk
    have hdNonempty := (hd.shaped hroot hdFile hdSolid).regular.nonempty
    have huseNonempty := (huse.shaped hroot huseFile huseSolid).regular.nonempty
    omega

end Cursor

end FieldAudit.Go
