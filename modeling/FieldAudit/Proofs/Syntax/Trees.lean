import FieldAudit.Proofs.Syntax.Statements
import FieldAudit.Proofs.Syntax.Tokens

/-! # The shape of whole trees

Every grammar of a depth reads nodes of the right shape, and comments that are put into a tree
change nothing about the other nodes.  So all nodes of a file below its root are `Shaped`, and the
parser of the grammar is sound (`Grammar.parser_sound`). -/

namespace FieldAudit.Go

open Reader

/-! ## Grammars of a depth -/

/-- The grammar is sound at every depth, since each level only uses the one below. -/
theorem Grammar.Sound.ofDepth {words : Nat → Nat → Prop} (depth : Nat) :
    (Grammar.ofDepth depth).Sound words := by
  induction depth with
  | zero => exact .empty
  | succ depth ih =>
    exact ⟨ih.typeExpression, ih.operandExpression, ih.wholeExpression, ih.literalValue,
      ih.anyStatement, ih.anyBranch⟩

/-! ## Comments -/

/-- A node without what is below it. -/
def Node.outline (node : Node) : Node :=
  { node with children := [] }

section

variable {words : Nat → Nat → Prop}

/-- What holds of outlines is the same for lists with the same outlines. -/
theorem Node.forall_of_outline {P : Node → Prop} (hP : ∀ n, P n.outline ↔ P n)
    {parts parts' : List Node} (hparts : parts.map outline = parts'.map outline)
    (h : ∀ n ∈ parts, P n) : ∀ n ∈ parts', P n := by
  intro n hn
  have hmem : n.outline ∈ parts.map outline := by
    rw [hparts]
    exact List.mem_map_of_mem hn
  obtain ⟨m, hm, heq⟩ := List.mem_map.1 hmem
  rw [← hP, ← heq, hP]
  exact h m hm

/-- Where nodes stand is the same for lists with the same outlines. -/
theorem Node.ordered_of_outline {parts parts' : List Node}
    (hparts : parts.map outline = parts'.map outline)
    (h : parts.Pairwise fun a b => a.stop ≤ b.start) :
    parts'.Pairwise fun a b => a.stop ≤ b.start := by
  have hordered : (parts.map outline).Pairwise fun a b => a.stop ≤ b.start := List.pairwise_map.2 h
  rw [hparts] at hordered
  exact List.pairwise_map.1 hordered

/-- What a node has to be depends on the outlines of its parts only. -/
theorem Node.Regular.congr {node node' : Node} {parts parts' : List Node}
    (h : node.Regular words parts) (hnode : node.outline = node'.outline)
    (hparts : parts.map outline = parts'.map outline) : node'.Regular words parts' := by
  obtain ⟨kind, role, start, stop, children⟩ := node
  obtain ⟨kind', role', start', stop', children'⟩ := node'
  cases hnode
  refine ⟨h.nonempty, ⟨?_, ?_⟩, ?_, ?_, h.word, ?_, ?_⟩
  · exact forall_of_outline (fun _ => Iff.rfl) hparts h.spread.within
  · exact ordered_of_outline hparts h.spread.ordered
  · exact forall_of_outline
      (fun _ => ⟨fun hn => ⟨hn.1, hn.2, hn.3⟩, fun hn => ⟨hn.1, hn.2, hn.3⟩⟩) hparts h.held
  · have htail : parts.tail.map outline = parts'.tail.map outline := by
      rw [List.map_tail, List.map_tail, hparts]
    exact forall_of_outline (fun _ => Iff.rfl) htail h.first
  · intro hname
    rw [h.leaf hname] at hparts
    exact List.map_eq_nil_iff.1 hparts.symm
  · intro role hrole
    obtain ⟨part, hpart, hrole, hstart⟩ := h.opener role hrole
    -- The first part on the other side has the same outline.
    have hhead : (parts'.map outline).head? = some part.outline := by
      rw [← hparts, List.head?_map, Option.mem_def.1 hpart, Option.map_some]
    rw [List.head?_map, Option.map_eq_some_iff] at hhead
    obtain ⟨part', hpart', heq⟩ := hhead
    have hrole' : part'.outline.role = role := by
      rw [heq]
      exact hrole
    have hstart' : part'.outline.start = start := by
      rw [heq]
      exact hstart
    exact ⟨part', hpart', hrole', hstart'⟩

/-- Of the parts of a node, punctuation can be left out. -/
theorem Node.Regular.filter {node : Node} {parts : List Node} (h : node.Regular words parts) :
    node.Regular words (parts.filter (·.kind.isSolid)) := by
  have hsublist : (parts.filter (·.kind.isSolid)).Sublist parts := List.filter_sublist
  refine ⟨h.nonempty, ⟨?_, h.spread.ordered.sublist hsublist⟩, ?_, ?_, h.word, ?_, ?_⟩
  · exact fun c hc => h.spread.within c (hsublist.subset hc)
  · exact fun c hc => h.held c (hsublist.subset hc)
  · exact fun c hc => h.first c (hsublist.tail.subset hc)
  · intro hname
    rw [h.leaf hname, List.filter_nil]
  · intro role hrole
    obtain ⟨part, hpart, hpartRole, hstart⟩ := h.opener role hrole
    obtain ⟨rest, rfl⟩ := List.head?_eq_some_iff.1 hpart
    have hstructural : part.role.isStructural = true :=
      hpartRole ▸ Kind.isStructural_of_opener? hrole
    -- So the part that opens the node is not left out.
    have hsolid := (h.held part List.mem_cons_self).solid hstructural
    refine ⟨part, ?_, hpartRole, hstart⟩
    rw [List.filter_cons_of_pos (by simpa using hsolid)]
    rfl

/-- Comments do not change the outline of the node that they are put into. -/
theorem Node.outline_withComments (comments : List Comment) (node : Node) :
    (node.withComments comments).outline = node.outline := by
  cases node
  rfl

/-- Comments do not change the kind of the node that they are put into. -/
theorem Node.kind_withComments (comments : List Comment) (node : Node) :
    (node.withComments comments).kind = node.kind := by
  cases node
  rfl

/-- Comments among the parts of a node do not change the outlines of the other parts. -/
theorem Node.outline_insertComments (comments : List Comment) (children : List Node) :
    ((insertComments comments children).filter (·.kind.isSolid)).map outline
      = (children.filter (·.kind.isSolid)).map outline := by
  have hcomments : ∀ comments : List Comment,
      (comments.map Comment.toNode).filter (·.kind.isSolid) = [] := by
    intro comments
    simp [Comment.toNode, List.filter_map, Kind.isSolid]
  induction children generalizing comments with
  | nil =>
    rw [insertComments, hcomments]
    rfl
  | cons child rest ih =>
    rw [insertComments, List.filter_append, hcomments, List.nil_append]
    by_cases hsolid : child.kind.isSolid = true
    · rw [List.filter_cons_of_pos (by simpa [kind_withComments] using hsolid),
        List.filter_cons_of_pos (by simpa using hsolid), List.map_cons, List.map_cons, ih,
        outline_withComments]
    · rw [List.filter_cons_of_neg (by simpa [kind_withComments] using hsolid),
        List.filter_cons_of_neg (by simpa using hsolid), ih]

/-- What stands below a node with comments is a comment, or a part with comments of its own. -/
theorem Node.mem_insertComments {children : List Node} {comments : List Comment} {d : Node}
    (hd : d ∈ insertComments comments children) :
    (∃ comment : Comment, d = comment.toNode)
      ∨ ∃ c ∈ children, ∃ inside, d = c.withComments inside := by
  induction children generalizing comments with
  | nil =>
    obtain ⟨comment, -, rfl⟩ := List.mem_map.1 hd
    exact .inl ⟨comment, rfl⟩
  | cons child rest ih =>
    rw [insertComments, List.mem_append, List.mem_cons] at hd
    rcases hd with hd | rfl | hd
    · obtain ⟨comment, -, rfl⟩ := List.mem_map.1 hd
      exact .inl ⟨comment, rfl⟩
    · exact .inr ⟨child, by simp, _, rfl⟩
    · rcases ih hd with hcomment | ⟨c, hc, inside, rfl⟩
      · exact .inl hcomment
      · exact .inr ⟨c, List.mem_cons_of_mem child hc, inside, rfl⟩

/-- What stands below a node with comments. -/
theorem Node.children_withComments (comments : List Comment) (node : Node) :
    (node.withComments comments).children = insertComments comments node.children := by
  cases node
  rfl

/-- A comment is inert. -/
theorem Comment.inert (comment : Comment) : comment.toNode.Inert :=
  .intro rfl rfl (by simp [Comment.toNode])

/-- Punctuation is inert after comments have been put into it. -/
theorem Node.Formed.inert {node : Node} {parent : Kind} (h : node.Formed words)
    (hpart : node.Part parent) (hk : node.kind.isSolid = false) (comments : List Comment) :
    (node.withComments comments).Inert := by
  have hrole : node.role.isStructural = false := by
    by_contra hrole
    simp [hpart.solid (by simpa using hrole)] at hk
  cases h with
  | intro _ mark _ =>
    refine .intro (by rw [kind_withComments, hk]) ?_ ?_
    · have houtline := congrArg Node.role (outline_withComments comments node)
      exact (congrArg Role.isStructural houtline).trans hrole
    · intro c hc
      rw [children_withComments, mark hk] at hc
      rcases mem_insertComments hc with ⟨comment, rfl⟩ | ⟨d, hd, -⟩
      · exact comment.inert
      · cases hd

/-- A formed tree is shaped after comments have been put into it. -/
theorem Node.Formed.withComments {node : Node} (h : node.Formed words) (comments : List Comment) :
    (node.withComments comments).Shaped words := by
  induction h generalizing comments with
  | @intro node regular mark children ih =>
    refine .intro (regular.filter.congr (outline_withComments comments node).symm ?_) ?_ ?_
    · rw [Node.solid, children_withComments, outline_insertComments]
    · intro d hd
      rw [mem_solid, children_withComments] at hd
      rcases mem_insertComments hd.1 with ⟨comment, rfl⟩ | ⟨c, hc, inside, rfl⟩
      · cases hd.2
      · exact ih c hc inside
    · intro d hd hk
      rw [children_withComments] at hd
      rcases mem_insertComments hd with ⟨comment, rfl⟩ | ⟨c, hc, inside, rfl⟩
      · exact comment.inert
      · rw [kind_withComments] at hk
        exact (children c hc).inert (regular.held c hc) hk inside

end

/-! ## Whole files -/

/-- What the grammar accepts has the tree of a file. -/
theorem Node.ofSource?_sourceFile {source : List Char} {root : Node}
    (h : Node.ofSource? source = some root) : root.SourceFile (WordAt source) := by
  simp only [Node.ofSource?, Option.bind_eq_bind, Option.bind_eq_some_iff] at h
  obtain ⟨list, hlist, ⟨items, rest⟩, hitems, h⟩ := h
  split at h
  next =>
    cases h
    have hsound : Stream.Sound (WordAt source) ⟨list.tokens, 0⟩ := tokenize_sound hlist
    have hall := (Grammar.Sound.ofDepth _).sourceFile hsound hitems
    -- Below the root there are comments and shaped parts.  The root itself may be empty.
    have hbelow : ∀ d ∈ insertComments list.comments items,
        d.Inert ∨ d.kind.isSolid = true ∧ d.Shaped (WordAt source) ∧ d.kind ≠ .sourceFile := by
      intro d hd
      rcases mem_insertComments hd with ⟨comment, rfl⟩ | ⟨c, hc, inside, rfl⟩
      · exact .inl comment.inert
      · have hstatement := hall.kinds c hc
        rw [kind_withComments]
        refine .inr ⟨hstatement.isSolid, (hall.formed c hc).withComments inside, ?_⟩
        intro hk
        simpa [hk, Kind.isOrdinary, Kind.isDeclaration] using hstatement.kind
    have hsolid : ∀ d ∈ insertComments list.comments items, d.kind.isSolid = true →
        d.Shaped (WordAt source) ∧ d.kind ≠ .sourceFile := by
      intro d hd hk
      rcases hbelow d hd with hinert | hpart
      · rw [hinert.bare.1] at hk
        cases hk
      · exact hpart.2
    refine ⟨rfl, ?_, ?_, ?_, ?_⟩
    · exact fun c hc => (hsolid c (mem_solid.1 hc).1 (mem_solid.1 hc).2).1
    · have hordered := hall.spread.ordered.sublist (List.filter_sublist (p := (·.kind.isSolid)))
      exact ordered_of_outline (outline_insertComments list.comments items).symm hordered
    · exact fun c hc => (hsolid c (mem_solid.1 hc).1 (mem_solid.1 hc).2).2
    · intro c hc hk
      rcases hbelow c hc with hinert | hpart
      · exact hinert
      · rw [hpart.1] at hk
        cases hk
  next => cases h

/-- The parser of the grammar gives a tree without errors only for what the grammar accepts. -/
theorem Grammar.parser_sound : Grammar.parser.Sound where
  shape source root htree herror := by
    cases hsource : Node.ofSource? source with
    | some accepted =>
      have hroot : accepted = root := by simpa [Grammar.parser, hsource] using htree
      exact hroot ▸ Node.ofSource?_sourceFile hsource
    | none =>
      have hroot : Node.ofFaulty source = root := by simpa [Grammar.parser, hsource] using htree
      rw [← hroot] at herror
      cases herror
  fault text h := by cases h

end FieldAudit.Go
