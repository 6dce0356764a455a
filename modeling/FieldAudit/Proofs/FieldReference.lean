import FieldAudit.Proofs.FieldRun
import FieldAudit.Proofs.TokenLayout
import FieldAudit.Proofs.Walk
import FieldAudit.Template.FieldReference

/-! # The field references of a template

The references that a template makes are the runs of field tokens in it: none is lost and none is
invented on the way through the tree (`parse_fieldChains`).  Each reference stands in the source
where it says, and the references come in the order of the source (`analyze_anchored`). -/

namespace FieldAudit.Template

open Text

/-! ## Identifiers -/

/-- Whether a node is no identifier, or the name of a function. -/
def Node.isKnown : Node → Bool
  | .identifier _ _ isFunction => isFunction
  | _ => true

/-- The chain of a node is the path of the use it makes of fields. -/
theorem chain?_of_isKnown {node : Node} (h : node.isKnown = true) :
    node.chain? = node.fieldUse?.map FieldUse.path := by
  unfold Node.isKnown at h
  split at h
  next => subst h; rfl
  next hne =>
    unfold Node.chain? Node.fieldUse?
    split
    next => rfl
    next => exact absurd rfl (hne _ _ _)
    next hf _ => split <;> simp_all

/-- The nodes inside commands are known. -/
theorem isKnown_of_isInner {node : Node} (h : node.isInner = true) : node.isKnown = true := by
  cases node <;> first | rfl | exact h

/-! ## References and runs -/

/-- The names in the runs of field tokens, run by run. -/
def fieldChains (tokens : List Token) : List (List String) :=
  (fieldRuns false tokens).map fun run => run.map Token.fieldName

/-- The path of a run of tokens is the names they stand for. -/
theorem ofRun_path (run : List Token) : (FieldUse.ofRun run).path = run.map Token.fieldName := by
  unfold FieldUse.ofRun
  split <;> rfl

/-- The references that the runs of field tokens make name these runs. -/
theorem map_path_ofRun (runs : List (List Token)) :
    (runs.map FieldUse.ofRun).map FieldUse.path = runs.map fun run => run.map Token.fieldName := by
  rw [List.map_map]
  exact List.map_congr_left fun run _ => ofRun_path run

/-- The references of a block are those of its field nodes. -/
theorem fieldReferences_eq {root : Block Node} (h : ∀ n ∈ root.preorder, n.isKnown) (path : String)
    (source : List Char) :
    fieldReferences path source root = (fieldUses root.preorder).map fun use =>
      ⟨path, use.pos, (locationOf use.pos source).line, (locationOf use.pos source).column,
        use.path⟩ := by
  rw [fieldReferences, Block.visited_eq, fieldUses, List.map_filterMap]
  refine List.filterMap_congr fun node hn => ?_
  rw [chain?_of_isKnown (h node hn)]
  cases node <;> rfl

/-- What is left after a whole template has been read is no reference. -/
theorem uses_of_document {tokens : List Token} {nodes : List Node} {s : State}
    (ht : EndsOnce tokens) (h : (Passage.document nodes).Reads (.start tokens) s) :
    s.uses = [] := by
  have heof := h.peek_eof
  have hs : s.input.tokens <:+ tokens := h.suffix
  obtain ⟨⟨rest, scope⟩, defines⟩ := s
  cases rest with
  | nil => simp [State.uses, Input.uses]
  | cons t rest =>
    have ht := ht.suffix_of_eof hs heof
    subst ht
    show (fieldRuns false [t]).map _ = []
    rw [fieldRuns_cons_of_ne (by rw [show t.kind = .eof from heof]; decide), fieldRuns_nil]
    rfl

/-- The references of a template and of the templates defined in it are those of the tokens, and the
template has its own in their order. -/
theorem ofTokens_uses {tokens : List Token} {tree : Tree} (ht : EndsOnce tokens)
    (h : Tree.ofTokens tokens = .ok tree) :
    (fieldUses tree.root.preorder + definedUses tree.defines : Multiset FieldUse) =
        (fieldRuns false tokens).map FieldUse.ofRun ∧
      (fieldUses tree.root.preorder).Sublist ((fieldRuns false tokens).map FieldUse.ofRun) := by
  obtain ⟨s, hd, -, hs⟩ := ofTokens_eq_ok_iff.1 h
  obtain ⟨hcount, hsub⟩ := hd.takes
  have hroot : fieldUses (Passage.document tree.root.nodes).preorder =
      fieldUses tree.root.preorder := (fieldUses_block tree.root.pos tree.root.nodes).symm
  rw [State.allUses, uses_of_document ht hd, hroot, Multiset.coe_nil, add_zero, ← hs] at hcount
  rw [uses_of_document ht hd, hroot, List.append_nil] at hsub
  exact ⟨hcount.trans (zero_add _), hsub⟩

/-- Where no word defines a template, the references of a template are those of the tokens. -/
theorem ofTokens_uses_of_no_define {tokens : List Token} {tree : Tree} (ht : EndsOnce tokens)
    (h : Tree.ofTokens tokens = .ok tree)
    (hno : ∀ t ∈ tokens, t.kind ≠ .keyword .defineKw ∧ t.kind ≠ .keyword .blockKw) :
    fieldUses tree.root.preorder = (fieldRuns false tokens).map FieldUse.ofRun := by
  obtain ⟨s, hd, -, hs⟩ := ofTokens_eq_ok_iff.1 h
  have hnone : tree.defines = [] := hs.trans (hd.defines_eq rfl hno)
  obtain ⟨hcount, hsub⟩ := ofTokens_uses ht h
  rw [hnone] at hcount
  -- The template has all references in it, so those in order are all of them.
  refine hsub.eq_of_length ?_
  simpa [definedUses] using congrArg Multiset.card hcount

/-- The uses met on a walk are those of the nodes in preorder. -/
theorem visited_fieldUse (block : Block Node) :
    (block.visited fun node => node.fieldUse?.map FieldUse.path) =
      (fieldUses block.preorder).map FieldUse.path := by
  rw [Block.visited_eq, fieldUses, List.map_filterMap]

/-- Every node of a parsed tree is known. -/
theorem ofTokens_isKnown {tokens : List Token} {tree : Tree}
    (h : Tree.ofTokens tokens = .ok tree) : ∀ n ∈ tree.root.preorder, n.isKnown := by
  obtain ⟨⟨pos, nodes⟩, defines⟩ := tree
  obtain ⟨s, hd, -, -⟩ := ofTokens_eq_ok_iff.1 h
  have houter (n : Node) (ho : n.isOuter) : n.isKnown := by cases n <;> first | rfl | cases ho
  have hnodes : ∀ n ∈ nodesPreorder nodes, n.isKnown :=
    hd.forall_preorder houter fun hp n hn => isKnown_of_isInner (hp.isInner n hn)
  show ∀ n ∈ blockPreorder ⟨pos, nodes⟩, n.isKnown
  rw [blockPreorder]
  exact List.forall_mem_cons.2 ⟨rfl, hnodes⟩

/-- The field nodes of a template and of the templates defined in it are the runs of field tokens
that no operand before them takes.  Where nothing is defined the references come run by run. -/
theorem parse_fieldChains {d : Delimiters} {source : List Char} {tree : Tree}
    (h : parse d source = .ok tree) :
    ∃ tokens, tokenize d source = .ok tokens ∧
      ((tree.root :: tree.defines.map Definition.root).flatMap
        (Block.visited fun node => node.fieldUse?.map FieldUse.path)).Perm (fieldChains tokens) ∧
      ((∀ t ∈ tokens, t.kind ≠ .keyword .defineKw ∧ t.kind ≠ .keyword .blockKw) →
        ∀ path, (fieldReferences path source tree.root).map FieldReference.chain =
          fieldChains tokens) := by
  obtain ⟨tokens, ht, hparse⟩ := parse_eq_ok h
  have hends := tokenize_endsOnce ht
  refine ⟨tokens, ht, ?_, ?_⟩
  · have hall : (fieldUses tree.root.preorder ++
        tree.defines.flatMap fun d => fieldUses d.root.preorder).Perm
          ((fieldRuns false tokens).map FieldUse.ofRun) :=
      Multiset.coe_eq_coe.1 (ofTokens_uses hends hparse).1
    have hpaths := hall.map FieldUse.path
    rw [map_path_ofRun, List.map_append, List.map_flatMap] at hpaths
    rw [List.flatMap_cons, List.flatMap_map, fieldChains]
    simpa only [visited_fieldUse] using hpaths
  · intro hno path
    rw [fieldReferences_eq (ofTokens_isKnown hparse), ofTokens_uses_of_no_define hends hparse hno,
      fieldChains, ← map_path_ofRun, List.map_map]
    rfl

/-- Chains stand for themselves; a variable with fields is no chain. -/
theorem parse_fieldChains_print :
    ∃ tree tokens, parse {} "\x7b\x7b.A.B\x7d\x7d\x7b\x7bprint $.C .D\x7d\x7d".toList = .ok tree ∧
      tokenize {} "\x7b\x7b.A.B\x7d\x7d\x7b\x7bprint $.C .D\x7d\x7d".toList = .ok tokens ∧
      fieldChains tokens = [["A", "B"], ["D"]] ∧
      ((tree.root :: tree.defines.map Definition.root).flatMap
        (Block.visited fun node => node.fieldUse?.map FieldUse.path)).Perm (fieldChains tokens) ∧
      (fieldReferences "page" "\x7b\x7b.A.B\x7d\x7d\x7b\x7bprint $.C .D\x7d\x7d".toList
        tree.root).map FieldReference.chain = fieldChains tokens := by
  have ht : tokenize {} "\x7b\x7b.A.B\x7d\x7d\x7b\x7bprint $.C .D\x7d\x7d".toList = .ok
      [⟨.leftDelim, ['\x7b', '\x7b'], 0⟩, ⟨.field, ['.', 'A'], 2⟩, ⟨.field, ['.', 'B'], 4⟩,
       ⟨.rightDelim, ['\x7d', '\x7d'], 6⟩, ⟨.leftDelim, ['\x7b', '\x7b'], 8⟩,
       ⟨.identifier, "print".toList, 10⟩, ⟨.space, [' '], 15⟩, ⟨.variable, ['$'], 16⟩,
       ⟨.field, ['.', 'C'], 17⟩, ⟨.space, [' '], 19⟩, ⟨.field, ['.', 'D'], 20⟩,
       ⟨.rightDelim, ['\x7d', '\x7d'], 22⟩, .eof 24] := by
    decide +kernel
  have hread : (parse {} "\x7b\x7b.A.B\x7d\x7d\x7b\x7bprint $.C .D\x7d\x7d".toList).toOption.isSome
      = true := by decide +kernel
  cases hp : parse {} "\x7b\x7b.A.B\x7d\x7d\x7b\x7bprint $.C .D\x7d\x7d".toList with
  | error e =>
    rw [hp] at hread
    cases hread
  | ok tree =>
    obtain ⟨tokens, ht', hperm, href⟩ := parse_fieldChains hp
    cases ht.symm.trans ht'
    exact ⟨tree, _, rfl, ht, by decide +kernel, hperm, href (by simp [Token.eof]) "page"⟩

/-! ## References in the source -/

/-- A field path as it is written. -/
def fieldSpelling (path : List String) : List Char :=
  path.flatMap fun name => '.' :: name.toList

/-- A field path is written in the text after a place, and the offset is that of its first name, or
of its second if there is one. -/
def Place.Shows (p : Place) (offset : Nat) : List String → Prop
  | [] => False
  | [name] => ∃ after, p.Reaches ⟨offset, fieldSpelling [name] ++ after⟩
  | first :: rest => ∃ start after,
      p.Reaches ⟨start, fieldSpelling [first] ++ (fieldSpelling rest ++ after)⟩ ∧
        offset = start + byteLength (fieldSpelling [first])

/-- What shows at a place is seen from every place that reaches it. -/
theorem Place.Shows.of_reaches {p q : Place} (h : p.Reaches q) {offset : Nat} {path : List String}
    (hs : q.Shows offset path) : p.Shows offset path := by
  unfold Place.Shows at hs ⊢
  split at hs
  next => exact hs
  next =>
    obtain ⟨after, hq⟩ := hs
    exact ⟨after, h.trans hq⟩
  next =>
    obtain ⟨start, after, hq, ho⟩ := hs
    exact ⟨start, after, h.trans hq, ho⟩

/-- References are written in the text after a place, one after the other. -/
structure Place.ShowsAll (p : Place) (uses : List FieldUse) : Prop where
  ordered : uses.Pairwise (·.pos < ·.pos)
  shown : ∀ use ∈ uses, p.pos ≤ use.pos ∧ p.Shows use.pos use.path

/-- What shows at a place, for a list of uses, is seen from every place that reaches it. -/
theorem Place.ShowsAll.of_reaches {p q : Place} (h : p.Reaches q) {uses : List FieldUse}
    (hs : q.ShowsAll uses) : p.ShowsAll uses := by
  refine ⟨hs.ordered, fun use hu => ?_⟩
  obtain ⟨hle, hshown⟩ := hs.shown use hu
  exact ⟨h.pos_le.trans hle, .of_reaches h hshown⟩

/-- Names are spelled one after the other, each behind its dot. -/
theorem fieldSpelling_cons (name : String) (path : List String) :
    fieldSpelling (name :: path) = fieldSpelling [name] ++ fieldSpelling path := by
  rw [fieldSpelling, List.flatMap_cons, fieldSpelling, List.flatMap_singleton]
  rfl

/-- A run of field tokens spells its names just as they stand in the source. -/
theorem fieldSpelling_fieldName {run : List Token} (hf : ∀ t ∈ run, t.kind = .field)
    (hd : ∀ t ∈ run, t.Dotted) :
    fieldSpelling (run.map Token.fieldName) = run.flatMap Token.lexeme := by
  rw [fieldSpelling, List.flatMap_map]
  refine List.flatMap_congr fun t ht => ?_
  obtain ⟨name, hn⟩ := hd t ht (hf t ht)
  rw [Token.fieldName, hn, List.tail_cons, String.toList_ofList]

/-- The reference that a run of field tokens makes is written at the place where the run stands. -/
theorem Layout.ofRun_shows {p : Place} {t : Token} {run tokens : List Token}
    (h : Layout p (t :: run ++ tokens)) (hf : ∀ u ∈ t :: run, u.kind = .field)
    (hd : ∀ u ∈ t :: run, u.Dotted) :
    p.pos ≤ (FieldUse.ofRun (t :: run)).pos ∧
      (FieldUse.ofRun (t :: run)).pos < p.pos + byteLength ((t :: run).flatMap Token.lexeme) ∧
      p.Shows (FieldUse.ofRun (t :: run)).pos (FieldUse.ofRun (t :: run)).path := by
  have hpositive : ∀ u ∈ t :: run, 0 < byteLength u.lexeme := by
    intro u hu
    obtain ⟨name, hn⟩ := hd u hu (hf u hu)
    rw [hn, byteLength_cons]
    exact Nat.add_pos_left (Char.utf8Size_pos '.') _
  have hspelling := fieldSpelling_fieldName hf hd
  obtain ⟨after, hrest, -⟩ := h.run hf
  obtain ⟨rest, rfl, hl⟩ := h.field (hf t List.mem_cons_self)
  -- A chain is placed at its second name if it has one, so a single name is a case of its own.
  cases run with
  | nil =>
    refine ⟨Nat.le_refl _, ?_, after, ?_⟩
    · have := hpositive t List.mem_cons_self
      simpa [FieldUse.ofRun] using this
    · rw [← hspelling] at hrest
      exact ⟨[], hrest, rfl⟩
  | cons u run =>
    obtain ⟨rest', hu, -⟩ := hl.field (hf u (by simp))
    have hpos : u.pos = t.pos + byteLength t.lexeme := (congrArg Place.pos hu).symm
    have hfirst : fieldSpelling [t.fieldName] = t.lexeme := by
      rw [← List.map_singleton,
        fieldSpelling_fieldName (List.forall_mem_singleton.2 (hf t (by simp)))
          (List.forall_mem_singleton.2 (hd t (by simp))),
        List.flatMap_singleton]
    refine ⟨Nat.le.intro hpos.symm, ?_, t.pos, after, ⟨[], ?_, rfl⟩, ?_⟩
    · have := hpositive u (by simp)
      simp only [FieldUse.ofRun, List.flatMap_cons, byteLength_append]
      omega
    · rw [List.nil_append, hrest, ← hspelling, List.map_cons, fieldSpelling_cons,
        List.append_assoc]
      rfl
    · rw [hfirst]
      exact hpos

/-- The references that tokens make are written where the tokens stand. -/
theorem Layout.showsAll {p : Place} {tokens : List Token} (h : Layout p tokens)
    (hd : ∀ t ∈ tokens, t.Dotted) (taken : Bool) :
    p.ShowsAll ((fieldRuns taken tokens).map FieldUse.ofRun) := by
  have isField (rest : List Token) : ∀ u ∈ rest.takeWhile (·.kind = .field), u.kind = .field :=
    fun u hu => by simpa using List.mem_takeWhile_imp hu
  have parts (rest : List Token) :
      rest.takeWhile (·.kind = .field) ++ rest.dropWhile (·.kind = .field) = rest :=
    List.takeWhile_append_dropWhile
  fun_induction fieldRuns taken tokens generalizing p with
  | case1 => exact ⟨.nil, fun use hu => by cases hu⟩
  | case2 t rest ht =>
    rename_i ih
    rw [← parts rest, ← List.cons_append] at h hd
    obtain ⟨after, hrest, hlater⟩ := h.run (List.forall_mem_cons.2 ⟨ht, isField rest⟩)
    exact .of_reaches ⟨_, hrest, rfl⟩ (ih hlater (List.forall_mem_append.1 hd).2)
  | case3 taken t rest ht =>
    rename_i ih
    rw [← parts rest, ← List.cons_append] at h hd
    -- The run is an unbroken piece, and the tokens after it stand after that piece.
    have hf : ∀ u ∈ t :: rest.takeWhile (·.kind = .field), u.kind = .field :=
      List.forall_mem_cons.2 ⟨ht, isField rest⟩
    obtain ⟨after, hrest, hlater⟩ := h.run hf
    obtain ⟨hle, hlt, hshown⟩ := h.ofRun_shows hf (List.forall_mem_append.1 hd).1
    have hall := ih hlater (List.forall_mem_append.1 hd).2
    refine ⟨List.pairwise_cons.2 ⟨fun use hu => ?_, hall.ordered⟩,
      List.forall_mem_cons.2 ⟨⟨hle, hshown⟩, ?_⟩⟩
    · exact Nat.lt_of_lt_of_le hlt (hall.shown use hu).1
    · exact (Place.ShowsAll.of_reaches ⟨_, hrest, rfl⟩ hall).shown
  | case4 taken t rest ht ih =>
    obtain ⟨q, hq, hl⟩ := h.tail
    exact .of_reaches hq (ih hl fun u hu => hd u (List.mem_cons_of_mem _ hu))

/-- The references of a template stand in its source where they say: their offsets increase, each
path is written at its offset, and line and column are those of the offset. -/
theorem analyze_anchored {d : Delimiters} {path : String} {source : List Char}
    {references : List FieldReference} (h : analyze d path source = .ok references) :
    references.Pairwise (·.offset < ·.offset) ∧
      ∀ r ∈ references, Place.Shows ⟨0, source⟩ r.offset r.chain ∧
        ⟨r.line, r.column⟩ = locationOf r.offset source := by
  unfold analyze at h
  split at h
  next tree hparse =>
    cases h
    obtain ⟨tokens, ht, htree⟩ := parse_eq_ok hparse
    have hends := tokenize_endsOnce ht
    have hall := (tokenize_layout ht).showsAll hends.dotted false
    have hsub := (ofTokens_uses hends htree).2
    rw [fieldReferences_eq (ofTokens_isKnown htree)]
    constructor
    · exact List.pairwise_map.2 (hall.ordered.sublist hsub)
    · intro r hr
      obtain ⟨use, hu, rfl⟩ := List.mem_map.1 hr
      exact ⟨(hall.shown use (hsub.subset hu)).2, rfl⟩
  next => cases h

/-- The chains of a two-line template are found at their places, in order. -/
theorem analyze_anchored_second_line :
    ∃ references, analyze {} "page" "\n\x7b\x7b.A.B\x7d\x7d\x7b\x7b.C\x7d\x7d".toList =
        .ok references ∧
      references.map FieldReference.chain = [["A", "B"], ["C"]] ∧
      references.Pairwise (·.offset < ·.offset) ∧
      ∀ r ∈ references,
        Place.Shows ⟨0, "\n\x7b\x7b.A.B\x7d\x7d\x7b\x7b.C\x7d\x7d".toList⟩ r.offset r.chain ∧
          ⟨r.line, r.column⟩ =
            locationOf r.offset "\n\x7b\x7b.A.B\x7d\x7d\x7b\x7b.C\x7d\x7d".toList := by
  have ha : analyze {} "page" "\n\x7b\x7b.A.B\x7d\x7d\x7b\x7b.C\x7d\x7d".toList =
      .ok [⟨"page", 5, 2, 4, ["A", "B"]⟩, ⟨"page", 11, 2, 10, ["C"]⟩] := by
    decide +kernel
  exact ⟨_, ha, rfl, analyze_anchored ha⟩

end FieldAudit.Template
