import FieldAudit.Proofs.Resolution

/-! # Local declarations hide those of the package

Where a name is in scope by the block rules of Go, said here without the look-up: a declaration
counts from its end to the end of the innermost block around it, a parameter in the body of its
function, and the name of a switch over types in its clauses.  Where a local declaration is in
scope, the look-up finds a local one, whatever the package declares.  This is said of every tree of
a Go file, whichever parser it comes from.

There are two exceptions.  What a case of a selection receives is not found, nor is a declaration
behind a label, and then a declaration of the package can be found instead. -/

namespace FieldAudit.Go

/-! ## The block rules -/

/-- Whether a node of a kind is a block. -/
def Kind.isBlock : Kind → Bool
  | .block | .expressionCase | .typeCase | .defaultCase | .communicationCase | .ifStatement
  | .forStatement | .expressionSwitchStatement | .typeSwitchStatement => true
  | _ => false

/-- The innermost block around a place. -/
def Cursor.block? (c : Cursor) : Option Cursor :=
  c.enclosing.find? (·.node.kind.isBlock)

/-- The places around a place up to the innermost block. -/
def Cursor.belowBlock (c : Cursor) : List Cursor :=
  c.enclosing.takeWhile (!·.node.kind.isBlock)

/-- Whether a statement is the step of a loop, which can declare nothing. -/
def Cursor.isStep (c : Cursor) : Bool :=
  c.node.role ≠ .initializer && c.ancestors.head?.any (·.kind = .forClause)

/-- A node that declares a name from its end on. -/
inductive Declares (file : File) (name : String) (d : Cursor) : Prop
  /-- The left side of a short declaration, of a loop over values or of a receive statement.  The
  tree of the last two is the same for assignments, so these count too. -/
  | items {item : Cursor}
      (hkind : d.node.kind = .shortVarDeclaration ∨ d.node.kind = .rangeClause
        ∨ d.node.kind = .receiveStatement)
      (hstep : d.isStep = false) (hitem : item ∈ itemsInRole d .left)
      (hname : file.text item.node = name)
  /-- The names of variables or constants. -/
  | names {item : Cursor} (hkind : d.node.kind = .varSpec ∨ d.node.kind = .constSpec)
      (hitem : item ∈ d.inRole .name) (hname : file.text item.node = name)

/-- What declares a name, as a test of its kind and its items. -/
theorem declares_iff {file : File} {name : String} {d : Cursor} : Declares file name d
    ↔ (d.node.kind ∈ [.shortVarDeclaration, .rangeClause, .receiveStatement] ∧ d.isStep = false
        ∧ ∃ item ∈ itemsInRole d .left, file.text item.node = name)
      ∨ (d.node.kind ∈ [.varSpec, .constSpec]
        ∧ ∃ item ∈ d.inRole .name, file.text item.node = name) := by
  constructor
  · rintro (⟨hkind, hstep, hitem, hname⟩ | ⟨hkind, hitem, hname⟩)
    · exact .inl ⟨by simpa using hkind, hstep, _, hitem, hname⟩
    · exact .inr ⟨by simpa using hkind, _, hitem, hname⟩
  · rintro (⟨hkind, hstep, item, hitem, hname⟩ | ⟨hkind, item, hitem, hname⟩)
    · exact .items (by simpa using hkind) hstep hitem hname
    · exact .names (by simpa using hkind) hitem hname

instance (file : File) (name : String) (d : Cursor) : Decidable (Declares file name d) :=
  decidable_of_iff' _ declares_iff

/-- The lists of parameters of a function, with its receiver and its results. -/
inductive ParameterList (function : Cursor) (list : Cursor) : Prop
  | parameters (hlist : function.inRole? .parameters = some list)
  | results (hlist : function.inRole? .result = some list)
      (hkind : list.node.kind = .parameterList)
  | receiver (hkind : function.node.kind = .methodDeclaration)
      (hlist : function.inRole? .receiver = some list)

/-- A place that declares a name is in scope at a use. -/
inductive InScope (file : File) (name : String) (use : Cursor) : Cursor → Prop
  /-- A declaration counts after its end, in the innermost block around it. -/
  | declared {d block : Cursor} (hd : Cursor.At file.root d) (hname : Declares file name d)
      (hblock : d.block? = some block) (hinside : block ∈ use.enclosing)
      (hafter : d.node.stop ≤ use.node.start) : InScope file name use d
  /-- A parameter counts in the body of its function. -/
  | parameter {function list declaration item body : Cursor}
      (hkind : function.node.kind = .functionDeclaration ∨ function.node.kind = .methodDeclaration
        ∨ function.node.kind = .funcLiteral)
      (hlist : ParameterList function list) (hdeclaration : declaration ∈ list.named)
      (hitem : item ∈ declaration.inRole .name) (hname : file.text item.node = name)
      (hbody : function.inRole? .body = some body) (hinside : body ∈ use.enclosing) :
      InScope file name use list
  /-- The name of a switch over types counts in its clauses. -/
  | switchName {switch names item clause : Cursor}
      (hkind : switch.node.kind = .typeSwitchStatement)
      (hnames : switch.inRole? .switchName = some names) (hitem : item ∈ names.items)
      (hname : file.text item.node = name) (hclause : clause ∈ switch.named)
      (hcase : clause.node.kind = .typeCase ∨ clause.node.kind = .defaultCase)
      (hinside : clause ∈ use.enclosing) : InScope file name use names

/-! ## What declares a name says something about it -/

section

variable {file : File} {name : String}

/-- A name among some nodes has an index. -/
theorem nameIndex?_isSome {names : List Cursor} {item : Cursor} (hitem : item ∈ names)
    (hname : file.text item.node = name) : (nameIndex? file names name).isSome = true := by
  rw [nameIndex?, List.findIdx?_isSome]
  exact List.any_eq_true.2 ⟨item, hitem, by simpa using hname⟩

/-- A short declaration says something about the names on its left. -/
theorem statementBinding?_short {d item : Cursor} (hkind : d.node.kind = .shortVarDeclaration)
    (hitem : item ∈ itemsInRole d .left) (hname : file.text item.node = name) :
    (statementBinding? file d name).isSome = true := by
  cases hleft : d.inRole? .left with
  | none => simp [itemsInRole, hleft] at hitem
  | some left =>
    have hitem : item ∈ left.items := by simpa [itemsInRole, hleft] using hitem
    obtain ⟨index, hindex⟩ := Option.isSome_iff_exists.1 (nameIndex?_isSome hitem hname)
    simp [statementBinding?_eq, hkind, shortBinding?, hleft, hindex]

/-- A specification says something about its names. -/
theorem statementBinding?_spec {d item : Cursor}
    (hkind : d.node.kind = .varSpec ∨ d.node.kind = .constSpec) (hitem : item ∈ d.inRole .name)
    (hname : file.text item.node = name) : (statementBinding? file d name).isSome = true := by
  obtain ⟨index, hindex⟩ := Option.isSome_iff_exists.1 (nameIndex?_isSome hitem hname)
  rcases hkind with hkind | hkind <;> simp [statementBinding?_eq, hkind, specBinding?, hindex]

/-- A part of a declaration of variables or constants, and what it is a part of. -/
inductive Kind.Grouped : Kind → Kind → Prop
  | list : Grouped .varDeclaration .varSpecList
  | variables : Grouped .varDeclaration .varSpec
  | listed : Grouped .varSpecList .varSpec
  | constantList : Grouped .constDeclaration .constSpecList
  | constants : Grouped .constDeclaration .constSpec
  | listedConstants : Grouped .constSpecList .constSpec

/-- What a part of a declaration of variables or constants declares, the whole declares. -/
theorem statementBinding?_group {d spec : Cursor} (hspec : spec ∈ d.named)
    (hkind : Kind.Grouped d.node.kind spec.node.kind)
    (hsome : (statementBinding? file spec name).isSome = true) :
    (statementBinding? file d name).isSome = true := by
  have hfound : (d.named.findSome? (statementBinding? file · name)).isSome = true :=
    List.findSome?_isSome_iff.2 ⟨spec, hspec, hsome⟩
  rw [statementBinding?_eq]
  generalize d.node.kind = parent at hkind ⊢
  generalize spec.node.kind = part at hkind
  cases hkind <;> exact hfound

/-- A list of parameters says something about its names. -/
theorem parameterBinding?_isSome {list declaration item : Cursor}
    (hdeclaration : declaration ∈ list.named) (hitem : item ∈ declaration.inRole .name)
    (hname : file.text item.node = name) :
    (parameterBinding? file list name).isSome = true := by
  refine List.findSome?_isSome_iff.2 ⟨declaration, hdeclaration, ?_⟩
  have hany : ((declaration.inRole .name).any fun c => file.text c.node = name) = true :=
    List.any_eq_true.2 ⟨item, hitem, by simpa using hname⟩
  simp [hany]

end

/-! ## Scopes that declare a name -/

section

variable {file : File} {name : String} {offset : Nat} {scope c d : Cursor}

/-- Whether what a scope of a kind declares is told by a rule of its own. -/
def Kind.hasRule : Kind → Bool
  | .functionDeclaration | .funcLiteral | .methodDeclaration | .forStatement | .ifStatement
  | .expressionSwitchStatement | .typeSwitchStatement => true
  | _ => false

/-- A statement that says something about a name is an origin of it. -/
theorem statementOrigin?_isSome (h : (statementBinding? file d name).isSome = true) :
    (statementOrigin? file name d).isSome = true := by
  simp [statementOrigin?, h]

/-- A sequence finds the statements that end before the use. -/
theorem originIn?_of_before (hrule : scope.node.kind.hasRule = false) (hc : c ∈ scope.named)
    (hstop : c.node.stop ≤ offset) (hsome : (statementBinding? file c name).isSome = true) :
    (originIn? file name offset scope).isSome = true := by
  have hsequence : ((scope.named.filter (·.node.stop ≤ offset)).reverse.findSome?
      (statementOrigin? file name)).isSome = true := by
    refine List.findSome?_isSome_iff.2 ⟨c, ?_, statementOrigin?_isSome hsome⟩
    exact List.mem_reverse.2 (List.mem_filter.2 ⟨hc, by simpa using hstop⟩)
  unfold originIn?
  generalize scope.node.kind = kind at hrule
  cases kind <;> first | exact hsequence | cases hrule

/-- What the initializer of a statement declares is found in its header. -/
theorem initializerOrigin?_isSome (hd : scope.inRole? .initializer = some d)
    (hsome : (statementBinding? file d name).isSome = true) :
    (initializerOrigin? file name scope).isSome = true := by
  simp [initializerOrigin?, hd, statementOrigin?_isSome hsome]

/-- A statement with a header finds its initializer. -/
theorem originIn?_of_header (hkind : scope.node.kind.hasHeader = true)
    (hd : scope.inRole? .initializer = some d)
    (hsome : (statementBinding? file d name).isSome = true) :
    (originIn? file name offset scope).isSome = true := by
  have hheader : (if declaresItem file scope .switchName name then some (Origin.header scope)
      else initializerOrigin? file name scope).isSome = true := by
    split
    · rfl
    · exact initializerOrigin?_isSome hd hsome
  unfold originIn?
  generalize scope.node.kind = kind at hkind
  cases kind <;> first | exact hheader | cases hkind

/-- A loop finds its clause. -/
theorem originIn?_of_clause (hkind : scope.node.kind = .forStatement) (hc : c ∈ scope.named)
    (hsome : (clauseOrigin? file name c).isSome = true) :
    (originIn? file name offset scope).isSome = true := by
  rw [originIn?, hkind]
  exact List.findSome?_isSome_iff.2 ⟨c, hc, hsome⟩

/-- A switch over types finds its name. -/
theorem originIn?_of_switchName (hkind : scope.node.kind = .typeSwitchStatement)
    (hnames : declaresItem file scope .switchName name = true) :
    (originIn? file name offset scope).isSome = true := by
  simp [originIn?, hkind, hnames]

/-- A function finds its parameters, results and receiver. -/
theorem originIn?_of_parameter (hkind : scope.node.kind = .functionDeclaration
      ∨ scope.node.kind = .methodDeclaration ∨ scope.node.kind = .funcLiteral)
    (hlist : ParameterList scope c) (hsome : (parameterBinding? file c name).isSome = true) :
    (originIn? file name offset scope).isSome = true := by
  have horigin : parameterOrigin? file name c = some (.parameters c) := by
    simp [parameterOrigin?, hsome]
  have hsignature (h : (signatureOrigin? file name scope).isSome = true) :
      (originIn? file name offset scope).isSome = true := by
    rcases hkind with hkind | hkind | hkind <;> simp [originIn?, hkind, h]
  cases hlist with
  | parameters hlist => exact hsignature (by simp [signatureOrigin?, hlist, horigin])
  | results hlist hresult => exact hsignature (by simp [signatureOrigin?, hlist, hresult, horigin])
  | receiver hmethod hlist => simp [originIn?, hmethod, hlist, horigin]

/-- A name that a local scope declares has a local origin. -/
theorem localOrigin?_of_scope {use : Cursor} (hscope : scope ∈ localScopes use)
    (hsome : (originIn? file name use.node.start scope).isSome = true) :
    ∃ origin, localOrigin? file name use = some origin :=
  Option.isSome_iff_exists.1 (List.findSome?_isSome_iff.2 ⟨scope, hscope, hsome⟩)

end

/-- Whether a node of a kind is a declaration of variables or constants, or a part of one. -/
def Kind.isVariables : Kind → Bool
  | .varDeclaration | .constDeclaration | .varSpecList | .constSpecList | .varSpec | .constSpec =>
    true
  | _ => false

/-- What a declaration of variables or constants, or a part of one, can stand below. -/
theorem Kind.mayHold_variables {parent : Kind} {n : Node} (hn : n.kind.isVariables = true)
    (hallowed : parent.mayHold n = true) :
    parent.isSequence = true ∨ parent = .labeledStatement ∨ Grouped parent n.kind := by
  cases hkind : n.kind <;> rw [hkind] at hn <;> cases hn
  all_goals simp only [Kind.mayHold, hkind, Bool.or_eq_true, decide_eq_true_eq] at hallowed
  case varDeclaration => exact hallowed.imp_right .inl
  case constDeclaration => exact hallowed.imp_right .inl
  case varSpecList => exact .inr (.inr (hallowed ▸ .list))
  case varSpec =>
    rcases hallowed with rfl | rfl
    · exact .inr (.inr .variables)
    · exact .inr (.inr .listed)
  case constSpecList => exact .inr (.inr (hallowed ▸ .constantList))
  case constSpec =>
    rcases hallowed with rfl | rfl
    · exact .inr (.inr .constants)
    · exact .inr (.inr .listedConstants)

/-- A declaration of variables or constants is no punctuation. -/
theorem Kind.isSolid_of_isVariables {kind : Kind} (h : kind.isVariables = true) :
    kind.isSolid = true := by
  cases kind <;> first | rfl | cases h

/-- A sequence below the top of a file is a block, without a rule of its own. -/
theorem Kind.isBlock_of_isSequence {kind : Kind} (h : kind.isSequence = true)
    (hfile : kind ≠ .sourceFile) : kind.isBlock = true ∧ kind.hasRule = false := by
  cases kind <;> first | exact ⟨rfl, rfl⟩ | exact absurd rfl hfile | cases h

/-- What holds specifications declares variables or constants, as a sequence does. -/
theorem Kind.Grouped.isVariables {parent part : Kind} (h : Grouped parent part) :
    parent.isVariables = true ∧ parent.hasRule = false := by
  cases h <;> exact ⟨rfl, rfl⟩

/-! ## Declarations in scope are found -/

section

variable {root : Node} {words : Nat → Nat → Prop} {use scope d x : Cursor} {n : Node}

/-- What is around a use, except for the file, is a local scope. -/
theorem mem_localScopes_of_mem_enclosing (hroot : root.SourceFile words) (h : Cursor.At root use)
    (hx : scope ∈ use.enclosing) (hfile : scope.node.kind ≠ .sourceFile) :
    scope ∈ localScopes use := by
  induction h with
  | root => cases hx
  | @child c n parent hn ih =>
    rcases parent.cases hroot with rfl | ⟨hkind, -⟩
    · cases List.mem_singleton.1 hx
      exact absurd hroot.kind hfile
    · have hcons : localScopes (c.child n) = c :: localScopes c := by
        simp [localScopes, Cursor.path, hkind]
      rw [hcons]
      rcases List.mem_cons.1 hx with rfl | hx
      · exact List.mem_cons_self
      · exact List.mem_cons_of_mem c (ih hx)

/-- The innermost block around a child is its parent, or the one around that. -/
theorem block?_child (x : Cursor) (n : Node) :
    (x.child n).block? = if x.node.kind.isBlock then some x else x.block? := by
  simp only [Cursor.block?, Cursor.enclosing_child, Cursor.path, List.find?_cons]
  cases x.node.kind.isBlock <;> rfl

/-- Between a child and its block are its parent and all between that and the block. -/
theorem belowBlock_child (x : Cursor) (n : Node) :
    (x.child n).belowBlock = if x.node.kind.isBlock then [] else x :: x.belowBlock := by
  simp only [Cursor.belowBlock, Cursor.enclosing_child, Cursor.path, List.takeWhile_cons]
  cases x.node.kind.isBlock <;> rfl

/-- A part is a named child. -/
theorem child_mem_named (hn : n ∈ x.node.children) (hsolid : n.kind.isSolid = true) :
    x.child n ∈ x.named := by
  refine List.mem_map_of_mem (List.mem_filter.2 ⟨hn, ?_⟩)
  have hkind : n.kind ≠ .punctuation := by
    intro hkind
    rw [hkind] at hsolid
    cases hsolid
  simpa [Node.isNamed] using hkind

/-- A place in a block is not at the top of the file, so it is a part of the node around it. -/
theorem part_of_block? (hroot : root.SourceFile words) (h : Cursor.At root (x.child n))
    (hblock : (x.child n).block? = some scope) (hsolid : n.kind.isSolid = true) :
    x.node.kind ≠ .sourceFile ∧ x.node.Shaped words ∧ n.Part x.node.kind := by
  obtain ⟨hx, hn⟩ := h.of_child
  have hfile : x.node.kind ≠ .sourceFile := by
    intro hfile
    rcases hx.cases hroot with rfl | ⟨hkind, -⟩
    -- Only the file is around the place then, and a file is no block.
    · have hnone : scope.node.kind.isBlock = true := by simpa using List.find?_some hblock
      cases List.mem_singleton.1 (List.mem_of_find?_eq_some hblock)
      rw [hfile] at hnone
      cases hnone
    · exact hkind hfile
  have haround := h.isSolid_of_mem_path hroot hsolid (x := x) (by simp [Cursor.path])
  have hshaped := hx.shaped hroot hfile haround
  exact ⟨hfile, hshaped, hshaped.regular.held n (Node.mem_solid.2 ⟨hn, hsolid⟩)⟩

end

section

variable {file : File} {name : String} {words : Nat → Nat → Prop}
  (hroot : file.root.SourceFile words) {use x block d : Cursor} {n : Node}
  (huse : Cursor.At file.root use)

include hroot huse

/-- A name that a node around the use declares has a local origin. -/
theorem localOrigin?_of_enclosing (hx : x ∈ use.enclosing) (hfile : x.node.kind ≠ .sourceFile)
    (hsome : (originIn? file name use.node.start x).isSome = true) :
    ∃ origin, localOrigin? file name use = some origin :=
  localOrigin?_of_scope (mem_localScopes_of_mem_enclosing hroot huse hx hfile) hsome

/-- The clause of a loop is found from the loop. -/
theorem localOrigin?_of_clause (hclause : Cursor.At file.root (x.child n))
    (hkind : n.kind = .rangeClause ∨ n.kind = .forClause)
    (hsome : (clauseOrigin? file name (x.child n)).isSome = true)
    (hblock : (x.child n).block? = some block) (hinside : block ∈ use.enclosing) :
    ∃ origin, localOrigin? file name use = some origin := by
  have hsolid : n.kind.isSolid = true := by
    rcases hkind with hkind | hkind <;> rw [hkind] <;> rfl
  obtain ⟨hfile, -, hpart⟩ := part_of_block? hroot hclause hblock hsolid
  have hloop : x.node.kind = .forStatement := by
    have hallowed := hpart.allowed
    rcases hkind with hkind | hkind <;> simpa [Kind.mayHold, hkind] using hallowed
  rw [block?_child, if_pos (by simp [hloop, Kind.isBlock])] at hblock
  cases hblock
  have hnamed := child_mem_named hclause.of_child.2 hsolid
  exact localOrigin?_of_enclosing hroot huse hinside hfile (originIn?_of_clause hloop hnamed hsome)

/-- A short declaration is found from its block: among the statements before the use, in the header
of a statement, or in the clause of a loop. -/
theorem localOrigin?_of_short (hd : Cursor.At file.root (x.child n))
    (hkind : n.kind = .shortVarDeclaration)
    (hsome : (statementBinding? file (x.child n) name).isSome = true)
    (hstep : (x.child n).isStep = false) (hblock : (x.child n).block? = some block)
    (hinside : block ∈ use.enclosing) (hafter : n.stop ≤ use.node.start)
    (hlabel : ∀ y ∈ (x.child n).belowBlock, y.node.kind = .labeledStatement → y ∈ use.enclosing) :
    ∃ origin, localOrigin? file name use = some origin := by
  have hsolid : n.kind.isSolid = true := by rw [hkind]; rfl
  obtain ⟨hfile, hshaped, hpart⟩ := part_of_block? hroot hd hblock hsolid
  obtain ⟨hx, hn⟩ := hd.of_child
  have hallowed := hpart.allowed
  simp only [Kind.mayHold, hkind, Bool.or_eq_true, Bool.and_eq_true, decide_eq_true_eq] at hallowed
  rw [block?_child] at hblock
  rw [belowBlock_child] at hlabel
  have hnamed := child_mem_named hn hsolid
  -- The grammar has a short declaration in a sequence, behind a label, in the clause of a loop, and
  -- in the header of a statement.
  rcases hallowed with ((hsequence | hlabeled) | hclause) | ⟨hheader, hrole⟩
  · have hrules := Kind.isBlock_of_isSequence hsequence hfile
    rw [if_pos hrules.1] at hblock
    cases hblock
    exact localOrigin?_of_enclosing hroot huse hinside hfile
      (originIn?_of_before hrules.2 hnamed hafter hsome)
  · rw [if_neg (by simp [hlabeled, Kind.isBlock])] at hlabel
    have haround := hlabel x List.mem_cons_self hlabeled
    exact localOrigin?_of_enclosing hroot huse haround hfile
      (originIn?_of_before (by simp [hlabeled, Kind.hasRule]) hnamed hafter hsome)
  · -- It opens the clause, since what a loop does after each round declares nothing.
    have hinitializer : n.role = .initializer := by
      by_contra hrole
      simp [Cursor.isStep, Cursor.child, hclause, hrole] at hstep
    have hfound := hshaped.inRole?_initializer hn hinitializer
    have horigin : (clauseOrigin? file name x).isSome = true := by
      rw [clauseOrigin?, hclause]
      exact initializerOrigin?_isSome (by simp [Cursor.inRole?, hfound]) hsome
    rw [if_neg (by simp [hclause, Kind.isBlock])] at hblock
    obtain ⟨y, m, rfl⟩ := hx.exists_parent hroot hfile
    exact localOrigin?_of_clause hroot huse hx (.inr hclause) horigin hblock hinside
  · have hrules : x.node.kind.isBlock = true := by
      generalize x.node.kind = kind at hheader
      cases kind <;> first | rfl | cases hheader
    rw [if_pos hrules] at hblock
    cases hblock
    have hfound := hshaped.inRole?_initializer hn hrole
    exact localOrigin?_of_enclosing hroot huse hinside hfile
      (originIn?_of_header hheader (by simp [Cursor.inRole?, hfound]) hsome)

/-- A declaration of variables or constants is found from the innermost node around it that is also
around the use, be it the block or a larger part of the declaration. -/
theorem localOrigin?_of_group {c : Cursor} (hkind : use.node.kind = .identifier)
    (hd : Cursor.At file.root d) (hdSolid : d.node.kind.isSolid = true)
    (hafter : d.node.stop ≤ use.node.start) (hc : Cursor.At file.root c) (hpath : c ∈ d.path)
    (hvariables : c.node.kind.isVariables = true)
    (hsome : (statementBinding? file c name).isSome = true) (hapart : c ∉ use.path)
    (hblock : c.block? = some block) (hinside : block ∈ use.enclosing)
    (hlabel : ∀ y ∈ c.belowBlock, y.node.kind = .labeledStatement → y ∈ use.enclosing) :
    ∃ origin, localOrigin? file name use = some origin := by
  -- By induction on the place: a part of the declaration that the use is not in is found from the
  -- node around it, if the use is in there, and otherwise that node takes its place.
  induction hc with
  | root =>
    rw [hroot.kind] at hvariables
    cases hvariables
  | @child x n hx hn ih =>
    have hsolid := Kind.isSolid_of_isVariables hvariables
    obtain ⟨hfile, -, hpart⟩ := part_of_block? hroot (.child hx hn) hblock hsolid
    have hparent := Kind.mayHold_variables hvariables hpart.allowed
    rw [block?_child] at hblock
    rw [belowBlock_child] at hlabel
    have hnamed := child_mem_named hn hsolid
    by_cases haround : x ∈ use.enclosing
    · have hstop := hd.stop_le_of_apart hroot huse haround hfile hpath hapart hafter hdSolid
        (by rw [hkind]; rfl) (by simp [hkind])
      have hrule : x.node.kind.hasRule = false := by
        rcases hparent with hsequence | hlabeled | hgrouped
        · exact (Kind.isBlock_of_isSequence hsequence hfile).2
        · simp [hlabeled, Kind.hasRule]
        · exact hgrouped.isVariables.2
      exact localOrigin?_of_enclosing hroot huse haround hfile
        (originIn?_of_before hrule hnamed hstop hsome)
    · -- The node around is no block, so it is a larger part of the declaration.
      have hnoBlock : x.node.kind.isBlock ≠ true := by
        intro hb
        rw [if_pos hb] at hblock
        cases hblock
        exact haround hinside
      rw [if_neg hnoBlock] at hblock hlabel
      obtain ⟨hlabelX, hlabel⟩ := List.forall_mem_cons.1 hlabel
      rcases hparent with hsequence | hlabeled | hgrouped
      · exact absurd (Kind.isBlock_of_isSequence hsequence hfile).1 hnoBlock
      · exact absurd (hlabelX hlabeled) haround
      · have hvariablesX := hgrouped.isVariables.1
        have hapartX : x ∉ use.path := by
          intro hx
          rcases List.mem_cons.1 hx with rfl | hx
          · rw [hkind] at hvariablesX
            cases hvariablesX
          · exact haround hx
        exact ih (List.mem_cons_of_mem d (hd.mem_enclosing_of_child hpath)) hvariablesX
          (statementBinding?_group hnamed hgrouped hsome) hapartX hblock hlabel

/-- A declaration in scope that is not received or behind a label is found. -/
theorem localOrigin?_of_declares (hkind : use.node.kind = .identifier) (hd : Cursor.At file.root d)
    (hname : Declares file name d) (hblock : d.block? = some block)
    (hinside : block ∈ use.enclosing) (hafter : d.node.stop ≤ use.node.start)
    (hreceive : d.node.kind ≠ .receiveStatement)
    (hlabel : ∀ y ∈ d.belowBlock, y.node.kind = .labeledStatement → y ∈ use.enclosing) :
    ∃ origin, localOrigin? file name use = some origin := by
  cases hname with
  | @items item hitems hstep hitem hname =>
    have hfile : d.node.kind ≠ .sourceFile := by
      rcases hitems with hd | hd | hd <;> simp [hd]
    obtain ⟨x, n, rfl⟩ := hd.exists_parent hroot hfile
    rcases hitems with hshort | hrange | hreceived
    · have hsome := statementBinding?_short hshort hitem hname
      exact localOrigin?_of_short hroot huse hd hshort hsome hstep hblock hinside hafter hlabel
    · have hdeclares : declaresItem file (x.child n) .left name = true :=
        List.any_eq_true.2 ⟨item, hitem, by simpa using hname⟩
      have hsome : (clauseOrigin? file name (x.child n)).isSome = true := by
        rw [clauseOrigin?, hrange]
        simp [hdeclares]
      exact localOrigin?_of_clause hroot huse hd (.inl hrange) hsome hblock hinside
    · exact absurd hreceived hreceive
  | names hspec hitem hname =>
    have hvariables : d.node.kind.isVariables = true := by
      rcases hspec with hspec | hspec <;> simp [hspec, Kind.isVariables]
    have hfile : d.node.kind ≠ .sourceFile := by
      rcases hspec with hspec | hspec <;> simp [hspec]
    -- The use is after the declaration, so it is not inside it.
    have hapart : d ∉ use.path := by
      intro hpath
      have hsolid : use.node.kind.isSolid = true := by rw [hkind]; rfl
      have hwithin := huse.within hroot hpath hfile hsolid
      have hnonempty := (huse.shaped hroot (by simp [hkind]) hsolid).regular.nonempty
      omega
    exact localOrigin?_of_group hroot huse hkind hd (Kind.isSolid_of_isVariables hvariables) hafter
      hd List.mem_cons_self hvariables (statementBinding?_spec hspec hitem hname) hapart hblock
      hinside hlabel

end

/-! ## The main statement -/

/-- The statements of a block, and the parts of those that are no blocks. -/
def Cursor.declarations (block : Cursor) : List Cursor :=
  block.named.flatMap fun c => c :: if c.node.kind.isBlock then [] else c.named

/-- The block of a declaration is the one that it is listed for. -/
theorem Cursor.At.block?_of_mem_declarations {root : Node} {block d : Cursor}
    (h : Cursor.At root block) (hblock : block.node.kind.isBlock = true)
    (hd : d ∈ block.declarations) :
    Cursor.At root d ∧ d.block? = some block := by
  have hmem : ∀ {x : Cursor} {n : Node}, n ∈ x.node.named → n ∈ x.node.children :=
    fun hn => List.mem_of_mem_filter hn
  obtain ⟨c, hc, hd⟩ := List.mem_flatMap.1 hd
  obtain ⟨n, hn, rfl⟩ := List.mem_map.1 hc
  have hchild : Cursor.At root (block.child n) := .child h (hmem hn)
  have hfound : (block.child n).block? = some block := by rw [block?_child, if_pos hblock]
  -- A declaration is a statement of the block, or one level deeper in a group of them.
  rcases List.mem_cons.1 hd with rfl | hd
  · exact ⟨hchild, hfound⟩
  · split at hd
    next => cases hd
    next hno =>
      obtain ⟨m, hm, rfl⟩ := List.mem_map.1 hd
      refine ⟨.child hchild (hmem hm), ?_⟩
      rw [block?_child, if_neg (by simpa using hno), hfound]

/-- A test of the uses of a name in a file finds a use and a declaration in scope. -/
theorem exists_inScope_of_any (fileName : String) (source : List Char) (name : String)
    (test : File → Cursor → Cursor → Bool)
    (h : (File.read Grammar.parser fileName source).toOption.any (fun file =>
      file.root.preorder.any fun use =>
      use.node.kind = .identifier && use.enclosing.any fun block =>
        block.node.kind.isBlock && block.declarations.any fun d =>
          (Declares file name d && d.node.stop ≤ use.node.start) && test file use d) = true) :
    ∃ file use d, File.read Grammar.parser fileName source = .ok file ∧ use ∈ file.root.preorder
      ∧ use.node.kind = .identifier ∧ InScope file name use d ∧ test file use d = true := by
  obtain ⟨file, hfile, h⟩ := File.exists_of_any h
  obtain ⟨use, huse, h⟩ := List.any_eq_true.1 h
  obtain ⟨hkind, h⟩ := Bool.and_eq_true_iff.1 h
  obtain ⟨block, hinside, h⟩ := List.any_eq_true.1 h
  obtain ⟨hblock, h⟩ := Bool.and_eq_true_iff.1 h
  obtain ⟨d, hd, h⟩ := List.any_eq_true.1 h
  obtain ⟨hdeclares, htest⟩ := Bool.and_eq_true_iff.1 h
  obtain ⟨hname, hafter⟩ : Declares file name d ∧ d.node.stop ≤ use.node.start := by
    simpa using hdeclares
  have hat := (Cursor.at_of_mem_preorder huse).of_mem_path (List.mem_cons_of_mem use hinside)
  obtain ⟨hdat, hfound⟩ := Cursor.At.block?_of_mem_declarations hat hblock hd
  exact ⟨file, use, d, hfile, huse, by simpa using hkind,
    .declared hdat hname hfound hinside hafter, htest⟩

/-- A function that declares a name of the package once more, by some statements. -/
def shadowingSource (statements : String) : List Char :=
  ("package main\n\nvar set S\n\nfunc run(ch C) \x7b\n" ++ statements ++ "\x7d\n").toList

/-- Where a local declaration of a name is in scope in the tree of a Go file, the name is found to
stand for a local one, and no package changes what the look-up gives.  Receive statements are left
out, and declarations behind a label that is not also around the use. -/
theorem lookup?_of_inScope {words : Nat → Nat → Prop} {file : File} {name : String}
    {use d : Cursor} (hroot : file.root.SourceFile words)
    (huse : use ∈ file.root.preorder) (hkind : use.node.kind = .identifier)
    (hscope : InScope file name use d) (hreceive : d.node.kind ≠ .receiveStatement)
    (hlabel : ∀ y ∈ d.belowBlock, y.node.kind = .labeledStatement → y ∈ use.enclosing) :
    ∃ origin, localOrigin? file name use = some origin
      ∧ ∀ package : Package, package.lookup? file name use = origin.binding? file name := by
  have hat := Cursor.at_of_mem_preorder huse
  -- The package is asked only where nothing local is found, so a local origin settles the look-up.
  suffices hlocal : ∃ origin, localOrigin? file name use = some origin by
    obtain ⟨origin, horigin⟩ := hlocal
    refine ⟨origin, horigin, fun package => ?_⟩
    rw [lookup?_eq_origin, horigin]
  cases hscope with
  | declared hd hname hblock hinside hafter =>
    exact localOrigin?_of_declares hroot hat hkind hd hname hblock hinside hafter hreceive hlabel
  | parameter hfunction hlist hdeclaration hitem hname hbody hinside =>
    obtain ⟨body, -, rfl⟩ := Option.map_eq_some_iff.1 hbody
    have haround := hat.mem_enclosing_of_child (List.mem_cons_of_mem use hinside)
    refine localOrigin?_of_enclosing hroot hat haround ?_
      (originIn?_of_parameter hfunction hlist (parameterBinding?_isSome hdeclaration hitem hname))
    rcases hfunction with h | h | h <;> simp [h]
  | switchName hswitch hnames hitem hname hclause hcase hinside =>
    obtain ⟨clause, -, rfl⟩ := List.mem_map.1 hclause
    have haround := hat.mem_enclosing_of_child (List.mem_cons_of_mem use hinside)
    refine localOrigin?_of_enclosing hroot hat haround (by simp [hswitch])
      (originIn?_of_switchName hswitch ?_)
    simp only [declaresItem, itemsInRole, hnames]
    exact List.any_eq_true.2 ⟨_, hitem, by simpa using hname⟩

/-- A variable of a function, as a case. -/
theorem lookup?_of_inScope_variable :
    ∃ file use d,
      File.read Grammar.parser "main.go" (shadowingSource "\tvar set = other()\n\tuse(set)\n")
        = .ok file
      ∧ use ∈ file.root.preorder ∧ use.node.kind = .identifier
      ∧ InScope file "set" use d ∧ d.node.kind ≠ .receiveStatement
      ∧ (∀ y ∈ d.belowBlock, y.node.kind = .labeledStatement → y ∈ use.enclosing)
      ∧ ∃ origin, localOrigin? file "set" use = some origin
        ∧ ∀ package : Package, package.lookup? file "set" use = origin.binding? file "set" := by
  obtain ⟨file, use, d, hfile, huse, hkind, hscope, h⟩ :=
    exists_inScope_of_any "main.go" (shadowingSource "\tvar set = other()\n\tuse(set)\n") "set"
      (fun _ _ d => d.node.kind ≠ .receiveStatement
        && d.belowBlock.all (·.node.kind ≠ .labeledStatement)) (by decide +kernel)
  obtain ⟨hreceive, hlabel⟩ : d.node.kind ≠ .receiveStatement
      ∧ ∀ y ∈ d.belowBlock, y.node.kind ≠ .labeledStatement := by simpa using h
  have hlabel : ∀ y ∈ d.belowBlock, y.node.kind = .labeledStatement → y ∈ use.enclosing :=
    fun y hy hk => absurd hk (hlabel y hy)
  exact ⟨file, use, d, hfile, huse, hkind, hscope, hreceive, hlabel,
    lookup?_of_inScope (Grammar.parser_sound.sourceFile hfile) huse hkind hscope hreceive hlabel⟩

/-- Behind some statements a name stands for the variable of the package, although a local
declaration of it is in scope. -/
def PassesOverLocal (statements : String) : Prop :=
  ∃ file use d, File.read Grammar.parser "main.go" (shadowingSource statements) = .ok file
    ∧ use ∈ file.root.preorder ∧ use.node.kind = .identifier ∧ InScope file "set" use d
    ∧ Package.lookup? ⟨"main", [file]⟩ file "set" use = Package.binding? ⟨"main", [file]⟩ "set"
    ∧ (Package.binding? ⟨"main", [file]⟩ "set").isSome = true

/-- What a case of a selection receives is passed over, and so is a declaration with a label. -/
theorem lookup?_ignores_received_and_labeled :
    PassesOverLocal "\tselect \x7b\n\tcase set := <-ch:\n\t\tuse(set)\n\t\x7d\n"
      ∧ PassesOverLocal "start:\n\tset := other()\n\tuse(set)\n\tgoto start\n" := by
  have hpasses : ∀ statements ∈ ["\tselect \x7b\n\tcase set := <-ch:\n\t\tuse(set)\n\t\x7d\n",
      "start:\n\tset := other()\n\tuse(set)\n\tgoto start\n"], PassesOverLocal statements := by
    intro statements hstatements
    obtain ⟨file, use, d, hfile, huse, hkind, hscope, h⟩ :=
      exists_inScope_of_any "main.go" (shadowingSource statements) "set"
        (fun file use _ => (localOrigin? file "set" use).isNone
          && (Package.binding? ⟨"main", [file]⟩ "set").isSome)
        (by revert statements; decide +kernel)
    obtain ⟨hnone, hpackage⟩ := Bool.and_eq_true_iff.1 h
    refine ⟨file, use, d, hfile, huse, hkind, hscope, ?_, hpackage⟩
    rw [lookup?_eq_origin, Option.isNone_iff_eq_none.1 hnone]
  exact ⟨hpasses _ (by simp), hpasses _ (by simp)⟩

end FieldAudit.Go
