import FieldAudit.Proofs.Reading.Passage

/-! # Variables in scope

A variable is in scope from the pipe that declares it to the end of the branch around that pipe,
or to the end of the template.  `Node.scopeAfter?` walks a node with the variables that are in
scope before it and gives those in scope after it; a use of any other variable makes it fail.  The
variables in scope while a template is read are those of the tree that is read
(`Phrase.Reads.scopeAfter?_eq`, `Passage.Reads.scoped`), so every template that can be read is well
scoped (`ofTokens_wellScoped`). -/

namespace FieldAudit.Template

/-! ## Scopes of trees -/

/-- The scope after variables have been declared one by one. -/
def declareAll (decls : List Variable) (scope : List String) : List String :=
  decls.foldl (fun scope v => v.path.take 1 ++ scope) scope

/-- Whether the name at the start of a variable's path is in scope. -/
def Variable.inScope (v : Variable) (scope : List String) : Bool :=
  v.path.head?.any scope.contains

mutual

/-- The scope after a node, unless the node uses a variable that is not in scope.  What is declared
inside a branch is dropped at its end. -/
def Node.scopeAfter? (scope : List String) : Node → Option (List String)
  | .action _ p => pipeScope? scope p
  | .pipe p => pipeScope? scope p
  | .command c => commandScope? scope c
  | .chain _ inner _ => inner.scopeAfter? scope
  | .variable v => if v.inScope scope then some scope else none
  | .branch _ _ p body alternative => do
    let inside ← pipeScope? scope p
    let inside ← blockScope? inside body
    let _ ← block?Scope? inside alternative
    return scope
  | .template _ _ p => pipe?Scope? scope p
  | .list b => blockScope? scope b
  | .text .. | .field .. | .identifier .. | .dot .. | .nil .. | .bool .. | .number .. | .string ..
  | .breakLoop .. | .continueLoop .. => some scope

/-- The scope after a pipe.  Its commands see the variables it declares. -/
def pipeScope? (scope : List String) : Pipe Node → Option (List String)
  | ⟨_, decls, commands⟩ => commandsScope? (declareAll decls scope) commands

/-- The scope after a pipe that may be absent. -/
def pipe?Scope? (scope : List String) : Option (Pipe Node) → Option (List String)
  | none => some scope
  | some pipe => pipeScope? scope pipe

/-- The scope after commands. -/
def commandsScope? (scope : List String) : List (Command Node) → Option (List String)
  | [] => some scope
  | command :: rest => do commandsScope? (← commandScope? scope command) rest

/-- The scope after a command. -/
def commandScope? (scope : List String) : Command Node → Option (List String)
  | ⟨_, args⟩ => nodesScope? scope args

/-- The scope after a block. -/
def blockScope? (scope : List String) : Block Node → Option (List String)
  | ⟨_, nodes⟩ => nodesScope? scope nodes

/-- The scope after a block that may be absent. -/
def block?Scope? (scope : List String) : Option (Block Node) → Option (List String)
  | none => some scope
  | some block => blockScope? scope block

/-- The scope after nodes. -/
def nodesScope? (scope : List String) : List Node → Option (List String)
  | [] => some scope
  | node :: rest => do nodesScope? (← node.scopeAfter? scope) rest

end

/-- Every use of a variable in a template body is in scope, starting with the data alone. -/
def Block.WellScoped (block : Block Node) : Prop :=
  (blockScope? initialScope block).isSome

instance (block : Block Node) : Decidable block.WellScoped :=
  inferInstanceAs (Decidable (_ = true))

/-- The scope behind two lists is found by going through one and then the other. -/
theorem nodesScope?_append (scope : List String) (left right : List Node) :
    nodesScope? scope (left ++ right) =
      (nodesScope? scope left).bind (nodesScope? · right) := by
  induction left generalizing scope with
  | nil => rfl
  | cons node rest ih =>
    simp only [List.cons_append, nodesScope?, Option.bind_eq_bind]
    cases node.scopeAfter? scope with
    | none => rfl
    | some scope' => exact ih scope'

/-! ## Scopes while reading pipes -/

/-- Declarations extend the scope by the variables they name. -/
theorem declarations_scope {context : Context} {more : Nat} {s s' : Input}
    {decls : List Variable} (h : declarations context more s = .ok (decls, s')) :
    s'.scope = declareAll decls s.scope := by
  rw [declarations_eq_ok_iff] at h
  induction h with
  | none => rfl
  | last => rfl
  | cons hv hm hk h ih => exact ih

/-- An atom leaves the scope as it is. -/
theorem atom?_scopeAfter? {scope : List String} {t : Token} {node : Node}
    (h : atom? scope t = .ok (some node)) : node.scopeAfter? scope = some scope := by
  rcases atom?_cases h with ⟨-, rfl⟩ | ⟨-, hin, rfl⟩ | ⟨-, rfl⟩ | ⟨-, hl⟩
  · rfl
  · rw [Node.scopeAfter?, Variable.inScope]
    simp only [List.head?_cons, Option.any_some, hin, if_true]
  · rfl
  · unfold Node.isLiteral at hl
    split at hl
    all_goals first | rfl | cases hl

/-- Fields taken from a node leave its variables as they are. -/
theorem select_scopeAfter? {pos : Nat} {fields : List String} {node : Node}
    {scope scope' : List String} (h : node.scopeAfter? scope = some scope') :
    (node.select pos fields).scopeAfter? scope = some scope' := by
  unfold Node.select
  split
  next => exact h
  next v =>
    -- A variable in scope has a name, and its fields are added after the name.
    obtain ⟨vpos, path⟩ := v
    cases path with
    | nil => cases h
    | cons name rest => exact h
  next => rw [Node.scopeAfter?]; exact h

/-- Trailing fields leave the scope as it is. -/
theorem withFields_scope {node node' : Node} {s s' : Input} {scope scope' : List String}
    (hf : withFields node s = .ok (node', s')) (h : node.scopeAfter? scope = some scope') :
    node'.scopeAfter? scope = some scope' ∧ s'.scope = s.scope := by
  rcases withFields_cases hf with ⟨-, rfl, rfl⟩ | ⟨first, rest, -, -, -, rfl, rfl⟩
  · exact ⟨h, rfl⟩
  · exact ⟨select_scopeAfter? h, rfl⟩

/-- The scope after a phrase. -/
def Phrase.scopeAfter? (scope : List String) : Phrase → Option (List String)
  | .pipe _ _ p => pipeScope? scope p
  | .commands _ cs => commandsScope? scope cs
  | .arguments as => nodesScope? scope as
  | .operand a => nodesScope? scope a.toList

/-- Reading a phrase leaves the scope that the phrase itself leaves. -/
theorem Phrase.Reads.scopeAfter?_eq {phrase : Phrase} {s s' : Input} (h : phrase.Reads s s') :
    phrase.scopeAfter? s.scope = some s'.scope := by
  -- The readers hand the scope on from part to part in the order in which the specification does.
  induction h with
  | pipe hd hc hp ih =>
    rw [Phrase.scopeAfter?, pipeScope?, ← declarations_scope hd]
    exact ih
  | close => rfl
  | command hk hs ha hn hl hc iha ihc =>
    have iha : nodesScope? _ _ = _ := iha
    simp only [Phrase.scopeAfter?, commandsScope?, commandScope?, iha, Option.bind_eq_bind,
      Option.bind_some]
    exact ihc
  | @spaced s s₁ s₂ arg args ho hk hl ha iho iha =>
    have iho : nodesScope? s.scope arg.toList = some s₁.scope := iho
    calc nodesScope? s.scope (arg.toList ++ args)
        = (nodesScope? s.scope arg.toList).bind (nodesScope? · args) := nodesScope?_append ..
      _ = nodesScope? s₁.scope args := by rw [iho]; rfl
      _ = some s₂.scope := iha
  | closed ho hk ih => exact ih
  | piped ho hk ih => exact ih
  | @parenthesis s s₁ s₂ pipe node hk hp hf ih =>
    have ih : (Node.pipe pipe).scopeAfter? s.scope = some s₁.scope := by
      rw [Node.scopeAfter?]; exact ih
    obtain ⟨hnode, hscope⟩ := withFields_scope hf ih
    simp only [Phrase.scopeAfter?, Option.toList_some, nodesScope?, hnode, hscope,
      Option.bind_eq_bind, Option.bind_some]
  | @atom s s₁ base node ha hf =>
    obtain ⟨hnode, hscope⟩ := withFields_scope hf (atom?_scopeAfter? ha)
    simp only [Phrase.scopeAfter?, Option.toList_some, nodesScope?, hnode, hscope,
      Option.bind_eq_bind, Option.bind_some]
    rfl
  | absent hk ha => rfl

/-! ## Scopes while reading templates -/

/-- A passage leaves the scope of the tree it is read from, and the body of a defined template is
read in a scope of its own. -/
def Passage.Scoped : Passage → State → State → Prop
  | .items _ nodes _, s, s' => nodesScope? s.input.scope nodes = some s'.input.scope
  | .item _ (.node n), s, s' => n.scopeAfter? s.input.scope = some s'.input.scope
  | .item _ (.ending _), s, s' => s'.input.scope = s.input.scope
  | .branch _ _ n, s, s' => n.scopeAfter? s.input.scope = some s'.input.scope
  | .block _ n, s, s' => n.scopeAfter? s.input.scope = some s'.input.scope
  | .body _ root, s, s' => root.WellScoped ∧ s'.input.scope = s.input.scope
  | .definition, s, s' => s'.input.scope = s.input.scope
  | .document nodes, s, s' => nodesScope? s.input.scope nodes = some s'.input.scope

/-- The scope inside a branch goes from its pipe through its body to its alternative. -/
theorem scopeAfter?_branch {kind : BranchKind} {pos bodyPos : Nat} {pipe : Pipe Node}
    {nodes : List Node} {alternative : Option (Block Node)}
    {scope inside inside' after : List String}
    (hp : pipeScope? scope pipe = some inside) (hb : nodesScope? inside nodes = some inside')
    (ha : block?Scope? inside' alternative = some after) :
    (Node.branch kind pos pipe ⟨bodyPos, nodes⟩ alternative).scopeAfter? scope = some scope := by
  rw [Node.scopeAfter?, hp]
  simp only [Option.bind_eq_bind, Option.bind_some, blockScope?, hb, ha, Option.pure_def]

/-- Whatever is read is scoped as the reader's state says. -/
theorem Passage.Reads.scoped {passage : Passage} {s s' : State} (h : passage.Reads s s') :
    passage.Scoped s s' := by
  induction h with
  | @last depth ending s s₁ hk hi ih =>
    have ih : s₁.input.scope = s.input.scope := ih
    show nodesScope? s.input.scope [] = some s₁.input.scope
    rw [ih]; rfl
  | @more depth node nodes ending s s₁ s₂ hk hi hl hr ihi ihr =>
    have ihi : node.scopeAfter? s.input.scope = some s₁.input.scope := ihi
    show nodesScope? _ (node :: nodes) = _
    rw [nodesScope?, ihi]
    exact ihr
  | text hk => rfl
  | branch ho hb ih => exact ih
  | block ho hb ih => exact ih
  | endAction ho hr => rfl
  | elseAction ho hr => rfl
  | elseBranch ho hb => rfl
  | breakAction ho hr hd => rfl
  | continueAction ho hr hd => rfl
  | bareCall ho hn hr => rfl
  | call ho hn hr hp => exact hp.scopeAfter?_eq
  | action ho hw hp => exact hp.scopeAfter?_eq
  | @single depth kind pipe nodes pos s s₁ input hp hi ih =>
    have hp : pipeScope? s.input.scope pipe = some input.scope := hp.scopeAfter?_eq
    have ih : nodesScope? input.scope nodes = some s₁.input.scope := ih
    exact scopeAfter?_branch hp ih rfl
  | @chained depth kind pipe nodes pos nested s s₁ s₂ input hp hi hl hk hb ihi ihb =>
    have hp : pipeScope? s.input.scope pipe = some input.scope := hp.scopeAfter?_eq
    have ihi : nodesScope? input.scope nodes = some s₁.input.scope := ihi
    have ihb : nested.scopeAfter? s₁.input.scope = some s₂.input.scope := ihb
    have ha : block?Scope? s₁.input.scope (some ⟨pos, [nested]⟩) = some s₂.input.scope := by
      rw [block?Scope?, blockScope?, nodesScope?, ihb]; rfl
    exact scopeAfter?_branch hp ihi ha
  | @double depth kind pipe nodes others pos pos' s s₁ s₂ input hp hi hl hk ha ihi iha =>
    have hp : pipeScope? s.input.scope pipe = some input.scope := hp.scopeAfter?_eq
    have ihi : nodesScope? input.scope nodes = some s₁.input.scope := ihi
    exact scopeAfter?_branch hp ihi iha
  | @blockCall depth name pipe root defines s s₁ input hn hp hb hd ih =>
    have ih : root.WellScoped ∧ s₁.input.scope = input.scope := ih
    show Node.scopeAfter? _ (.template _ _ _) = some s₁.input.scope
    rw [Node.scopeAfter?, pipe?Scope?, ih.2]
    exact hp.scopeAfter?_eq
  | @body depth nodes pos s s₁ hi ih =>
    have ih : nodesScope? initialScope nodes = some s₁.input.scope := ih
    refine ⟨?_, rfl⟩
    rw [Block.WellScoped, blockScope?, ih]
    rfl
  | definition hn hr hb hd ih => exact ih.2
  | finished hk => rfl
  | @defined nodes s s₁ s₂ hk hw hd hl hr ihd ihr =>
    have ihd : s₁.input.scope = s.input.scope := ihd
    have ihr : nodesScope? s₁.input.scope nodes = some s₂.input.scope := ihr
    -- The body of the definition was read in a scope of its own.
    rw [ihd] at ihr
    exact ihr
  | @node node nodes s s₁ s₂ hk hn hi hl hr ihi ihr =>
    have ihi : node.scopeAfter? s.input.scope = some s₁.input.scope := ihi
    show nodesScope? _ (node :: nodes) = _
    rw [nodesScope?, ihi]
    exact ihr

/-- Every template that can be read is well scoped, and so is every template defined in it. -/
theorem ofTokens_wellScoped {tokens : List Token} {tree : Tree}
    (h : Tree.ofTokens tokens = .ok tree) :
    tree.root.WellScoped ∧ ∀ d ∈ tree.defines, d.root.WellScoped := by
  obtain ⟨s, hd, -, hs⟩ := ofTokens_eq_ok_iff.1 h
  constructor
  · have hscope : nodesScope? initialScope tree.root.nodes = some s.input.scope := hd.scoped
    rw [Block.WellScoped, blockScope?, hscope]
    rfl
  · rw [hs]
    refine hd.forall_defines (fun depth root s s' hb => ?_) (fun d hmem => ?_)
    · exact hb.scoped.1
    · cases hmem

/-- A definition starts a scope of its own, in which only the dollar variable is declared. -/
theorem ofTokens_wellScoped_declared :
    ∃ tree, Tree.ofTokens
        [⟨.leftDelim, ['\x7b', '\x7b'], 0⟩, ⟨.keyword .defineKw, "define".toList, 2⟩,
         ⟨.rawString, "\x60d\x60".toList, 8⟩, ⟨.rightDelim, ['\x7d', '\x7d'], 11⟩,
         ⟨.leftDelim, ['\x7b', '\x7b'], 13⟩, ⟨.variable, ['$'], 15⟩,
         ⟨.rightDelim, ['\x7d', '\x7d'], 16⟩, ⟨.leftDelim, ['\x7b', '\x7b'], 18⟩,
         ⟨.keyword .endKw, "end".toList, 20⟩, ⟨.rightDelim, ['\x7d', '\x7d'], 23⟩,
         ⟨.leftDelim, ['\x7b', '\x7b'], 25⟩, ⟨.variable, ['$', 'x'], 27⟩,
         ⟨.declare, [':', '='], 29⟩,
         ⟨.field, ['.', 'A'], 31⟩, ⟨.rightDelim, ['\x7d', '\x7d'], 33⟩,
         ⟨.leftDelim, ['\x7b', '\x7b'], 35⟩, ⟨.variable, ['$', 'x'], 37⟩,
         ⟨.rightDelim, ['\x7d', '\x7d'], 39⟩, .eof 41] = .ok tree ∧
      tree.root.WellScoped ∧ ∀ d ∈ tree.defines, d.root.WellScoped := by
  refine Exists.imp (fun tree h => ⟨h, ofTokens_wellScoped h⟩) ?_
  have hok {x : Except Error Tree} (h : x.toOption.isSome = true) : ∃ tree, x = .ok tree := by
    cases x with
    | error e => cases h
    | ok tree => exact ⟨tree, rfl⟩
  exact hok (by decide +kernel)

end FieldAudit.Template
