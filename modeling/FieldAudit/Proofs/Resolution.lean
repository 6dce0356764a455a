import FieldAudit.Go.Binding
import FieldAudit.Proofs.Syntax.Places
import FieldAudit.Proofs.Syntax.Trees
import Mathlib.Data.List.TakeWhile

/-! # Where names are declared

A name that is used in a function stands for the nearest declaration around the use.  An `Origin` is
that declaration, so that more can be said about it than the binding tells: `lookup?_eq_origin`
reads the binding off the origin.

In the tree of a Go file, a statement that declares a name ends before the uses of the name, with
one exception: the statement in the header of a conditional statement, of a loop or of a switch is
also found from inside itself. -/

namespace FieldAudit.Go

/-! ## Origins -/

/-- Where a scope declares a name. -/
inductive Origin where
  /-- A short declaration, or a declaration of variables or constants. -/
  | statement (declaration : Cursor)
  /-- A list of parameters, or of results with names. -/
  | parameters (list : Cursor)
  /-- The clause of a loop or the header of a switch, which says nothing about the name. -/
  | header (cursor : Cursor)

/-- What an origin says about a name. -/
def Origin.binding? (file : File) (name : String) : Origin → Option Binding
  | .statement declaration => statementBinding? file declaration name
  | .parameters list => parameterBinding? file list name
  | .header _ => none

/-- What an origin says about a name in its scope. -/
def Origin.declared? (file : File) (name : String) : Origin → Option Declared
  | .statement declaration => (statementBinding? file declaration name).map .bound
  | .parameters list => (parameterBinding? file list name).map .bound
  | .header _ => some .hidden

/-- A statement, if it declares a name. -/
def statementOrigin? (file : File) (name : String) (statement : Cursor) : Option Origin :=
  if (statementBinding? file statement name).isSome then some (.statement statement) else none

/-- A list of parameters, if it declares a name. -/
def parameterOrigin? (file : File) (name : String) (list : Cursor) : Option Origin :=
  if (parameterBinding? file list name).isSome then some (.parameters list) else none

/-- Where the signature of a function declares a name. -/
def signatureOrigin? (file : File) (name : String) (function : Cursor) : Option Origin :=
  ((function.inRole? .parameters).bind (parameterOrigin? file name)).or do
    let result ← function.inRole? .result
    if result.node.kind = .parameterList then parameterOrigin? file name result else none

/-- Where the header of a statement declares a name. -/
def initializerOrigin? (file : File) (name : String) (statement : Cursor) : Option Origin :=
  (statement.inRole? .initializer).bind (statementOrigin? file name)

/-- Where a clause of a loop declares a name. -/
def clauseOrigin? (file : File) (name : String) (clause : Cursor) : Option Origin :=
  match clause.node.kind with
  | .rangeClause => if declaresItem file clause .left name then some (.header clause) else none
  | .forClause => initializerOrigin? file name clause
  | _ => none

/-- Where a scope declares a name that is used at an offset. -/
def originIn? (file : File) (name : String) (offset : Nat) (scope : Cursor) : Option Origin :=
  match scope.node.kind with
  | .functionDeclaration | .funcLiteral => signatureOrigin? file name scope
  | .methodDeclaration =>
    ((scope.inRole? .receiver).bind (parameterOrigin? file name)).or
      (signatureOrigin? file name scope)
  | .forStatement => scope.named.findSome? (clauseOrigin? file name)
  | .ifStatement | .expressionSwitchStatement | .typeSwitchStatement =>
    if declaresItem file scope .switchName name then some (.header scope)
    else initializerOrigin? file name scope
  | _ =>
    (scope.named.filter (·.node.stop ≤ offset)).reverse.findSome? (statementOrigin? file name)

/-- The declaration that a name stands for where it is used, if it is not at the top of a file. -/
def localOrigin? (file : File) (name : String) (use : Cursor) : Option Origin :=
  (localScopes use).findSome? (originIn? file name use.node.start)

section

variable {file : File} {name : String}

/-- Options that say the same as origins about a name. -/
def Agrees (file : File) (name : String) (declared : Option Declared) (origin : Option Origin) :
    Prop :=
  declared = origin.bind (Origin.declared? file name)
    ∧ ∀ o, origin = some o → (o.declared? file name).isSome = true

/-- What is not declared has no origin. -/
theorem Agrees.none : Agrees file name none none :=
  ⟨rfl, by simp⟩

/-- A second origin is looked at where a second declaration is. -/
theorem Agrees.or {declared declared' : Option Declared} {origin origin' : Option Origin}
    (h : Agrees file name declared origin) (h' : Agrees file name declared' origin') :
    Agrees file name (declared.or declared') (origin.or origin') := by
  obtain ⟨rfl, hsome⟩ := h
  cases origin with
  | none => simpa using h'
  | some o =>
    obtain ⟨d, hd⟩ := Option.isSome_iff_exists.1 (hsome o rfl)
    exact ⟨by simp [hd], hsome⟩

/-- What holds of declarations in an optional place holds of origins in it. -/
theorem Agrees.bind {α : Type} {x : Option α} {f : α → Option Declared} {g : α → Option Origin}
    (h : ∀ a, Agrees file name (f a) (g a)) : Agrees file name (x.bind f) (x.bind g) := by
  cases x with
  | none => exact .none
  | some a => exact h a

/-- The first declaration in a list of places is the first origin in it. -/
theorem Agrees.findSome? {α : Type} {l : List α} {f : α → Option Declared} {g : α → Option Origin}
    (h : ∀ a, Agrees file name (f a) (g a)) :
    Agrees file name (l.findSome? f) (l.findSome? g) := by
  induction l with
  | nil => exact .none
  | cons a l ih =>
    have hcons : ∀ {β : Type} (k : α → Option β),
        (a :: l).findSome? k = (k a).or (l.findSome? k) := by
      intro β k
      cases hk : k a <;> simp [hk]
    rw [hcons, hcons]
    exact (h a).or ih

/-- A statement that declares a name is its origin. -/
theorem agrees_statement (statement : Cursor) :
    Agrees file name ((statementBinding? file statement name).map .bound)
      (statementOrigin? file name statement) := by
  unfold statementOrigin?
  cases hs : statementBinding? file statement name with
  | none => exact .none
  | some binding => exact ⟨by simp [Origin.declared?, hs], by simp [Origin.declared?, hs]⟩

/-- A list of parameters that declares a name is its origin. -/
theorem agrees_parameters (list : Cursor) :
    Agrees file name ((parameterBinding? file list name).map .bound)
      (parameterOrigin? file name list) := by
  unfold parameterOrigin?
  cases hs : parameterBinding? file list name with
  | none => exact .none
  | some binding => exact ⟨by simp [Origin.declared?, hs], by simp [Origin.declared?, hs]⟩

/-- The origin in a signature is where the signature declares the name. -/
theorem agrees_signature (function : Cursor) :
    Agrees file name ((signatureBinding? file function name).map .bound)
      (signatureOrigin? file name function) := by
  rw [signatureBinding?, Option.map_or, Option.map_bind]
  refine .or (.bind agrees_parameters) ?_
  cases function.inRole? .result with
  | none => exact .none
  | some result =>
    show Agrees file name (Option.map _ (if _ then _ else _)) (if _ then _ else _)
    split
    · exact agrees_parameters result
    · exact .none

/-- The origin in a header is where the header declares the name. -/
theorem agrees_initializer (statement : Cursor) :
    Agrees file name ((initializerBinding? file statement name).map .bound)
      (initializerOrigin? file name statement) := by
  rw [initializerBinding?, Option.bind_eq_bind, Option.map_bind]
  exact .bind agrees_statement

/-- A header that hides a name is its origin, whatever comes after it. -/
theorem agrees_header {cursor : Cursor} {condition : Bool} {declared : Option Declared}
    {origin : Option Origin} (h : Agrees file name declared origin) :
    Agrees file name (if condition then some .hidden else declared)
      (if condition then some (.header cursor) else origin) := by
  split
  · exact ⟨rfl, by simp [Origin.declared?]⟩
  · exact h

/-- The origin in a scope is where the scope declares the name. -/
theorem agrees_in? (scope : Cursor) (offset : Nat) :
    Agrees file name (Declared.in? file scope name offset) (originIn? file name offset scope) := by
  have hsequence : Agrees file name
      (((scope.named.filter (·.node.stop ≤ offset)).reverse.findSome?
        (statementBinding? file · name)).map .bound)
      ((scope.named.filter (·.node.stop ≤ offset)).reverse.findSome?
        (statementOrigin? file name)) := by
    rw [List.map_findSome?]
    exact .findSome? agrees_statement
  have hloop : Agrees file name (loopDeclared? file scope name)
      (scope.named.findSome? (clauseOrigin? file name)) := by
    refine .findSome? fun clause => ?_
    unfold clauseOrigin?
    cases clause.node.kind
    case rangeClause => exact agrees_header .none
    case forClause => exact agrees_initializer clause
    all_goals exact .none
  have hmethod : Agrees file name
      ((((scope.inRole? .receiver).bind (parameterBinding? file · name)).or
        (signatureBinding? file scope name)).map .bound)
      (((scope.inRole? .receiver).bind (parameterOrigin? file name)).or
        (signatureOrigin? file name scope)) := by
    rw [Option.map_or, Option.map_bind]
    exact .or (.bind agrees_parameters) (agrees_signature scope)
  -- Both go by the kind of the scope, and all kinds without a rule are sequences.
  unfold Declared.in? originIn?
  cases scope.node.kind
  case functionDeclaration => exact agrees_signature scope
  case funcLiteral => exact agrees_signature scope
  case methodDeclaration => exact hmethod
  case forStatement => exact hloop
  case ifStatement => exact agrees_header (agrees_initializer scope)
  case expressionSwitchStatement => exact agrees_header (agrees_initializer scope)
  case typeSwitchStatement => exact agrees_header (agrees_initializer scope)
  all_goals exact hsequence

/-- A look-up finds what the local origin says, or else what the package says. -/
theorem lookup?_eq_origin (package : Package) (use : Cursor) :
    package.lookup? file name use
      = match localOrigin? file name use with
        | some origin => origin.binding? file name
        | none => package.binding? name := by
  have hscope : ∀ scope, Agrees file name (Declared.in? file scope name use.node.start)
      (originIn? file name use.node.start scope) := fun scope => agrees_in? scope use.node.start
  obtain ⟨hfound, hsome⟩ := Agrees.findSome? (l := localScopes use) hscope
  unfold Package.lookup? localOrigin?
  rw [hfound]
  cases horigin : (localScopes use).findSome? (originIn? file name use.node.start) with
  | none => rfl
  | some origin =>
    -- An origin always says something, so the package is not asked.
    have hdeclared := hsome origin horigin
    cases origin with
    | statement d =>
      obtain ⟨binding, hbinding⟩ : ∃ b, statementBinding? file d name = some b := by
        simpa [Origin.declared?, Option.isSome_iff_exists] using hdeclared
      simp [Origin.declared?, Origin.binding?, hbinding]
    | parameters list =>
      obtain ⟨binding, hbinding⟩ : ∃ b, parameterBinding? file list name = some b := by
        simpa [Origin.declared?, Option.isSome_iff_exists] using hdeclared
      simp [Origin.declared?, Origin.binding?, hbinding]
    | header cursor => rfl

/-! ## Statements that declare a name -/

/-- The origin at a statement is the statement, which declares the name. -/
theorem statementOrigin?_eq_some {statement : Cursor} {origin : Origin}
    (h : statementOrigin? file name statement = some origin) :
    origin = .statement statement ∧ (statementBinding? file statement name).isSome = true := by
  unfold statementOrigin? at h
  split at h
  next hsome =>
    cases h
    exact ⟨rfl, hsome⟩
  next => cases h

/-- No statement declares a parameter. -/
theorem parameterOrigin?_ne_statement {list d : Cursor} :
    parameterOrigin? file name list ≠ some (.statement d) := by
  unfold parameterOrigin?
  split <;> simp

/-- No statement declares a name of a signature. -/
theorem signatureOrigin?_ne_statement {function d : Cursor} :
    signatureOrigin? file name function ≠ some (.statement d) := by
  intro h
  rcases Option.or_eq_some_iff.1 h with h | ⟨-, h⟩
  · obtain ⟨list, -, h⟩ := Option.bind_eq_some_iff.1 h
    exact parameterOrigin?_ne_statement h
  · obtain ⟨result, -, h⟩ := Option.bind_eq_some_iff.1 h
    split at h
    · exact parameterOrigin?_ne_statement h
    · cases h

/-- A statement that introduces a name into a scope: in the header of the scope, in the header of
its loop, or before the use in a sequence. -/
inductive Introduces (scope : Cursor) (offset : Nat) (d : Cursor) : Prop
  | header (hd : scope.inRole? .initializer = some d)
  | clause {clause : Cursor} (hclause : clause ∈ scope.named)
      (hkind : clause.node.kind = .forClause) (hd : clause.inRole? .initializer = some d)
  | before (hd : d.node.stop ≤ offset)

/-- The statement found in a header is its initializer. -/
theorem initializerOrigin?_eq_statement {statement d : Cursor}
    (h : initializerOrigin? file name statement = some (.statement d)) :
    statement.inRole? .initializer = some d
      ∧ (statementBinding? file d name).isSome = true := by
  obtain ⟨found, hfound, h⟩ := Option.bind_eq_some_iff.1 h
  obtain ⟨heq, hsome⟩ := statementOrigin?_eq_some h
  cases heq
  exact ⟨hfound, hsome⟩

/-- A statement that is the origin of a name in a scope introduces it there. -/
theorem originIn?_eq_statement {scope d : Cursor} {offset : Nat}
    (h : originIn? file name offset scope = some (.statement d)) :
    Introduces scope offset d ∧ (statementBinding? file d name).isSome = true := by
  -- An `if` or a `switch` can declare in its initializer.
  have hheader : (if declaresItem file scope .switchName name then some (.header scope)
      else initializerOrigin? file name scope) = some (.statement d) →
      Introduces scope offset d ∧ (statementBinding? file d name).isSome = true := by
    intro h
    split at h
    · cases h
    · obtain ⟨hd, hsome⟩ := initializerOrigin?_eq_statement h
      exact ⟨.header hd, hsome⟩
  unfold originIn? at h
  generalize scope.node.kind = kind at h
  cases kind
  case functionDeclaration => exact absurd h signatureOrigin?_ne_statement
  case funcLiteral => exact absurd h signatureOrigin?_ne_statement
  case methodDeclaration =>
    rcases Option.or_eq_some_iff.1 h with h | ⟨-, h⟩
    · obtain ⟨list, -, h⟩ := Option.bind_eq_some_iff.1 h
      exact absurd h parameterOrigin?_ne_statement
    · exact absurd h signatureOrigin?_ne_statement
  case forStatement =>
    obtain ⟨clause, hclause, h⟩ := List.exists_of_findSome?_eq_some h
    unfold clauseOrigin? at h
    split at h
    · split at h <;> cases h
    next hkind =>
      obtain ⟨hd, hsome⟩ := initializerOrigin?_eq_statement h
      exact ⟨.clause hclause hkind hd, hsome⟩
    · cases h
  case ifStatement => exact hheader h
  case expressionSwitchStatement => exact hheader h
  case typeSwitchStatement => exact hheader h
  -- Everything else declares by a statement that ends before the offset.
  all_goals
    obtain ⟨statement, hstatement, h⟩ := List.exists_of_findSome?_eq_some h
    obtain ⟨heq, hsome⟩ := statementOrigin?_eq_some h
    cases heq
    have hbefore := (List.mem_filter.1 (List.mem_reverse.1 hstatement)).2
    exact ⟨.before (by simpa using hbefore), hsome⟩

end

/-- Local scopes are around the use, inside the file. -/
theorem mem_localScopes {use scope : Cursor} (h : scope ∈ localScopes use) :
    scope ∈ use.enclosing ∧ scope.node.kind ≠ .sourceFile :=
  ⟨(List.takeWhile_prefix _).subset h, by simpa using List.mem_takeWhile_imp h⟩

/-- What declares a name is no name. -/
theorem kind_ne_identifier_of_binding {file : File} {name : String} {d : Cursor}
    (h : (statementBinding? file d name).isSome = true) : d.node.kind ≠ .identifier := by
  intro hk
  simp [statementBinding?_eq, hk] at h

/-- The statement in the header of a node around a use is around the use, or ends before it. -/
theorem initializer_around_or_before {words : Nat → Nat → Prop} {root : Node}
    (hroot : root.SourceFile words) {use scope d : Cursor} (huse : Cursor.At root use)
    (hscope : scope ∈ use.enclosing) (hfile : scope.node.kind ≠ .sourceFile)
    (hkind : use.node.kind.isSolid = true) (hd : scope.inRole? .initializer = some d) :
    (d ∈ use.path ∨ d.node.stop ≤ use.node.start) ∧ d.node.role = .initializer := by
  obtain ⟨n, hn, rfl⟩ := Option.map_eq_some_iff.1 hd
  have hrole : n.role = .initializer := by simpa using List.find?_some hn
  obtain ⟨hshaped, -⟩ := huse.exists_part hroot hscope hfile hkind
  have hsolid := hshaped.mem_solid_of_role (Node.inRole?_mem hn)
    (by simp [hrole, Role.isStructural])
  have hleads : n.leads = true := by simp [Node.leads, hrole]
  exact ⟨huse.mem_path_or_before hroot hscope hfile hkind hsolid hleads, hrole⟩

/-- The same of the statement in the clause of a loop around a use. -/
theorem clause_around_or_before {words : Nat → Nat → Prop} {root : Node}
    (hroot : root.SourceFile words) {use scope clause d : Cursor} (huse : Cursor.At root use)
    (hscope : scope ∈ use.enclosing) (hfile : scope.node.kind ≠ .sourceFile)
    (hkind : use.node.kind = .identifier) (hclause : clause ∈ scope.named)
    (hclauseKind : clause.node.kind = .forClause) (hd : clause.inRole? .initializer = some d) :
    (d ∈ use.path ∨ d.node.stop ≤ use.node.start) ∧ d.node.role = .initializer := by
  have hname : use.node.kind.isSolid = true := by rw [hkind]; rfl
  obtain ⟨n, hn, rfl⟩ := List.mem_map.1 hclause
  rw [Cursor.node_child] at hclauseKind
  obtain ⟨hshaped, -⟩ := huse.exists_part hroot hscope hfile hname
  have hsolid : n ∈ scope.node.solid :=
    Node.mem_solid.2 ⟨List.mem_of_mem_filter hn, by rw [hclauseKind]; rfl⟩
  rcases huse.mem_path_or_before hroot hscope hfile hname hsolid
    (by simp [Node.leads, hclauseKind]) with hpath | hbefore
  · -- The use is inside the clause, and the clause is no name.
    have henclosing : scope.child n ∈ use.enclosing := by
      rcases List.mem_cons.1 hpath with rfl | henclosing
      · rw [Cursor.node_child, hclauseKind] at hkind
        cases hkind
      · exact henclosing
    exact initializer_around_or_before hroot huse henclosing (by simp [hclauseKind]) hname hd
  · -- The use is after the clause, so it is after all parts of the clause.
    obtain ⟨m, hm, rfl⟩ := Option.map_eq_some_iff.1 hd
    have hrole : m.role = .initializer := by simpa using List.find?_some hm
    have hpart := hshaped.part hsolid
    have hmember := hpart.mem_solid_of_role (Node.inRole?_mem hm)
      (by simp [hrole, Role.isStructural])
    have hwithin := (hpart.regular.spread.within m hmember).2
    exact ⟨.inr (Nat.le_trans hwithin hbefore), hrole⟩

/-- A test of a file that is read finds the file. -/
theorem File.exists_of_any {fileName : String} {source : List Char} {test : File → Bool}
    (h : (File.read Grammar.parser fileName source).toOption.any test = true) :
    ∃ file, File.read Grammar.parser fileName source = .ok file ∧ test file = true := by
  cases hread : File.read Grammar.parser fileName source with
  | error place => simp [hread, Except.toOption] at h
  | ok file => exact ⟨file, rfl, by simpa [hread, Except.toOption] using h⟩

/-- A test of the uses of a name in a file finds a use and its declaration. -/
theorem exists_use_of_any (fileName : String) (source : List Char) (name : String)
    (test : Cursor → Cursor → Bool)
    (h : (File.read Grammar.parser fileName source).toOption.any (fun file =>
      file.root.preorder.any fun use =>
      use.node.kind = .identifier && match localOrigin? file name use with
        | some (.statement d) => test use d
        | _ => false) = true) :
    ∃ file use d, File.read Grammar.parser fileName source = .ok file ∧ use ∈ file.root.preorder
      ∧ use.node.kind = .identifier ∧ localOrigin? file name use = some (.statement d)
      ∧ test use d = true := by
  obtain ⟨file, hfile, h⟩ := File.exists_of_any h
  obtain ⟨use, huse, h⟩ := List.any_eq_true.1 h
  obtain ⟨hkind, h⟩ := Bool.and_eq_true_iff.1 h
  split at h
  next d horigin => exact ⟨file, use, d, hfile, huse, by simpa using hkind, horigin, h⟩
  next => cases h

/-- A function that declares a name once more in the header of a condition, and uses it in the
value there. -/
def headerSource : List Char :=
  ("package main\n\nfunc run(w W) \x7b\n\tt := L\x7b\x7d\n\tif t := wrap(t); t != nil \x7b\n"
    ++ "\t\t_ = t\n\t\x7d\n\x7d\n").toList

/-- The declaration that a name is found to stand for says what the look-up gives.  In the tree of a
Go file it ends before the use, unless it is in the header of a statement and the use is inside
it. -/
theorem lookup?_declaration_precedes {words : Nat → Nat → Prop} {file : File} {package : Package}
    {name : String} {use d : Cursor} (hroot : file.root.SourceFile words)
    (huse : use ∈ file.root.preorder) (hkind : use.node.kind = .identifier)
    (horigin : localOrigin? file name use = some (.statement d)) :
    package.lookup? file name use = statementBinding? file d name
      ∧ (statementBinding? file d name).isSome = true
      ∧ (d.node.stop ≤ use.node.start ∨ d ∈ use.enclosing ∧ d.node.role = .initializer) := by
  have hat := Cursor.at_of_mem_preorder huse
  have hname : use.node.kind.isSolid = true := by rw [hkind]; rfl
  obtain ⟨scope, hscope, hfound⟩ := List.exists_of_findSome?_eq_some horigin
  obtain ⟨henclosing, hscopeFile⟩ := mem_localScopes hscope
  obtain ⟨hintroduces, hsome⟩ := originIn?_eq_statement hfound
  refine ⟨by rw [lookup?_eq_origin, horigin]; rfl, hsome, ?_⟩
  -- A declaration on the way to the use is around it, since the use is a name and no declaration.
  have haround : d ∈ use.path → d ∈ use.enclosing := by
    intro hd
    rcases List.mem_cons.1 hd with rfl | hd
    · exact absurd hkind (kind_ne_identifier_of_binding hsome)
    · exact hd
  cases hintroduces with
  | header hd =>
    obtain ⟨hpath | hbefore, hrole⟩ :=
      initializer_around_or_before hroot hat henclosing hscopeFile hname hd
    · exact .inr ⟨haround hpath, hrole⟩
    · exact .inl hbefore
  | clause hclause hclauseKind hd =>
    obtain ⟨hpath | hbefore, hrole⟩ :=
      clause_around_or_before hroot hat henclosing hscopeFile hkind hclause hclauseKind hd
    · exact .inr ⟨haround hpath, hrole⟩
    · exact .inl hbefore
  | before hd => exact .inl hd

/-- The condition after the statement of a header, as a case. -/
theorem lookup?_declaration_precedes_condition :
    ∃ file use d, File.read Grammar.parser "main.go" headerSource = .ok file
      ∧ use ∈ file.root.preorder ∧ use.node.kind = .identifier ∧ use.node.start = 58
      ∧ localOrigin? file "t" use = some (.statement d)
      ∧ Package.lookup? ⟨"main", [file]⟩ file "t" use = statementBinding? file d "t"
      ∧ (statementBinding? file d "t").isSome = true
      ∧ (d.node.stop ≤ use.node.start ∨ d ∈ use.enclosing ∧ d.node.role = .initializer) := by
  obtain ⟨file, use, d, hfile, huse, hkind, horigin, hstart⟩ :=
    exists_use_of_any "main.go" headerSource "t" (fun use _ => use.node.start = 58)
      (by decide +kernel)
  exact ⟨file, use, d, hfile, huse, hkind, by simpa using hstart, horigin,
    lookup?_declaration_precedes (Grammar.parser_sound.sourceFile hfile) huse hkind horigin⟩

/-- In the value that the statement of a header declares, the name stands for that statement,
although the statement does not end before the use. -/
theorem lookup?_finds_header_from_inside :
    ∃ file use d, File.read Grammar.parser "main.go" headerSource = .ok file
      ∧ use ∈ file.root.preorder ∧ use.node.kind = .identifier ∧ use.node.start = 54
      ∧ localOrigin? file "t" use = some (.statement d)
      ∧ Package.lookup? ⟨"main", [file]⟩ file "t" use = statementBinding? file d "t"
      ∧ use.node.start < d.node.stop := by
  obtain ⟨file, use, d, hfile, huse, hkind, horigin, h⟩ :=
    exists_use_of_any "main.go" headerSource "t"
      (fun use d => use.node.start = 54 && use.node.start < d.node.stop) (by decide +kernel)
  obtain ⟨hstart, hlt⟩ := Bool.and_eq_true_iff.1 h
  refine ⟨file, use, d, hfile, huse, hkind, by simpa using hstart, horigin, ?_, by simpa using hlt⟩
  rw [lookup?_eq_origin, horigin]
  rfl

end FieldAudit.Go
