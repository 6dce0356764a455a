import FieldAudit.Go.Package

/-! # What names stand for

A name stands for the nearest declaration around its use, else for the first one at the top of a
file of the package.  A declaration says something about the type or the first value of a name, or
neither.  Some declarations say nothing at all and only hide the ones around them. -/

namespace FieldAudit.Go

/-- What a declaration says about a name: the file it is in, and its type and first value. -/
structure Binding where
  file : File
  type : Option Node
  value : Option Cursor

/-- What a scope says about a name that it declares. -/
inductive Declared where
  /-- The declaration binds the name. -/
  | bound (binding : Binding)
  /-- The declaration says nothing about the name, and hides the ones around it. -/
  | hidden

/-- The first value of the name at an index among the declared ones.  A single call gives its first
result to the first name. -/
def valueAt (values : List Cursor) (declared index : Nat) : Option Cursor :=
  if values.length = declared then values[index]?
  else
    match values with
    | [value] => if index = 0 && value.node.kind = .callExpression then some value else none
    | _ => none

/-- The index of a name among some nodes. -/
def nameIndex? (file : File) (names : List Cursor) (name : String) : Option Nat :=
  names.findIdx? fun c => file.text c.node = name

/-- The items of a child in a role. -/
def itemsInRole (cursor : Cursor) (role : Role) : List Cursor :=
  ((cursor.inRole? role).map Cursor.items).getD []

/-- What a specification of variables or constants says about a name. -/
def specBinding? (file : File) (spec : Cursor) (name : String) : Option Binding := do
  let names := spec.inRole .name
  let index ← nameIndex? file names name
  return { file
           type := (spec.inRole? .type).map Cursor.node
           value := valueAt (itemsInRole spec .value) names.length index }

/-- What a short declaration says about a name. -/
def shortBinding? (file : File) (declaration : Cursor) (name : String) : Option Binding := do
  let names := (← declaration.inRole? .left).items
  let index ← nameIndex? file names name
  return { file, type := none
           value := valueAt (itemsInRole declaration .right) names.length index }

mutual

/-- What the statement at a node says about a name, if it declares it. -/
def bindingAt? (file : File) (name : String) (ancestors : List Node) : Node → Option Binding
  | ⟨kind, role, start, stop, children⟩ =>
    let node : Node := ⟨kind, role, start, stop, children⟩
    match kind with
    | .shortVarDeclaration => shortBinding? file ⟨node, ancestors⟩ name
    | .varSpec | .constSpec => specBinding? file ⟨node, ancestors⟩ name
    | .varDeclaration | .constDeclaration | .varSpecList | .constSpecList =>
      bindingAmong? file name (node :: ancestors) children
    | _ => none

/-- What the first of some nodes that declares a name says about it.  Punctuation is left out. -/
def bindingAmong? (file : File) (name : String) (ancestors : List Node) :
    List Node → Option Binding
  | [] => none
  | node :: rest =>
    if node.isNamed then
      (bindingAt? file name ancestors node).or (bindingAmong? file name ancestors rest)
    else bindingAmong? file name ancestors rest

end

/-- What a statement says about a name, if it declares it. -/
def statementBinding? (file : File) (statement : Cursor) (name : String) : Option Binding :=
  bindingAt? file name statement.ancestors statement.node

/-- The scan of a list of siblings is a search of the statements standing below the cursor. -/
theorem bindingAmong?_eq (file : File) (name : String) (cursor : Cursor) (nodes : List Node) :
    bindingAmong? file name (cursor.node :: cursor.ancestors) nodes
      = ((nodes.filter Node.isNamed).map cursor.child).findSome?
        (statementBinding? file · name) := by
  induction nodes with
  | nil => rfl
  | cons node rest ih =>
    rw [bindingAmong?, ih]
    by_cases hnamed : node.isNamed = true
    · rw [if_pos hnamed, List.filter_cons_of_pos hnamed, List.map_cons, List.findSome?_cons]
      show (statementBinding? file (cursor.child node) name).or _ = _
      cases statementBinding? file (cursor.child node) name <;> rfl
    · rw [if_neg hnamed, List.filter_cons_of_neg hnamed]

/-- A declaration of variables or constants says what the first of its parts says. -/
theorem statementBinding?_eq (file : File) (statement : Cursor) (name : String) :
    statementBinding? file statement name =
      match statement.node.kind with
      | .shortVarDeclaration => shortBinding? file statement name
      | .varSpec | .constSpec => specBinding? file statement name
      | .varDeclaration | .constDeclaration | .varSpecList | .constSpecList =>
        statement.named.findSome? (statementBinding? file · name)
      | _ => none := by
  obtain ⟨⟨kind, role, start, stop, children⟩, ancestors⟩ := statement
  have hparts :=
    bindingAmong?_eq file name ⟨⟨kind, role, start, stop, children⟩, ancestors⟩ children
  cases kind
  case varDeclaration => exact hparts
  case constDeclaration => exact hparts
  case varSpecList => exact hparts
  case constSpecList => exact hparts
  all_goals rfl

/-! ## Scopes -/

/-- What a list of parameters says about a name.  The type of a variadic parameter is the type of
its elements, so it does not count. -/
def parameterBinding? (file : File) (parameters : Cursor) (name : String) : Option Binding :=
  parameters.named.findSome? fun declaration =>
    if (declaration.inRole .name).any fun c => file.text c.node = name then
      let type :=
        if declaration.node.kind = .parameterDeclaration then declaration.inRole? .type else none
      some { file, type := type.map Cursor.node, value := none }
    else none

/-- What the parameters of a function, then its named results, say about a name. -/
def signatureBinding? (file : File) (function : Cursor) (name : String) : Option Binding :=
  ((function.inRole? .parameters).bind (parameterBinding? file · name)).or do
    let result ← function.inRole? .result
    if result.node.kind = .parameterList then parameterBinding? file result name else none

/-- Whether a name is among the items of a child in a role. -/
def declaresItem (file : File) (cursor : Cursor) (role : Role) (name : String) : Bool :=
  (itemsInRole cursor role).any fun c => file.text c.node = name

/-- What the first statement in the header of a statement says about a name. -/
def initializerBinding? (file : File) (statement : Cursor) (name : String) : Option Binding := do
  statementBinding? file (← statement.inRole? .initializer) name

/-- What the header of a loop says about a name. -/
def loopDeclared? (file : File) (loop : Cursor) (name : String) : Option Declared :=
  loop.named.findSome? fun clause =>
    match clause.node.kind with
    | .rangeClause => if declaresItem file clause .left name then some .hidden else none
    | .forClause => (initializerBinding? file clause name).map .bound
    | _ => none

/-- What a scope says about a name used at an offset.  Where the scope is a sequence, only what
ends before the use counts, the last first. -/
def Declared.in? (file : File) (scope : Cursor) (name : String) (offset : Nat) :
    Option Declared :=
  match scope.node.kind with
  | .functionDeclaration | .funcLiteral => (signatureBinding? file scope name).map .bound
  | .methodDeclaration =>
    (((scope.inRole? .receiver).bind (parameterBinding? file · name)).or
      (signatureBinding? file scope name)).map .bound
  | .forStatement => loopDeclared? file scope name
  | .ifStatement | .expressionSwitchStatement | .typeSwitchStatement =>
    if declaresItem file scope .switchName name then some .hidden
    else (initializerBinding? file scope name).map .bound
  | _ =>
    ((scope.named.filter (·.node.stop ≤ offset)).reverse.findSome?
      (statementBinding? file · name)).map .bound

/-- The binding of a name at the top of a package: the first one of the first file that has one. -/
def Package.binding? (package : Package) (name : String) : Option Binding :=
  package.files.findSome? fun file =>
    file.top.named.findSome? (statementBinding? file · name)

/-- The scopes around a use, up to the top of the file. -/
def localScopes (use : Cursor) : List Cursor :=
  use.enclosing.takeWhile (·.node.kind ≠ .sourceFile)

/-- The binding that a name stands for where it is used. -/
def Package.lookup? (package : Package) (file : File) (name : String) (use : Cursor) :
    Option Binding :=
  let found := (localScopes use).findSome? fun scope =>
    Declared.in? file scope name use.node.start
  match found with
  | some (.bound binding) => some binding
  | some .hidden => none
  | none => package.binding? name

end FieldAudit.Go
