import FieldAudit.Proofs.Messages.Lines
import FieldAudit.Proofs.Resolution
import FieldAudit.Proofs.UsagePolicy

/-! # Messages about render calls

Where the arguments of a render call cannot be read, the reason may show an expression of the
package as it is written, and that expression can go over several lines: the argument that is no
template name, the value that is no data, or a literal that cannot be read (`Package.Shows`).  Every
other reason is on one line, and so is the name of the call, since names are words of a file. -/

namespace FieldAudit

/-! ## Computations that can fail -/

/-- A sequence fails in its first or in its second part. -/
theorem bind_eq_error {ε α β : Type} {x : Except ε α} {f : α → Except ε β} {e : ε}
    (h : x >>= f = .error e) : x = .error e ∨ ∃ a, x = .ok a ∧ f a = .error e := by
  cases x with
  | error e' =>
    cases h
    exact .inl rfl
  | ok a => exact .inr ⟨a, rfl, h⟩

/-- A sequence that succeeds has parts that succeed. -/
theorem bind_eq_ok {ε α β : Type} {x : Except ε α} {f : α → Except ε β} {b : β}
    (h : x >>= f = .ok b) : ∃ a, x = .ok a ∧ f a = .ok b := by
  cases x with
  | error e => cases h
  | ok a => exact ⟨a, rfl, h⟩

/-- What a computation gives as an option is its result. -/
theorem eq_ok_of_toOption {ε α : Type} {x : Except ε α} {a : α} (h : x.toOption = some a) :
    x = .ok a := by
  cases x with
  | error e => cases h
  | ok b => exact congrArg Except.ok (Option.some.inj h)

/-- A run over a list fails at one of its elements. -/
theorem mapM_eq_error {ε α β : Type} {f : α → Except ε β} {xs : List α} {e : ε}
    (h : xs.mapM f = .error e) : ∃ x ∈ xs, f x = .error e := by
  induction xs with
  | nil => cases h
  | cons x xs ih =>
    rw [List.mapM_cons] at h
    rcases bind_eq_error h with h | ⟨y, -, h⟩
    · exact ⟨x, List.mem_cons_self, h⟩
    · rcases bind_eq_error h with h | ⟨ys, -, h⟩
      · obtain ⟨x', hx', h⟩ := ih h
        exact ⟨x', List.mem_cons_of_mem x hx', h⟩
      · cases h

/-- Each result of a run over a list comes from an element. -/
theorem mapM_eq_ok {ε α β : Type} {f : α → Except ε β} {xs : List α} {ys : List β}
    (h : xs.mapM f = .ok ys) : ∀ y ∈ ys, ∃ x ∈ xs, f x = .ok y := by
  induction xs generalizing ys with
  | nil =>
    cases h
    simp
  | cons x xs ih =>
    rw [List.mapM_cons] at h
    obtain ⟨first, hx, h⟩ := bind_eq_ok h
    obtain ⟨rest, hxs, h⟩ := bind_eq_ok h
    cases h
    refine List.forall_mem_cons.2 ⟨⟨x, List.mem_cons_self, hx⟩, fun y hy => ?_⟩
    obtain ⟨x', hx', h⟩ := ih hxs y hy
    exact ⟨x', List.mem_cons_of_mem x hx', h⟩

namespace Go

open Render (Unsupported)

/-! ## Names -/

/-- The text of a name is on one line. -/
theorem File.oneLine_text {file : File} {c : Cursor}
    (hroot : file.root.SourceFile (WordAt file.source)) (hc : Cursor.At file.root c)
    (hname : c.node.kind.isName = true) : OneLine (file.text c.node) := by
  have hkinds : c.node.kind ≠ .sourceFile ∧ c.node.kind.isSolid = true := by
    cases hk : c.node.kind <;> simp [hk, Kind.isName] at hname <;> exact ⟨by simp, rfl⟩
  have hword := (hc.shaped hroot hkinds.1 hkinds.2).regular.word hname
  obtain ⟨before, word, after, hsplit, hstart, hstop, hline⟩ := hword
  have htext : file.text c.node = String.ofList word := by
    rw [File.text, Node.text, hsplit, hstart, hstop, Text.slice_append]
  rw [htext, OneLine.ofList_iff]
  exact hline

/-! ## Bindings -/

/-- A binding of a file: its value is a place of that file. -/
structure Binding.Within (file : File) (binding : Binding) : Prop where
  file_eq : binding.file = file
  value : ∀ value, binding.value = some value → Cursor.At file.root value

section

variable {file : File} {name : String} {binding : Binding}

/-- The first value of a name is one of the values. -/
theorem mem_of_valueAt {values : List Cursor} {declared index : Nat} {value : Cursor}
    (h : valueAt values declared index = some value) : value ∈ values := by
  unfold valueAt at h
  split at h
  · exact List.mem_of_getElem? h
  · split at h
    · split at h
      · cases h
        exact List.mem_singleton_self _
      · cases h
    · cases h

/-- The items of a role are places of the file. -/
theorem at_of_mem_itemsInRole {c item : Cursor} {role : Role} (hc : Cursor.At file.root c)
    (h : item ∈ itemsInRole c role) : Cursor.At file.root item := by
  cases hrole : c.inRole? role with
  | none => simp [itemsInRole, hrole] at h
  | some child => exact (hc.inRole? hrole).mem_items (by simpa [itemsInRole, hrole] using h)

/-- What a specification says about a name is of its file. -/
theorem specBinding?_within {spec : Cursor} (hspec : Cursor.At file.root spec)
    (h : specBinding? file spec name = some binding) : binding.Within file := by
  obtain ⟨index, -, h⟩ := Option.bind_eq_some_iff.1 h
  cases h
  exact ⟨rfl, fun value hvalue => at_of_mem_itemsInRole hspec (mem_of_valueAt hvalue)⟩

/-- What a short declaration says about a name is of its file. -/
theorem shortBinding?_within {declaration : Cursor} (hd : Cursor.At file.root declaration)
    (h : shortBinding? file declaration name = some binding) : binding.Within file := by
  obtain ⟨left, -, h⟩ := Option.bind_eq_some_iff.1 h
  obtain ⟨index, -, h⟩ := Option.bind_eq_some_iff.1 h
  cases h
  exact ⟨rfl, fun value hvalue => at_of_mem_itemsInRole hd (mem_of_valueAt hvalue)⟩

mutual

/-- What the statement at a place says about a name is of the file of the place. -/
theorem bindingAt?_within {ancestors : List Node} (node : Node)
    (hnode : Cursor.At file.root ⟨node, ancestors⟩)
    (h : bindingAt? file name ancestors node = some binding) : binding.Within file := by
  obtain ⟨kind, role, start, stop, children⟩ := node
  have hparts (h : bindingAmong? file name (⟨kind, role, start, stop, children⟩ :: ancestors)
      children = some binding) : binding.Within file :=
    bindingAmong?_within children (fun n hn => .child hnode hn) h
  cases kind
  case shortVarDeclaration => exact shortBinding?_within hnode h
  case varSpec => exact specBinding?_within hnode h
  case constSpec => exact specBinding?_within hnode h
  case varDeclaration => exact hparts h
  case constDeclaration => exact hparts h
  case varSpecList => exact hparts h
  case constSpecList => exact hparts h
  all_goals exact absurd h (by simp [bindingAt?])

/-- What the first of some places that declares a name says about it is of the file of the
places. -/
theorem bindingAmong?_within {ancestors : List Node} (nodes : List Node)
    (hnodes : ∀ n ∈ nodes, Cursor.At file.root ⟨n, ancestors⟩)
    (h : bindingAmong? file name ancestors nodes = some binding) : binding.Within file := by
  match nodes with
  | [] => cases h
  | node :: rest =>
    obtain ⟨hnode, hrest⟩ := List.forall_mem_cons.1 hnodes
    rw [bindingAmong?] at h
    split at h
    · rcases Option.or_eq_some_iff.1 h with h | ⟨-, h⟩
      · exact bindingAt?_within node hnode h
      · exact bindingAmong?_within rest hrest h
    · exact bindingAmong?_within rest hrest h

end

/-- What a statement of a file says about a name is of that file. -/
theorem statementBinding?_within {statement : Cursor} (hs : Cursor.At file.root statement)
    (h : statementBinding? file statement name = some binding) : binding.Within file :=
  bindingAt?_within statement.node hs h

/-- What a list of parameters says about a name is of its file. -/
theorem parameterBinding?_within {list : Cursor}
    (h : parameterBinding? file list name = some binding) : binding.Within file := by
  obtain ⟨declaration, -, h⟩ := List.exists_of_findSome?_eq_some h
  split at h
  · cases h
    exact ⟨rfl, by simp⟩
  · cases h

/-- What a signature says about a name is of its file. -/
theorem signatureBinding?_within {function : Cursor}
    (h : signatureBinding? file function name = some binding) : binding.Within file := by
  rcases Option.or_eq_some_iff.1 h with h | ⟨-, h⟩
  · obtain ⟨list, -, h⟩ := Option.bind_eq_some_iff.1 h
    exact parameterBinding?_within h
  · obtain ⟨result, -, h⟩ := Option.bind_eq_some_iff.1 h
    split at h
    · exact parameterBinding?_within h
    · cases h

/-- What a header says about a name is of its file. -/
theorem initializerBinding?_within {statement : Cursor} (hs : Cursor.At file.root statement)
    (h : initializerBinding? file statement name = some binding) : binding.Within file := by
  obtain ⟨first, hfirst, h⟩ := Option.bind_eq_some_iff.1 h
  exact statementBinding?_within (hs.inRole? hfirst) h

/-- A scope binds a name only by a binding that it has. -/
theorem bound_of_map_eq_some {found : Option Binding}
    (h : found.map Declared.bound = some (.bound binding)) : found = some binding := by
  obtain ⟨other, rfl, hother⟩ := Option.map_eq_some_iff.1 h
  cases hother
  rfl

/-- What a scope of a file binds is of that file. -/
theorem in?_within {scope : Cursor} {offset : Nat} (hscope : Cursor.At file.root scope)
    (h : Declared.in? file scope name offset = some (.bound binding)) : binding.Within file := by
  -- An `if` or a `switch` declares in its initializer.
  have hheader (h : (if declaresItem file scope .switchName name then some Declared.hidden
      else (initializerBinding? file scope name).map .bound) = some (.bound binding)) :
      binding.Within file := by
    split at h
    · cases h
    · exact initializerBinding?_within hscope (bound_of_map_eq_some h)
  unfold Declared.in? at h
  generalize scope.node.kind = kind at h
  cases kind
  case functionDeclaration => exact signatureBinding?_within (bound_of_map_eq_some h)
  case funcLiteral => exact signatureBinding?_within (bound_of_map_eq_some h)
  case methodDeclaration =>
    rcases Option.or_eq_some_iff.1 (bound_of_map_eq_some h) with h | ⟨-, h⟩
    · obtain ⟨list, -, h⟩ := Option.bind_eq_some_iff.1 h
      exact parameterBinding?_within h
    · exact signatureBinding?_within h
  case forStatement =>
    obtain ⟨clause, hclause, h⟩ := List.exists_of_findSome?_eq_some h
    split at h
    · split at h <;> cases h
    · exact initializerBinding?_within (hscope.mem_named hclause) (bound_of_map_eq_some h)
    · cases h
  case ifStatement => exact hheader h
  case expressionSwitchStatement => exact hheader h
  case typeSwitchStatement => exact hheader h
  -- Everything else declares by the statements before the offset.
  all_goals
    obtain ⟨statement, hstatement, h⟩ :=
      List.exists_of_findSome?_eq_some (bound_of_map_eq_some h)
    have hmem := List.mem_of_mem_filter (List.mem_reverse.1 hstatement)
    exact statementBinding?_within (hscope.mem_named hmem) h

/-- What a name is found to stand for is in a file of the package. -/
theorem lookup?_within {package : Package} {use : Cursor} (hfile : file ∈ package.files)
    (huse : Cursor.At file.root use) (h : package.lookup? file name use = some binding) :
    ∃ found ∈ package.files, binding.Within found := by
  unfold Package.lookup? at h
  dsimp only at h
  split at h
  next other hfound =>
    cases h
    obtain ⟨scope, hscope, hin⟩ := List.exists_of_findSome?_eq_some hfound
    have hat := huse.of_mem_path (List.mem_cons_of_mem use (mem_localScopes hscope).1)
    exact ⟨file, hfile, in?_within hat hin⟩
  next => cases h
  next =>
    obtain ⟨found, hmem, h⟩ := List.exists_of_findSome?_eq_some h
    obtain ⟨statement, hstatement, h⟩ := List.exists_of_findSome?_eq_some h
    exact ⟨found, hmem, statementBinding?_within (Cursor.At.root.mem_named hstatement) h⟩

end

/-! ## Arguments -/

/-- A reason that shows an expression of a package as it is written: an argument that is no template
name, a value that is no data, or a literal that cannot be read. -/
inductive Package.Shows (package : Package) (reason : String) : Prop
  | name {file : File} {place : Cursor} (hfile : file ∈ package.files)
      (hplace : Cursor.At file.root place)
      (hreason : reason = "template name " ++ file.text place.node ++ " is not a string literal")
  | data {file : File} {place : Cursor} (hfile : file ∈ package.files)
      (hplace : Cursor.At file.root place)
      (hreason : reason = "data argument " ++ file.text place.node ++ " is not a composite literal")
  | literal {file : File} {place : Cursor} {fault : Literal.Fault} (hfile : file ∈ package.files)
      (hplace : Cursor.At file.root place) (hkind : isStringLiteral place.node = true)
      (hread : Literal.read (file.text place.node).toList = .error fault)
      (hreason : reason = "invalid literal " ++ file.text place.node ++ ": " ++ fault.reason)

/-- A reason that is on one line, or shows an expression of a package. -/
def Package.Explains (package : Package) (unsupported : Unsupported) : Prop :=
  OneLine unsupported.reason ∨ package.Shows unsupported.reason

/-- A reason on one line explains an argument. -/
theorem Package.explains_of_oneLine {package : Package} {reason : String} (h : OneLine reason) :
    package.Explains (.argument reason) :=
  .inl h

section

variable {package : Package} {file : File} {argument : Cursor} {unsupported : Unsupported}
  (hpackage : package.Shaped) (hfile : file ∈ package.files)
  (hargument : Cursor.At file.root argument)

include hfile hargument

/-- The value of an argument is a place of the package. -/
theorem argumentValue_at {value : File × Cursor}
    (h : package.argumentValue file argument = .ok value) :
    value.1 ∈ package.files ∧ Cursor.At value.1.root value.2 := by
  unfold Package.argumentValue at h
  split at h
  next =>
    -- A name stands for the value that it is bound to, in whichever file.
    unfold Package.initializer at h
    dsimp only at h
    split at h
    next => cases h
    next binding hlookup =>
      obtain ⟨found, hfound, hwithin⟩ := lookup?_within hfile hargument hlookup
      split at h
      next => cases h
      next first hfirst =>
        cases h
        obtain ⟨rfl, hvalue⟩ := hwithin
        exact ⟨hfound, hvalue first hfirst⟩
  next =>
    cases h
    exact ⟨hfile, hargument⟩

omit hargument in
/-- A string that cannot be read is a literal of the package. -/
theorem stringValue_explains {literal : Cursor} (hliteral : Cursor.At file.root literal)
    (hkind : isStringLiteral literal.node = true)
    (h : stringValue file literal.node = .error unsupported) : package.Explains unsupported := by
  unfold stringValue at h
  split at h
  next => cases h
  next malformed hunquote =>
    cases h
    obtain ⟨hchars, hread⟩ := Literal.unquote_eq_error hunquote
    have htext : String.ofList malformed.literal = file.text literal.node := by
      rw [hchars, String.ofList_toList]
    exact .inr (.literal hfile hliteral hkind hread (htext ▸ rfl))

include hpackage

/-- Why an argument has no value is told on one line. -/
theorem argumentValue_explains (h : package.argumentValue file argument = .error unsupported) :
    package.Explains unsupported := by
  unfold Package.argumentValue at h
  split at h
  next hkind =>
    have hname := File.oneLine_text (hpackage file hfile) hargument (by rw [hkind]; rfl)
    unfold Package.initializer at h
    dsimp only at h
    split at h
    next =>
      cases h
      exact Package.explains_of_oneLine (.append (by decide) hname)
    next =>
      split at h
      next =>
        cases h
        exact Package.explains_of_oneLine (.append hname (by decide))
      next => cases h
  next => cases h

/-- Why an argument is no template name is told on one line, or shows an expression. -/
theorem templateName_explains (h : package.templateName file argument = .error unsupported) :
    package.Explains unsupported := by
  rcases bind_eq_error h with h | ⟨⟨valueFile, value⟩, hvalue, h⟩
  · exact argumentValue_explains hpackage hfile hargument h
  · obtain ⟨hvalueFile, hat⟩ := argumentValue_at hfile hargument hvalue
    dsimp only at h
    split at h
    next hkind => exact stringValue_explains hvalueFile hat hkind h
    -- The argument is shown, and not the value that it may stand for.
    next =>
      cases h
      exact .inr (.name hfile hargument rfl)

end

section

variable {package : Package} {file : File} {unsupported : Unsupported}
  (hfile : file ∈ package.files)

/-- The key of an element is a place of its file. -/
theorem keyNode?_at {root : Node} {element : Cursor} {key : Node}
    (helement : Cursor.At root element) (h : keyNode? element.node = some key) :
    ∃ place, Cursor.At root place ∧ place.node = key := by
  obtain ⟨first, hfirst, h⟩ := Option.bind_eq_some_iff.1 h
  have hat : Cursor.At root (element.child first) := .child helement (Node.part?_mem hfirst)
  split at h
  · exact ⟨_, .child hat (Node.part?_mem h), rfl⟩
  · cases h
    exact ⟨_, hat, rfl⟩

include hfile

/-- Why an element has no key is told on one line, or shows a literal. -/
theorem elementKeys_explains {element : Cursor} (helement : Cursor.At file.root element)
    (h : elementKeys file element.node = .error unsupported) : package.Explains unsupported := by
  unfold elementKeys at h
  split at h
  next =>
    cases h
    exact Package.explains_of_oneLine (by decide)
  next =>
    split at h
    next => cases h
    next key hkey =>
      obtain ⟨place, hplace, rfl⟩ := keyNode?_at helement hkey
      split at h
      next hkind =>
        cases hvalue : stringValue file place.node with
        | ok text =>
          rw [hvalue] at h
          cases h
        | error other =>
          rw [hvalue] at h
          cases h
          exact stringValue_explains hfile hplace hkind hvalue
      next => split at h <;> cases h

/-- The same of the elements of a literal. -/
theorem compositeKeys_explains {literal : Cursor} (hliteral : Cursor.At file.root literal)
    (h : compositeKeys file literal = .error unsupported) : package.Explains unsupported := by
  unfold compositeKeys at h
  split at h
  next => cases h
  next body hbody =>
    rcases bind_eq_error h with h | ⟨keys, -, h⟩
    · obtain ⟨element, helement, h⟩ := mapM_eq_error h
      exact elementKeys_explains hfile ((hliteral.inRole? hbody).mem_parts helement) h
    · cases h

/-- Why an argument is no data is told on one line, or shows an expression. -/
theorem suppliedKeys_explains {argument : Cursor} (hpackage : package.Shaped)
    (hargument : Cursor.At file.root argument)
    (h : package.suppliedKeys file argument = .error unsupported) :
    package.Explains unsupported := by
  rcases bind_eq_error h with h | ⟨⟨valueFile, value⟩, hvalue, h⟩
  · exact argumentValue_explains hpackage hfile hargument h
  · obtain ⟨hvalueFile, hat⟩ := argumentValue_at hfile hargument hvalue
    -- Here the value is shown, which may be in another file of the package.
    have hshows (h : (Except.error (.argument ("data argument " ++ valueFile.text value.node
          ++ " is not a composite literal")) : Except Unsupported (List String))
            = .error unsupported) :
        package.Explains unsupported := by
      cases h
      exact .inr (.data hvalueFile hat rfl)
    dsimp only at h
    split at h
    next => cases h
    next => exact compositeKeys_explains hvalueFile hat h
    next =>
      split at h
      next literal hliteral =>
        obtain ⟨operator, -, hliteral⟩ := Option.bind_eq_some_iff.1 hliteral
        obtain ⟨operand, hoperand, hliteral⟩ := Option.bind_eq_some_iff.1 hliteral
        split at hliteral
        next =>
          cases hliteral
          exact compositeKeys_explains hvalueFile (hat.inRole? hoperand) h
        next => cases hliteral
      next => exact hshows h
    next => exact hshows h

/-- Why the arguments of a call cannot be read is told on one line, or shows an expression. -/
theorem request_explains {api : Render.Api} {list : Cursor} (hpackage : package.Shaped)
    (hlist : Cursor.At file.root list)
    (h : api.request (package.arguments file list) = .error unsupported) :
    package.Explains unsupported := by
  -- An argument that is there stands in the list of arguments; one that is not is told by its
  -- number.
  have hposition {index : Nat} {argument : Cursor}
      (hindex : argumentAt list.parts index = .ok argument) : Cursor.At file.root argument := by
    unfold argumentAt at hindex
    split at hindex
    next hget =>
      cases hindex
      exact hlist.mem_parts (List.mem_of_getElem? hget)
    next => cases hindex
  have hmissing {index : Nat} (hindex : argumentAt list.parts index = .error unsupported) :
      package.Explains unsupported := by
    unfold argumentAt at hindex
    split at hindex
    next => cases hindex
    next =>
      cases hindex
      exact Package.explains_of_oneLine (.append (by decide) (.toString_nat _))
  unfold Render.Api.request at h
  split at h
  next =>
    cases h
    refine .inl (.append ?_ (by decide))
    cases api.library <;> decide
  next name data _ =>
    dsimp only at h
    split at h
    next =>
      cases h
      exact .inl (.append (.append (.append (by decide) (.toString_nat _)) (by decide))
        (.toString_nat _))
    next =>
      rcases bind_eq_error h with h | ⟨template, -, h⟩
      · rcases bind_eq_error h with h | ⟨argument, hindex, h⟩
        · exact hmissing h
        · exact templateName_explains hpackage hfile (hposition hindex) h
      · rcases bind_eq_error h with h | ⟨keys, -, h⟩
        · rcases bind_eq_error h with h | ⟨argument, hindex, h⟩
          · exact hmissing h
          · exact suppliedKeys_explains hfile hpackage (hposition hindex) h
        · cases h

end

end Go

/-! ## Call sites -/

namespace Render

open Go

/-- A call of a method that is selected from a name of a known type. -/
structure MethodCall (package : Package) (file : File) (call function operand field : Cursor)
    (type : String) : Prop where
  called : call.inRole? .function = some function
  selects : function.node.kind = .selectorExpression
  receives : function.inRole? .operand = some operand
  isName : operand.node.kind = .identifier
  names : function.inRole? .field = some field
  hasType : package.identifierType? file (file.text operand.node) operand = some type

/-- Call sites are the calls of registered methods that have arguments. -/
theorem callSite?_eq_some_iff {package : Package} {file : File} {call : Cursor} {site : CallSite} :
    callSite? package file call = some site ↔
      ∃ function operand field type api arguments,
        MethodCall package file call function operand field type
          ∧ api? type (file.text field.node) = some api
          ∧ call.inRole? .arguments = some arguments
          ∧ site = ⟨file, api, function.node, file.text operand.node, file.text field.node,
              arguments⟩ := by
  constructor
  · intro h
    obtain ⟨function, hfunction, h⟩ := Option.bind_eq_some_iff.1 h
    split at h
    next => cases h
    next hselector =>
      obtain ⟨operand, hoperand, h⟩ := Option.bind_eq_some_iff.1 h
      split at h
      next => cases h
      next hname =>
        obtain ⟨field, hfield, h⟩ := Option.bind_eq_some_iff.1 h
        obtain ⟨type, htype, h⟩ := Option.bind_eq_some_iff.1 h
        obtain ⟨api, hapi, h⟩ := Option.bind_eq_some_iff.1 h
        obtain ⟨arguments, harguments, h⟩ := Option.bind_eq_some_iff.1 h
        cases h
        exact ⟨function, operand, field, type, api, arguments,
          ⟨hfunction, not_not.1 hselector, hoperand, not_not.1 hname, hfield, htype⟩, hapi,
          harguments, rfl⟩
  · rintro ⟨function, operand, field, type, api, arguments, hcall, hapi, harguments, rfl⟩
    simp [callSite?, hcall.called, hcall.selects, hcall.receives, hcall.isName, hcall.names,
      hcall.hasType, hapi, harguments]

/-- A call site names its call on one line, and its arguments are in its file. -/
theorem callSite?_eq_some {package : Package} {file : File} {call : Cursor} {site : CallSite}
    (hroot : file.root.SourceFile (WordAt file.source)) (hcall : Cursor.At file.root call)
    (h : callSite? package file call = some site) :
    site.file = file ∧ OneLine site.call ∧ Cursor.At file.root site.arguments := by
  obtain ⟨function, operand, field, type, api, arguments, hmethod, -, harguments, rfl⟩ :=
    callSite?_eq_some_iff.1 h
  have hfunction := hcall.inRole? hmethod.called
  have hreceiver := File.oneLine_text hroot (hfunction.inRole? hmethod.receives)
    (by rw [hmethod.isName]; rfl)
  have hkind := hfunction.kind_of_field hroot (by simp [hmethod.selects])
    (by rw [hmethod.selects]; rfl) hmethod.names
  have hname := File.oneLine_text hroot (hfunction.inRole? hmethod.names) (by rw [hkind]; rfl)
  exact ⟨rfl, .append (.append hreceiver (by decide)) hname, hcall.inRole? harguments⟩

/-- A search that fails tells why on one line, but for an expression that it may show. -/
theorem findUsages_eq_error {package : Package} {policy : Policy} {call : UnsupportedCall}
    (hpackage : package.Shaped) (hnames : ∀ file ∈ package.files, OneLine file.name)
    (h : findUsages policy package = .error call) :
    (∃ start, OneLine start ∧ call.message = start ++ call.unsupported.reason)
      ∧ package.Explains call.unsupported := by
  cases policy with
  | skip =>
    rw [findUsages_skip] at h
    cases h
  | abort =>
    rw [findUsages_abort] at h
    split at h
    next found hfound =>
      cases h
      obtain ⟨site, hsite, hunsupported⟩ := List.exists_of_findSome?_eq_some hfound
      obtain ⟨file, hfile, hsite⟩ := List.mem_flatMap.1 hsite
      obtain ⟨cursor, hcursor, hsite⟩ := List.mem_filterMap.1 hsite
      rw [callExpressions_eq] at hcursor
      have hat := Cursor.at_of_mem_preorder (List.mem_of_mem_filter hcursor)
      obtain ⟨rfl, hcall, harguments⟩ := callSite?_eq_some (hpackage file hfile) hat hsite
      rcases site.usage_cases package with ⟨usage, -, -, hnone⟩ | ⟨other, husage, -, hsome, hother⟩
      · rw [hnone] at hunsupported
        cases hunsupported
      · rw [hsome] at hunsupported
        cases hunsupported
        constructor
        -- The place and the call are names of files and of the package, and a number.
        · refine ⟨call.place.file ++ ":" ++ toString call.place.line
            ++ ": unsupported argument in call to " ++ call.call ++ ": ", ?_, rfl⟩
          rw [hother]
          exact .append (.append (.append (.append (.append (hnames _ hfile) (by decide))
            (.toString_nat _)) (by decide)) hcall) (by decide)
        · rcases bind_eq_error husage with herror | ⟨request, -, herror⟩
          · exact request_explains hfile hpackage harguments herror
          · cases herror
    next => cases h

end Render

end FieldAudit
