import FieldAudit.Go.TypeName
import FieldAudit.Proofs.Messages.Calls
import Mathlib.Logic.Relation

/-! # Following names to their types

The type of an expression is stated by its text, or it depends on the type of one other expression:
what is in parentheses, the value of a name, the operand of a method.  `Package.question?` gives
that expression.  It may stand anywhere in the package, so that following one question after
another need not come to an end; `Package.followType` does so and counts its depth.

The count alone makes it return (`followType_eq`).  It never makes one type of another: what is
found at some depth is found at every smaller one (`expressionType?_mono`).  Names that lead to each
other in a circle have no type (`identifierType?_eq_none_of_circular`). -/

namespace FieldAudit.Go

/-! ## Questions -/

/-- An expression whose type decides on the type of another one, and how it does. -/
structure Question where
  file : File
  expression : Cursor
  finish : String → Option String

/-- The type that a question comes to, by the types of expressions. -/
def Question.answer? (typeOf : File → Cursor → Option String) (question : Question) :
    Option String :=
  (typeOf question.file question.expression).bind question.finish

/-- A binding without a type has the type of its value. -/
def Binding.question? (binding : Binding) : Option Question :=
  match binding.type, binding.value with
  | none, some value => some ⟨binding.file, value, some⟩
  | _, _ => none

/-- The operand and the method of a call, unless the operand is the name of a package. -/
def Package.methodCall? (package : Package) (file : File) (call : Cursor) :
    Option (Cursor × String) := do
  let function ← call.inRole? .function
  if function.node.kind = .selectorExpression then
    let operand ← function.inRole? .operand
    let method := file.text (← function.inRole? .field).node
    if operand.node.kind = .identifier &&
        (package.lookup? file (file.text operand.node) operand).isNone then none
    else return (operand, method)
  else none

/-- The expression that the type of an expression depends on, if the text does not state it. -/
def Package.question? (package : Package) (file : File) (expression : Cursor) : Option Question :=
  match expression.node.kind with
  | .parenthesizedExpression => expression.part?.map fun inner => ⟨file, inner, some⟩
  | .identifier =>
    (package.lookup? file (file.text expression.node) expression).bind Binding.question?
  | .callExpression =>
    (package.methodCall? file expression).map fun (operand, method) =>
      ⟨file, operand, (builtType? · method)⟩
  | _ => none

section

variable (package : Package) (typeOf : File → Cursor → Option String)

/-- The type of a binding is the answer to its question, or does not depend on other types at all.
-/
theorem bindingType?_eq (binding : Binding) :
    package.bindingType? typeOf binding =
      match binding.question? with
      | some question => question.answer? typeOf
      | none => package.bindingType? (fun _ _ => none) binding := by
  obtain ⟨file, type, value⟩ := binding
  cases type with
  | some type => rfl
  | none =>
    cases value with
    | none => rfl
    | some value => exact (Option.bind_fun_some _).symm

/-- The type of a call depends on other types only through the operand of a method call. -/
theorem callType?_eq (file : File) (call : Cursor) :
    package.callType? typeOf file call =
      match package.methodCall? file call with
      | some (operand, method) => (typeOf file operand).bind (builtType? · method)
      | none => package.callType? (fun _ _ => none) file call := by
  unfold Package.callType? Package.methodCall?
  cases call.inRole? .function with
  | none => rfl
  | some function =>
    by_cases hselector : function.node.kind = .selectorExpression
    · cases hoperand : function.inRole? .operand with
      | none => simp [hselector, hoperand]
      | some operand =>
        cases hfield : function.inRole? .field with
        | none => simp [hselector, hoperand, hfield]
        | some field =>
          by_cases hpackage : operand.node.kind = .identifier ∧
            package.lookup? file (file.text operand.node) operand = none
          · simp [hselector, hoperand, hfield, hpackage]
          · simp [hselector, hoperand, hfield, hpackage]
    · simp [hselector]

end

/-- An expression that depends on no other states its type, which one step finds.  Any other takes
a step more than the one it depends on. -/
theorem expressionType?_succ (package : Package) (steps : Nat) (file : File)
    (expression : Cursor) :
    package.expressionType? (steps + 1) file expression =
      match package.question? file expression with
      | some question => question.answer? (package.expressionType? steps)
      | none => package.expressionType? 1 file expression := by
  unfold Package.question?
  rw [Package.expressionType?, Package.expressionType?]
  -- Only these three kinds ask for the type of another expression.
  cases hkind : expression.node.kind with
  | parenthesizedExpression =>
    cases expression.part? with
    | none => rfl
    | some inner => exact (Option.bind_fun_some _).symm
  | identifier =>
    cases package.lookup? file (file.text expression.node) expression with
    | none => rfl
    | some binding => exact bindingType?_eq package _ binding
  | callExpression =>
    dsimp only
    rw [callType?_eq]
    cases hcall : package.methodCall? file expression with
    | none => rfl
    | some call => rfl
  | _ => rfl

/-! ## More steps -/

/-- A type that is found stays the type however many more steps are allowed. -/
theorem expressionType?_mono (package : Package) {steps steps' : Nat} (h : steps ≤ steps')
    {file : File} {expression : Cursor} {type : String}
    (hfound : package.expressionType? steps file expression = some type) :
    package.expressionType? steps' file expression = some type := by
  induction steps generalizing steps' file expression type with
  | zero => cases hfound
  | succ steps ih =>
    obtain ⟨steps', rfl⟩ : ∃ n, steps' = n + 1 := ⟨steps' - 1, by omega⟩
    rw [expressionType?_succ] at hfound ⊢
    cases hquestion : package.question? file expression with
    | none =>
      rw [hquestion] at hfound
      exact hfound
    | some question =>
      rw [hquestion] at hfound
      obtain ⟨inner, hinner, hfinish⟩ := Option.bind_eq_some_iff.1 hfound
      exact Option.bind_eq_some_iff.2 ⟨inner, ih (by omega) hinner, hfinish⟩

/-! ## Counted depths -/

/-- The type of an expression that is come to at a depth. -/
def Package.typeAtDepth? (package : Package) (depth : Nat) : File → Cursor → Option String :=
  package.expressionType? (typeSteps + 1 - depth)

/-- Follows one question after another, and gives up where the depth goes over `typeSteps`.  There
is no result if more questions than the limit are asked. -/
def Package.followType (package : Package) :
    Nat → Nat → File → Cursor → Option (Option String)
  | 0, _, _, _ => none
  | limit + 1, depth, file, expression =>
    if typeSteps < depth then some none
    else
      match package.question? file expression with
      | none => some (package.expressionType? 1 file expression)
      | some question =>
        (package.followType limit (depth + 1) question.file question.expression).map
          (·.bind question.finish)

/-- Follows a name to its type. -/
def Package.followName (package : Package) (limit : Nat) (file : File) (name : String)
    (use : Cursor) : Option (Option String) :=
  match package.lookup? file name use with
  | none => some none
  | some binding =>
    match binding.question? with
    | none => some (package.bindingType? (fun _ _ => none) binding)
    | some question =>
      (package.followType limit 1 question.file question.expression).map (·.bind question.finish)

/-- Following questions returns, whatever they are, and gives the type at the depth. -/
theorem followType_eq (package : Package) {limit depth : Nat} (h : typeSteps + 1 - depth < limit)
    (file : File) (expression : Cursor) :
    package.followType limit depth file expression =
      some (package.typeAtDepth? depth file expression) := by
  induction limit generalizing depth file expression with
  | zero => exact absurd h (Nat.not_lt_zero _)
  | succ limit ih =>
    rw [Package.followType, Package.typeAtDepth?]
    by_cases hdepth : typeSteps < depth
    · rw [if_pos hdepth, Nat.sub_eq_zero_of_le hdepth]
      rfl
    · -- One question more leaves one step less.
      obtain ⟨steps, hsteps, hnext⟩ : ∃ n, typeSteps + 1 - depth = n + 1 ∧
          typeSteps + 1 - (depth + 1) = n := ⟨typeSteps - depth, by omega, by omega⟩
      rw [if_neg hdepth, hsteps, expressionType?_succ package steps]
      cases package.question? file expression with
      | none => rfl
      | some question =>
        dsimp only
        rw [ih (by omega), Package.typeAtDepth?, hnext]
        rfl

/-- Following a name ends within every limit above the number of steps, with its type. -/
theorem followName_eq (package : Package) {limit : Nat} (h : typeSteps < limit) (file : File)
    (name : String) (use : Cursor) :
    package.followName limit file name use = some (package.identifierType? file name use) := by
  unfold Package.followName Package.identifierType?
  cases package.lookup? file name use with
  | none => rfl
  | some binding =>
    show _ = some (package.bindingType? (package.expressionType? typeSteps) binding)
    rw [bindingType?_eq]
    cases hquestion : binding.question? with
    | none => simp only [hquestion]
    | some question =>
      simp only [hquestion]
      rw [followType_eq package h]
      rfl

/-! ## Circles of names -/

/-- A name stands for a binding without a type, whose value is another name. -/
inductive Package.LeadsTo (package : Package) : File × Cursor → File × Cursor → Prop
  | name {file file' : File} {use value : Cursor} (hu : use.node.kind = .identifier)
      (hl : package.lookup? file (file.text use.node) use = some ⟨file', none, some value⟩)
      (hv : value.node.kind = .identifier) : LeadsTo package (file, use) (file', value)

/-- From name to name, a place is come to twice. -/
def Package.ReachesCircle (package : Package) (start : File × Cursor) : Prop :=
  ∃ place, Relation.ReflTransGen package.LeadsTo start place ∧
    Relation.TransGen package.LeadsTo place place

/-- A name stands for a binding without a type, whose value is a name that leads to a circle. -/
def Package.Circular (package : Package) (file : File) (name : String) (use : Cursor) : Prop :=
  ∃ file' value, package.lookup? file name use = some ⟨file', none, some value⟩ ∧
    value.node.kind = .identifier ∧ package.ReachesCircle (file', value)

/-- What leads to a circle leads to another name that does. -/
theorem Package.ReachesCircle.next {package : Package} {start : File × Cursor}
    (h : package.ReachesCircle start) :
    ∃ place, package.LeadsTo start place ∧ package.ReachesCircle place := by
  obtain ⟨place, hway, hcircle⟩ := h
  rcases Relation.ReflTransGen.cases_head hway with rfl | ⟨second, hfirst, hway⟩
  · obtain ⟨second, hfirst, hback⟩ := Relation.TransGen.head'_iff.1 hcircle
    exact ⟨second, hfirst, start, hback, hcircle⟩
  · exact ⟨second, hfirst, place, hway, hcircle⟩

/-- An expression that leads into a circle has no type, however many steps are taken. -/
theorem expressionType?_eq_none_of_reachesCircle {package : Package} {file : File} {use : Cursor}
    (h : package.ReachesCircle (file, use)) (steps : Nat) :
    package.expressionType? steps file use = none := by
  induction steps generalizing file use with
  | zero => rfl
  | succ steps ih =>
    obtain ⟨⟨file', value⟩, hlead, hcircle⟩ := h.next
    cases hlead with
    | name hu hl hv =>
      rw [Package.expressionType?, hu]
      dsimp only
      rw [hl]
      exact ih hcircle

/-- A name that leads to itself has no type. -/
theorem identifierType?_eq_none_of_circular {package : Package} {file : File} {name : String}
    {use : Cursor} (h : package.Circular file name use) :
    package.identifierType? file name use = none := by
  obtain ⟨file', value, hl, -, hcircle⟩ := h
  rw [Package.identifierType?, hl]
  exact expressionType?_eq_none_of_reachesCircle hcircle typeSteps

/-- In every package, following a name or an expression to its type returns, before it has asked
more than `typeSteps + 2` questions.  A type that is found at a depth is found at every smaller one,
and a name that leads into a circle of names has no type. -/
theorem expressionType?_bounded (package : Package) :
    (∀ limit file name use, typeSteps < limit →
        package.followName limit file name use = some (package.identifierType? file name use)) ∧
      (∀ limit depth file expression, typeSteps + 1 - depth < limit →
        package.followType limit depth file expression =
          some (package.typeAtDepth? depth file expression)) ∧
      (∀ depth depth' file expression type, depth' ≤ depth →
        package.typeAtDepth? depth file expression = some type →
        package.typeAtDepth? depth' file expression = some type) ∧
      ∀ file name use, package.Circular file name use →
        package.identifierType? file name use = none := by
  refine ⟨?_, ?_, ?_, ?_⟩
  · intro limit file name use hlimit
    exact followName_eq package hlimit file name use
  · intro limit depth file expression hlimit
    exact followType_eq package hlimit file expression
  · intro depth depth' file expression type hle hfound
    exact expressionType?_mono package (by omega) hfound
  · intro file name use hcircular
    exact identifierType?_eq_none_of_circular hcircular

/-- Two variables that stand for each other, and a chain of names with a type. -/
def circularSource : List Char :=
  "package main\n\nvar a = b\nvar b = a\nvar t = &T\x7b\x7d\nvar u = (t)\n".toList

/-- Whether a name stands for a variable at the top of a file whose value is another name, which no
scope around it declares. -/
def standsFor (file : File) (name other : String) : Bool :=
  (Package.lookup? ⟨"main", [file]⟩ file name file.top).any fun binding =>
    binding.type.isNone && binding.value.any fun value =>
      (value.node.kind = .identifier && file.text value.node = other) &&
        ((localScopes value).findSome? fun scope =>
          Declared.in? file scope other value.node.start).isNone

/-- A top-level name whose value is another name resolves to that name's binding. -/
theorem standsFor_eq_true {file : File} {name other : String}
    (h : standsFor file name other = true) :
    ∃ value, Package.lookup? ⟨"main", [file]⟩ file name file.top = some ⟨file, none, some value⟩ ∧
      value.node.kind = .identifier ∧
      Package.lookup? ⟨"main", [file]⟩ file (file.text value.node) value =
        Package.lookup? ⟨"main", [file]⟩ file other file.top := by
  obtain ⟨⟨found, type, value⟩, hbinding, h⟩ := (Option.any_eq_true _ _).1 h
  obtain ⟨htype, h⟩ := Bool.and_eq_true_iff.1 h
  obtain ⟨value, rfl, h⟩ := (Option.any_eq_true _ _).1 h
  obtain ⟨h, hlocal⟩ := Bool.and_eq_true_iff.1 h
  obtain ⟨hkind, htext⟩ := Bool.and_eq_true_iff.1 h
  cases Option.isNone_iff_eq_none.1 htype
  obtain ⟨only, hmem, hwithin⟩ :=
    lookup?_within (List.mem_singleton_self file) Cursor.At.root hbinding
  have hfound : found = file := hwithin.file_eq.trans (List.mem_singleton.1 hmem)
  subst hfound
  refine ⟨value, hbinding, by simpa using hkind, ?_⟩
  rw [show found.text value.node = other by simpa using htext, Package.lookup?,
    Option.isNone_iff_eq_none.1 hlocal]
  rfl

/-- Two names that stand for each other lead from the one to the other and back. -/
theorem circular_of_standsFor {file : File} {name other : String}
    (h : standsFor file name other = true) (h' : standsFor file other name = true) :
    Package.Circular ⟨"main", [file]⟩ file name file.top := by
  obtain ⟨value, hlookup, hkind, hvalue⟩ := standsFor_eq_true h
  obtain ⟨value', hlookup', hkind', hvalue'⟩ := standsFor_eq_true h'
  have hthere : Package.LeadsTo ⟨"main", [file]⟩ (file, value) (file, value') :=
    .name hkind (hvalue.trans hlookup') hkind'
  have hback : Package.LeadsTo ⟨"main", [file]⟩ (file, value') (file, value) :=
    .name hkind' (hvalue'.trans hlookup) hkind
  exact ⟨file, value, hlookup, hkind, (file, value), .refl, .tail (.single hthere) hback⟩

/-- In a file with circular declarations the search ends, and finds the types outside the circle. -/
theorem expressionType?_bounded_circle :
    ∃ file, File.read Grammar.parser "main.go" circularSource = .ok file ∧
      Package.Circular ⟨"main", [file]⟩ file "a" file.top ∧
      Package.followName ⟨"main", [file]⟩ 9 file "a" file.top = some none ∧
      ∃ value, (Package.binding? ⟨"main", [file]⟩ "u").bind Binding.value = some value ∧
        Package.typeAtDepth? ⟨"main", [file]⟩ 6 file value = some "*main.T" ∧
        Package.followType ⟨"main", [file]⟩ 10 0 file value = some (some "*main.T") := by
  have htest : (File.read Grammar.parser "main.go" circularSource).toOption.any (fun file =>
      (standsFor file "a" "b" && standsFor file "b" "a") &&
        ((Package.binding? ⟨"main", [file]⟩ "u").bind Binding.value).any fun value =>
          Package.typeAtDepth? ⟨"main", [file]⟩ 6 file value = some "*main.T") = true := by
    decide +kernel
  obtain ⟨file, hfile, h⟩ := File.exists_of_any htest
  obtain ⟨h, htype⟩ := Bool.and_eq_true_iff.1 h
  obtain ⟨value, hvalue, htype⟩ := (Option.any_eq_true _ _).1 htype
  obtain ⟨hthere, hback⟩ := Bool.and_eq_true_iff.1 h
  have hcircular := circular_of_standsFor hthere hback
  have htype : Package.typeAtDepth? ⟨"main", [file]⟩ 6 file value = some "*main.T" := by
    simpa using htype
  obtain ⟨hname, hfollow, hmono, hnone⟩ := expressionType?_bounded ⟨"main", [file]⟩
  refine ⟨file, hfile, hcircular, ?_, value, hvalue, htype, ?_⟩
  · rw [hname 9 file "a" file.top (by decide), hnone file "a" file.top hcircular]
  · rw [hfollow 10 0 file value (by decide), hmono 6 0 file value _ (by decide) htype]

end FieldAudit.Go
