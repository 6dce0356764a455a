import FieldAudit.Render.Usage
import FieldAudit.Template.FieldReference

/-! # The check

Each call that renders a template must supply every name in every field reference of the template
as a key.  The names of a chain are looked up one by one among the keys of the call. -/

namespace FieldAudit

open Render (Usage)
open Template (FieldReference)

/-- A name that a template reads and a call does not supply. -/
structure MissingField where
  template : String
  line : Nat
  column : Nat
  key : String
  file : String
  fileLine : Nat
  receiver : String
  method : String
  deriving DecidableEq, Repr

/-- The receiver and the method of the call. -/
def MissingField.call (missing : MissingField) : String :=
  missing.receiver ++ "." ++ missing.method

/-- A key that a reference needs and a call lacks. -/
def MissingField.of (reference : FieldReference) (key : String) (usage : Usage) : MissingField where
  template := reference.path
  line := reference.line
  column := reference.column
  key := key
  file := usage.file
  fileLine := usage.line
  receiver := usage.receiver
  method := usage.method

/-- What a template lacks over all calls that render it. -/
structure CheckResult where
  template : String
  missing : List MissingField
  deriving DecidableEq, Repr

/-- What some calls do not supply of the names in some references: by reference, then by name, then
by call. -/
def missingFields (references : List FieldReference) (usages : List Usage) : List MissingField :=
  references.flatMap fun reference =>
    reference.chain.flatMap fun key =>
      (usages.filter fun usage => !usage.keys.contains key).map (MissingField.of reference key)

/-- The check of all templates against the calls that render them, in the order of the template
paths.  A template that no call renders lacks nothing. -/
def check (fields : List (String × List FieldReference)) (usages : List (String × List Usage)) :
    List CheckResult :=
  (fields.mergeSort fun a b => Text.le a.1 b.1).map fun (template, references) =>
    ⟨template, missingFields references ((usages.lookup template).getD [])⟩

end FieldAudit
