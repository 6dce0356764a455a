import FieldAudit.Render.Usage
import FieldAudit.Template.Token

/-! # Settings of a run -/

namespace FieldAudit

/-- How the report is written. -/
inductive Format where
  | plain
  | json
  deriving DecidableEq, Repr

/-- What a run looks at and how it reports. -/
structure Settings where
  /-- The directory of the templates. -/
  templates : String
  /-- The directory or the import path of the Go package. -/
  package : String
  delimiters : Template.Delimiters := {}
  format : Format := .plain
  policy : Render.Policy := .abort

namespace Settings

/-- What makes settings useless. -/
inductive Fault where
  | noTemplates
  | noPackage
  | emptyDelimiter
  deriving DecidableEq, Repr

/-- The fault in words. -/
def Fault.message : Fault → String
  | .noTemplates => "-t is required"
  | .noPackage => "-p is required"
  | .emptyDelimiter => "template delimiters must not be empty"

/-- The first fault of settings. -/
def fault? (settings : Settings) : Option Fault :=
  if settings.templates.isEmpty then some .noTemplates
  else if settings.package.isEmpty then some .noPackage
  else if settings.delimiters.left.isEmpty || settings.delimiters.right.isEmpty then
    some .emptyDelimiter
  else none

end Settings

end FieldAudit
