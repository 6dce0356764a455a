import FieldAudit.Check
import FieldAudit.Go.Load
import FieldAudit.Template.Directory

/-! # Whole runs

A run reads the Go package and the templates and checks one against the other.  If both fail, the
failure of the package counts. -/

namespace FieldAudit

/-- What a run finds. -/
structure Analysis where
  results : List CheckResult
  warnings : List Warning

/-- The number of missing fields. -/
def Analysis.count (analysis : Analysis) : Nat :=
  (analysis.results.flatMap CheckResult.missing).length

/-- The uses of templates in the package of a name. -/
def packageUsages (parser : Go.Parser) (w : Workspace) (package : String)
    (policy : Render.Policy) : Except Failure Render.Findings := do
  let package ← Go.loadPackage parser w package
  match Render.findUsages policy package with
  | .ok findings => .ok findings
  | .error call => .error (.unsupported call)

/-- The field references of the templates in a directory. -/
def templateFields (w : Workspace) (d : Template.Delimiters) (directory : String) :
    Except Failure (List (String × List Template.FieldReference)) :=
  match w.files.tree directory with
  | .error error => .error (.walk directory directory error)
  | .ok tree => Template.analyzeTree d directory tree

/-- The run with some settings. -/
def analyze (parser : Go.Parser) (w : Workspace) (settings : Settings) :
    Except Failure Analysis :=
  match settings.fault? with
  | some fault => .error (.settings fault)
  | none => do
    let findings ← packageUsages parser w settings.package settings.policy
    let fields ← templateFields w settings.delimiters settings.templates
    return ⟨check fields (Render.byTemplate findings.usages), findings.warnings⟩

end FieldAudit
