import FieldAudit.Go.CallArguments
import FieldAudit.Go.Traversal
import FieldAudit.Warning

/-! # Uses of templates

A package uses a template where it calls one of the render methods on a name.  A call whose
arguments cannot be read either stops the search or is left out with a warning. -/

namespace FieldAudit.Render

open Go

/-- A render call and the keys of the data it passes. -/
structure Usage where
  file : String
  line : Nat
  offset : Nat
  receiver : String
  method : String
  template : String
  keys : List String
  deriving DecidableEq, Repr

/-- A call of one of the render methods, before its arguments are read. -/
structure CallSite where
  file : File
  api : Api
  function : Node
  receiver : String
  method : String
  arguments : Cursor

/-- The receiver and the method of a call site. -/
def CallSite.call (site : CallSite) : String :=
  site.receiver ++ "." ++ site.method

/-- The place of a call site. -/
def CallSite.place (site : CallSite) : Place :=
  let (line, column) := site.file.locate site.function.start
  ⟨site.file.name, line, column⟩

/-- A call as a call site, if its receiver is a name whose type has that render method. -/
def callSite? (package : Package) (file : File) (call : Cursor) : Option CallSite := do
  let function ← call.inRole? .function
  if function.node.kind ≠ .selectorExpression then none
  else
    let operand ← function.inRole? .operand
    if operand.node.kind ≠ .identifier then none
    else
      let receiver := file.text operand.node
      let method := file.text (← function.inRole? .field).node
      let type ← package.identifierType? file receiver operand
      let api ← api? type method
      let arguments ← call.inRole? .arguments
      return ⟨file, api, function.node, receiver, method, arguments⟩

/-- The call sites of a package, by file and in order. -/
def callSites (package : Package) : List CallSite :=
  package.files.flatMap fun file =>
    (callExpressions file.root).filterMap (callSite? package file)

/-- The use of a template at a call site. -/
def CallSite.usage (site : CallSite) (package : Package) : Except Unsupported Usage := do
  let request ← site.api.request (package.arguments site.file site.arguments)
  return { file := site.file.name
           line := site.place.line
           offset := site.function.start
           receiver := site.receiver
           method := site.method
           template := request.template
           keys := request.keys }

/-- What happens at a call site whose arguments cannot be read. -/
inductive Policy where
  /-- The search fails. -/
  | abort
  /-- The call site is left out. -/
  | skip
  deriving DecidableEq, Repr

/-- A call site whose arguments cannot be read. -/
structure UnsupportedCall where
  place : Place
  call : String
  unsupported : Unsupported
  deriving DecidableEq, Repr

/-- What is wrong with a call, where it stops the search. -/
def UnsupportedCall.message (u : UnsupportedCall) : String :=
  u.place.file ++ ":" ++ toString u.place.line ++ ": unsupported argument in call to " ++ u.call
    ++ ": " ++ u.unsupported.reason

/-- The warning about a call that is left out. -/
def UnsupportedCall.warning (u : UnsupportedCall) : Warning :=
  ⟨"skipping call to " ++ u.call ++ ": " ++ u.unsupported.reason, some u.place⟩

/-- The uses in a package in order, and warnings about the calls left out. -/
structure Findings where
  usages : List Usage
  warnings : List Warning
  deriving DecidableEq, Repr

/-- The findings with those of the next call site. -/
def Findings.add (policy : Policy) (package : Package) (findings : Findings) (site : CallSite) :
    Except UnsupportedCall Findings :=
  match site.usage package with
  | .ok usage => .ok { findings with usages := findings.usages ++ [usage] }
  | .error unsupported =>
    let call : UnsupportedCall := ⟨site.place, site.call, unsupported⟩
    match policy with
    | .abort => .error call
    | .skip => .ok { findings with warnings := findings.warnings ++ [call.warning] }

/-- The uses of templates in a package. -/
def findUsages (policy : Policy) (package : Package) : Except UnsupportedCall Findings :=
  (callSites package).foldlM (Findings.add policy package) ⟨[], []⟩

/-- Uses by template with one more, at the end of the uses of its template.  A template without an
entry gets one. -/
def insertUsage (usage : Usage) : List (String × List Usage) → List (String × List Usage)
  | [] => [(usage.template, [usage])]
  | (template, usages) :: rest =>
    if template = usage.template then (template, usages ++ [usage]) :: rest
    else (template, usages) :: insertUsage usage rest

/-- The uses by template, put in one after the other. -/
def byTemplate (usages : List Usage) : List (String × List Usage) :=
  usages.foldl (fun table usage => insertUsage usage table) []

end FieldAudit.Render
