/-! # Calls that render templates

A render call is known by the type of its receiver and its method.  Each kind of call says where
its arguments have the template name and the data, or why the template cannot be told. -/

namespace FieldAudit.Render

/-- Where the types with render methods come from. -/
inductive Library where
  | templateSet
  | htmlTemplate
  | textTemplate
  deriving DecidableEq, Repr

/-- Why the arguments of a call cannot be read. -/
inductive Unsupported where
  /-- The call does not say which template it renders. -/
  | unnamed (library : Library)
  /-- The call has too few arguments. -/
  | tooFew (needed found : Nat)
  /-- An argument cannot be read, for the given reason. -/
  | argument (reason : String)
  deriving DecidableEq, Repr

/-- The import path of the package that a library is. -/
def Library.path : Library → String
  | .templateSet => "github.com/go-web-framework/templates"
  | .htmlTemplate => "html/template"
  | .textTemplate => "text/template"

/-- The type with the render methods of a library. -/
def Library.typeName : Library → String
  | .templateSet => "Set"
  | .htmlTemplate => "Template"
  | .textTemplate => "Template"

/-- The names of the types with the render methods of a library: a value or a pointer to it. -/
def Library.receivers (library : Library) : List String :=
  let name := library.path ++ "." ++ library.typeName
  [name, "*" ++ name]

/-- The reason in words. -/
def Unsupported.reason : Unsupported → String
  | .unnamed library => library.path ++ " Execute does not name its template"
  | .tooFew needed found =>
    "expected at least " ++ toString needed ++ " arguments, found " ++ toString found
  | .argument reason => reason

/-- What the arguments of a call hold. -/
inductive Shape where
  /-- The positions of the template name and the data. -/
  | nameAndData (name data : Nat)
  /-- The template is not named. -/
  | unnamed
  deriving DecidableEq, Repr

/-- A kind of render call. -/
structure Api where
  library : Library
  methods : List String
  shape : Shape
  deriving DecidableEq, Repr

/-- Whether a method of a type is of a kind. -/
def Api.covers (api : Api) (type method : String) : Bool :=
  api.library.receivers.contains type && api.methods.contains method

/-- All kinds of render calls.  Where two fit, the first counts. -/
def apis : List Api :=
  [{ library := .templateSet, methods := ["Execute"], shape := .nameAndData 0 2 },
   { library := .htmlTemplate, methods := ["ExecuteTemplate"], shape := .nameAndData 1 2 },
   { library := .textTemplate, methods := ["ExecuteTemplate"], shape := .nameAndData 1 2 },
   { library := .htmlTemplate, methods := ["Execute"], shape := .unnamed },
   { library := .textTemplate, methods := ["Execute"], shape := .unnamed }]

/-- The kind of a call by the type of its receiver and its method. -/
def api? (type method : String) : Option Api :=
  apis.find? (·.covers type method)

/-- The arguments of a call: how many there are, and how to read one as a template name or as the
keys of the data. -/
structure Arguments where
  count : Nat
  templateName : Nat → Except Unsupported String
  suppliedKeys : Nat → Except Unsupported (List String)

/-- The template that a call renders and the keys of the data it passes. -/
structure Request where
  template : String
  keys : List String
  deriving DecidableEq, Repr

/-- What a call of a kind asks for. -/
def Api.request (api : Api) (arguments : Arguments) : Except Unsupported Request :=
  match api.shape with
  | .unnamed => .error (.unnamed api.library)
  | .nameAndData name data => do
    let needed := max name data + 1
    if arguments.count < needed then .error (.tooFew needed arguments.count)
    else
      let template ← arguments.templateName name
      let keys ← arguments.suppliedKeys data
      return ⟨template, keys⟩

end FieldAudit.Render
