import FieldAudit.Check
import FieldAudit.Report.Json
import FieldAudit.Settings

/-! # Reports

The plain report has the templates that lack something, each with a line per missing field.  The
structured report has all templates. -/

namespace FieldAudit.Report

/-- A missing field as a line. -/
def plainLine (missing : MissingField) : String :=
  missing.key ++ " missing: required by " ++ missing.file ++ ":" ++ toString missing.fileLine
    ++ " in " ++ missing.call ++ "\n"

/-- The lines about a template.  There are none if nothing is missing. -/
def plainResult (result : CheckResult) : String :=
  if result.missing.isEmpty then ""
  else result.template ++ "\n" ++ String.join (result.missing.map plainLine)

/-- The plain report. -/
def plain (results : List CheckResult) : String :=
  String.join (results.map plainResult)

/-- A missing field with its place in the template and the call. -/
def missingJson (missing : MissingField) : Json :=
  .object
    [("template", .object
      [("file", .text missing.template), ("line", .number missing.line),
       ("col", .number missing.column)]),
     ("source", .object
      [("file", .text missing.file), ("line", .number missing.fileLine),
       ("key", .text missing.key), ("call", .text missing.call)])]

/-- A template with its missing fields. -/
def resultJson (result : CheckResult) : Json :=
  .object
    [("template", .text result.template), ("missing", .array (result.missing.map missingJson))]

/-- The structured report. -/
def json (results : List CheckResult) : String :=
  String.ofList ((Json.array (results.map resultJson)).pretty 0 ++ ['\n'])

/-- The report in a format. -/
def render (format : Format) (results : List CheckResult) : String :=
  match format with
  | .plain => plain results
  | .json => json results

end FieldAudit.Report
