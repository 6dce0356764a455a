import FieldAudit.Analysis
import FieldAudit.CommandLine.Arguments
import FieldAudit.Report

/-! # The command line

A run ends with what it writes to its two outputs and with an exit code: zero if it finishes, one
if it fails, and two if its arguments are wrong. -/

namespace FieldAudit.CommandLine

/-- What a run uses: a reader of options and a parser of Go files. -/
structure Tools where
  options : List Argument → Except Notice Options
  parser : Go.Parser

/-- How a run ends. -/
inductive Outcome where
  /-- The arguments give no options. -/
  | stopped (notice : Notice)
  /-- The settings are useless. -/
  | rejected (fault : Settings.Fault)
  /-- The run fails. -/
  | failed (failure : Failure)
  /-- The run finishes, but the report cannot be written. -/
  | unwritten (format : Format) (analysis : Analysis) (outlet : Outlet)
  /-- The run finishes, with a report in a format. -/
  | finished (format : Format) (analysis : Analysis)

/-- A warning on one or two lines. -/
def warningText (warning : Warning) : String :=
  "warning: " ++ warning.message ++ "\n" ++
    match warning.place with
    | some place => "  --> " ++ place.text ++ "\n"
    | none => ""

/-- The warnings of a run. -/
def warningsText (analysis : Analysis) : String :=
  String.join (analysis.warnings.map warningText)

/-- An error on a line of its own. -/
def errorText (message : String) : String :=
  "error: " ++ message ++ "\n"

/-- What an output takes of a text before it fails, in whole characters. -/
def Outlet.taken (outlet : Outlet) (text : String) : String :=
  String.ofList (Text.takeBytes outlet.room text.toList)

/-- Whether an output fails before it has taken a text. -/
def Outlet.refuses (outlet : Outlet) (text : String) : Bool :=
  outlet.room < Text.byteLength text.toList

namespace Outcome

/-- The exit code. -/
def exitCode : Outcome → Nat
  | stopped (.shown _) => 0
  | stopped (.refused _) => 2
  | rejected _ => 2
  | failed _ => 1
  | unwritten .. => 1
  | finished .. => 0

/-- What is written to the standard output. -/
def output : Outcome → String
  | stopped (.shown text) => text
  | unwritten format analysis outlet => Outlet.taken outlet (Report.render format analysis.results)
  | finished format analysis => Report.render format analysis.results
  | _ => ""

/-- What is written to the error output. -/
def errors : Outcome → String
  | stopped (.refused text) => text
  | rejected fault => errorText fault.message
  | failed failure => errorText failure.fullMessage
  | unwritten _ analysis outlet =>
    warningsText analysis ++ errorText ("failed to write report: " ++ outlet.error.message)
  | finished _ analysis => warningsText analysis
  | _ => ""

end Outcome

/-- The end of a run that has come to a report. -/
def writeReport (w : Workspace) (format : Format) (analysis : Analysis) : Outcome :=
  match w.outlet with
  | some outlet =>
    if Outlet.refuses outlet (Report.render format analysis.results) then
      .unwritten format analysis outlet
    else .finished format analysis
  | none => .finished format analysis

/-- The run with some arguments, the first of which is the name of the program. -/
def run (tools : Tools) (w : Workspace) (arguments : List Argument) : Outcome :=
  match tools.options (normalizeVector arguments) with
  | .error notice => .stopped notice
  | .ok options =>
    match options.settings.fault? with
    | some fault => .rejected fault
    | none =>
      match analyze tools.parser w options.settings with
      | .ok analysis => writeReport w options.format analysis
      | .error failure => .failed failure

end FieldAudit.CommandLine
