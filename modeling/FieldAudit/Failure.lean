import FieldAudit.FileTree
import FieldAudit.Settings
import FieldAudit.Template.FieldReference

/-! # Failures of a run -/

namespace FieldAudit

/-- A failed operation in words.  Single quotes in the name of its target are escaped. -/
def operationFailure (component operation target error : String) : String :=
  let escaped := target.toList.flatMap fun c =>
    if c = Text.singleQuote then ['\\', c] else [c]
  component ++ "." ++ operation ++ "('" ++ String.ofList escaped ++ "') failed: " ++ error

/-- An error of the operating system on a walk, with the path where it is met. -/
def walkError (path : String) (error : OsError) : String :=
  "IO error for operation on " ++ path ++ ": " ++ error.message

/-- Why a run fails. -/
inductive Failure where
  /-- The settings are useless. -/
  | settings (fault : Settings.Fault)
  /-- The directory of a package cannot be listed. -/
  | list (directory : String) (error : OsError)
  /-- A file cannot be read. -/
  | read (path : String) (error : OsError)
  /-- The walk through the directory of the templates stops at a path. -/
  | walk (root path : String) (error : OsError)
  /-- A template is malformed. -/
  | template (failure : Template.ParseFailure)
  /-- The parser of Go files cannot be used. -/
  | grammar (fault : String)
  /-- A Go file has a syntax error. -/
  | malformed (place : Place)
  /-- The arguments of a render call cannot be read. -/
  | unsupported (call : Render.UnsupportedCall)
  /-- There is no such package where it was searched. -/
  | noPackage (package : String) (searched : List String)

namespace Failure

/-- The errors behind a failure, each the cause of the one before. -/
def causes : Failure → List String
  | list _ error => [error.message]
  | read _ error => [error.message]
  | walk _ path error => [walkError path error, error.message]
  | _ => []

/-- The failure in words. -/
def message : Failure → String
  | settings fault => fault.message
  | list directory error => operationFailure "fs" "readDir" directory error.message
  | read path error => operationFailure "fs" "read" path error.message
  | walk root path error => operationFailure "fs" "walk" root (walkError path error)
  | template failure => failure.message
  | grammar fault => "failed to load Go grammar: " ++ fault
  | malformed place => "syntax error in " ++ place.text
  | unsupported call => call.message
  | noPackage package searched =>
    operationFailure "package" "locate" package
      ("not a directory and not found under " ++ ", ".intercalate searched)

/-- The failure in words, followed by its causes. -/
def fullMessage (failure : Failure) : String :=
  ": ".intercalate (failure.message :: failure.causes)

end Failure

end FieldAudit
