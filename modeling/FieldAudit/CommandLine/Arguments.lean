import FieldAudit.Settings
import FieldAudit.Text.Utf8

/-! # Arguments of the command line

An argument is a list of bytes, which need not be a text.  Long options may have a single dash: they
get a second one before the options are read.  How options are read is not a part of this library;
what comes of it is either a set of options or a notice that ends the run. -/

namespace FieldAudit.CommandLine

/-- An argument of a process. -/
abbrev Argument := List UInt8

/-! ## Single dashes -/

/-- The long options that may have a single dash. -/
def singleDashNames : List String :=
  ["ldelim", "rdelim", "format", "skip-unsupported"]

/-- What follows the dash of a text, if it is a long option with one dash. -/
def singleDash? (text : List Char) : Option (List Char) :=
  match text with
  | '-' :: rest =>
    let name := String.ofList (rest.takeWhile (· ≠ '='))
    if rest.head? ≠ some '-' && singleDashNames.contains name then some rest else none
  | _ => none

/-- An argument with two dashes, if it is a long option with one.  What is no text stays as it is.
-/
def normalizeArgument (argument : Argument) : Argument :=
  match Text.decode? argument with
  | none => argument
  | some text =>
    match singleDash? text with
    | some rest => Text.encode ('-' :: '-' :: rest)
    | none => argument

/-- The argument after which no argument is an option. -/
def bareDashes : Argument := Text.encode ['-', '-']

/-- The arguments with two dashes before every long option.  A bare `--` and all after it stay as
they are. -/
def normalize : List Argument → List Argument
  | [] => []
  | argument :: rest =>
    if argument = bareDashes then argument :: rest
    else normalizeArgument argument :: normalize rest

/-- The arguments of a process, normalized.  The first of them is the name of the program. -/
def normalizeVector : List Argument → List Argument
  | [] => []
  | program :: arguments => program :: normalize arguments

/-! ## Options -/

/-- The options of a run. -/
structure Options where
  templates : String
  package : String
  left : String
  right : String
  format : Format
  skipUnsupported : Bool
  deriving DecidableEq, Repr

/-- The settings of a run with some options. -/
def Options.settings (options : Options) : Settings where
  templates := options.templates
  package := options.package
  delimiters := ⟨options.left.toList, options.right.toList⟩
  format := options.format
  policy := if options.skipUnsupported then .skip else .abort

/-- What ends a run before it has options. -/
inductive Notice where
  /-- A text that has been asked for. -/
  | shown (text : String)
  /-- What is wrong with the arguments. -/
  | refused (text : String)
  deriving DecidableEq, Repr

end FieldAudit.CommandLine
