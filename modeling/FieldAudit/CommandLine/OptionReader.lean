import FieldAudit.CommandLine.Arguments

/-! # A reader of options

Options with a value are `-t`, `-p`, `--ldelim`, `--rdelim` and `--format`.  The flags are
`--skip-unsupported`, and `-h` and `-V` with their long forms.

A value is attached to its option or is the next argument, unless that starts with a dash.  The
value of an option is looked at when the next option or the end of the arguments is met, so an
unknown argument right after it is what gets reported.

A run can use this reader, and nothing else depends on it. -/

namespace FieldAudit.CommandLine

/-- The options with a value. -/
inductive Parameter where
  | templates
  | package
  | leftDelimiter
  | rightDelimiter
  | format
  deriving DecidableEq, Repr

/-- An option as messages name it. -/
def Parameter.name : Parameter → String
  | .templates => "-t <PATH>"
  | .package => "-p <PATH>"
  | .leftDelimiter => "--ldelim <DELIM>"
  | .rightDelimiter => "--rdelim <DELIM>"
  | .format => "--format <FORMAT>"

/-- The flag as messages name it. -/
def skipFlag : String := "--skip-unsupported"

/-- What is wrong with arguments. -/
inductive Complaint where
  /-- An option lacks its value. -/
  | valueMissing (parameter : Parameter)
  /-- A value is not one that the option takes. -/
  | valueInvalid (parameter : Parameter) (value : String)
  /-- An option or a flag is given twice. -/
  | repeated (name : String)
  /-- There is no such option, and no argument is taken by itself. -/
  | unknown (argument : String)
  /-- A flag has a value. -/
  | valueUnexpected (flag value : String)
  /-- The templates or the package are not given. -/
  | incomplete
  deriving DecidableEq, Repr

/-- What is wrong, in words. -/
def Complaint.message : Complaint → String
  | .valueMissing parameter =>
    "a value is required for '" ++ parameter.name ++ "' but none was supplied"
  | .valueInvalid parameter value =>
    "invalid value '" ++ value ++ "' for '" ++ parameter.name ++ "'"
  | .repeated name => "the argument '" ++ name ++ "' cannot be used multiple times"
  | .unknown argument => "unexpected argument '" ++ argument ++ "' found"
  | .valueUnexpected flag value =>
    "unexpected value '" ++ value ++ "' for '" ++ flag ++ "' found; no more were expected"
  | .incomplete => "the following required arguments were not provided:"

/-- Why arguments give no settings. -/
inductive Stop where
  | help
  | version
  | complaint (complaint : Complaint)
  deriving DecidableEq, Repr

/-- What has been read of the arguments: the values by option, whether the flag was given, and the
last option if its value has not been looked at. -/
structure Reading where
  values : List (Parameter × String)
  skip : Bool
  pending : Option (Parameter × Option String)

namespace Reading

/-- The formats by name. -/
def formats : List (String × Format) :=
  [("plain", .plain), ("json", .json)]

/-- What is wrong with a value of an option. -/
def valueComplaint? (parameter : Parameter) (value : String) : Option Complaint :=
  match parameter with
  | .templates => if value.isEmpty then some (.valueMissing parameter) else none
  | .format =>
    if value.isEmpty then some (.valueMissing parameter)
    else if (formats.lookup value).isNone then some (.valueInvalid parameter value)
    else none
  | _ => none

/-- The reading with a value of an option. -/
def assign (reading : Reading) (parameter : Parameter) (value : String) :
    Except Stop Reading :=
  if (reading.values.lookup parameter).isSome then
    .error (.complaint (.repeated parameter.name))
  else
    match valueComplaint? parameter value with
    | some complaint => .error (.complaint complaint)
    | none => .ok { reading with values := reading.values ++ [(parameter, value)] }

/-- The reading after the value of the last option has been looked at. -/
def settle (reading : Reading) : Except Stop Reading :=
  match reading.pending with
  | none => .ok reading
  | some (parameter, none) => .error (.complaint (.valueMissing parameter))
  | some (parameter, some value) => assign { reading with pending := none } parameter value

/-- The reading after an option, whose value may be attached. -/
def option (reading : Reading) (parameter : Parameter) (attached : Option String) :
    Except Stop Reading := do
  let reading ← reading.settle
  match attached with
  | some value => reading.assign parameter value
  | none => return { reading with pending := some (parameter, none) }

/-- The reading after the flag. -/
def flag (reading : Reading) : Except Stop Reading := do
  let reading ← reading.settle
  if reading.skip then .error (.complaint (.repeated skipFlag))
  else return { reading with skip := true }

/-- Stops for help or the version, if the value of the last option is right. -/
def stop (reading : Reading) (reason : Stop) : Except Stop Reading := do
  let _ ← reading.settle
  .error reason

/-- The long options with a value. -/
def longParameter? : String → Option Parameter
  | "ldelim" => some .leftDelimiter
  | "rdelim" => some .rightDelimiter
  | "format" => some .format
  | _ => none

/-- The reading after a long option or flag. -/
def long (reading : Reading) (name : String) (attached : Option String) :
    Except Stop Reading :=
  match longParameter? name, attached with
  | some parameter, _ => reading.option parameter attached
  | none, some value =>
    if ["skip-unsupported", "help", "version"].contains name then
      .error (.complaint (.valueUnexpected ("--" ++ name) value))
    else .error (.complaint (.unknown ("--" ++ name)))
  | none, none =>
    if name = "skip-unsupported" then reading.flag
    else if name = "help" then reading.stop .help
    else if name = "version" then reading.stop .version
    else .error (.complaint (.unknown ("--" ++ name)))

/-- The reading after a short option or flag and what is attached to it. -/
def short (reading : Reading) (letter : Char) (attached : List Char) : Except Stop Reading :=
  let value : Option String :=
    match attached with
    | [] => none
    | '=' :: value => some (String.ofList value)
    | value => some (String.ofList value)
  if letter = 't' then reading.option .templates value
  else if letter = 'p' then reading.option .package value
  else if letter = 'h' then reading.stop .help
  else if letter = 'V' then reading.stop .version
  else .error (.complaint (.unknown (String.ofList ['-', letter])))

/-- The reading after an argument by itself: the value of the last option if it lacks one. -/
def plain (reading : Reading) (argument : String) : Except Stop Reading :=
  match reading.pending with
  | some (parameter, none) => .ok { reading with pending := some (parameter, some argument) }
  | _ => .error (.complaint (.unknown argument))

/-- The reading after an argument. -/
def argument (reading : Reading) (argument : String) : Except Stop Reading :=
  match argument.toList with
  | '-' :: '-' :: rest =>
    let name := String.ofList (rest.takeWhile (· ≠ '='))
    match rest.dropWhile (· ≠ '=') with
    | _ :: value => reading.long name (some (String.ofList value))
    | [] => reading.long name none
  | '-' :: letter :: attached => reading.short letter attached
  | _ => reading.plain argument

/-- The reading after all arguments.  After a bare `--` no argument is known. -/
def arguments (reading : Reading) : List String → Except Stop Reading
  | [] => .ok reading
  | argument :: rest =>
    if argument = "--" then
      match rest with
      | [] => .ok reading
      | extra :: _ => .error (.complaint (.unknown extra))
    else do
      let reading ← reading.argument argument
      reading.arguments rest

/-- The options of a complete reading. -/
def options (reading : Reading) : Except Stop Options :=
  match reading.values.lookup .templates, reading.values.lookup .package with
  | some templates, some package =>
    let standard : Template.Delimiters := {}
    let delimiter (parameter : Parameter) (fallback : List Char) : String :=
      (reading.values.lookup parameter).getD (String.ofList fallback)
    .ok
      { templates, package
        left := delimiter .leftDelimiter standard.left
        right := delimiter .rightDelimiter standard.right
        format := ((reading.values.lookup .format).bind fun name => formats.lookup name).getD .plain
        skipUnsupported := reading.skip }
  | _, _ => .error (.complaint .incomplete)

end Reading

/-- The options that texts give. -/
def parse (arguments : List String) : Except Stop Options := do
  let reading ← (Reading.mk [] false none).arguments arguments
  (← reading.settle).options

/-! ## Notices -/

/-- The name and the version of the program. -/
def versionText : String := "tmplcheck 0.1.0\n"

/-- What the program is for and how it is used. -/
def helpText : String :=
  "Check that Go templates receive every field they reference.\n\n" ++
  "Every field a template reads (`.Foo`, `.Foo.Bar`) must be supplied as a key\n" ++
  "by each call that renders it. Long flags accept one or two dashes:\n" ++
  "  tmplcheck -t ./templates -p example.com/app -format json\n"

/-- The notice that a reading ends with. -/
def Stop.notice : Stop → Notice
  | .help => .shown helpText
  | .version => .shown versionText
  | .complaint wrong => .refused ("error: " ++ wrong.message ++ "\n")

/-- The options that a normalized vector gives.  All arguments have to be texts. -/
def readOptions (vector : List Argument) : Except Notice Options :=
  match vector.tail.mapM Text.decode? with
  | none => .error (.refused "error: invalid UTF-8 was detected in one or more arguments\n")
  | some texts => (parse (texts.map String.ofList)).mapError Stop.notice

end FieldAudit.CommandLine
