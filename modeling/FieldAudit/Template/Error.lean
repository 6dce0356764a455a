import FieldAudit.Literal
import FieldAudit.Template.Token
import FieldAudit.Text.Quoted

/-! # What can be wrong with a template

An error is a cause at a byte offset.  `Cause.message` holds the wording of every cause. -/

namespace FieldAudit.Template

/-- The part of a template that was being read when an error showed. -/
inductive Context where
  | input
  | command
  | operand
  | parenthesis
  | define
  | template
  | block
  /-- An `if`, `range`, `with`, `else` or `end` action. -/
  | control (keyword : Keyword)
  /-- A `break` or `continue` action. -/
  | loopControl (keyword : Keyword)
  deriving DecidableEq, Repr

/-- A keyword as it stands between the default delimiters. -/
def Keyword.action (k : Keyword) : String :=
  "\x7b\x7b" ++ k.name ++ "\x7d\x7d"

/-- The wording of a context. -/
def Context.name : Context → String
  | .input => "input"
  | .command => "command"
  | .operand => "operand"
  | .parenthesis => "parenthesized pipeline"
  | .define => "define clause"
  | .template => "template clause"
  | .block => "block clause"
  | .control k => k.name
  | .loopControl k => k.action

/-- The reasons for which a template is refused. -/
inductive Cause where
  | invisibleDelimiters
  | unclosedComment
  | commentNotAtDelimiter
  | unclosedParen
  | unclosedAction
  | expectedDeclare
  | unterminatedString
  | unterminatedRawString
  | unterminatedCharConstant
  | unexpectedRightParen
  | unrecognizedCharacter (c : Char)
  | badCharacter (c : Char)
  | badNumber (text : List Char)
  | unexpectedToken (token : Token) (context : Context)
  /-- An `end` or `else` action, by its keyword, that closes nothing. -/
  | strayClosing (keyword : Keyword)
  | elseInDefinition (context : Context)
  | expectedEnd
  | unexpectedEof
  | multipleDefinition (name : String)
  | outsideRange (keyword : Keyword)
  | tooManyDeclarations (context : Context)
  | rangeVariablesOnly
  | missingValue (context : Context)
  | notExecutable (stage : Nat)
  | emptyCommand
  | fieldAfterLiteral (literal : List Char)
  | undefinedFunction (name : String)
  | undefinedVariable (name : String)
  | illegalNumber (text : List Char)
  | malformedLiteral (literal : Literal.Malformed)
  deriving DecidableEq, Repr

/-- A token as messages show it. -/
def Token.describe (t : Token) : String :=
  match t.kind with
  | .eof => "EOF"
  | .keyword k => "<" ++ k.name ++ ">"
  | _ => String.ofList (Text.quoted t.lexeme)

/-- The wording of a cause. -/
def Cause.message : Cause → String
  | .invisibleDelimiters => "template delimiters must not be empty"
  | .unclosedComment => "unclosed comment"
  | .commentNotAtDelimiter => "comment ends before closing delimiter"
  | .unclosedParen => "unclosed left paren"
  | .unclosedAction => "unclosed action"
  | .expectedDeclare => "expected :="
  | .unterminatedString => "unterminated quoted string"
  | .unterminatedRawString => "unterminated raw quoted string"
  | .unterminatedCharConstant => "unterminated character constant"
  | .unexpectedRightParen => "unexpected right paren"
  | .unrecognizedCharacter c =>
    "unrecognized character in action: " ++ String.ofList (Text.quotedChar c)
  | .badCharacter c => "bad character " ++ String.ofList (Text.quotedChar c)
  | .badNumber text => "bad number syntax: " ++ String.ofList (Text.quoted text)
  | .unexpectedToken token context => "unexpected " ++ token.describe ++ " in " ++ context.name
  | .strayClosing k => "unexpected " ++ k.action
  | .elseInDefinition context => "unexpected " ++ Keyword.elseKw.action ++ " in " ++ context.name
  | .expectedEnd => "expected end; found " ++ Keyword.elseKw.action
  | .unexpectedEof => "unexpected EOF"
  | .multipleDefinition name =>
    "multiple definition of template " ++ String.ofList (Text.quoted name.toList)
  | .outsideRange k => k.action ++ " outside " ++ Keyword.rangeKw.action
  | .tooManyDeclarations context => "too many declarations in " ++ context.name
  | .rangeVariablesOnly => "range can only initialize variables"
  | .missingValue context => "missing value for " ++ context.name
  | .notExecutable stage => "non executable command in pipeline stage " ++ toString stage
  | .emptyCommand => "empty command"
  | .fieldAfterLiteral literal =>
    "unexpected . after term " ++ String.ofList (Text.quoted literal)
  | .undefinedFunction name =>
    "function " ++ String.ofList (Text.quoted name.toList) ++ " not defined"
  | .undefinedVariable name => "undefined variable " ++ String.ofList (Text.quoted name.toList)
  | .illegalNumber text => "illegal number syntax: " ++ String.ofList (Text.quoted text)
  | .malformedLiteral literal => literal.message

/-- A cause at a byte offset. -/
structure Error where
  pos : Nat
  cause : Cause
  deriving DecidableEq, Repr

/-- The wording of an error without its place. -/
def Error.message (e : Error) : String :=
  e.cause.message

/-- The wording of an error with its byte offset. -/
def Error.describe (e : Error) : String :=
  e.message ++ " (offset " ++ toString e.pos ++ ")"

end FieldAudit.Template
