import FieldAudit.Literal.Number
import FieldAudit.Template.Input

/-! # Reading pipes

A pipe is read from the tokens up to its closing token: first the variables it declares, then its
commands.  `pipeline` reads one; the functions beside it read its parts.  None of them gives back
more tokens than it was given (`pipeline_size`). -/

namespace FieldAudit.Template

/-- The functions that every template may call. -/
def builtinFunctions : List String :=
  ["and", "call", "html", "index", "slice", "js", "len", "not", "or", "print", "printf",
   "println", "urlquery", "eq", "ge", "gt", "le", "lt", "ne"]

/-! ## Declarations -/

/-- The number of variables a pipe may declare after its first. -/
def Context.furtherDeclarations : Context → Nat
  | .control .rangeKw => 1
  | _ => 0

/-- The variables that a pipe declares, of which `more` may follow the first.  A variable that is
not declared is left to the commands. -/
def declarations (context : Context) (more : Nat) (s : Input) :
    Except Error (List Variable × Input) :=
  let t := s.peekWord
  if t.kind = .variable then
    let name := String.ofList t.lexeme
    let mark := s.next.peekWord.kind
    let declared := s.next.next.declare name
    if mark = .assign ∨ mark = .declare then .ok ([⟨t.pos, [name]⟩], declared)
    else if mark = .comma then
      match more with
      | 0 => .error ⟨t.pos, .tooManyDeclarations context⟩
      | more + 1 =>
        if [.variable, .rightDelim, .rightParen].contains declared.peekWord.kind then
          match declarations context more declared with
          | .error e => .error e
          | .ok (rest, s) => .ok (⟨t.pos, [name]⟩ :: rest, s)
        else .error ⟨t.pos, .rangeVariablesOnly⟩
    else .ok ([], s)
  else .ok ([], s)

/-- Reading declarations leaves no more input than there was. -/
theorem declarations_size {context : Context} {more : Nat} {s : Input}
    {result : List Variable × Input} (h : declarations context more s = .ok result) :
    result.2.size ≤ s.size := by
  have two (s : Input) (name : String) : (s.next.next.declare name).size ≤ s.size :=
    Nat.le_trans (Input.size_next_le _) (Input.size_next_le _)
  fun_induction declarations context more s generalizing result with
  | case1 => cases h; exact two ..
  | case2 => cases h
  | case3 => cases h
  | case4 =>
    rename_i hr ih
    cases h
    have := ih hr
    exact Nat.le_trans this (two ..)
  | case5 => cases h
  | case6 => cases h; exact Nat.le_refl _
  | case7 => cases h; exact Nat.le_refl _

/-! ## Operands -/

/-- Whether a token can start an operand. -/
def Token.Kind.startsOperand : Token.Kind → Bool
  | .bool | .charConstant | .dot | .field | .identifier | .number | .keyword .nilKw | .rawString
  | .string | .variable | .leftParen => true
  | _ => false

/-- The operand that a single token stands for.  Tokens that start no operand give none, and so
does an opening parenthesis. -/
def atom? (scope : List String) (t : Token) : Except Error (Option Node) :=
  match t.kind with
  | .identifier =>
    let name := String.ofList t.lexeme
    if builtinFunctions.contains name then .ok (some (.identifier t.pos name true))
    else .error ⟨t.pos, .undefinedFunction name⟩
  | .dot => .ok (some (.dot t.pos))
  | .keyword .nilKw => .ok (some (.nil t.pos))
  | .variable =>
    let name := String.ofList t.lexeme
    if scope.contains name then .ok (some (.variable ⟨t.pos, [name]⟩))
    else .error ⟨t.pos, .undefinedVariable name⟩
  | .field => .ok (some (.field t.pos [String.ofList t.lexeme.tail]))
  | .bool => .ok (some (.bool t.pos (t.lexeme = "true".toList)))
  | .charConstant =>
    match unquoteToken t with
    | .error e => .error e
    | .ok _ => .ok (some (.number t.pos t.lexeme))
  | .number =>
    if Literal.isNumber t.lexeme then .ok (some (.number t.pos t.lexeme))
    else .error ⟨t.pos, .illegalNumber t.lexeme⟩
  | .string | .rawString =>
    match unquoteToken t with
    | .error e => .error e
    | .ok _ => .ok (some (.string t.pos t.lexeme))
  | _ => .ok none

/-- The text of a literal in messages. -/
def Node.literalText : Node → List Char
  | .bool _ value => if value then "true".toList else "false".toList
  | .string _ literal => literal
  | .number _ literal => literal
  | .nil _ => "nil".toList
  | _ => ['.']

/-- Whether no field can be taken from a node: a literal, or the point that stands for the data. -/
def Node.isLiteral : Node → Bool
  | .bool .. | .string .. | .number .. | .nil .. | .dot .. => true
  | _ => false

/-- A node with fields taken from it.  The result stands where the first of the fields does. -/
def Node.select (pos : Nat) (fields : List String) : Node → Node
  | .field _ path => .field pos (path ++ fields)
  | .variable v => .variable ⟨pos, v.path ++ fields⟩
  | node => .chain pos node fields

/-- A node with the fields that follow it directly. -/
def withFields (node : Node) (s : Input) : Except Error (Node × Input) :=
  let fields := s.tokens.takeWhile (·.kind = .field)
  match fields with
  | [] => .ok (node, s)
  | first :: _ =>
    if node.isLiteral then .error ⟨first.pos, .fieldAfterLiteral node.literalText⟩
    else
      .ok (node.select first.pos (fields.map fun t => String.ofList t.lexeme.tail),
        { s with tokens := s.tokens.dropWhile (·.kind = .field) })

/-- Reading trailing fields leaves no more input than there was. -/
theorem withFields_size {node : Node} {s : Input} {result : Node × Input}
    (h : withFields node s = .ok result) : result.2.size ≤ s.size := by
  unfold withFields at h
  simp only at h
  split at h
  next => cases h; exact Nat.le_refl _
  next =>
    split at h
    next => cases h
    next => cases h; exact (List.dropWhile_suffix _).length_le

/-! ## Pipes -/

/-- Whether a command is a plain value, which no earlier command can pass anything to. -/
def Command.isValue (command : Command Node) : Bool :=
  match command.args.head? with
  | some arg => arg.isLiteral
  | none => false

/-- The first command that is a plain value, with its stage, among the commands from a stage on. -/
def firstValue? (stage : Nat) : List (Command Node) → Option (Nat × Command Node)
  | [] => none
  | command :: rest =>
    if command.isValue then some (stage, command) else firstValue? (stage + 1) rest

/-- Accepts a pipe that has a command, and a plain value in its first command only. -/
def Pipe.check (context : Context) (pipe : Pipe Node) : Except Error (Pipe Node) :=
  match pipe.commands with
  | [] => .error ⟨pipe.pos, .missingValue context⟩
  | _ :: rest =>
    match firstValue? 2 rest with
    | some (stage, command) => .error ⟨command.pos, .notExecutable stage⟩
    | none => .ok pipe

mutual

/-- Reads a pipe up to and with its closing token. -/
def pipeline (context : Context) (close : Token.Kind) (s : Input) :
    Except Error (Pipe Node × Input) :=
  match _h : declarations context context.furtherDeclarations s with
  | .error e => .error e
  | .ok (decls, s₁) =>
    match commands context close s₁ with
    | .error e => .error e
    | .ok (commands, s₂) =>
      match Pipe.check context ⟨s.peekWord.pos, decls, commands⟩ with
      | .error e => .error e
      | .ok pipe => .ok (pipe, s₂)
termination_by 4 * s.size + 3
decreasing_by
  have := declarations_size _h
  simp only at this
  omega

/-- Reads commands up to and with the closing token. -/
def commands (context : Context) (close : Token.Kind) (s : Input) :
    Except Error (List (Command Node) × Input) :=
  let t := s.peekWord
  if t.kind = close then .ok ([], s.next)
  else if t.kind.startsOperand then
    match arguments s with
    | .error e => .error e
    | .ok (args, s₁) =>
      if _h : args ≠ [] ∧ s₁.size < s.size then
        match commands context close s₁ with
        | .error e => .error e
        | .ok (rest, s₂) => .ok (⟨t.pos, args⟩ :: rest, s₂)
      else .error ⟨t.pos, .emptyCommand⟩
  else .error (unexpected t context)
termination_by 4 * s.size + 2

/-- Reads the arguments of a command.  A mark between commands is read with them, a closing token
is not. -/
def arguments (s : Input) : Except Error (List Node × Input) :=
  match operand s.skipSpace with
  | .error e => .error e
  | .ok (arg, s₁) =>
    let t := s₁.peek
    match t.kind with
    | .space =>
      if _h : s₁.tail.size < s.size then
        match arguments s₁.tail with
        | .error e => .error e
        | .ok (args, s₂) => .ok (arg.toList ++ args, s₂)
      else .error (unexpected t .operand)
    | .rightDelim => .ok (arg.toList, s₁)
    | .rightParen => .ok (arg.toList, s₁)
    | .pipe => .ok (arg.toList, s₁.tail)
    | _ => .error (unexpected t .operand)
termination_by 4 * s.size + 1
decreasing_by
  · have := s.size_skipSpace_le
    omega
  · omega

/-- Reads an operand with the fields taken from it, if one starts here. -/
def operand (s : Input) : Except Error (Option Node × Input) :=
  let t := s.peekWord
  if _h : t.kind = .leftParen then
    match pipeline .parenthesis .rightParen s.next with
    | .error e => .error e
    | .ok (pipe, s₁) =>
      match withFields (.pipe pipe) s₁ with
      | .error e => .error e
      | .ok (node, s₂) => .ok (some node, s₂)
  else
    match atom? s.scope t with
    | .error e => .error e
    | .ok none => .ok (none, s.skipSpace)
    | .ok (some node) =>
      match withFields node s.next with
      | .error e => .error e
      | .ok (node, s₁) => .ok (some node, s₁)
termination_by 4 * s.size
decreasing_by
  have := Input.size_next_lt (s := s) (by rw [_h]; decide)
  omega

end

/-! ## Lengths -/

/-- The check of a pipeline passes it through unchanged or fails. -/
theorem Pipe.check_eq_ok {context : Context} {pipe result : Pipe Node}
    (h : Pipe.check context pipe = .ok result) : result = pipe := by
  unfold Pipe.check at h
  split at h
  next => cases h
  next =>
    split at h
    next => cases h
    next => exact (Except.ok.inj h).symm

/-- Reading the commands of a pipeline leaves no more input than there was. -/
theorem commands_size {context : Context} {close : Token.Kind} {s : Input}
    {result : List (Command Node) × Input} (h : commands context close s = .ok result) :
    result.2.size ≤ s.size := by
  rw [commands] at h
  split at h
  next => cases h; exact s.size_next_le
  next =>
    split at h
    next =>
      split at h
      next => cases h
      next =>
        split at h
        next hs =>
          split at h
          next => cases h
          next hc =>
            have hc := commands_size hc
            cases h
            exact Nat.le_trans hc (Nat.le_of_lt hs.2)
        next => cases h
    next => cases h
termination_by 4 * s.size + 2

/-- A pipe gives back at most the tokens it was given. -/
theorem pipeline_size {context : Context} {close : Token.Kind} {s : Input}
    {result : Pipe Node × Input} (h : pipeline context close s = .ok result) :
    result.2.size ≤ s.size := by
  rw [pipeline] at h
  split at h
  next => cases h
  next decls s₁ hd =>
    have hd := declarations_size hd
    simp only at hd
    split at h
    next => cases h
    next hc =>
      have hc := commands_size hc
      simp only at hc
      split at h
      next => cases h
      next =>
        cases h
        exact Nat.le_trans hc hd

/-- Reading an operand leaves no more input than there was. -/
theorem operand_size {s : Input} {result : Option Node × Input} (h : operand s = .ok result) :
    result.2.size ≤ s.size := by
  rw [operand] at h
  split at h
  next hp =>
    split at h
    next => cases h
    next hq =>
      have hq := pipeline_size hq
      split at h
      next => cases h
      next hf =>
        have hf := withFields_size hf
        cases h
        exact Nat.le_trans hf (Nat.le_trans hq s.size_next_le)
  next =>
    split at h
    next => cases h
    next => cases h; exact s.size_skipSpace_le
    next =>
      split at h
      next => cases h
      next hf =>
        have hf := withFields_size hf
        cases h
        exact Nat.le_trans hf s.size_next_le

/-- Reading arguments leaves no more input than there was. -/
theorem arguments_size {s : Input} {result : List Node × Input} (h : arguments s = .ok result) :
    result.2.size ≤ s.size := by
  rw [arguments] at h
  split at h
  next => cases h
  next arg s₁ ho =>
    have ho := Nat.le_trans (operand_size ho) s.size_skipSpace_le
    simp only at ho h
    split at h
    next =>
      split at h
      next hs =>
        split at h
        next => cases h
        next ha =>
          have ha := arguments_size ha
          cases h
          exact Nat.le_trans ha (Nat.le_of_lt hs)
      next => cases h
    next => cases h; exact ho
    next => cases h; exact ho
    next => cases h; exact Nat.le_trans s₁.size_tail_le ho
    next => cases h
termination_by 4 * s.size + 1

end FieldAudit.Template
