import FieldAudit.Proofs.Syntax.Expressions

/-! # The shape of statements

What the rules for declarations and statements give.  A simple statement may be a declaration in
the header of another statement, where it stands before all else. -/

namespace FieldAudit.Go

open Reader

/-- A simple statement: what stands below it is ordinary, and a short declaration has lists of what
it declares and of values. -/
structure Node.Simple (node : Node) : Prop where
  role : node.role = .plain
  kind : node.kind.isOrdinary = true ∨ node.kind = .shortVarDeclaration
  parts : ∀ c ∈ node.children, c.Ordinary
  items : node.kind = .shortVarDeclaration → ∀ c ∈ node.children, ∀ d ∈ c.children, d.Ordinary

/-- A node of ordinary parts is a simple statement. -/
theorem Node.Simple.of_parts {kind : Kind} {start stop : Nat} {children : List Node}
    (hk : kind.isOrdinary = true) (h : ∀ c ∈ children, c.Ordinary) :
    Node.Simple ⟨kind, .plain, start, stop, children⟩ := by
  refine ⟨rfl, .inl hk, h, ?_⟩
  rintro rfl
  simp [Kind.isOrdinary] at hk

/-- Simple statements are statements. -/
theorem Node.Simple.statement {node : Node} (h : node.Simple) : node.Statement := by
  refine ⟨?_, by simp [h.role], by simp [h.role]⟩
  rcases h.kind with hk | hk
  · exact .inl hk
  · exact .inr (by simp [hk, Kind.isDeclaration])

/-- Plain declarations are statements. -/
theorem Node.Plain.statement {node : Node} {kind : Kind} (h : node.Plain kind)
    (hk : kind.isDeclaration = true) : node.Statement :=
  ⟨.inr (by rw [h.kind, hk]), by simp [h.role], by simp [h.role]⟩

/-- Simple statements may follow others in the clause of a loop. -/
theorem Node.Simple.later {node : Node} (h : node.Simple) : node.Later .forClause := by
  refine ⟨⟨?_, by simp [h.role], fun _ => h.statement.isSolid⟩, h.statement.leads⟩
  rcases h.kind with hk | hk
  · exact Kind.mayHold_of_isOrdinary hk
  · simp [Kind.mayHold, hk]

/-- A simple statement may open the header of a statement. -/
theorem Node.Simple.initializer {node : Node} {parent : Kind} (h : node.Simple)
    (hp : (parent.hasHeader || parent = .forClause) = true) :
    (node.as .initializer).Part parent := by
  refine ⟨?_, by simp [Node.as], fun _ => h.statement.isSolid⟩
  rcases h.kind with hk | hk
  · exact Kind.mayHold_of_isOrdinary hk
  · simp_all [Kind.mayHold, Node.as]
    grind

/-- Whether a node of a kind is a switch. -/
def Kind.isSwitch : Kind → Bool
  | .expressionSwitchStatement | .typeSwitchStatement => true
  | _ => false

/-- A switch has a header. -/
theorem Kind.hasHeader_of_isSwitch (kind : Kind) (h : kind.isSwitch = true) :
    (kind.hasHeader || kind = .forClause) = true := by
  cases kind <;> first | rfl | cases h

/-- A switch opens with any part. -/
theorem Kind.isLoose_of_isSwitch (kind : Kind) (h : kind.isSwitch = true) :
    kind.isLoose = true := by
  cases kind <;> first | rfl | cases h

/-- A switch may stand anywhere. -/
theorem Kind.isOrdinary_of_isSwitch (kind : Kind) (h : kind.isSwitch = true) :
    kind.isOrdinary = true := by
  cases kind <;> first | rfl | cases h

namespace Grammar

variable {words : Nat → Nat → Prop} {g : Grammar}

/-! ## Declarations -/

/-- A group of specifications gives what each does. -/
theorem gives_group {spec : Reader Node} {p : Node → Prop}
    (h : spec.Gives words (fun n => [n]) p true) : (group spec).Gives words id p true := by
  refine Adds.gives (.skip gives_take fun _ => ?_)
  refine .bind (h.seqLeft gives_terminator).many fun specs => ?_
  exact .skip gives_take fun _ => .pure (by simp)

/-- Package clauses are read as ordinary nodes. -/
theorem gives_packageClause : OrdinaryNode words packageClause :=
  .ordinary rfl (.skip gives_take fun _ => .bind (gives_name rfl) fun _ => .pure rfl)

/-- Import specifications are read as ordinary nodes. -/
theorem gives_importSpec : OrdinaryNode words importSpec := by
  refine .ordinary rfl (.bind (Gives.maybe (Gives.as (.orElse ?_ (.orElse ?_ (gives_name rfl)))
    .name rfl)) fun ownName => ?_)
  · exact gives_leaf rfl (by simp [Kind.isName])
  · exact gives_leaf rfl (by simp [Kind.isName])
  · refine .bind (gives_stringLiteral.as .path rfl) fun _ => .pure ?_
    cases ownName <;> rfl

/-- Import declarations are read as ordinary nodes. -/
theorem gives_importDeclaration : OrdinaryNode words importDeclaration := by
  refine .ordinary rfl (.skip gives_take fun _ => ?_)
  refine .bind (Gives.orElse (.ordinary rfl ?_) gives_importSpec) fun _ => .pure rfl
  refine .skip gives_take fun _ => .bind (Gives.maybeNodes (Adds.gives ?_)) fun specs => ?_
  · refine .bind gives_importSpec fun first => ?_
    refine .bind (gives_terminator.seqRight gives_importSpec).many fun rest => ?_
    exact .skip gives_terminator.maybe_skip fun _ => .pure (by simp)
  · exact .skip gives_take fun _ => .pure (by simp)

namespace Sound

variable (h : g.Sound words)

include h

/-- Initial values are read as ordinary nodes. -/
theorem initialValues (lineEnds : Bool) :
    (g.initialValues lineEnds).Gives words (fun n => [n]) Node.Ordinary true := by
  refine Adds.gives (.skip gives_take fun _ => ?_)
  exact .bind ((h.expressionList .statement).as .value rfl) fun _ => .pure rfl

/-- Specifications of variables are read as plain nodes. -/
theorem varSpec : g.varSpec.Gives words (fun n => [n]) (Node.Plain .varSpec) true := by
  refine .plain rfl (.bind (((gives_name rfl).commaList false).as .name rfl) fun names => ?_)
  refine .bindNodes (.orElse (Adds.gives ?_) (Adds.gives ?_)) fun rest => .pure (by simp)
  · refine .bind ((h.type true).as .type rfl) fun type => ?_
    refine .bind (h.initialValues true).maybe fun values => .pure ?_
    cases values <;> rfl
  · exact .bind (h.initialValues false) fun _ => .pure rfl

/-- Specifications of constants are read as plain nodes. -/
theorem constSpec : g.constSpec.Gives words (fun n => [n]) (Node.Plain .constSpec) true := by
  refine .spanning (p := Node.Free) (.bind (((gives_name rfl).as .name rfl).imp fun _ => .inl)
    fun first => ?_) (fun _ hc => hc.later) rfl fun _ _ _ _ => ⟨rfl, rfl⟩
  -- The commas between the names have the role of the names.
  have hmore : (do
      let comma ← following true ","
      return [leaf .punctuation comma, ← name .identifier] : Reader (List Node)).Gives words id
        Node.Free true :=
    Adds.gives (.bind (gives_mark.imp fun _ => .inr) fun _ =>
      .bind ((gives_name rfl).imp fun _ => .inl) fun _ => .pure rfl)
  have hnamed : ∀ n : Node, n.Free → (n.as .name).Free := by
    rintro n (hn | hn)
    · exact .inl (hn.as .name rfl)
    · exact .inr ⟨hn.kind, rfl⟩
  refine .bind (hmore.many.inRole .name hnamed) fun rest => ?_
  refine .bind ((Gives.maybeNodes (Adds.gives ?_)).imp fun _ => .inl) fun values => .pure ?_
  · refine .bind ((gives_check.after fun _ => h.type true).as .type rfl).maybe fun type => ?_
    refine .bind (h.initialValues true) fun _ => .pure ?_
    cases type <;> rfl
  · simp

/-- Type parameters are read as ordinary nodes. -/
theorem typeParameter : OrdinaryNode words g.typeParameter := by
  refine .ordinary rfl (.bind (((gives_name rfl).commaList false).as .name rfl) fun names => ?_)
  exact .bind ((h.typeElement false).as .type rfl) fun _ => .pure (by simp)

/-- Lists of type parameters are read as ordinary nodes. -/
theorem typeParameters : OrdinaryNode words g.typeParameters :=
  .ordinary rfl (.last (h.typeParameter.bracketedSome "[" "]") (by simp))

/-- Specifications of types are read as ordinary nodes. -/
theorem typeSpec : OrdinaryNode words g.typeSpec := by
  refine .orElse (.ordinary rfl ?_) (.orElse (.ordinary rfl ?_) (.ordinary rfl ?_))
  · refine .bind ((gives_name rfl).as .name rfl) fun _ => .skip gives_take fun _ => ?_
    exact .bind ((h.type true).as .type rfl) fun _ => .pure rfl
  · refine .bind ((gives_name rfl).as .name rfl) fun _ => .bind h.typeParameters fun _ => ?_
    exact .bind ((h.type true).as .type rfl) fun _ => .pure rfl
  · refine .bind ((gives_name rfl).as .name rfl) fun _ => ?_
    exact .bind ((h.type true).as .type rfl) fun _ => .pure rfl

/-- Declarations of variables are read as plain nodes. -/
theorem varDeclaration :
    g.varDeclaration.Gives words (fun n => [n]) (Node.Plain .varDeclaration) true := by
  have hspecs : (Reader.spanning .varSpecList (group g.varSpec) <|> g.varSpec).Gives words
      (fun n => [n]) (fun c => c.Plain .varSpecList ∨ c.Plain .varSpec) true := by
    refine .orElse ?_ (h.varSpec.imp fun _ hn => .inr hn)
    exact .spanning (.last (gives_group h.varSpec) (by simp)) (fun _ hc => hc.later rfl rfl) rfl
      fun _ _ _ _ => .inl ⟨rfl, rfl⟩
  refine .spanning (.skip gives_take fun _ => .bind hspecs fun _ => .pure rfl) ?_ rfl
    fun _ _ _ _ => ⟨rfl, rfl⟩
  rintro c (hc | hc)
  · exact hc.later rfl rfl
  · exact hc.later rfl rfl

/-- Declarations of constants are read as plain nodes. -/
theorem constDeclaration :
    g.constDeclaration.Gives words (fun n => [n]) (Node.Plain .constDeclaration) true := by
  refine .spanning (.skip gives_take fun _ => .last (Gives.orElse (gives_group h.constSpec)
    (Adds.gives ?_)) (by simp)) (fun _ hc => hc.later rfl rfl) rfl fun _ _ _ _ => ⟨rfl, rfl⟩
  exact .bind h.constSpec fun _ => .pure rfl

/-- Declarations of types are read as ordinary nodes. -/
theorem typeDeclaration : OrdinaryNode words g.typeDeclaration := by
  refine .ordinary rfl (.skip gives_take fun _ => ?_)
  refine .last (Gives.orElse (gives_group h.typeSpec) (Adds.gives ?_)) (by simp)
  exact .bind h.typeSpec fun _ => .pure rfl

/-- Function bodies are read as ordinary nodes. -/
theorem functionBody : (g.functionBody).Gives words (fun n => [n]) Node.Ordinary true := by
  refine gives_check.after fun _ => Adds.gives ?_
  exact .bind (h.block.as .body rfl) fun _ => .pure rfl

/-- Function declarations are read as ordinary nodes. -/
theorem functionDeclaration : OrdinaryNode words g.functionDeclaration := by
  refine .ordinary rfl (.skip gives_take fun _ => ?_)
  refine .bind ((gives_name rfl).as .name rfl) fun function => ?_
  refine .bind h.typeParameters.maybe fun types => .bind (h.signature true) fun signature => ?_
  refine .bind h.functionBody.maybe fun body => .pure ?_
  simp

/-- Method declarations are read as ordinary nodes. -/
theorem methodDeclaration : OrdinaryNode words g.methodDeclaration := by
  refine .ordinary rfl (.skip gives_take fun _ => ?_)
  refine .bind (h.parameters.as .receiver rfl) fun receiver => ?_
  refine .bind ((gives_name rfl).as .name rfl) fun method => ?_
  refine .bind (h.signature true) fun signature => ?_
  refine .bind h.functionBody.maybe fun body => .pure ?_
  simp

/-! ## Simple statements -/

/-- An operator and what it assigns, after a list of expressions. -/
theorem assigned {kind : Kind} {operator : Reader Token} (mode : Mode) (left : Node)
    (hoperator : operator.Gives words (fun _ => []) Node.Listing true)
    (hk : kind.isOrdinary = true ∨ kind = .shortVarDeclaration) (hloose : kind.isLoose = true) :
    (Reader.continuing kind (left.as .left) do
      let _ ← operator
      return [(← g.expressionList mode).as .right]).Adds words Node.Listing [left] true
        (fun n => [n]) Node.Simple true := by
  refine .of_role .left (fun hn => hn.as .left rfl) ?_
  refine .over ?_ ?_ (Kind.opensWith_of_isLoose hloose) ?_
  · refine .skip hoperator fun _ => ?_
    exact .bind ((h.expressions mode).inRole .right fun _ hn => hn.as .right rfl) fun _ => .pure rfl
  · exact fun c hc => hc.ordinary.later
  · intro start stop children hchildren
    exact ⟨rfl, hk, fun c hc => (hchildren c hc).ordinary, fun _ c hc => (hchildren c hc).items⟩

omit h in
/-- What follows a single expression. -/
theorem continued {kind : Kind} {reader : Reader (List Node)} {single : Node}
    (hreader : reader.Adds words Node.Ordinary [single] true (fun children => single :: children)
      Node.Ordinary true) (hk : kind.isCompound = true) :
    (Reader.continuing kind single reader).Adds words Node.Ordinary [single] true (fun n => [n])
      Node.Simple true := by
  obtain ⟨hk, hloose⟩ := Kind.isCompound_iff.1 hk
  exact .over hreader (fun _ hc => hc.later) (Kind.opensWith_of_isLoose hloose)
    fun _ _ _ hc => .of_parts hk hc

/-- The rule for simple statements gives them in every mode. -/
theorem simpleStatement (mode valueMode : Mode) :
    (g.simpleStatement mode valueMode).Gives words (fun n => [n]) Node.Simple true := by
  intro s n s' hs hr
  obtain ⟨left, s₁, hleft, hr⟩ := bind_eq_some.1 hr
  have hlist := h.expressions _ hs hleft
  -- A list of any length may be declared or assigned, and a single expression may also stand alone.
  rcases hitems : left.children with _ | ⟨single, _ | ⟨second, more⟩⟩
  case cons.nil =>
    have hone : Gathered words Node.Ordinary s true [single] s₁ := by
      have hbelow := hlist.below (hlist.kinds left (by simp)).items
      rwa [hitems] at hbelow
    simp only [hitems] at hr
    rcases orElse_eq_some hr with hr | hr
    · exact h.assigned valueMode left gives_take (.inr rfl) rfl hlist hr
    rcases orElse_eq_some hr with hr | hr
    · exact h.assigned valueMode left gives_take (.inl rfl) rfl hlist hr
    -- A value is sent to a channel, or a variable is counted up or down.
    rcases orElse_eq_some hr with hr | hr
    · refine continued (.skip gives_take fun _ => ?_) rfl hone hr
      exact .bind ((h.expression valueMode).as .value rfl) fun _ => .pure rfl
    rcases orElse_eq_some hr with hr | hr
    · exact continued (.skip gives_take fun _ => .pure rfl) rfl hone hr
    rcases orElse_eq_some hr with hr | hr
    · exact continued (.skip gives_take fun _ => .pure rfl) rfl hone hr
    · cases pure_eq_some.1 hr
      refine hone.nodeFrom (by simp) (hone.spread.within single (by simp)).2 ?_ (by simp) rfl ?_
      · exact fun c hc => (hone.kinds c hc).part
      · exact .of_parts rfl hone.kinds
  all_goals
    simp only [hitems] at hr
    rcases orElse_eq_some hr with hr | hr
    · exact h.assigned valueMode left gives_take (.inr rfl) rfl hlist hr
    · exact h.assigned valueMode left gives_take (.inl rfl) rfl hlist hr

/-- A simple statement that opens the header of a statement. -/
theorem opening (mode valueMode : Mode) (parent : Kind)
    (hp : (parent.hasHeader || parent = .forClause) = true) :
    (g.simpleStatement mode valueMode).Gives words (fun n => [n.as .initializer])
      (Node.Part parent) true :=
  (h.simpleStatement mode valueMode).inRole .initializer fun _ hn => hn.initializer hp

/-! ## Conditions and loops -/

/-- The first part of a header may be a simple statement, the others are ordinary. -/
theorem conditionHeader {s s' : Stream} {head : List Node} (hs : s.Sound words)
    (hr : g.conditionHeader s = some (head, s')) :
    Gathered words (Node.Part .ifStatement) s true head s' ∧ ∀ c ∈ head.tail, c.leads = false := by
  obtain ⟨first, s₁, hfirst, hr⟩ := bind_eq_some.1 hr
  obtain ⟨more, s₂, hmore, hr⟩ := bind_eq_some.1 hr
  cases hmore
  split at hr
  · obtain ⟨_, s₂, hsemicolon, hr⟩ := bind_eq_some.1 hr
    obtain ⟨condition, s₃, hcondition, hr⟩ := bind_eq_some.1 hr
    cases pure_eq_some.1 hr
    have h₁ : Gathered words (Node.Part .ifStatement) s true [first.as .initializer] s₁ :=
      h.opening _ _ _ rfl hs hfirst
    have h₂ := h₁.trans (gives_take h₁.sound hsemicolon)
    have h₃ := h.expression _ h₂.sound hcondition
    refine ⟨h₂.trans (h₃.imp fun _ _ hn => hn.part), ?_⟩
    simpa using (h₃.kinds condition (by simp)).leads
  -- Without a semicolon, the simple statement is only the node over the condition.
  · split at hr
    · cases pure_eq_some.1 hr
      have hsimple := h.simpleStatement _ _ hs hfirst
      have hparts := (hsimple.kinds first (by simp)).parts
      exact ⟨hsimple.below fun c hc => (hparts c hc).part,
        fun c hc => (hparts c (List.mem_of_mem_tail hc)).leads⟩
    · cases hr

/-- Conditionals are read as ordinary nodes; the statement in front of the condition leads. -/
theorem ifStatement : OrdinaryNode words g.ifStatement := by
  intro s n s' hs hr
  obtain ⟨children, hread, rfl⟩ := spanning_eq_some hr
  simp only [bind_eq_some, pure_eq_some] at hread
  obtain ⟨_, s₁, hif, head, s₂, hhead, consequence, s₃, hconsequence, alternative, s₄, halternative,
    hread⟩ := hread
  cases hread
  have hkeyword : Gathered words (Node.Part .ifStatement) s true [] s₁ := gives_take hs hif
  obtain ⟨hheader, htail⟩ := h.conditionHeader hkeyword.sound hhead
  have hblock := h.block hheader.sound hconsequence
  have hbranch := (gives_take.seqRight h.branch).maybe hblock.sound halternative
  have hrest := hblock.trans hbranch
  have hall := (hkeyword.trans hheader).headed htail
    (hrest.imp fun _ _ hn => hn.later) rfl (Node.Plain.ordinary ⟨rfl, rfl⟩ rfl)
  simpa using hall

/-- What is declared or assigned where a value comes from a loop or a channel. -/
theorem leftSide (mode : Mode) : OrdinaryNode words do
      let left ← g.expressionList mode
      let _ ← symbol ":=" <|> symbol "="
      return left.as .left := by
  refine Adds.gives (.bind ((h.expressionList mode).as .left rfl) fun _ => ?_)
  exact .skip (gives_take.orElse gives_take) fun _ => .pure rfl

/-- The clause of a loop over a range is read as a plain node. -/
theorem rangeClause : g.rangeClause.Gives words (fun n => [n]) (Node.Plain .rangeClause) true := by
  refine .plain rfl (.bind (h.leftSide .header).maybe fun left => .skip gives_take fun _ => ?_)
  refine .bind ((h.expression .header).as .right rfl) fun _ => .pure ?_
  cases left <;> rfl

/-- The clause of a loop with a counter is read as a plain node. -/
theorem forClause : g.forClause.Gives words (fun n => [n]) (Node.Plain .forClause) true := by
  intro s n s' hs hr
  obtain ⟨children, hread, rfl⟩ := spanning_eq_some hr
  simp only [bind_eq_some, pure_eq_some] at hread
  obtain ⟨initializer, s₁, hinitializer, _, s₂, hfirst, condition, s₃, hcondition, _, s₄, hsecond,
    update, s₅, hupdate, hread⟩ := hread
  cases hread
  -- The initializer leads, and the condition and the update come after the first semicolon.
  have hhead : Gathered words (Node.Part .forClause) s false
      (initializer.map (·.as .initializer)).toList s₁ := by
    have hopening := (h.opening _ _ .forClause rfl).maybe hs hinitializer
    cases initializer <;> exact hopening
  have h₁ : Gathered words (Node.Later .forClause) s₁ true [] s₂ := gives_take hhead.sound hfirst
  have h₂ := h₁.trans (((h.expression _).imp fun _ hn => hn.later).maybe h₁.sound hcondition)
  have h₃ := h₂.trans (gives_take h₂.sound hsecond)
  have h₄ := h₃.trans (((h.simpleStatement _ _).imp fun _ hn => hn.later).maybe h₃.sound hupdate)
  have hall : Gathered words (Node.Plain .forClause) s true [_] s' :=
    hhead.headed (by cases initializer <;> simp) h₄ rfl ⟨rfl, rfl⟩
  simpa using hall

/-- A loop with a header of at most one part. -/
theorem loop {header : Reader (List Node)} {b : Bool}
    (hheader : header.Gives words id (Node.Part .forStatement) b)
    (hone : ∀ s nodes s', header s = some (nodes, s') → nodes.tail = []) :
    OrdinaryNode words (Reader.spanning .forStatement do
      let _ ← keyword "for"
      let header ← header
      return header ++ [(← g.block).as .body]) := by
  intro s n s' hs hr
  obtain ⟨children, hread, rfl⟩ := spanning_eq_some hr
  simp only [bind_eq_some, pure_eq_some] at hread
  obtain ⟨_, s₁, hfor, head, s₂, hhead, body, s₃, hbody, hread⟩ := hread
  cases hread
  have hkeyword : Gathered words (Node.Part .forStatement) s true [] s₁ := gives_take hs hfor
  have hpart := hheader hkeyword.sound hhead
  have hblock := (h.block.as .body rfl) hpart.sound hbody
  have htail := hone _ _ _ hhead
  exact (hkeyword.trans hpart).headed (by simp [htail]) (hblock.imp fun _ _ hn => hn.later) rfl
    (Node.Plain.ordinary ⟨rfl, rfl⟩ rfl)

/-- Loops are read as ordinary nodes, which the clause leads. -/
theorem forStatement : OrdinaryNode words g.forStatement := by
  refine .orElse (h.loop (.pure rfl) ?_) (.orElse (h.loop (b := true) (Adds.gives ?_) ?_)
    (.orElse (h.loop (b := true) (gives_check.after fun _ => Adds.gives ?_) ?_)
      (h.loop (b := true) (gives_check.after fun _ => Adds.gives ?_) ?_)))
  · intro s nodes s' hr
    cases pure_eq_some.1 hr
    rfl
  · exact .bind (h.rangeClause.imp fun _ hn => hn.part rfl) fun _ => .pure rfl
  · intro s nodes s' hr
    obtain ⟨clause, s₁, -, hr⟩ := bind_eq_some.1 hr
    cases pure_eq_some.1 hr
    rfl
  · exact .bind (h.forClause.imp fun _ hn => hn.part rfl) fun _ => .pure rfl
  · intro s nodes s' hr
    obtain ⟨_, s₁, -, hr⟩ := bind_eq_some.1 hr
    obtain ⟨clause, s₂, -, hr⟩ := bind_eq_some.1 hr
    cases pure_eq_some.1 hr
    rfl
  · exact .bind ((h.expression .header).imp fun _ hn => hn.part) fun _ => .pure rfl
  · intro s nodes s' hr
    obtain ⟨_, s₁, -, hr⟩ := bind_eq_some.1 hr
    obtain ⟨condition, s₂, -, hr⟩ := bind_eq_some.1 hr
    cases pure_eq_some.1 hr
    rfl

/-! ## Clauses -/

/-- Default cases are read as ordinary nodes. -/
theorem defaultCase : OrdinaryNode words g.defaultCase := by
  refine .sequence rfl rfl (.skip gives_take fun _ => .skip gives_take fun _ => ?_)
  exact .last (h.statementList _) (by simp)

/-- Cases are read as ordinary nodes if the parts of their heads are. -/
theorem caseClause {kind : Kind} {head : Reader (List Node)}
    (hhead : head.Gives words id Node.Ordinary true) (hs : kind.isSequence = true)
    (hk : kind.isCompound = true) : OrdinaryNode words (g.caseClause kind head) := by
  refine .sequence (by rw [hs, Bool.true_or]) hk ?_
  refine .skip gives_take fun _ => .bind (hhead.imp fun _ hn => hn.statement) fun head => ?_
  refine .skip gives_take fun _ => .bind (h.statementList _) fun statements => .pure (by simp)

/-- Clauses are read one after the other. -/
theorem clauses {clause : Reader Node} (hclause : OrdinaryNode words clause) :
    (g.clauses clause).Gives words id Node.Ordinary true := by
  refine Adds.gives (.skip gives_take fun _ => ?_)
  refine .bind (hclause.orElse h.defaultCase).many fun clauses => ?_
  exact .skip gives_take fun _ => .pure (by simp)

omit h in
/-- The mark of a type switch gives nothing. -/
theorem gives_typeMark {p : Node → Prop} : typeMark.Gives words (fun _ => []) p true := by
  refine Adds.gives (.skip gives_take fun _ => .skip gives_take fun _ => ?_)
  exact .skip gives_take fun _ => .skip gives_take fun _ => .pure rfl

omit h in
/-- The subject of a type switch is taken out of the statement that holds it. -/
theorem typeSubject {s₀ s : Stream} {b : Bool} {statement : Node} {subject : List Node}
    (hstatement : Gathered words Node.Simple s₀ b [statement] s)
    (hsubject : typeSubject? statement = some subject) :
    Gathered words Node.Ordinary s₀ b subject s := by
  have hsimple := hstatement.kinds statement (by simp)
  have hparts := hstatement.below hsimple.parts
  unfold typeSubject? at hsubject
  split at hsubject
  next value hkind hchildren =>
    cases hsubject
    rw [hchildren] at hparts
    exact hparts.as .value fun _ _ hn => hn.as .value rfl
  -- In `switch x := y.(type)`, the names and the values of a short declaration are taken apart.
  next names values hkind hchildren =>
    split at hsubject
    next value hvalue =>
      cases hsubject
      have hitems := hsimple.items hkind
      rw [hchildren] at hparts hitems
      have hnames := hparts.kinds names (by simp)
      have hlast : Gathered words Node.Ordinary s₀ b ([names] ++ [values]) s := hparts
      have hvalues := hlast.belowLast (by simpa using hnames) (hitems values (by simp))
      rw [hvalue] at hvalues
      have hvalues := hvalues.as .value fun _ _ hn => hn.as .value rfl
      exact hvalues.asFirst .switchName (hnames.as .switchName rfl)
    next => cases hsubject
  next => cases hsubject

omit h in
/-- What a switch is about is ordinary. -/
theorem switchSubject {s₀ s s' : Stream} {b : Bool} {statement : Node} {kind : Kind}
    {subject : List Node} (hstatement : Gathered words Node.Simple s₀ b [statement] s)
    (hr : switchSubject statement s = some ((kind, subject), s')) :
    kind.isSwitch = true ∧ Gathered words Node.Ordinary s₀ b subject s' := by
  obtain ⟨mark, s₁, hmark, hr⟩ := bind_eq_some.1 hr
  have hafter := hstatement.trans (gives_typeMark.maybe_skip hstatement.sound hmark)
  rw [List.append_nil, Bool.or_false] at hafter
  split at hr
  · cases hsubject : typeSubject? statement with
    | none =>
      simp only [hsubject] at hr
      cases hr
    | some subject =>
      simp only [hsubject] at hr
      cases pure_eq_some.1 hr
      exact ⟨rfl, typeSubject hafter hsubject⟩
  · split at hr
    · cases pure_eq_some.1 hr
      have hsimple := hafter.kinds statement (by simp)
      have hparts := hafter.below hsimple.parts
      exact ⟨rfl, hparts.as .value fun _ _ hn => hn.as .value rfl⟩
    · cases hr

/-- The first part of the header of a switch may be a simple statement, the others are ordinary. -/
theorem switchHeader {s s' : Stream} {kind : Kind} {head : List Node} (hs : s.Sound words)
    (hr : g.switchHeader s = some ((kind, head), s')) :
    kind.isSwitch = true ∧ Gathered words (Node.Part kind) s false head s'
      ∧ ∀ c ∈ head.tail, c.leads = false := by
  obtain ⟨first, s₁, hfirst, hr⟩ := bind_eq_some.1 hr
  cases first with
  | none =>
    cases pure_eq_some.1 hr
    exact ⟨rfl, ((h.simpleStatement _ _).maybe hs hfirst).forget, by simp⟩
  | some first =>
    obtain ⟨semicolon, s₂, hsemicolon, hr⟩ := bind_eq_some.1 hr
    have hsimple := (h.simpleStatement _ _).maybe hs hfirst
    cases semicolon with
    | none =>
      have hafter := hsimple.trans (gives_take.maybe_skip hsimple.sound hsemicolon)
      obtain ⟨hswitch, hsubject⟩ := switchSubject hafter hr
      exact ⟨hswitch, hsubject.imp fun _ _ hn => hn.part,
        fun c hc => (hsubject.kinds c (List.mem_of_mem_tail hc)).leads⟩
    | some _ =>
      obtain ⟨second, s₃, hsecond, hr⟩ := bind_eq_some.1 hr
      -- The kind of the switch is not known before its subject has been read.
      have hopening : ∀ kind : Kind, kind.isSwitch = true →
          Gathered words (Node.Part kind) s false [first.as .initializer] s₂ := by
        intro kind hkind
        have hfirst := (h.opening _ _ kind (kind.hasHeader_of_isSwitch hkind)).maybe hs hfirst
        exact hfirst.trans (gives_take.maybe_skip hfirst.sound hsemicolon)
      have hmore := (h.simpleStatement _ _).maybe (hopening .typeSwitchStatement rfl).sound hsecond
      cases second with
      | none =>
        cases pure_eq_some.1 hr
        exact ⟨rfl, (hopening .expressionSwitchStatement rfl).trans hmore.forget, by simp⟩
      | some second =>
        obtain ⟨⟨kind, subject⟩, s₄, hsubject, hr⟩ := bind_eq_some.1 hr
        cases pure_eq_some.1 hr
        obtain ⟨hswitch, hsubject⟩ := switchSubject hmore hsubject
        refine ⟨hswitch, (hopening kind hswitch).trans (hsubject.imp fun _ _ hn => hn.part), ?_⟩
        exact fun c hc => (hsubject.kinds c hc).leads

/-- Switches are read as ordinary nodes. -/
theorem switchStatement : OrdinaryNode words g.switchStatement := by
  intro s n s' hs hr
  obtain ⟨start, s₁, hstart, hr⟩ := bind_eq_some.1 hr
  obtain ⟨⟨kind, head⟩, s₂, hhead, hr⟩ := bind_eq_some.1 hr
  obtain ⟨clauses, s₃, hclauses, hr⟩ := bind_eq_some.1 hr
  obtain ⟨_, s₄, hget, hr⟩ := bind_eq_some.1 hr
  cases get_eq_some.1 hget
  cases pure_eq_some.1 hr
  have hkeyword : Gathered words (Node.Part kind) s true [] s₁ := gives_take hs hstart
  obtain ⟨hswitch, hheader, htail⟩ := h.switchHeader hkeyword.sound hhead
  -- The two kinds of switch differ in what their cases list.
  have hclause : OrdinaryNode words (if kind = .typeSwitchStatement then
      g.caseClause .typeCase (return (← commaList false (g.type false)).map (·.as .type))
      else g.caseClause .expressionCase (return [(← g.expressionList .inner).as .value])) := by
    split
    · refine h.caseClause (Adds.gives ?_) rfl rfl
      exact .bind (((h.type false).commaList false).as .type rfl) fun _ => .pure rfl
    · refine h.caseClause (Adds.gives ?_) rfl rfl
      exact .bind ((h.expressionList .inner).as .value rfl) fun _ => .pure rfl
  have hrest := h.clauses hclause hheader.sound hclauses
  obtain ⟨-, hstream, -⟩ := take_eq_some hstart
  have hsame : s.start = start.start := by rw [hstream]; rfl
  rw [← hsame]
  exact (hkeyword.trans hheader).headed htail (hrest.imp fun _ _ hn => hn.later)
    (kind.isLoose_of_isSwitch hswitch) (Node.Plain.ordinary ⟨rfl, rfl⟩
      (kind.isOrdinary_of_isSwitch hswitch))

/-- Communications are read as ordinary nodes. -/
theorem communication : OrdinaryNode words g.communication := by
  refine .orElse (.ordinary rfl ?_) (.ordinary rfl ?_)
  · refine .bind (h.expression Mode.inner.first) fun channel => .skip gives_take fun _ => ?_
    exact .bind ((h.expression .inner).as .value rfl) fun _ => .pure rfl
  · refine .bind (h.leftSide .inner).maybe fun left => ?_
    refine .bind ((h.expression .inner).as .right rfl) fun _ => .pure ?_
    cases left <;> rfl

/-- Selections are read as ordinary nodes. -/
theorem selectStatement : OrdinaryNode words g.selectStatement := by
  refine .ordinary rfl (.skip gives_take fun _ => .last (h.clauses ?_) (by simp))
  refine h.caseClause (Adds.gives ?_) rfl rfl
  exact .bind h.communication fun _ => .pure rfl

/-! ## All statements -/

/-- Statements with a label are read as ordinary nodes. -/
theorem labeledStatement : OrdinaryNode words g.labeledStatement := by
  refine .sequence rfl rfl (.bind (gives_label.imp fun _ hn => hn.statement) fun label => ?_)
  exact .pass gives_check fun _ => .bind h.statement fun _ => .pure rfl

omit h in
/-- Jumps are read as ordinary nodes. -/
theorem gives_jump {kind : Kind} (hk : kind.isCompound = true) :
    OrdinaryNode words (jump kind) := by
  refine .ordinary hk ?_
  refine .skip gives_take fun _ => .bind (gives_leaf rfl (by simp [Kind.isName])).maybe
    fun label => .pure ?_
  cases label <;> rfl

omit h in
/-- What follows a keyword makes a node. -/
theorem gives_afterWord {kind : Kind} {rest : Reader (List Node)} {b : Bool}
    (hrest : rest.Gives words id Node.Ordinary b) (hk : kind.isCompound = true) :
    OrdinaryNode words (afterWord kind rest) := by
  refine .ordinary hk ?_
  exact .skip gives_take fun _ => .last hrest (by simp)

/-- Each keyword that begins a statement begins a rule that gives one. -/
theorem keywordStatement (word : String) :
    (g.keywordStatement word).Gives words (fun n => [n]) Node.Statement true := by
  unfold Grammar.keywordStatement
  split
  · exact h.varDeclaration.imp fun _ hn => hn.statement rfl
  · exact h.constDeclaration.imp fun _ hn => hn.statement rfl
  · exact h.typeDeclaration.imp fun _ hn => hn.statement
  · exact h.ifStatement.imp fun _ hn => hn.statement
  · exact h.forStatement.imp fun _ hn => hn.statement
  · exact h.switchStatement.imp fun _ hn => hn.statement
  · exact h.selectStatement.imp fun _ hn => hn.statement
  · refine (gives_afterWord (Gives.maybeNodes (gives_check.after fun _ => Adds.gives ?_)) rfl).imp
      fun _ hn => hn.statement
    exact .bind (h.expressionList .statement) fun _ => .pure rfl
  · refine (gives_afterWord (b := true) (Adds.gives ?_) rfl).imp fun _ hn => hn.statement
    exact .bind (h.expression .statement) fun _ => .pure rfl
  · refine (gives_afterWord (b := true) (Adds.gives ?_) rfl).imp fun _ hn => hn.statement
    exact .bind (h.expression .statement) fun _ => .pure rfl
  · exact (gives_jump rfl).imp fun _ hn => hn.statement
  · exact (gives_jump rfl).imp fun _ hn => hn.statement
  · refine (gives_afterWord (b := true) (Adds.gives ?_) rfl).imp fun _ hn => hn.statement
    exact .bind (gives_name rfl) fun _ => .pure rfl
  · exact (gives_afterWord (.pure rfl) rfl).imp fun _ hn => hn.statement
  · exact .failure

/-- The rule for any statement gives a statement. -/
theorem anyStatement : g.anyStatement.Gives words (fun n => [n]) Node.Statement true := by
  refine gives_peek?.after fun next => ?_
  split
  next => exact .failure
  next t =>
    split
    · exact h.block.imp fun _ hn => hn.statement
    · split
      · exact (gives_leaf rfl (by simp [Kind.isName])).imp fun _ hn => hn.statement
      · split
        · exact h.keywordStatement t.text
        · refine gives_atLabel.after fun label => ?_
          split
          · exact h.labeledStatement.imp fun _ hn => hn.statement
          · exact (h.simpleStatement _ _).imp fun _ hn => hn.statement

/-- The other branch of a conditional is read as an ordinary node. -/
theorem anyBranch : OrdinaryNode words (do
      check fun t => t.isWord "if" || t.isSymbol "\x7b"
      g.anyStatement) := by
  intro s n s' hs hr
  obtain ⟨_, s₁, hcheck, hread⟩ := bind_eq_some.1 hr
  obtain ⟨hsame, t, ht, hstarts⟩ := check_eq_some hcheck
  rw [hsame] at hread
  obtain ⟨next, s₂, hpeek, hread⟩ := bind_eq_some.1 hread
  cases hpeek
  simp only [ht] at hread
  by_cases hbrace : t.isSymbol "\x7b" = true
  · rw [if_pos hbrace] at hread
    exact h.block hs hread
  · -- The token is a word, so it is no symbol.
    have hif : t.kind = .word ∧ t.text = "if" := by
      simpa [hbrace, Token.isWord] using hstarts
    have hsemicolon : t.isSymbol ";" ≠ true := by simp [Token.isSymbol, hif.1]
    rw [if_neg hbrace, if_neg hsemicolon, if_pos (by simp [hif, statementKeywords]), hif.2] at hread
    exact h.ifStatement hs hread

/-! ## Files -/

/-- Top-level declarations are read as ordinary nodes. -/
theorem topLevelDeclaration : OrdinaryNode words g.topLevelDeclaration := by
  refine gives_peek?.after fun next => ?_
  split
  · exact .failure
  · split
    · exact gives_packageClause
    · split
      · exact gives_importDeclaration
      · split
        · exact h.functionDeclaration.orElse h.methodDeclaration
        · exact .failure

/-- The parts of a source file are statements. -/
theorem sourceFile : g.sourceFile.Gives words id Node.Statement false := by
  have hitem : ((g.topLevelDeclaration <|> g.topLevelStatement) <* terminator).Gives words
      (fun n => [n]) Node.Statement true := by
    refine .seqLeft (.orElse (h.topLevelDeclaration.imp fun _ hn => hn.statement) ?_)
      gives_terminator
    exact gives_check.after fun _ => h.statement
  exact hitem.many.congr (by simp)

end Sound

end FieldAudit.Go.Grammar
