import FieldAudit.Proofs.ControlNesting
import FieldAudit.Proofs.FieldReference

/-! # The form of trees that are read

A tree that is read can be written again, but for where its loop control stands: `blockFits` holds
of its root and of all templates defined in it (`Passage.Reads.fits`).  What its nodes hold comes
from its tokens: a node stands where a token does, a text is not empty, and a variable is written
with a dollar sign (`Passage.Reads.comeFrom`).  `parse_wellFormed` puts these together. -/

namespace FieldAudit.Template

/-! ## Pipes -/

/-- What is declared is a variable alone, and there is at most one more than may follow the first
one. -/
theorem declarations_fit {context : Context} {more : Nat} {s s' : Input} {decls : List Variable}
    (h : declarations context more s = .ok (decls, s')) :
    decls.length ≤ more + 1 ∧ decls.all (·.path.length = 1) = true := by
  rw [declarations_eq_ok_iff] at h
  induction h with
  | none => simp
  | last => simp [Input.declared]
  | cons hv hm hk h ih =>
    obtain ⟨hlength, hall⟩ := ih
    exact ⟨Nat.succ_le_succ hlength, hall⟩

/-- An atom fits a command. -/
theorem atom?_fits {scope : List String} {t : Token} {node : Node}
    (h : atom? scope t = .ok (some node)) : node.fitsCommand = true := by
  cases atom?_eq_some_iff.1 h with
  | function hk hb => rw [Node.fitsCommand, hb]; rfl
  | number hk hn => simp [Node.fitsCommand, hn]
  | charConstant hk hu => simp [Node.fitsCommand, hu, Except.isOk, Except.toBool]
  | string hk hu => simp [Node.fitsCommand, hu, Except.isOk, Except.toBool]
  | _ => rfl

/-- A single token with fields taken from it is a field, a variable or a function with fields. -/
theorem atom?_select_fits {scope : List String} {t : Token} {node : Node}
    (h : atom? scope t = .ok (some node)) (hl : node.isLiteral = false) (pos : Nat) (name : String)
    (fields : List String) : (node.select pos (name :: fields)).fitsCommand = true := by
  have hfits := atom?_fits h
  rcases atom?_cases h with ⟨-, rfl⟩ | ⟨-, -, rfl⟩ | ⟨-, rfl⟩ | ⟨-, hliteral⟩
  · simpa [Node.select, Node.fitsCommand] using hfits
  · rfl
  · rfl
  · rw [hliteral] at hl
    cases hl

/-- Trailing fields keep a node fit for a command. -/
theorem withFields_fits {node node' : Node} {s s' : Input}
    (h : withFields node s = .ok (node', s')) (hn : node.fitsCommand = true)
    (hs : node.isLiteral = false → ∀ pos name fields,
      (node.select pos (name :: fields)).fitsCommand = true) : node'.fitsCommand = true := by
  rcases withFields_cases h with ⟨-, rfl, -⟩ | ⟨first, rest, -, -, hl, rfl, -⟩
  · exact hn
  · exact hs hl _ _ _

/-- Arguments fit if each part does. -/
theorem argumentsFit_append {left right : List Node} :
    argumentsFit (left ++ right) = (argumentsFit left && argumentsFit right) := by
  induction left with
  | nil => rfl
  | cons arg rest ih => rw [List.cons_append, argumentsFit, argumentsFit, ih, Bool.and_assoc]

/-- Whether what a phrase holds can be written. -/
def Phrase.fits : Phrase → Bool
  | .pipe context _ p => pipeFits (context.furtherDeclarations + 1) p
  | .commands _ cs => commandsFit cs
  | .arguments as => argumentsFit as
  | .operand a => argumentsFit a.toList

/-- Pipes that are read can be written. -/
theorem Phrase.Reads.fits {phrase : Phrase} {s s' : Input} (h : phrase.Reads s s') :
    phrase.fits = true := by
  induction h with
  | @pipe context close s s₁ s₂ decls commands hd hc hp ih =>
    obtain ⟨hlength, hall⟩ := declarations_fit hd
    obtain ⟨hne, hvalues⟩ := Pipe.fits_of_check hp
    have hcommands : commandsFit commands = true := ih
    have hne : commands.isEmpty = false := by simpa using hne
    show pipeFits _ _ = true
    rw [pipeFits, decide_eq_true hlength, hall, hne, hcommands]
    simpa using hvalues
  | close => rfl
  | command hk hs ha hn hl hc iha ihc =>
    have hargs : argumentsFit _ = true := iha
    have hrest : commandsFit _ = true := ihc
    show commandsFit (_ :: _) = true
    rw [commandsFit, commandFits, hargs, hrest]
    simpa using hn
  | spaced ho hk hl ha iho iha =>
    have harg : argumentsFit _ = true := iho
    have hargs : argumentsFit _ = true := iha
    show argumentsFit (_ ++ _) = true
    rw [argumentsFit_append, harg, hargs]
    rfl
  | closed ho hk ih => exact ih
  | piped ho hk ih => exact ih
  | @parenthesis s s₁ s₂ p node hk hp hf ih =>
    have hp : (Node.pipe p).fitsCommand = true := ih
    have hnode := withFields_fits hf hp fun _ pos name fields => by
      simpa [Node.select, Node.fitsCommand] using hp
    show argumentsFit [node] = true
    rw [argumentsFit, hnode]
    rfl
  | @atom s s₁ base node ha hf =>
    have hnode := withFields_fits hf (atom?_fits ha) (atom?_select_fits ha)
    show argumentsFit [node] = true
    rw [argumentsFit, hnode]
    rfl
  | absent hk ha => rfl

/-! ## Blocks -/

/-- A branch may declare as many variables as its keyword allows. -/
theorem BranchKind.declarations_eq (kind : BranchKind) :
    (Context.control kind.keyword).furtherDeclarations + 1 = kind.declarations := by
  cases kind <;> rfl

/-- Whether what a passage holds can be written, but for where loop control stands. -/
def Passage.fits : Passage → Bool
  | .items _ nodes _ => nodesFit true nodes
  | .item _ (.node n) => n.fitsBlock true
  | .item _ (.ending _) => true
  | .branch _ _ n => n.fitsBlock true
  | .block _ n => n.fitsBlock true
  | .body _ root => blockFits true root
  | .definition => true
  | .document nodes => nodesFit true nodes

/-- A branch fits a block if its pipeline was read for it and its parts fit. -/
theorem fitsBlock_branch {kind : BranchKind} {bodyPos : Nat} {p : Pipe Node}
    {nodes : List Node} {alternative : Option (Block Node)} {s s' : Input}
    (hp : (Phrase.pipe (.control kind.keyword) .rightDelim p).Reads s s')
    (hn : nodesFit true nodes = true) (ha : block?Fits true alternative = true) :
    (Node.branch kind p.pos p ⟨bodyPos, nodes⟩ alternative).fitsBlock true = true := by
  have hpipe : pipeFits _ p = true := hp.fits
  rw [kind.declarations_eq] at hpipe
  rw [Node.fitsBlock, hpipe, ha, Bool.true_or, blockFits, hn]
  rfl

/-- Templates that are read can be written, but for where loop control stands. -/
theorem Passage.Reads.fits {passage : Passage} {s s' : State} (h : passage.Reads s s') :
    passage.fits = true := by
  have hcons {node : Node} {nodes : List Node} (hnode : node.fitsBlock true = true)
      (hnodes : nodesFit true nodes = true) : nodesFit true (node :: nodes) = true := by
    rw [nodesFit, hnode, hnodes]
    rfl
  induction h with
  | last | text | endAction | elseAction | elseBranch | breakAction | continueAction | bareCall
  | definition | finished => rfl
  | more hk hi hl hr ihi ihr => exact hcons ihi ihr
  | branch ho hb ih => exact ih
  | block ho hb ih => exact ih
  | call ho hn hr hp => exact hp.fits
  | action ho hw hp => exact hp.fits
  | single hp hi ih => exact fitsBlock_branch hp ih rfl
  | chained hp hi hl hk hb ihi ihb => exact fitsBlock_branch hp ihi (hcons ihb rfl)
  | double hp hi hl hk ha ihi iha => exact fitsBlock_branch hp ihi iha
  | blockCall hn hp hb hd ih => exact hp.fits
  | body hi ih => exact ih
  | defined hk hw hd hl hr ihd ihr => exact ihr
  | node hk hn hi hl hr ihi ihr => exact hcons ihi ihr

/-! ## Tokens -/

/-- Only a dollar sign starts a variable. -/
theorem scan_variable {right text : List Char} {s : Scan} (h : scan right text = .ok s)
    (hk : s.kind = .variable) : s.lexeme.head? = some '$' := by
  cases scan_scanned h with
  | dollar hb => rfl
  | punctuation hp =>
    have hk : _ = Token.Kind.variable := hk
    unfold punctuation? at hp
    split at hp <;> cases hp <;> cases hk
  | number hn =>
    rw [scanNumber_kind hn] at hk
    cases hk
  | word hc hb =>
    have hk : wordKind _ = .variable := hk
    unfold wordKind at hk
    dsimp only at hk
    split at hk
    next => cases hk
    next => split at hk <;> cases hk
  | _ => cases hk

/-- A text token is not empty, and a variable token starts with a dollar sign. -/
def Token.IsSpelled (t : Token) : Prop :=
  (t.kind = .text → t.lexeme ≠ []) ∧ (t.kind = .variable → t.lexeme.head? = some '$')

/-- The tokens of a source are spelled as their kind says. -/
theorem tokenize_isSpelled {d : Delimiters} {source : List Char} {tokens : List Token}
    (h : tokenize d source = .ok tokens) : ∀ t ∈ tokens, t.IsSpelled := by
  refine tokenize_forall (fun _ _ hne => ⟨fun _ => hne, by simp⟩) (fun _ => ⟨by simp, by simp⟩)
    (fun _ => ⟨by simp, by simp⟩) (fun _ => ⟨by simp [Token.eof], by simp [Token.eof]⟩)
    (fun text s pos hs => ⟨fun _ => (scan_eq_ok hs).2, scan_variable hs⟩) h

/-! ## Nodes and tokens -/

/-- A node that can come from some tokens: it stands where one of them does, a text is not empty,
and the name of a variable starts with a dollar sign. -/
structure Node.ComesFrom (tokens : List Token) (n : Node) : Prop where
  stands : ∃ t ∈ tokens, t.pos = n.pos
  text_ne_nil : ∀ pos text, n = .text pos text → text ≠ []
  dollar : ∀ v, n = .variable v →
    ∃ name fields, v.path = name :: fields ∧ name.toList.head? = some '$'

namespace Node.ComesFrom

variable {tokens : List Token}

/-- Most nodes only have to stand where a token does. -/
theorem of_pos {n : Node} {t : Token} (ht : t ∈ tokens) (hpos : t.pos = n.pos)
    (htext : ∀ pos text, n ≠ .text pos text) (hvariable : ∀ v, n ≠ .variable v) :
    n.ComesFrom tokens :=
  ⟨⟨t, ht, hpos⟩, fun _ _ h => absurd h (htext _ _), fun _ h => absurd h (hvariable _)⟩

/-- A text node comes from its token. -/
theorem of_text {t : Token} (ht : t ∈ tokens) (hk : t.kind = .text) (hs : t.IsSpelled) :
    (Node.text t.pos t.lexeme).ComesFrom tokens := by
  refine ⟨⟨t, ht, rfl⟩, ?_, by simp⟩
  rintro _ _ ⟨⟩
  exact hs.1 hk

/-- A variable comes from its token, whatever fields follow. -/
theorem of_variable {t u : Token} (hu : u ∈ tokens) (hk : t.kind = .variable) (hs : t.IsSpelled)
    (fields : List String) :
    (Node.variable ⟨u.pos, String.ofList t.lexeme :: fields⟩).ComesFrom tokens := by
  refine ⟨⟨u, hu, rfl⟩, by simp, ?_⟩
  rintro _ ⟨⟩
  exact ⟨_, _, rfl, by rw [String.toList_ofList]; exact hs.2 hk⟩

end Node.ComesFrom

section Reading

variable {tokens : List Token} (hspelled : ∀ t ∈ tokens, t.IsSpelled)
include hspelled

/-- Declared variables come from their tokens. -/
theorem declarations_comeFrom {context : Context} {more : Nat} {s s' : Input}
    {decls : List Variable} (h : declarations context more s = .ok (decls, s'))
    (ht : s.tokens <:+ tokens) : ∀ n ∈ decls.map Node.variable, n.ComesFrom tokens := by
  have declared {s : Input} (ht : s.tokens <:+ tokens) (hv : s.peekWord.kind = .variable) :
      (Node.variable ⟨s.peekWord.pos, [String.ofList s.peekWord.lexeme]⟩).ComesFrom tokens := by
    have hmem := ht.subset (Input.peekWord_mem (by rw [hv]; decide))
    exact .of_variable hmem hv (hspelled _ hmem) []
  rw [declarations_eq_ok_iff] at h
  induction h with
  | none => exact List.forall_mem_nil _
  | last hv => exact List.forall_mem_singleton.2 (declared ht hv)
  | cons hv hm hk h ih =>
    have hrest := ih ((Input.next_suffix _).trans ((Input.next_suffix _).trans ht))
    exact List.forall_mem_cons.2 ⟨declared ht hv, hrest⟩

/-- A single token is read as a node that stands where it does, and so do the fields after it. -/
theorem atom?_comeFrom {scope : List String} {t u : Token} {node : Node}
    (h : atom? scope t = .ok (some node)) (ht : t ∈ tokens) (hu : u ∈ tokens) :
    (∀ n ∈ node.preorder, n.ComesFrom tokens) ∧
      (node.isLiteral = false → ∀ fields, ∀ n ∈ (node.select u.pos fields).preorder,
        n.ComesFrom tokens) := by
  have hpos : t.pos = node.pos := (atom?_eq_some_iff.1 h).pos_eq.symm
  rcases atom?_cases h with ⟨-, rfl⟩ | ⟨hk, -, rfl⟩ | ⟨-, rfl⟩ | ⟨-, hl⟩
  · have hnode : ∀ n ∈ [Node.identifier t.pos (String.ofList t.lexeme) true], n.ComesFrom tokens :=
      List.forall_mem_singleton.2 (.of_pos ht hpos (by simp) (by simp))
    refine ⟨hnode, fun _ fields => List.forall_mem_cons.2 ⟨?_, hnode⟩⟩
    exact .of_pos hu rfl (by simp) (by simp)
  · exact ⟨List.forall_mem_singleton.2 (.of_variable ht hk (hspelled t ht) []), fun _ fields =>
      List.forall_mem_singleton.2 (.of_variable hu hk (hspelled t ht) fields)⟩
  · exact ⟨List.forall_mem_singleton.2 (.of_pos ht rfl (by simp) (by simp)), fun _ fields =>
      List.forall_mem_singleton.2 (.of_pos hu rfl (by simp) (by simp))⟩
  · refine ⟨?_, fun hne => absurd hl (by rw [hne]; decide)⟩
    rw [(preorder_of_isLiteral hl).1, List.forall_mem_singleton]
    refine .of_pos ht hpos ?_ ?_
    · rintro _ _ rfl
      cases hl
    · rintro _ rfl
      cases hl

omit hspelled in
/-- The fields after a value stand where the first of them does. -/
theorem withFields_comeFrom {node node' : Node} {s s' : Input}
    (h : withFields node s = .ok (node', s')) (ht : s.tokens <:+ tokens)
    (hn : ∀ n ∈ node.preorder, n.ComesFrom tokens)
    (hs : ∀ u ∈ tokens, node.isLiteral = false → ∀ fields,
      ∀ n ∈ (node.select u.pos fields).preorder, n.ComesFrom tokens) :
    ∀ n ∈ node'.preorder, n.ComesFrom tokens := by
  rcases withFields_cases h with ⟨-, rfl, -⟩ | ⟨first, rest, htake, -, hl, rfl, -⟩
  · exact hn
  · have hfirst : first ∈ s.tokens.takeWhile (·.kind = .field) := by
      rw [htake]
      exact List.mem_cons_self
    exact hs first (ht.subset ((List.takeWhile_prefix _).subset hfirst)) hl _

/-- The nodes of a pipe come from the tokens. -/
theorem Phrase.Reads.comeFrom {phrase : Phrase} {s s' : Input} (h : phrase.Reads s s')
    (hc : phrase.closeKind ≠ .eof) (ht : s.tokens <:+ tokens) :
    ∀ n ∈ phrase.preorder, n.ComesFrom tokens := by
  induction h with
  | @pipe context close s s₁ s₂ decls commands hd hcs hp ih =>
    have hword : s.peekWord.kind ≠ .eof := by
      intro he
      rcases (Phrase.Reads.pipe hd hcs hp).pipe_word with hw | hw
      · exact hc (hw.symm.trans he)
      · rw [he] at hw
        cases hw
    have hpipe : (Node.pipe ⟨s.peekWord.pos, decls, commands⟩).ComesFrom tokens :=
      .of_pos (ht.subset (Input.peekWord_mem hword)) rfl (by simp) (by simp)
    exact List.forall_mem_cons.2 ⟨hpipe, List.forall_mem_append.2
      ⟨declarations_comeFrom hspelled hd ht, ih hc ((declarations_suffix hd).trans ht)⟩⟩
  | close => exact List.forall_mem_nil _
  | @command close s s₁ s₂ args rest hk hs ha hn hl hcs iha ihc =>
    have hword : s.peekWord.kind ≠ .eof := by
      intro he
      rw [he] at hs
      cases hs
    have hcommand : (Node.command ⟨s.peekWord.pos, args⟩).ComesFrom tokens :=
      .of_pos (ht.subset (Input.peekWord_mem hword)) rfl (by simp) (by simp)
    show ∀ n ∈ commandsPreorder (_ :: _), n.ComesFrom tokens
    rw [commandsPreorder, commandPreorder]
    exact List.forall_mem_append.2 ⟨List.forall_mem_cons.2 ⟨hcommand, iha (by simp [closeKind]) ht⟩,
      ihc hc (ha.suffix.trans ht)⟩
  | spaced ho hk hl ha iho iha =>
    have hword := (Input.skipSpace_suffix _).trans ht
    show ∀ n ∈ nodesPreorder (_ ++ _), n.ComesFrom tokens
    rw [nodesPreorder_append]
    exact List.forall_mem_append.2 ⟨iho (by simp [closeKind]) hword,
      iha (by simp [closeKind]) ((Input.tail_suffix _).trans (ho.suffix.trans hword))⟩
  | closed ho hk ih => exact ih (by simp [closeKind]) ((Input.skipSpace_suffix _).trans ht)
  | piped ho hk ih => exact ih (by simp [closeKind]) ((Input.skipSpace_suffix _).trans ht)
  | @parenthesis s s₁ s₂ p node hk hp hf ih =>
    have hinside := (Input.next_suffix _).trans ht
    have hpipe : ∀ n ∈ (Node.pipe p).preorder, n.ComesFrom tokens :=
      ih (by simp [closeKind]) hinside
    show ∀ n ∈ nodesPreorder [node], n.ComesFrom tokens
    rw [nodesPreorder_singleton]
    refine withFields_comeFrom hf (hp.suffix.trans hinside) hpipe fun u hu _ fields => ?_
    exact List.forall_mem_cons.2 ⟨.of_pos hu rfl (by simp) (by simp), hpipe⟩
  | @atom s s₁ base node ha hf =>
    have hmem := ht.subset (Input.peekWord_mem (ne_of_atom? ha rfl))
    show ∀ n ∈ nodesPreorder [node], n.ComesFrom tokens
    rw [nodesPreorder_singleton]
    exact withFields_comeFrom hf ((Input.next_suffix _).trans ht)
      (atom?_comeFrom hspelled ha hmem hmem).1 fun u hu => (atom?_comeFrom hspelled ha hmem hu).2
  | absent hk ha => exact List.forall_mem_nil _

omit hspelled in
/-- A block stands where its first word does. -/
theorem Passage.Reads.block_comeFrom {depth : Nat} {nodes : List Node} {ending : Ending}
    {s s' : State} (h : (Passage.items depth nodes ending).Reads s s')
    (ht : s.input.tokens <:+ tokens) (hn : ∀ n ∈ nodesPreorder nodes, n.ComesFrom tokens) :
    ∀ n ∈ blockPreorder ⟨s.input.peekWord.pos, nodes⟩, n.ComesFrom tokens := by
  have hword : s.input.peekWord.kind ≠ .eof := by
    cases h with
    | last hk hi => exact hk
    | more hk hi hl hr => exact hk
  have hmem := ht.subset (Input.peekWord_mem hword)
  rw [blockPreorder]
  exact List.forall_mem_cons.2 ⟨.of_pos hmem rfl (by simp) (by simp), hn⟩

omit hspelled in
/-- The action that closes a block stands where one of its words does. -/
theorem Passage.Reads.ending_stands {depth : Nat} {nodes : List Node} {ending : Ending}
    {s s' : State} (h : (Passage.items depth nodes ending).Reads s s')
    (ht : s.input.tokens <:+ tokens) : ∃ t ∈ tokens, t.pos = ending.pos := by
  have hword {s : State} (ht : s.input.tokens <:+ tokens)
      (hk : s.afterWord.input.peekWord.kind ≠ .eof) : s.afterWord.input.peekWord ∈ tokens :=
    ht.subset (s.afterWord_suffix.subset (Input.peekWord_mem hk))
  generalize hp : Passage.items depth nodes ending = passage at h
  induction h generalizing nodes with
  | last hk hi ih =>
    cases hp
    cases hi with
    | endAction ho hr => exact ⟨_, hword ht (by rw [hr]; decide), rfl⟩
    | elseAction ho hr => exact ⟨_, hword ht (by rw [hr]; decide), rfl⟩
    | elseBranch ho hb =>
      exact ⟨_, hword ht (by rcases hb with hb | hb <;> rw [hb] <;> simp), rfl⟩
  | more hk hi hl hr ihi ihr => cases hp; exact ihr (hi.suffix.trans ht) rfl
  | _ => cases hp

/-- A branch stands where its pipe does. -/
theorem branch_comeFrom {kind : BranchKind} {p : Pipe Node} {body : Block Node}
    {alternative : Option (Block Node)} {s s' : Input}
    (hp : (Phrase.pipe (.control kind.keyword) .rightDelim p).Reads s s')
    (ht : s.tokens <:+ tokens) (hb : ∀ n ∈ blockPreorder body, n.ComesFrom tokens)
    (ha : ∀ n ∈ block?Preorder alternative, n.ComesFrom tokens) :
    ∀ n ∈ (Node.branch kind p.pos p body alternative).preorder, n.ComesFrom tokens := by
  have hpipe : ∀ n ∈ pipePreorder p, n.ComesFrom tokens :=
    hp.comeFrom hspelled (by simp [Phrase.closeKind]) ht
  have hself : .pipe p ∈ pipePreorder p := by
    rw [pipePreorder]
    exact List.mem_cons_self
  obtain ⟨t, hmem, hpos⟩ := (hpipe (.pipe p) hself).stands
  rw [Node.preorder]
  refine List.forall_mem_cons.2 ⟨.of_pos hmem hpos (by simp) (by simp), ?_⟩
  exact List.forall_mem_append.2 ⟨List.forall_mem_append.2 ⟨hpipe, hb⟩, ha⟩

/-- A call stands where the name of the template does. -/
theorem call_comeFrom {context : Context} {name : String} {p : Pipe Node} {s s' : Input}
    (hn : templateName context s.peekWord = .ok name)
    (hp : (Phrase.pipe context .rightDelim p).Reads s.next s') (ht : s.tokens <:+ tokens) :
    ∀ n ∈ (Node.template s.peekWord.pos name (some p)).preorder, n.ComesFrom tokens := by
  have hmem := ht.subset (Input.peekWord_mem (ne_of_templateName hn rfl))
  have hpipe := hp.comeFrom hspelled (by simp [Phrase.closeKind]) ((Input.next_suffix _).trans ht)
  rw [Node.preorder]
  exact List.forall_mem_cons.2 ⟨.of_pos hmem rfl (by simp) (by simp), hpipe⟩

/-- The nodes of a passage come from the tokens. -/
theorem Passage.Reads.comeFrom {passage : Passage} {s s' : State} (h : passage.Reads s s')
    (ht : s.input.tokens <:+ tokens) : ∀ n ∈ passage.preorder, n.ComesFrom tokens := by
  have hcons {node : Node} {nodes : List Node} (hnode : ∀ n ∈ node.preorder, n.ComesFrom tokens)
      (hnodes : ∀ n ∈ nodesPreorder nodes, n.ComesFrom tokens) :
      ∀ n ∈ nodesPreorder (node :: nodes), n.ComesFrom tokens := by
    rw [nodesPreorder]
    exact List.forall_mem_append.2 ⟨hnode, hnodes⟩
  have hword {s : State} {kind : Token.Kind} (ho : s.Opens kind) (hk : kind ≠ .eof)
      (ht : s.input.tokens <:+ tokens) : s.word ∈ tokens :=
    ht.subset ((Input.next_suffix _).subset (Input.peekWord_mem (by rw [← ho.2] at hk; exact hk)))
  induction h with
  | last | endAction | elseAction | elseBranch | definition | finished =>
    exact List.forall_mem_nil _
  | more hk hi hl hr ihi ihr => exact hcons (ihi ht) (ihr (hi.suffix.trans ht))
  | text hk =>
    have hmem := ht.subset (Input.peekWord_mem (by rw [hk]; decide))
    exact List.forall_mem_singleton.2 (.of_text hmem hk (hspelled _ hmem))
  | branch ho hb ih => exact ih ((State.afterWord_suffix _).trans ht)
  | block ho hb ih => exact ih ((State.afterWord_suffix _).trans ht)
  | breakAction ho hr hd =>
    exact List.forall_mem_singleton.2 (.of_pos (hword ho (by simp) ht) rfl (by simp) (by simp))
  | continueAction ho hr hd =>
    exact List.forall_mem_singleton.2 (.of_pos (hword ho (by simp) ht) rfl (by simp) (by simp))
  | @bareCall depth name s ho hn hr =>
    have hname := Input.peekWord_mem (ne_of_templateName hn rfl)
    have hmem := ht.subset (s.afterWord_suffix.subset hname)
    exact List.forall_mem_singleton.2 (.of_pos hmem rfl (by simp) (by simp))
  | @call depth name p s input ho hn hr hp =>
    exact call_comeFrom hspelled hn hp (s.afterWord_suffix.trans ht)
  | @action depth p s input kind ho hw hp =>
    have hk : kind ≠ .eof := by
      rintro rfl
      -- A pipe starts with an operand or with its right delimiter.
      have hstart : s.word.kind = .rightDelim ∨ s.word.kind.startsOperand = true := hp.pipe_word
      rw [ho.2] at hstart
      rcases hstart with h | h <;> cases h
    have hpipe := hp.comeFrom hspelled (by simp [Phrase.closeKind])
      ((Input.next_suffix _).trans ht)
    show ∀ n ∈ (Node.action _ _).preorder, n.ComesFrom tokens
    rw [Node.preorder]
    exact List.forall_mem_cons.2 ⟨.of_pos (hword ho hk ht) rfl (by simp) (by simp), hpipe⟩
  | single hp hi ih =>
    have hbody := hp.suffix.trans ht
    exact branch_comeFrom hspelled hp ht (hi.block_comeFrom hbody (ih hbody))
      (List.forall_mem_nil _)
  | @chained depth kind p nodes pos nested s s₁ s₂ input hp hi hl hk hb ihi ihb =>
    have hbody := hp.suffix.trans ht
    have hrest := hi.suffix.trans hbody
    obtain ⟨t, hmem, hpos⟩ := hi.ending_stands hbody
    have hnested : ∀ n ∈ nodesPreorder [nested], n.ComesFrom tokens := by
      rw [nodesPreorder_singleton]
      exact ihb ((Input.tail_suffix _).trans hrest)
    exact branch_comeFrom hspelled hp ht (hi.block_comeFrom hbody (ihi hbody))
      (List.forall_mem_cons.2 ⟨.of_pos hmem hpos (by simp) (by simp), hnested⟩)
  | double hp hi hl hk ha ihi iha =>
    have hbody := hp.suffix.trans ht
    have hrest := hi.suffix.trans hbody
    exact branch_comeFrom hspelled hp ht (hi.block_comeFrom hbody (ihi hbody))
      (ha.block_comeFrom hrest (iha hrest))
  | blockCall hn hp hb hd ih => exact call_comeFrom hspelled hn hp ht
  | body hi ih => exact hi.block_comeFrom ht (ih ht)
  | defined hk hw hd hl hr ihd ihr =>
    exact ihr (hd.suffix.trans ((Input.next_suffix _).trans ((Input.tail_suffix _).trans ht)))
  | node hk hn hi hl hr ihi ihr => exact hcons (ihi ht) (ihr (hi.suffix.trans ht))

end Reading

/-! ## Whole templates -/

/-- Every tree that is read is well formed.  In the template and in every template defined in it
nodes stand only where the grammar has them, pipes, commands and names are complete, literals can be
unquoted, and every node comes from the tokens; and no identifier is reported as a reference. -/
theorem parse_wellFormed {d : Delimiters} {source : List Char} {tree : Tree}
    (h : parse d source = .ok tree) :
    ∃ tokens, tokenize d source = .ok tokens ∧
      (∀ root ∈ tree.root :: tree.defines.map Definition.root,
        blockFits true root = true ∧ ∀ n ∈ root.preorder, n.ComesFrom tokens) ∧
      ∀ path, ∀ r ∈ fieldReferences path source tree.root,
        Node.field r.offset r.chain ∈ tree.root.preorder := by
  obtain ⟨tokens, htokens, htree⟩ := parse_eq_ok h
  obtain ⟨⟨pos, nodes⟩, defines⟩ := tree
  obtain ⟨s, hd, hpos, hdefines⟩ := ofTokens_eq_ok_iff.1 htree
  have hspelled := tokenize_isSpelled htokens
  refine ⟨tokens, htokens, List.forall_mem_cons.2 ⟨⟨hd.fits, ?_⟩, ?_⟩, ?_⟩
  · -- The root stands where the first token does.
    obtain ⟨front, stop, hends, -⟩ := tokenize_endsOnce htokens
    have hfirst : (State.start tokens).input.peek ∈ tokens := by
      cases tokens with
      | nil => simp at hends
      | cons t rest => exact List.mem_cons_self
    rw [Block.preorder, blockPreorder]
    exact List.forall_mem_cons.2 ⟨.of_pos hfirst hpos.symm (by simp) (by simp),
      hd.comeFrom hspelled List.suffix_rfl⟩
  · obtain rfl : defines = s.defines := hdefines
    rw [List.forall_mem_map]
    refine hd.forall_defines_of_suffix (P := fun root => blockFits true root = true ∧
      ∀ n ∈ root.preorder, n.ComesFrom tokens) (fun depth root s s' ht hb => ?_) List.suffix_rfl ?_
    · exact ⟨hb.fits, hb.comeFrom hspelled ht⟩
    · exact List.forall_mem_nil _
  · intro path r hr
    rw [fieldReferences_eq (ofTokens_isKnown htree)] at hr
    obtain ⟨use, huse, rfl⟩ := List.mem_map.1 hr
    obtain ⟨n, hn, hfield⟩ := List.mem_filterMap.1 huse
    unfold Node.fieldUse? at hfield
    split at hfield <;> cases hfield
    exact hn

/-- A template with a loop over two variables, fields taken from a pipe, and a chain of branches in
a template that it defines. -/
def formedTemplate : List Char :=
  "a\x7b\x7brange $i, $x := .List\x7d\x7d\x7b\x7b(index $x $i).Name | len\x7d\x7d".toList ++
    "\x7b\x7bend\x7d\x7d\x7b\x7bblock \x22b\x22 .\x7d\x7d\x7b\x7bif 'c'\x7d\x7d".toList ++
    "\x7b\x7belse if nil\x7d\x7d\x7b\x7btemplate \x22t\x22\x7d\x7d".toList ++
    "\x7b\x7bend\x7d\x7d\x7b\x7bend\x7d\x7d".toList

/-- A loop with declarations is well formed, and its references are nodes of its tree. -/
theorem parse_wellFormed_loop :
    ∃ tree tokens, parse {} formedTemplate = .ok tree ∧ tokenize {} formedTemplate = .ok tokens ∧
      (∀ root ∈ tree.root :: tree.defines.map Definition.root,
        blockFits true root = true ∧ ∀ n ∈ root.preorder, n.ComesFrom tokens) ∧
      ∀ path, ∀ r ∈ fieldReferences path formedTemplate tree.root,
        Node.field r.offset r.chain ∈ tree.root.preorder := by
  have h : (parse {} formedTemplate).toOption.isSome = true := by decide +kernel
  cases hparse : parse {} formedTemplate with
  | error e => rw [hparse] at h; cases h
  | ok tree =>
    obtain ⟨tokens, htokens, hformed⟩ := parse_wellFormed hparse
    exact ⟨tree, tokens, rfl, htokens, hformed⟩

end FieldAudit.Template
