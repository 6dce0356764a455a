import FieldAudit.Go.SourceTree
import FieldAudit.Proofs.Syntax.Shape

/-! # What rules of a grammar read

Every rule of the Go grammar of this library reads nodes of the right shape.  `Node.Formed` says so
of a tree as it is read, before comments are put into it.  The lemmas about the combinators say how
the parts that a rule reads one after the other are gathered; each rule of the grammar is then a
chain of such steps. -/

namespace FieldAudit.Go

namespace Spread

variable {lo mid mid' hi : Nat} {left right : List Node}

/-- No nodes are spread over any stretch. -/
theorem nil : Spread lo hi [] :=
  ⟨by simp, .nil⟩

/-- A node is spread over a stretch that holds it. -/
theorem single {n : Node} (hlo : lo ≤ n.start) (hhi : n.stop ≤ hi) : Spread lo hi [n] :=
  ⟨by simpa using ⟨hlo, hhi⟩, by simp⟩

/-- Nodes of a stretch and of a later one are spread over both. -/
theorem append (hl : Spread lo mid left) (hr : Spread mid' hi right) (hlo : lo ≤ mid')
    (hmid : mid ≤ mid') (hhi : mid ≤ hi) : Spread lo hi (left ++ right) := by
  constructor
  · intro n hn
    rcases List.mem_append.1 hn with h | h
    · exact ⟨(hl.within n h).1, Nat.le_trans (hl.within n h).2 hhi⟩
    · exact ⟨Nat.le_trans hlo (hr.within n h).1, (hr.within n h).2⟩
  · refine List.pairwise_append.2 ⟨hl.ordered, hr.ordered, ?_⟩
    intro a ha b hb
    -- A node on the left ends before the middle, and one on the right starts after it.
    have h₁ := (hl.within a ha).2
    have h₂ := (hr.within b hb).1
    omega

/-- Nodes are spread over every longer stretch. -/
theorem mono {lo' hi' : Nat} (h : Spread lo hi left) (hlo : lo' ≤ lo) (hhi : hi ≤ hi') :
    Spread lo' hi' left :=
  ⟨fun n hn => ⟨Nat.le_trans hlo (h.within n hn).1, Nat.le_trans (h.within n hn).2 hhi⟩, h.ordered⟩

/-- The first node may be taken for the lower bound. -/
theorem of_first {first : Node} {rest : List Node} (h : Spread lo hi (first :: rest))
    (hne : first.start ≤ first.stop) : Spread first.start hi (first :: rest) := by
  obtain ⟨hwithin, hordered⟩ := h
  refine ⟨?_, hordered⟩
  intro n hn
  refine ⟨?_, (hwithin n hn).2⟩
  rcases List.mem_cons.1 hn with rfl | hn
  · exact Nat.le_refl _
  · exact Nat.le_trans hne ((List.pairwise_cons.1 hordered).1 n hn)

/-- Roles do not matter for where nodes stand. -/
theorem map_as {nodes : List Node} (h : Spread lo hi nodes) (role : Role) :
    Spread lo hi (nodes.map (·.as role)) := by
  constructor
  · intro n hn
    obtain ⟨m, hm, rfl⟩ := List.mem_map.1 hn
    exact h.within m hm
  · exact List.pairwise_map.2 h.ordered

end Spread

/-- Whether a node of a kind may open with a part in a role. -/
def Kind.opensWith (kind : Kind) (role : Role) : Bool :=
  kind.isSolid && !kind.isName && kind.opener?.all (· = role)

/-- Whether a node of a kind may have parts and open with any of them. -/
def Kind.isLoose (kind : Kind) : Bool :=
  kind.isSolid && !kind.isName && kind.opener?.isNone

/-- Whether a statement of a kind is a declaration that may stand among other statements. -/
def Kind.isDeclaration : Kind → Bool
  | .shortVarDeclaration | .varDeclaration | .constDeclaration => true
  | _ => false

/-- Whether a node of any kind may stand in a role, and anywhere among the parts of a node. -/
def Role.isFree : Role → Bool
  | .initializer | .field => false
  | _ => true

/-- Whether a node of a kind may stand below any other. -/
def Kind.isOrdinary : Kind → Bool
  | .shortVarDeclaration | .varDeclaration | .constDeclaration | .varSpecList | .varSpec
  | .constSpecList | .constSpec | .rangeClause | .forClause | .sourceFile | .comment
  | .punctuation => false
  | _ => true

/-- Whether a node of a kind may stand below any other, without parts. -/
def Kind.isLeaf (kind : Kind) : Bool :=
  kind.isOrdinary && kind.opener?.isNone

/-- Whether a node of a kind may stand below any other, over any ordinary parts. -/
def Kind.isCompound (kind : Kind) : Bool :=
  kind.isOrdinary && kind.isLoose

/-- A node that may stand right below a node of a kind, and after others. -/
structure Node.Later (parent : Kind) (node : Node) : Prop extends node.Part parent where
  leads : node.leads = false

/-- A tree of regular nodes, where punctuation is among the parts and has nothing below it. -/
inductive Node.Formed (words : Nat → Nat → Prop) : Node → Prop
  | intro {node : Node} (regular : node.Regular words node.children)
      (mark : node.kind.isSolid = false → node.children = [])
      (children : ∀ c ∈ node.children, Formed words c) : Formed words node

/-- A node of a kind, without a role. -/
structure Node.Plain (kind : Kind) (node : Node) : Prop where
  kind : node.kind = kind
  role : node.role = .plain

/-- A node that may stand below any other, and anywhere. -/
structure Node.Ordinary (node : Node) : Prop where
  kind : node.kind.isOrdinary = true
  role : node.role ≠ .initializer
  field : node.role = .field → node.kind = .fieldIdentifier

/-- Punctuation, in a role that tells nothing about the structure. -/
structure Node.Mark (node : Node) : Prop where
  kind : node.kind = .punctuation
  role : node.role.isStructural = false

/-- A node that may stand below any other, and anywhere, or punctuation. -/
def Node.Free (node : Node) : Prop :=
  node.Ordinary ∨ node.Mark

/-- A node that may stand among statements. -/
structure Node.Statement (node : Node) : Prop where
  kind : node.kind.isOrdinary = true ∨ node.kind.isDeclaration = true
  role : node.role ≠ .initializer
  field : node.role = .field → node.kind = .fieldIdentifier

section

variable {words : Nat → Nat → Prop} {node : Node} {parent kind : Kind} {role : Role}

/-- A kind is loose if it is solid, no name, and no part has to come first. -/
theorem Kind.isLoose_iff :
    kind.isLoose = true ↔ kind.isSolid = true ∧ kind.isName = false ∧ kind.opener? = none := by
  simp [Kind.isLoose, and_assoc]

/-- A kind opens with a role if it is solid, no name, and no other role has to come first. -/
theorem Kind.opensWith_iff : kind.opensWith role = true
    ↔ kind.isSolid = true ∧ kind.isName = false ∧ ∀ r ∈ kind.opener?, r = role := by
  unfold Kind.opensWith
  cases kind.opener? <;> simp [and_assoc]

/-- A loose kind opens with any role. -/
theorem Kind.opensWith_of_isLoose (h : kind.isLoose = true) : kind.opensWith role = true := by
  obtain ⟨hsolid, hname, hopener⟩ := Kind.isLoose_iff.1 h
  simp [Kind.opensWith, hsolid, hname, hopener]

/-- What may stand below any other node is solid. -/
theorem Kind.isSolid_of_isOrdinary (h : kind.isOrdinary = true) : kind.isSolid = true := by
  cases kind <;> first | rfl | cases h

/-- What is declared among statements is solid. -/
theorem Kind.isSolid_of_isDeclaration (h : kind.isDeclaration = true) : kind.isSolid = true := by
  cases kind <;> first | rfl | cases h

/-- A compound is an ordinary node that opens with any part. -/
theorem Kind.isCompound_iff :
    kind.isCompound = true ↔ kind.isOrdinary = true ∧ kind.isLoose = true := by
  simp [Kind.isCompound]

/-- A leaf is an ordinary node that needs no opener. -/
theorem Kind.isLeaf_iff :
    kind.isLeaf = true ↔ kind.isOrdinary = true ∧ kind.opener? = none := by
  simp [Kind.isLeaf]

/-- A formed node is regular. -/
theorem Node.Formed.regular (h : node.Formed words) : node.Regular words node.children := by
  cases h
  assumption

/-- The children of a formed node are formed. -/
theorem Node.Formed.child (h : node.Formed words) {c : Node} (hc : c ∈ node.children) :
    c.Formed words := by
  cases h with
  | intro _ _ children => exact children c hc

/-- The role has no part in the form of a node. -/
theorem Node.Formed.as (h : node.Formed words) (role : Role) : (node.as role).Formed words := by
  cases h with
  | intro regular mark children =>
    obtain ⟨hne, hspread, hparts, hfirst, hword, hleaf, hopener⟩ := regular
    exact .intro ⟨hne, hspread, hparts, hfirst, hword, hleaf, hopener⟩ mark children

/-- A plain node of an ordinary kind may stand anywhere. -/
theorem Node.Plain.ordinary {kind : Kind} (h : node.Plain kind) (hk : kind.isOrdinary = true) :
    node.Ordinary :=
  ⟨by rw [h.kind, hk], by simp [h.role], by simp [h.role]⟩

/-- A plain node may be a part of whatever holds its kind. -/
theorem Node.Plain.part {kind : Kind} (h : node.Plain kind)
    (hp : parent.mayHold ⟨kind, .plain, 0, 0, []⟩ = true) : node.Part parent := by
  refine ⟨?_, by simp [h.role], by simp [h.role, Role.isStructural]⟩
  simpa [Kind.mayHold, h.role, h.kind] using hp

/-- A plain node may follow other parts of whatever holds its kind, unless it is the clause of a
loop. -/
theorem Node.Plain.later {kind : Kind} (h : node.Plain kind)
    (hp : parent.mayHold ⟨kind, .plain, 0, 0, []⟩ = true)
    (hk : (kind = .rangeClause || kind = .forClause) = false) : node.Later parent := by
  refine ⟨h.part hp, ?_⟩
  simpa [Node.leads, h.role, h.kind] using hk

/-- An ordinary node stays one in a free role. -/
theorem Node.Ordinary.as (h : node.Ordinary) (role : Role) (hrole : role.isFree = true) :
    (node.as role).Ordinary := by
  refine ⟨h.kind, ?_, ?_⟩
  · rintro rfl
    simp [Role.isFree] at hrole
  · rintro rfl
    simp [Role.isFree] at hrole

/-- Ordinary nodes are statements. -/
theorem Node.Ordinary.statement (h : node.Ordinary) : node.Statement :=
  ⟨.inl h.kind, h.role, h.field⟩

/-- Ordinary nodes may be held by every kind. -/
theorem Kind.mayHold_of_isOrdinary (h : node.kind.isOrdinary = true) :
    parent.mayHold node = true := by
  unfold Kind.mayHold
  cases hk : node.kind <;> simp_all [Kind.isOrdinary]

/-- Ordinary nodes may be parts of every node. -/
theorem Node.Ordinary.part (h : node.Ordinary) : node.Part parent :=
  ⟨Kind.mayHold_of_isOrdinary h.kind, h.field, fun _ => Kind.isSolid_of_isOrdinary h.kind⟩

/-- Ordinary nodes lead no others. -/
theorem Node.Ordinary.leads (h : node.Ordinary) : node.leads = false := by
  have hrole := h.role
  have hkind := h.kind
  unfold Node.leads
  cases hk : node.kind <;> simp_all [Kind.isOrdinary]

/-- Ordinary nodes may follow other parts. -/
theorem Node.Ordinary.later (h : node.Ordinary) : node.Later parent :=
  ⟨h.part, h.leads⟩

/-- Punctuation may stand below any node, and after others. -/
theorem Node.Mark.later (h : node.Mark) : node.Later parent := by
  have hrole := h.role
  refine ⟨⟨by simp [Kind.mayHold, h.kind], ?_, by simp [hrole]⟩, ?_⟩
  · intro hfield
    simp [hfield, Role.isStructural] at hrole
  · have hne : node.role ≠ .initializer := by
      intro hinitializer
      simp [hinitializer, Role.isStructural] at hrole
    simp [Node.leads, h.kind, hne]

/-- A node that is free may follow other parts. -/
theorem Node.Free.later (h : node.Free) : node.Later parent := by
  rcases h with h | h
  · exact h.later
  · exact h.later

/-- What may stand among statements is solid. -/
theorem Node.Statement.isSolid (h : node.Statement) : node.kind.isSolid = true :=
  h.kind.elim Kind.isSolid_of_isOrdinary Kind.isSolid_of_isDeclaration

/-- Statements may be parts of sequences and of what has a label. -/
theorem Node.Statement.part (h : node.Statement)
    (hp : (parent.isSequence || parent = .labeledStatement) = true) : node.Part parent := by
  refine ⟨?_, h.field, fun _ => h.isSolid⟩
  rcases h.kind with hk | hk
  · exact Kind.mayHold_of_isOrdinary hk
  · unfold Kind.mayHold
    cases hn : node.kind <;> simp_all [Kind.isDeclaration]

/-- Statements lead no others. -/
theorem Node.Statement.leads (h : node.Statement) : node.leads = false := by
  have hrole := h.role
  have hkind := h.kind
  unfold Node.leads
  cases hk : node.kind <;> simp_all [Kind.isOrdinary, Kind.isDeclaration]

/-- Statements may follow other parts of sequences and of what has a label. -/
theorem Node.Statement.later (h : node.Statement)
    (hp : (parent.isSequence || parent = .labeledStatement) = true) : node.Later parent :=
  ⟨h.part hp, h.leads⟩

end

/-! ## Streams -/

/-- A token that has its text, and whose range is that of a word if it is one. -/
structure Token.Sound (words : Nat → Nat → Prop) (t : Token) : Prop where
  nonempty : t.start < t.stop
  size : t.stop = t.start + t.text.utf8ByteSize
  word : t.kind = .word → words t.start t.stop

/-- Tokens after an offset, each after the one before. -/
def SoundFrom (words : Nat → Nat → Prop) (pos : Nat) : List Token → Prop
  | [] => True
  | t :: rest => pos ≤ t.start ∧ t.Sound words ∧ SoundFrom words t.stop rest

namespace Stream

/-- A stream whose tokens are sound and in order. -/
def Sound (words : Nat → Nat → Prop) (s : Stream) : Prop :=
  SoundFrom words s.stop s.tokens

/-- Where the next token starts. -/
def start (s : Stream) : Nat :=
  (s.tokens.head?.map Token.start).getD s.stop

/-- The last token read ends before the next one. -/
theorem Sound.stop_le_start {words : Nat → Nat → Prop} {s : Stream} (h : s.Sound words) :
    s.stop ≤ s.start := by
  obtain ⟨tokens, stop⟩ := s
  cases tokens with
  | nil => exact Nat.le_refl _
  | cons t rest => exact h.1

end Stream

/-- What has been read on the way from one stream to another: the nodes, all of a certain kind,
stand in order between the next token of the first stream and the last token taken.  If some token
has been `taken` for sure, that range is not empty. -/
structure Gathered (words : Nat → Nat → Prop) (p : Node → Prop) (s : Stream) (taken : Bool)
    (nodes : List Node) (s' : Stream) : Prop where
  sound : s'.Sound words
  start_le : s.start ≤ s'.start
  stop_le : s.stop ≤ s'.stop
  advanced : taken = true → s.start < s'.stop
  spread : Spread s.start s'.stop nodes
  formed : ∀ n ∈ nodes, n.Formed words
  kinds : ∀ n ∈ nodes, p n

namespace Gathered

variable {words : Nat → Nat → Prop} {p q : Node → Prop} {s s₁ s₂ : Stream} {b c : Bool}
  {left right : List Node}

/-- Nothing is gathered where nothing is read. -/
theorem refl (h : s.Sound words) : Gathered words p s false [] s :=
  ⟨h, Nat.le_refl _, Nat.le_refl _, by simp, .nil, by simp, by simp⟩

/-- What is gathered in two stretches is gathered in their order. -/
theorem trans (hl : Gathered words p s b left s₁) (hr : Gathered words p s₁ c right s₂) :
    Gathered words p s (b || c) (left ++ right) s₂ where
  sound := hr.sound
  start_le := Nat.le_trans hl.start_le hr.start_le
  stop_le := Nat.le_trans hl.stop_le hr.stop_le
  advanced := by
    intro h
    -- One of the two has moved on, and the other has not gone back.
    have hl₁ := hl.start_le
    have hr₁ := hr.stop_le
    rcases Bool.or_eq_true_iff.1 h with h | h
    · have := hl.advanced h
      omega
    · have := hr.advanced h
      omega
  spread := hl.spread.append hr.spread hl.start_le hl.sound.stop_le_start hr.stop_le
  formed := by
    intro n hn
    rcases List.mem_append.1 hn with h | h
    · exact hl.formed n h
    · exact hr.formed n h
  kinds := by
    intro n hn
    rcases List.mem_append.1 hn with h | h
    · exact hl.kinds n h
    · exact hr.kinds n h

/-- Gathered nodes are gathered under every weaker property. -/
theorem imp (h : Gathered words p s b left s₁) (hpq : ∀ n ∈ left, p n → q n) :
    Gathered words q s b left s₁ :=
  ⟨h.sound, h.start_le, h.stop_le, h.advanced, h.spread, h.formed,
    fun n hn => hpq n hn (h.kinds n hn)⟩

/-- What took some tokens may be said to have taken any number. -/
theorem weaken (h : Gathered words p s b left s₁) : Gathered words p s false left s₁ :=
  ⟨h.sound, h.start_le, h.stop_le, by simp, h.spread, h.formed, h.kinds⟩

/-- Nodes that are not used can be left out. -/
theorem forget (h : Gathered words p s b left s₁) : Gathered words q s b [] s₁ :=
  ⟨h.sound, h.start_le, h.stop_le, h.advanced, .nil, by simp, by simp⟩

/-- Nodes can be given a role. -/
theorem as (h : Gathered words p s b left s₁) (role : Role) (hq : ∀ n ∈ left, p n → q (n.as role)) :
    Gathered words q s b (left.map (·.as role)) s₁ where
  sound := h.sound
  start_le := h.start_le
  stop_le := h.stop_le
  advanced := h.advanced
  spread := h.spread.map_as role
  formed := by
    intro n hn
    obtain ⟨m, hm, rfl⟩ := List.mem_map.1 hn
    exact (h.formed m hm).as role
  kinds := by
    intro n hn
    obtain ⟨m, hm, rfl⟩ := List.mem_map.1 hn
    exact hq m hm (h.kinds m hm)

/-- The first node can be given a role. -/
theorem asFirst {first : Node} {rest : List Node} (h : Gathered words p s b (first :: rest) s₁)
    (role : Role) (hq : p (first.as role)) : Gathered words p s b (first.as role :: rest) s₁ where
  sound := h.sound
  start_le := h.start_le
  stop_le := h.stop_le
  advanced := h.advanced
  spread := by
    have hwithin := List.forall_mem_cons.1 h.spread.within
    have hordered := List.pairwise_cons.1 h.spread.ordered
    exact ⟨List.forall_mem_cons.2 hwithin, List.pairwise_cons.2 hordered⟩
  formed := by
    have hformed := List.forall_mem_cons.1 h.formed
    exact List.forall_mem_cons.2 ⟨hformed.1.as role, hformed.2⟩
  kinds := List.forall_mem_cons.2 ⟨hq, (List.forall_mem_cons.1 h.kinds).2⟩

/-- A formed node inside the range of what has been gathered stands for all of it. -/
theorem replace (h : Gathered words p s b left s₁) {n : Node} (hn : n.Formed words)
    (hstart : s.start ≤ n.start) (hstop : n.stop ≤ s₁.stop) (hq : q n) :
    Gathered words q s true [n] s₁ where
  sound := h.sound
  start_le := h.start_le
  stop_le := h.stop_le
  advanced := fun _ => by
    have := hn.regular.nonempty
    omega
  spread := .single hstart hstop
  formed := by simpa using hn
  kinds := by simpa using hq

/-- One node over all that has been gathered. -/
theorem node (h : Gathered words p s true left s₁) {kind : Kind}
    (hparts : ∀ c ∈ left, c.Part kind) (hfirst : ∀ c ∈ left.tail, c.leads = false)
    (hloose : kind.isLoose = true) (hq : q ⟨kind, .plain, s.start, s₁.stop, left⟩) :
    Gathered words q s true [⟨kind, .plain, s.start, s₁.stop, left⟩] s₁ := by
  obtain ⟨hsolid, hname, hopener⟩ := Kind.isLoose_iff.1 hloose
  refine h.replace (.intro ⟨h.advanced rfl, h.spread, hparts, hfirst, ?_, ?_, ?_⟩ ?_ h.formed)
    (Nat.le_refl _) (Nat.le_refl _) hq
  · simp [hname]
  · simp [hname]
  · simp [hopener]
  · simp [hsolid]

/-- One node over all that has been gathered, from its first node on. -/
theorem nodeFrom {first : Node} {rest : List Node}
    (h : Gathered words p s b (first :: rest) s₁) {kind : Kind} {stop : Nat}
    (hstop : ∀ c ∈ first :: rest, c.stop ≤ stop) (hle : stop ≤ s₁.stop)
    (hparts : ∀ c ∈ first :: rest, c.Part kind) (hfirst : ∀ c ∈ rest, c.leads = false)
    (hopens : kind.opensWith first.role = true)
    (hq : q ⟨kind, .plain, first.start, stop, first :: rest⟩) :
    Gathered words q s true [⟨kind, .plain, first.start, stop, first :: rest⟩] s₁ := by
  obtain ⟨hsolid, hname, hopener⟩ := Kind.opensWith_iff.1 hopens
  have hne := (h.formed first (by simp)).regular.nonempty
  have hlt : first.start < stop := Nat.lt_of_lt_of_le hne (hstop first (by simp))
  have hspread := h.spread.of_first (Nat.le_of_lt hne)
  -- The node may end before the last token that has been taken, but not before its parts.
  have hspread : Spread first.start stop (first :: rest) :=
    ⟨fun c hc => ⟨(hspread.within c hc).1, hstop c hc⟩, hspread.ordered⟩
  refine h.replace (.intro ⟨hlt, hspread, hparts, hfirst, ?_, ?_, ?_⟩ ?_ h.formed)
    (h.spread.within first (by simp)).1 hle hq
  · simp [hname]
  · simp [hname]
  · exact fun role hrole => ⟨first, rfl, (hopener role hrole).symm, rfl⟩
  · simp [hsolid]

/-- What stands below the last node instead of that node. -/
theorem belowLast {before : List Node} {n : Node} (h : Gathered words p s b (before ++ [n]) s₁)
    (hbefore : ∀ c ∈ before, q c) (hq : ∀ c ∈ n.children, q c) :
    Gathered words q s b (before ++ n.children) s₁ where
  sound := h.sound
  start_le := h.start_le
  stop_le := h.stop_le
  advanced := h.advanced
  spread := by
    -- The parts of the last node are inside it, so they stay behind all that is before it.
    have hn := (h.formed n (by simp)).regular.spread
    have hwithin := h.spread.within n (by simp)
    obtain ⟨hordered, -, hbetween⟩ := List.pairwise_append.1 h.spread.ordered
    refine ⟨List.forall_mem_append.2 ⟨?_, ?_⟩, List.pairwise_append.2 ⟨hordered, hn.ordered, ?_⟩⟩
    · exact fun c hc => h.spread.within c (List.mem_append_left [n] hc)
    · exact (hn.mono hwithin.1 hwithin.2).within
    · intro a ha c hc
      exact Nat.le_trans (hbetween a ha n (by simp)) (hn.within c hc).1
  formed := by
    refine List.forall_mem_append.2 ⟨fun c hc => h.formed c (List.mem_append_left [n] hc), ?_⟩
    exact fun c hc => (h.formed n (by simp)).child hc
  kinds := List.forall_mem_append.2 ⟨hbefore, hq⟩

/-- The parts of a gathered node are gathered in its place. -/
theorem below {n : Node} (h : Gathered words p s b [n] s₁) (hq : ∀ c ∈ n.children, q c) :
    Gathered words q s b n.children s₁ := by
  have hlast : Gathered words p s b ([] ++ [n]) s₁ := h
  exact hlast.belowLast (by simp) hq

/-- One node over a first part and all others. -/
theorem headed {kind : Kind} {head rest : List Node}
    (hhead : Gathered words (Node.Part kind) s b head s₁)
    (htail : ∀ c ∈ head.tail, c.leads = false)
    (hrest : Gathered words (Node.Later kind) s₁ true rest s₂)
    (hloose : kind.isLoose = true) (hq : q ⟨kind, .plain, s.start, s₂.stop, head ++ rest⟩) :
    Gathered words q s true [⟨kind, .plain, s.start, s₂.stop, head ++ rest⟩] s₂ := by
  have hall := hhead.trans (hrest.imp fun _ _ hc => hc.toPart)
  rw [Bool.or_true] at hall
  refine hall.node hall.kinds ?_ hloose hq
  intro c hc
  -- Only the first part may lead.  If the head is empty, the first part is a later one.
  cases head with
  | nil => exact (hrest.kinds c (List.mem_of_mem_tail hc)).leads
  | cons first head =>
    rcases List.mem_append.1 hc with hc | hc
    · exact htail c hc
    · exact (hrest.kinds c hc).leads

end Gathered

end FieldAudit.Go
