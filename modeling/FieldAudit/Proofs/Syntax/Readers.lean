import FieldAudit.Proofs.Syntax.Formed

/-! # What readers give

A reader `Gives` nodes of a certain kind if all it can read from a sound stream is gathered in
order.  A `view` tells which nodes there are in a value of the reader, since readers give tokens,
nodes, lists and options.  A rule reads one thing after the other and puts them together at its end:
it `Adds` to the nodes that have been read before.  There is a lemma for each combinator, so that
what a rule gives is proved step by step in the order of the rule. -/

namespace FieldAudit.Go.Reader

variable {words : Nat → Nat → Prop} {p q : Node → Prop} {α β : Type} {view : α → List Node}
  {b c : Bool} {s s' s₁ s₂ : Stream}

/-! ## Runs of readers -/

/-- A sequence succeeds exactly if both parts do. -/
theorem bind_eq_some {x : Reader α} {f : α → Reader β} {r : β × Stream} :
    (x >>= f) s = some r ↔ ∃ a s₁, x s = some (a, s₁) ∧ f a s₁ = some r := by
  have h : (x >>= f) s = (x s).bind fun y => f y.1 y.2 := rfl
  rw [h, Option.bind_eq_some_iff]
  simp

/-- A reader of nothing succeeds with its value. -/
theorem pure_eq_some {a : α} {r : α × Stream} : (pure a : Reader α) s = some r ↔ (a, s) = r :=
  Option.some_inj

/-- A mapped reader succeeds exactly if the reader does. -/
theorem map_eq_some {f : α → β} {x : Reader α} {r : β × Stream} :
    (f <$> x) s = some r ↔ ∃ a s₁, x s = some (a, s₁) ∧ (f a, s₁) = r := by
  have h : (f <$> x) s = (x s).bind fun y => some (f y.1, y.2) := rfl
  rw [h, Option.bind_eq_some_iff]
  simp

/-- An alternative succeeds by one of its sides. -/
theorem orElse_eq_some {x y : Reader α} {r : α × Stream} (h : (x <|> y) s = some r) :
    x s = some r ∨ y s = some r := by
  have he : (x <|> y) s = (x s).or (y s) := by
    have h' : (x <|> y) s = (x s <|> y s) := rfl
    rw [h']
    cases x s <;> rfl
  rw [he] at h
  cases hx : x s with
  | none => rw [hx] at h; exact .inr h
  | some a => rw [hx] at h; exact .inl h

/-- Looking at the stream changes nothing. -/
theorem get_eq_some {r : Stream × Stream} : (get : Reader Stream) s = some r ↔ (s, s) = r :=
  Option.some_inj

/-! ## Readers one after the other -/

/-- All that a reader can read from a sound stream is gathered in order. -/
def Gives (words : Nat → Nat → Prop) (reader : Reader α) (view : α → List Node) (p : Node → Prop)
    (taken : Bool) : Prop :=
  ∀ ⦃s : Stream⦄ ⦃a : α⦄ ⦃s' : Stream⦄, s.Sound words → reader s = some (a, s') →
    Gathered words p s taken (view a) s'

/-- After some nodes have been gathered, the value of a reader has these nodes and those that the
reader takes, in order. -/
def Adds (words : Nat → Nat → Prop) (p : Node → Prop) (before : List Node) (b : Bool)
    (reader : Reader α) (view : α → List Node) (q : Node → Prop) (taken : Bool) : Prop :=
  ∀ ⦃s₀ s : Stream⦄ ⦃a : α⦄ ⦃s' : Stream⦄, Gathered words p s₀ b before s →
    reader s = some (a, s') → Gathered words q s₀ taken (view a) s'

namespace Adds

variable {before : List Node} {reader other : Reader α} {taken : Bool}

/-- What adds to nothing gives. -/
theorem gives (h : reader.Adds words p [] false view p taken) : reader.Gives words view p taken :=
  fun _ _ _ hs hr => h (.refl hs) hr

/-- Fewer nodes may have been read before. -/
theorem weaken {p' : Node → Prop} (h : reader.Adds words p before b view q taken)
    (hp : ∀ n, p' n → p n) : reader.Adds words p' before b view q taken := by
  intro s₀ s a s' hbefore hr
  exact h (hbefore.imp fun n _ => hp n) hr

/-- A reader whose nodes are kept, and what follows it. -/
theorem bind {first : Reader β} {next : β → Reader α} {nodes : β → List Node}
    (hfirst : first.Gives words nodes p c)
    (hnext : ∀ x, (next x).Adds words p (before ++ nodes x) (b || c) view q taken) :
    (first >>= next).Adds words p before b view q taken := by
  intro s₀ s a s' hbefore hr
  obtain ⟨x, s₁, hx, hr⟩ := bind_eq_some.1 hr
  exact hnext x (hbefore.trans (hfirst hbefore.sound hx)) hr

/-- A reader of a list of nodes, and what follows it. -/
theorem bindNodes {first : Reader (List Node)} {next : List Node → Reader α}
    (hfirst : first.Gives words id p true)
    (hnext : ∀ nodes, (next nodes).Adds words p (before ++ nodes) (b || true) view q taken) :
    (first >>= next).Adds words p before b view q taken :=
  .bind hfirst hnext

/-- A reader whose nodes do not count, and what follows it. -/
theorem skip {first : Reader β} {next : β → Reader α}
    (hfirst : first.Gives words (fun _ => []) p c)
    (hnext : ∀ x, (next x).Adds words p before (b || c) view q taken) :
    (first >>= next).Adds words p before b view q taken := by
  refine .bind hfirst fun x => ?_
  rw [List.append_nil]
  exact hnext x

/-- What follows a test of the next token. -/
theorem pass {first : Reader β} {next : β → Reader α}
    (hfirst : first.Gives words (fun _ => []) p false)
    (hnext : ∀ x, (next x).Adds words p before b view q taken) :
    (first >>= next).Adds words p before b view q taken := by
  refine .skip hfirst fun x => ?_
  rw [Bool.or_false]
  exact hnext x

/-- The last reader of a rule. -/
theorem last {nodes : α → List Node} (h : reader.Gives words nodes p c)
    (hview : ∀ a, before ++ nodes a = view a) : reader.Adds words p before b view p (b || c) := by
  intro s₀ s a s' hbefore hr
  rw [← hview a]
  exact hbefore.trans (h hbefore.sound hr)

/-- The end of a rule. -/
theorem pure {a : α} (ha : before = view a) :
    (pure a : Reader α).Adds words p before b view p b := by
  intro s₀ s a' s' hbefore hr
  cases pure_eq_some.1 hr
  rw [← ha]
  exact hbefore

/-- A reader that fails adds whatever it is said to. -/
theorem failure : (failure : Reader α).Adds words p before b view q taken := by
  intro s₀ s a s' hbefore hr
  cases hr

/-- Either of two readers adds what both do. -/
theorem orElse (h : reader.Adds words p before b view q taken)
    (ho : other.Adds words p before b view q taken) :
    (reader <|> other).Adds words p before b view q taken := by
  intro s₀ s a s' hbefore hr
  rcases orElse_eq_some hr with hr | hr
  · exact h hbefore hr
  · exact ho hbefore hr

/-- A node that has been read is given a role. -/
theorem of_role {first : Node} {rest : List Node} (role : Role) (hp : p first → p (first.as role))
    (h : reader.Adds words p (first.as role :: rest) b view q taken) :
    reader.Adds words p (first :: rest) b view q taken := by
  intro s₀ s a s' hbefore hr
  exact h (hbefore.asFirst role (hp (hbefore.kinds first (by simp)))) hr

/-- A first part may be given a free role before more is added to it. -/
theorem of_as {first : Node} {rest : List Node} (role : Role) (hrole : role.isFree = true)
    (h : reader.Adds words Node.Ordinary (first.as role :: rest) b view q taken) :
    reader.Adds words Node.Ordinary (first :: rest) b view q taken :=
  .of_role role (fun hn => hn.as role hrole) h

/-- A node that is extended as long as that is possible. -/
theorem extend {reader : Node → Reader Node}
    (h : ∀ n, (reader n).Adds words p [n] true (fun m => [m]) p true) (n : Node) :
    (extend reader n).Adds words p [n] true (fun m => [m]) p true := by
  intro s₀ s m s' hbefore hr
  have hall : Gathered words p s₀ true [(extendFrom reader n s).1] (extendFrom reader n s).2 := by
    clear hr
    fun_induction extendFrom reader n s with
    | case1 n s hr => exact hbefore
    | case2 n s m s₁ hr hlt ih => exact ih (h n hbefore hr)
    -- An extension that takes no token is not made.
    | case3 n s m s₁ hr hlt => exact hbefore
  rwa [Option.some.inj hr] at hall

end Adds

namespace Gives

variable {reader other : Reader α}

/-- What a reader gives it gives under every weaker property. -/
theorem imp (h : reader.Gives words view p b) (hpq : ∀ n, p n → q n) :
    reader.Gives words view q b :=
  fun _ _ _ hs hr => (h hs hr).imp fun n _ => hpq n

/-- A reader gives what it is seen to give. -/
theorem congr {view' : α → List Node} (h : reader.Gives words view p b)
    (hv : ∀ a, view a = view' a) : reader.Gives words view' p b := by
  intro s a s' hs hr
  rw [← hv a]
  exact h hs hr

/-- What a reader gives may be left out of sight. -/
theorem forget (h : reader.Gives words view p b) : reader.Gives words (fun _ => []) q b :=
  fun _ _ _ hs hr => (h hs hr).forget

/-- A reader that takes some tokens may be said to take any number. -/
theorem weaken (h : reader.Gives words view p b) : reader.Gives words view p false :=
  fun _ _ _ hs hr => (h hs hr).weaken

/-- A reader whose nodes are given a role. -/
theorem inRole (h : reader.Gives words view p b) (role : Role) (hq : ∀ n, p n → q (n.as role)) :
    reader.Gives words (fun a => (view a).map (·.as role)) q b :=
  fun _ _ _ hs hr => (h hs hr).as role fun n _ => hq n

/-- What a reader gives may be given a free role. -/
theorem as (h : reader.Gives words view Node.Ordinary b) (role : Role)
    (hrole : role.isFree = true) :
    reader.Gives words (fun a => (view a).map (·.as role)) Node.Ordinary b :=
  h.inRole role fun _ hn => hn.as role hrole

/-- A reader that fails gives whatever it is said to. -/
theorem failure : (failure : Reader α).Gives words view p b := by
  intro s a s' hs hr
  cases hr

/-- A reader of nothing gives nothing. -/
theorem pure {a : α} (ha : [] = view a) : (pure a : Reader α).Gives words view p false :=
  (Adds.pure ha).gives

/-- Either of two readers gives what both do. -/
theorem orElse (h : reader.Gives words view p b) (ho : other.Gives words view p b) :
    (reader <|> other).Gives words view p b := by
  intro s a s' hs hr
  rcases orElse_eq_some hr with hr | hr
  · exact h hs hr
  · exact ho hs hr

/-- A reader after a test of the next token. -/
theorem after {first : Reader β} {next : β → Reader α}
    (hfirst : first.Gives words (fun _ => []) p false)
    (hnext : ∀ x, (next x).Gives words view p b) : (first >>= next).Gives words view p b := by
  refine Adds.gives (.pass hfirst fun x => ?_)
  show (next x).Adds words p [] false view p (false || b)
  exact .last (hnext x) fun _ => List.nil_append _

/-- A reader after one whose nodes do not count. -/
theorem seqRight {first : Reader β} (hfirst : first.Gives words (fun _ => []) p c)
    (hnext : reader.Gives words view p true) : (first *> reader).Gives words view p true := by
  intro s a s' hs hr
  obtain ⟨x, s₁, hx, hr⟩ := bind_eq_some.1 (show (first >>= fun _ => reader) s = _ from hr)
  have hfirst := hfirst hs hx
  have h := hfirst.trans (hnext hfirst.sound hr)
  rwa [List.nil_append, Bool.or_true] at h

/-- A reader before one whose nodes do not count. -/
theorem seqLeft {last : Reader β} (hreader : reader.Gives words view p true)
    (hlast : last.Gives words (fun _ => []) p c) : (reader <* last).Gives words view p true := by
  intro s a s' hs hr
  obtain ⟨x, s₁, hx, hr⟩ := bind_eq_some.1
    (show (reader >>= fun x => last >>= fun _ => Pure.pure x) s = _ from hr)
  obtain ⟨y, s₂, hy, hr⟩ := bind_eq_some.1 hr
  cases pure_eq_some.1 hr
  have hreader := hreader hs hx
  have h := hreader.trans (hlast hreader.sound hy)
  rwa [List.append_nil, Bool.true_or] at h

/-! ## Readers that may fail or go on -/

/-- An optional part gives what the part does, or nothing. -/
theorem maybe (h : reader.Gives words view p b) :
    reader.maybe.Gives words (fun o => o.toList.flatMap view) p false := by
  intro s o s' hs hr
  rcases orElse_eq_some hr with hr | hr
  · obtain ⟨a, s₁, ha, hr⟩ := map_eq_some.1 hr
    cases hr
    simpa using (h hs ha).weaken
  · cases pure_eq_some.1 hr
    exact .refl hs

/-- A reader without nodes, if it succeeds. -/
theorem maybe_skip (h : reader.Gives words (fun _ => []) p b) :
    reader.maybe.Gives words (fun _ => []) p false := by
  refine h.maybe.congr fun o => ?_
  cases o <;> rfl

/-- Optional nodes give what the nodes do, or nothing. -/
theorem maybeNodes {reader : Reader (List Node)} (h : reader.Gives words id p true) :
    reader.maybeNodes.Gives words id p false := by
  intro s nodes s' hs hr
  rcases orElse_eq_some hr with hr | hr
  · exact (h hs hr).weaken
  · cases pure_eq_some.1 hr
    exact .refl hs

/-- Repeating a reader gathers what each round gives. -/
theorem manyFrom (h : reader.Gives words view p b) {s : Stream} (hs : s.Sound words) :
    Gathered words p s false ((manyFrom reader s).1.flatMap view) (manyFrom reader s).2 := by
  fun_induction Reader.manyFrom reader s with
  | case1 s hr => exact .refl hs
  | case2 s a s₁ hr hlt as s₂ hmany ih =>
    have hfirst := h hs hr
    have hrest := ih hfirst.sound
    rw [hmany] at hrest
    exact (hfirst.trans hrest).weaken
  -- What takes no token is not repeated, and what it read is left out.
  | case3 s a s₁ hr hlt => exact .refl hs

/-- A repeated reader gives what each round does. -/
theorem many (h : reader.Gives words view p b) :
    reader.many.Gives words (fun as => as.flatMap view) p false := by
  intro s as s' hs hr
  have hm := h.manyFrom hs
  rwa [Option.some.inj hr] at hm

end Gives

/-! ## Tokens -/

/-- A token that is taken is the first, and the stream goes on behind it. -/
theorem take_eq_some {f : Token → Bool} {t : Token} (h : take f s = some (t, s')) :
    f t = true ∧ s = ⟨t :: s'.tokens, s.stop⟩ ∧ s'.stop = t.stop := by
  obtain ⟨tokens, stop⟩ := s
  unfold take at h
  split at h
  next => cases h
  next u rest htokens =>
    split at h
    next hf =>
      cases h
      simp only at htokens
      exact ⟨hf, by rw [htokens], rfl⟩
    next => cases h

/-- A leaf is gathered, if its range is from the next token to the end of what is taken. -/
theorem gathered_leaf {kind : Kind} {t : Token} (hopener : kind.opener? = none)
    (hp : p (leaf kind t)) (hsound : s'.Sound words) (hle : s.stop ≤ s.start)
    (hstart : s.start = t.start) (hstop : s'.stop = t.stop) (hne : t.start < t.stop)
    (hword : kind.isName = true → words t.start t.stop) :
    Gathered words p s true [leaf kind t] s' := by
  have hnext := hsound.stop_le_start
  have hleaf : (leaf kind t).Formed words :=
    .intro ⟨hne, .nil, by simp [leaf], by simp [leaf], hword, fun _ => rfl, by simp [leaf, hopener]⟩
      (fun _ => rfl) (by simp [leaf])
  refine ⟨hsound, by omega, by omega, fun _ => by omega, ?_, by simpa using hleaf,
    by simpa using hp⟩
  exact .single (Nat.le_of_eq hstart) (Nat.le_of_eq hstop.symm)

/-- A token is gathered as a leaf. -/
theorem gives_take_leaf {f : Token → Bool} {kind : Kind} (hopener : kind.opener? = none)
    (hp : ∀ t, p (leaf kind t)) (hf : kind.isName = true → ∀ t, f t = true → t.kind = .word) :
    (take f).Gives words (fun t => [leaf kind t]) p true := by
  intro s t s' hs h
  obtain ⟨hft, hstream, hstop⟩ := take_eq_some h
  rw [hstream] at hs ⊢
  obtain ⟨hle, ⟨hne, -, hword⟩, hrest⟩ := hs
  have hsound : s'.Sound words := by
    rw [Stream.Sound, hstop]
    exact hrest
  exact gathered_leaf hopener (hp t) hsound hle rfl hstop hne fun hn => hword (hf hn t hft)

/-- Punctuation is a mark, as long as it plays no role. -/
theorem mark_leaf (t : Token) : (leaf .punctuation t).Mark :=
  ⟨rfl, rfl⟩

/-- A token is gathered as punctuation. -/
theorem gives_mark {f : Token → Bool} :
    (take f).Gives words (fun t => [leaf .punctuation t]) Node.Mark true :=
  gives_take_leaf rfl mark_leaf (by simp [Kind.isName])

/-- A token that leaves no node. -/
theorem gives_take {f : Token → Bool} : (take f).Gives words (fun _ => []) p true :=
  gives_mark.forget

/-- A token is gathered as a leaf that may stand anywhere. -/
theorem gives_leaf {f : Token → Bool} {kind : Kind} (hk : kind.isLeaf = true)
    (hf : kind.isName = true → ∀ t, f t = true → t.kind = .word) :
    (leaf kind <$> take f).Gives words (fun n => [n]) Node.Ordinary true := by
  intro s n s' hs h
  obtain ⟨t, s₁, ht, h⟩ := map_eq_some.1 h
  cases h
  obtain ⟨hk, hopener⟩ := Kind.isLeaf_iff.1 hk
  exact gives_take_leaf hopener (fun _ => ⟨hk, by simp [leaf], by simp [leaf]⟩) hf hs ht

/-- A name is a node without parts. -/
theorem gives_name {kind : Kind} (hk : kind.isLeaf = true) :
    (name kind).Gives words (fun n => [n]) Node.Ordinary true :=
  gives_leaf hk fun _ t ht => by simpa using ht

/-- The name of a field may be given its role. -/
theorem gives_field :
    (name .fieldIdentifier).Gives words (fun n => [n.as .field]) Node.Ordinary true := by
  intro s n s' hs h
  obtain ⟨t, s₁, -, hn⟩ := map_eq_some.1 h
  cases hn
  refine (gives_name rfl hs h).as .field fun _ hm _ => ?_
  cases List.mem_singleton.1 hm
  exact ⟨rfl, by simp [Node.as], fun _ => rfl⟩

/-- A text that is cut behind a front of it: neither part is empty, and they share its bytes. -/
theorem utf8ByteSize_cut {front text : String} (hne : front ≠ "")
    (hfront : front.toList.isPrefixOf text.toList = true) (hshort : front.length < text.length) :
    0 < front.utf8ByteSize
      ∧ 0 < (String.ofList (text.toList.drop front.length)).utf8ByteSize
      ∧ text.utf8ByteSize
        = front.utf8ByteSize + (String.ofList (text.toList.drop front.length)).utf8ByteSize := by
  obtain ⟨tail, htail⟩ := List.isPrefixOf_iff_prefix.1 hfront
  have hdrop : text.toList.drop front.length = tail := by
    rw [← htail, ← String.length_toList, List.drop_left]
  have hcut : text = front ++ String.ofList tail := by
    rw [← String.toList_inj, String.toList_append, String.toList_ofList, htail]
  rw [hdrop]
  refine ⟨?_, ?_, ?_⟩
  · rw [Nat.pos_iff_ne_zero]
    intro hzero
    exact hne (String.utf8ByteSize_eq_zero_iff.1 hzero)
  · rw [Nat.pos_iff_ne_zero]
    intro hzero
    rw [hcut, String.utf8ByteSize_eq_zero_iff.1 hzero] at hshort
    simp at hshort
  · rw [hcut, String.utf8ByteSize_append]

/-- The front of a symbol is gathered as a leaf, and the rest of the symbol stays. -/
theorem gives_split {texts : List String} (hne : ∀ text ∈ texts, text ≠ "") :
    (split texts).Gives words (fun t => [leaf .punctuation t]) Node.Mark true := by
  intro s u s' hs h
  obtain ⟨tokens, pos⟩ := s
  unfold split at h
  split at h
  next => cases h
  next t rest htokens =>
    simp only at htokens
    subst htokens
    obtain ⟨hle, ⟨-, hsize, -⟩, hrest⟩ := hs
    split at h
    next => cases h
    next =>
      obtain ⟨text, htext, h⟩ := Option.bind_eq_some_iff.1 h
      cases h
      have hfront := List.find?_some htext
      simp only [Bool.and_eq_true, decide_eq_true_eq] at hfront
      obtain ⟨hfrontPos, htailPos, htotal⟩ :=
        utf8ByteSize_cut (hne text (List.mem_of_find?_eq_some htext)) hfront.1 hfront.2
      -- The rest of the symbol starts where its front ends, and has its old end.
      have hsound : SoundFrom words (t.start + text.utf8ByteSize)
          (⟨.symbol, String.ofList (t.text.toList.drop text.length), t.start + text.utf8ByteSize,
            t.stop, false⟩ :: rest) := by
        refine ⟨Nat.le_refl _, ⟨?_, ?_, by simp⟩, hrest⟩ <;> simp only <;> omega
      exact gathered_leaf rfl (mark_leaf _) hsound hle rfl rfl (Nat.lt_add_of_pos_right hfrontPos)
        (by simp [Kind.isName])

/-- Looking at the next token gives nothing. -/
theorem gives_peek? : peek?.Gives words (fun _ => []) p false := by
  intro s t s' hs h
  cases h
  exact .refl hs

/-- Passing a token gives nothing. -/
theorem gives_next {f : Token → Bool} : (next f).Gives words (fun _ => []) p false :=
  gives_peek?.after fun _ => .pure rfl

/-- A check leaves the stream, and is about its first token. -/
theorem check_eq_some {f : Token → Bool} {u : Unit} (h : check f s = some (u, s')) :
    s' = s ∧ ∃ t, s.tokens.head? = some t ∧ f t = true := by
  obtain ⟨found, s₁, hfound, h⟩ := bind_eq_some.1 h
  cases hfound
  split at h
  next hany =>
    cases h
    obtain ⟨hsome, hf⟩ := (Option.any_eq_true_iff_get f _).1 hany
    exact ⟨rfl, _, (Option.some_get hsome).symm, hf⟩
  next => cases h

/-- A check gives nothing. -/
theorem gives_check {f : Token → Bool} : (check f).Gives words (fun _ => []) p false := by
  refine gives_next.after fun x => ?_
  split
  · exact .pure rfl
  · exact .failure

/-- The end of a statement gives nothing. -/
theorem gives_terminator : terminator.Gives words (fun _ => []) p false := by
  refine gives_peek?.after fun x => ?_
  split
  · exact .pure rfl
  · split
    · exact .pure rfl
    · exact (Gives.orElse gives_take gives_take).weaken.after fun _ => .pure rfl

/-! ## Lists -/

/-- A list with commas gives what its members do. -/
theorem Gives.commaList {reader : Reader Node} (h : reader.Gives words (fun n => [n]) p true)
    (lineEnds : Bool) : (commaList lineEnds reader).Gives words id p true := by
  refine Adds.gives (.bind h fun a => .bind (gives_take.seqRight h).many fun rest => ?_)
  exact .pure (by simp)

/-- A list in brackets gives what its members do. -/
theorem Gives.bracketed {reader : Reader Node} (h : reader.Gives words (fun n => [n]) p true)
    (opening closing : String) : (bracketed opening closing reader).Gives words id p true := by
  refine Adds.gives (.skip gives_take fun _ => ?_)
  refine .bind ((h.commaList false).seqLeft gives_take.maybe_skip).maybe fun items => ?_
  refine .skip gives_take fun _ => .pure ?_
  cases items <;> simp

/-- A list in brackets that is not empty gives what its members do. -/
theorem Gives.bracketedSome {reader : Reader Node} (h : reader.Gives words (fun n => [n]) p true)
    (opening closing : String) : (bracketedSome opening closing reader).Gives words id p true := by
  refine Adds.gives (.bind (h.bracketed opening closing) fun items => ?_)
  split
  · exact .failure
  · exact .pure rfl

/-! ## Nodes over what is read -/

/-- A spanning node starts where its first token does and ends with its last. -/
theorem spanning_eq_some {kind : Kind} {reader : Reader (List Node)} {n : Node}
    (h : spanning kind reader s = some (n, s')) :
    ∃ children, reader s = some (children, s')
      ∧ n = ⟨kind, .plain, s.start, s'.stop, children⟩ := by
  simp only [spanning, bind_eq_some] at h
  obtain ⟨t, s₁, ht, h⟩ := h
  cases ht
  obtain ⟨tokens, pos⟩ := s
  cases tokens with
  | nil => cases h
  | cons t rest =>
    simp only [List.head?_cons, bind_eq_some, pure_eq_some, get_eq_some] at h
    obtain ⟨children, s₁, hr, s₂, s₃, hs, h⟩ := h
    cases hs
    cases h
    exact ⟨children, hr, rfl⟩

/-- A continuing node starts where its first part does and ends with its last token. -/
theorem continuing_eq_some {kind : Kind} {first : Node} {reader : Reader (List Node)} {n : Node}
    (h : continuing kind first reader s = some (n, s')) :
    ∃ children, reader s = some (children, s')
      ∧ n = ⟨kind, .plain, first.start, s'.stop, first :: children⟩ := by
  simp only [continuing, bind_eq_some, pure_eq_some, get_eq_some] at h
  obtain ⟨children, s₁, hr, s₂, s₃, hs, h⟩ := h
  cases hs
  cases h
  exact ⟨children, hr, rfl⟩

/-- A node over parts that may all stand below it, and none of them first only. -/
theorem Gives.spanning {kind : Kind} {reader : Reader (List Node)}
    (h : reader.Adds words p [] false id p true)
    (hp : ∀ c, p c → c.Later kind) (hloose : kind.isLoose = true)
    (hq : ∀ start stop children, (∀ c ∈ children, p c) → q ⟨kind, .plain, start, stop, children⟩) :
    (spanning kind reader).Gives words (fun n => [n]) q true := by
  intro s n s' hs hr
  obtain ⟨children, hchildren, rfl⟩ := spanning_eq_some hr
  have hall := h (.refl hs) hchildren
  exact hall.node (fun c hc => (hp c (hall.kinds c hc)).toPart)
    (fun c hc => (hp c (hall.kinds c (List.mem_of_mem_tail hc))).leads) hloose
    (hq _ _ _ hall.kinds)

/-- A node over ordinary parts. -/
theorem Gives.plain {kind : Kind} {reader : Reader (List Node)} (hloose : kind.isLoose = true)
    (h : reader.Adds words Node.Ordinary [] false id Node.Ordinary true) :
    (Reader.spanning kind reader).Gives words (fun n => [n]) (Node.Plain kind) true :=
  .spanning h (fun _ hc => hc.later) hloose fun _ _ _ _ => ⟨rfl, rfl⟩

/-- An ordinary node over ordinary parts. -/
theorem Gives.ordinary {kind : Kind} {reader : Reader (List Node)} (hk : kind.isCompound = true)
    (h : reader.Adds words Node.Ordinary [] false id Node.Ordinary true) :
    (Reader.spanning kind reader).Gives words (fun n => [n]) Node.Ordinary true := by
  obtain ⟨hk, hloose⟩ := Kind.isCompound_iff.1 hk
  exact (Gives.plain hloose h).imp fun _ hn => hn.ordinary hk

/-- An ordinary node over statements. -/
theorem Gives.sequence {kind : Kind} {reader : Reader (List Node)}
    (hs : (kind.isSequence || kind = .labeledStatement) = true) (hk : kind.isCompound = true)
    (h : reader.Adds words Node.Statement [] false id Node.Statement true) :
    (Reader.spanning kind reader).Gives words (fun n => [n]) Node.Ordinary true := by
  obtain ⟨hk, hloose⟩ := Kind.isCompound_iff.1 hk
  refine .spanning h (fun _ hc => hc.later hs) hloose fun _ _ _ _ => ?_
  exact Node.Plain.ordinary ⟨rfl, rfl⟩ hk

/-- A node that goes on from one that has been read, over parts that may all stand below it. -/
theorem Adds.over {kind : Kind} {reader : Reader (List Node)} {first : Node} {before : List Node}
    (h : reader.Adds words p before b (fun children => first :: children) p true)
    (hp : ∀ c, p c → c.Later kind) (hopens : kind.opensWith first.role = true)
    (hq : ∀ start stop children, (∀ c ∈ children, p c) → q ⟨kind, .plain, start, stop, children⟩) :
    (continuing kind first reader).Adds words p before b (fun n => [n]) q true := by
  intro s₀ s n s' hbefore hr
  obtain ⟨children, hchildren, rfl⟩ := continuing_eq_some hr
  have hall := h hbefore hchildren
  exact hall.nodeFrom (fun c hc => (hall.spread.within c hc).2) (Nat.le_refl _)
    (fun c hc => (hp c (hall.kinds c hc)).toPart)
    (fun c hc => (hp c (hall.kinds c (List.mem_cons_of_mem first hc))).leads) hopens
    (hq _ _ _ hall.kinds)

/-- An ordinary node that goes on from one that has been read. -/
theorem Adds.continuing {kind : Kind} {reader : Reader (List Node)} {first : Node}
    {before : List Node} (hk : kind.isOrdinary = true) (hopens : kind.opensWith first.role = true)
    (h : reader.Adds words Node.Ordinary before b (fun children => first :: children)
      Node.Ordinary true) :
    (Reader.continuing kind first reader).Adds words Node.Ordinary before b (fun n => [n])
      Node.Ordinary true := by
  refine .over h (fun _ hc => hc.later) hopens fun _ _ _ _ => ?_
  exact Node.Plain.ordinary ⟨rfl, rfl⟩ hk

/-- A node that goes on from one that has been read up to a last one, which is no part of it. -/
theorem Adds.closed {kind : Kind} (first : Node) (rest : List Node) (last : Node)
    (hk : kind.isOrdinary = true) (hopens : kind.opensWith first.role = true) :
    (Pure.pure ⟨kind, .plain, first.start, last.stop, first :: rest⟩ : Reader Node).Adds words
      Node.Free (first :: (rest ++ [last])) b (fun n => [n]) Node.Ordinary true := by
  intro s₀ s n s' hbefore hr
  cases pure_eq_some.1 hr
  have hordered := hbefore.spread.ordered
  rw [← List.cons_append, List.pairwise_append] at hordered
  obtain ⟨hparts, -, hbetween⟩ := hordered
  have hlast := hbefore.formed last (by simp)
  have hstop : ∀ c ∈ first :: rest, c.stop ≤ last.stop := by
    intro c hc
    have h₁ := hbetween c hc last (by simp)
    have h₂ := hlast.regular.nonempty
    omega
  -- Nothing but the last node is left out, and the stream stays where it is.
  have hall : Gathered words Node.Free s₀ b (first :: rest) s :=
    ⟨hbefore.sound, hbefore.start_le, hbefore.stop_le, hbefore.advanced,
      ⟨fun c hc => hbefore.spread.within c (List.mem_append_left [last] hc), hparts⟩,
      fun c hc => hbefore.formed c (List.mem_append_left [last] hc),
      fun c hc => hbefore.kinds c (List.mem_append_left [last] hc)⟩
  have hlater : ∀ c ∈ first :: rest, c.Later kind := fun c hc => (hall.kinds c hc).later
  exact hall.nodeFrom hstop (hbefore.spread.within last (by simp)).2
    (fun c hc => (hlater c hc).toPart)
    (fun c hc => (hlater c (List.mem_cons_of_mem first hc)).leads) hopens
    (Node.Plain.ordinary ⟨rfl, rfl⟩ hk)

end FieldAudit.Go.Reader
