import FieldAudit.Proofs.Reading.Simulation
import Mathlib.Data.List.Basic
import Mathlib.Logic.Relation

/-! # Optional spaces

A space token may be added after a delimiter that opens, before one that closes, on either side of
a mark between words and beside another space.  `AddsSpace` adds one space at one such place.
Token lists that differ by such spaces have the same tree or fail with the same error
(`ofTokens_of_addsSpace`), since one added space is a simulation (`Input.Padded.simulation`). -/

namespace FieldAudit.Template

/-- One list is the other with one space token added between two tokens that need none. -/
inductive AddsSpace : List Token → List Token → Prop
  | between (front back : List Token) (t u space : Token) (hs : space.kind = .space)
      (hp : t.kind.isLooseAfter = true ∨ u.kind.isLooseBefore = true) :
      AddsSpace (front ++ t :: u :: back) (front ++ t :: space :: u :: back)

/-! ## An added space as a simulation -/

/-- The second list has at most one more space, where the first needs none.  At the front it may
stand if the list is loose there. -/
inductive Padded : Bool → List Token → List Token → Prop
  | same (loose : Bool) (tokens : List Token) : Padded loose tokens tokens
  | cons {loose : Bool} (t : Token) {rest rest' : List Token}
      (h : Padded t.kind.isLooseAfter rest rest') : Padded loose (t :: rest) (t :: rest')
  | added {loose : Bool} {space : Token} {rest : List Token} (hs : space.kind = .space)
      (hp : loose = true ∨ ∃ u ∈ rest.head?, u.kind.isLooseBefore = true) :
      Padded loose rest (space :: rest)

/-- The same variables are in scope, and the second input has at most one more space. -/
structure Input.Padded (loose : Bool) (s s' : Input) : Prop where
  scope : s.scope = s'.scope
  tokens : Template.Padded loose s.tokens s'.tokens

namespace Padded

variable {loose : Bool} {tokens tokens' : List Token}

/-- What is padded at a tight place is padded at a loose one. -/
theorem loosen (h : Padded loose tokens tokens') : Padded true tokens tokens' := by
  cases h with
  | same => exact .same true tokens
  | cons t h => exact .cons t h
  | added hs hp => exact .added hs (.inl rfl)

/-- Past the spaces at the front there is no room left for one. -/
theorem dropSpaces (h : Padded loose tokens tokens') (scope : List String) :
    Padded false (Input.mk tokens scope).skipSpace.tokens
      (Input.mk tokens' scope).skipSpace.tokens := by
  induction h with
  | same => exact .same false _
  | @cons _ t rest rest' h ih =>
    by_cases ht : t.kind = .space
    · rw [Input.skipSpace_of_space ht, Input.skipSpace_of_space ht]
      exact ih
    · rw [Input.skipSpace_of_ne ht, Input.skipSpace_of_ne ht]
      exact .cons t h
  | added hs hp =>
    rw [Input.skipSpace_of_space hs]
    exact .same false _

/-- Adding spaces where they are optional is padding. -/
theorem of_addsSpace (h : AddsSpace tokens tokens') : Padded loose tokens tokens' := by
  obtain ⟨front, back, t, u, space, hs, hp⟩ := h
  induction front generalizing loose with
  | nil =>
    refine .cons t (.added hs (hp.imp_right fun hu => ?_))
    exact ⟨u, rfl, hu⟩
  | cons first front ih => exact .cons first ih

end Padded

namespace Input.Padded

variable {loose : Bool} {s s' : Input}

/-- At a tight place both inputs show the same token, or the next word allows a space in front and
skipping spaces makes the inputs equal. -/
theorem front (h : s.Padded false s') :
    (s.peek.kind = s'.peek.kind ∧ (s.peek.kind ≠ .space → s.peek = s'.peek) ∧
      (s.peek.kind ≠ .eof → s.tail.Padded s.peek.kind.isLooseAfter s'.tail)) ∨
    (s.peekWord.kind.isLooseBefore = true ∧ s.skipSpace = s'.skipSpace) := by
  obtain ⟨tokens, scope⟩ := s
  obtain ⟨tokens', scope'⟩ := s'
  obtain ⟨rfl, h⟩ := h
  cases h with
  | same => exact .inl ⟨rfl, fun _ => rfl, fun _ => ⟨rfl, .same _ _⟩⟩
  | cons t h => exact .inl ⟨rfl, fun _ => rfl, fun _ => ⟨rfl, h⟩⟩
  | @added _ space _ hs hp =>
    obtain ⟨u, hu, hloose⟩ := hp.resolve_left (by decide)
    obtain ⟨rest, rfl⟩ := List.head?_eq_some_iff.1 hu
    by_cases hk : u.kind = .space
    · -- Of two spaces in a row, either is the added one.
      refine .inl ⟨?_, fun hne => absurd hk hne, fun _ => ⟨rfl, ?_⟩⟩
      · show u.kind = space.kind
        rw [hk, hs]
      · show Template.Padded u.kind.isLooseAfter rest (u :: rest)
        exact .added hk (.inl (by rw [hk]; rfl))
    · refine .inr ⟨?_, ?_⟩
      · rw [peekWord_of_ne hk]
        exact hloose
      · rw [skipSpace_of_space hs]

/-- Padding is kept by every reader. -/
theorem simulation : Simulation Input.Padded where
  refl loose s := ⟨rfl, .same loose s.tokens⟩
  loosen h := ⟨h.scope, h.tokens.loosen⟩
  scope_eq h := h.scope
  withScope _ h := ⟨rfl, h.tokens⟩
  skipSpace {_ s s'} h := by
    obtain ⟨tokens, scope⟩ := s
    obtain ⟨tokens', scope'⟩ := s'
    obtain ⟨rfl, h⟩ := h
    exact ⟨rfl, h.dropSpaces scope⟩
  front := front

end Input.Padded

/-! ## Templates with added spaces -/

/-- The first token is the same with spaces added. -/
theorem AddsSpace.peek_eq {tokens tokens' : List Token} (h : AddsSpace tokens tokens')
    (scope : List String) : (Input.mk tokens scope).peek = (Input.mk tokens' scope).peek := by
  obtain ⟨front, back, t, u, space, hs, hp⟩ := h
  cases front with
  | nil => rfl
  | cons first front => rfl

/-- Spaces that are optional have no part in the tree. -/
theorem AddsSpace.ofTokens_eq {tokens tokens' : List Token} (h : AddsSpace tokens tokens') :
    Tree.ofTokens tokens = Tree.ofTokens tokens' := by
  have hpadded : Input.Padded false ⟨tokens, initialScope⟩ ⟨tokens', initialScope⟩ :=
    ⟨rfl, .of_addsSpace h⟩
  exact Input.Padded.simulation.ofTokens_eq hpadded (by rw [h.peek_eq])

/-- Spaces that may be added do not change what is read: the tree, with all its positions, or the
error. -/
theorem ofTokens_of_addsSpace {tokens spaced : List Token}
    (h : Relation.ReflTransGen AddsSpace tokens spaced) :
    Tree.ofTokens spaced = Tree.ofTokens tokens := by
  induction h with
  | refl => rfl
  | tail _ hadd ih => rw [← hadd.ofTokens_eq, ih]

/-- The tokens of an action without any space in it. -/
def denseAction : List Token :=
  [⟨.leftDelim, "\x7b\x7b".toList, 0⟩, ⟨.field, ".A".toList, 2⟩, ⟨.pipe, "|".toList, 4⟩,
    ⟨.identifier, "len".toList, 5⟩, ⟨.rightDelim, "\x7d\x7d".toList, 8⟩, .eof 10]

/-- The same action with a tab before the pipe and a space before the right delimiter. -/
def looseAction : List Token :=
  [⟨.leftDelim, "\x7b\x7b".toList, 0⟩, ⟨.field, ".A".toList, 2⟩, ⟨.space, "\t".toList, 70⟩,
    ⟨.pipe, "|".toList, 4⟩, ⟨.identifier, "len".toList, 5⟩, ⟨.space, " ".toList, 0⟩,
    ⟨.rightDelim, "\x7d\x7d".toList, 8⟩, .eof 10]

/-- Spaces around a pipe give the same tree. -/
theorem ofTokens_of_addsSpace_action :
    tokenize {} "\x7b\x7b.A|len\x7d\x7d".toList = .ok denseAction ∧
      (Tree.ofTokens denseAction).toOption.isSome = true ∧
      Tree.ofTokens looseAction = Tree.ofTokens denseAction := by
  have hpipe : AddsSpace denseAction (looseAction.eraseIdx 5) :=
    .between (denseAction.take 1) (denseAction.drop 3) _ _ ⟨.space, "\t".toList, 70⟩ rfl (.inr rfl)
  have hright : AddsSpace (looseAction.eraseIdx 5) looseAction :=
    .between (looseAction.take 4) (looseAction.drop 7) _ _ ⟨.space, " ".toList, 0⟩ rfl (.inr rfl)
  exact ⟨by decide +kernel, by decide +kernel, ofTokens_of_addsSpace (.tail (.single hpipe) hright)⟩

end FieldAudit.Template
