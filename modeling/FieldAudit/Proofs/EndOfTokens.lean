import FieldAudit.Proofs.Reading.Simulation
import FieldAudit.Proofs.Reading.Unchecked

/-! # The end of the tokens

The readers go on as long as there are tokens before the end, and no longer.  On every list of
tokens they come to an end of themselves, in whatever order the tokens stand, and never go past the
first end among them: what follows it makes no difference (`ofTokens_up_to_end`), since lists that
are the same up to an end are a simulation (`Input.SameToEnd.simulation`). -/

namespace FieldAudit.Template

/-- Two lists of tokens are the same up to the first end in them, and with it. -/
inductive SameToEnd : List Token → List Token → Prop
  | nil : SameToEnd [] []
  | stop {t : Token} (ht : t.kind = .eof) (rest rest' : List Token) :
      SameToEnd (t :: rest) (t :: rest')
  | cons (t : Token) {rest rest' : List Token} (h : SameToEnd rest rest') :
      SameToEnd (t :: rest) (t :: rest')

namespace SameToEnd

/-- Every list of tokens agrees with itself. -/
theorem refl : (tokens : List Token) → SameToEnd tokens tokens
  | [] => .nil
  | t :: rest => .cons t (refl rest)

/-- Lists that agree still agree behind a common front. -/
theorem append (front : List Token) {tokens tokens' : List Token} (h : SameToEnd tokens tokens') :
    SameToEnd (front ++ tokens) (front ++ tokens') := by
  induction front with
  | nil => exact h
  | cons t front ih => exact .cons t ih

/-- The spaces at the front come before the end. -/
theorem skipSpace {tokens tokens' : List Token} (h : SameToEnd tokens tokens')
    (scope : List String) :
    SameToEnd (Input.mk tokens scope).skipSpace.tokens
      (Input.mk tokens' scope).skipSpace.tokens := by
  induction h with
  | nil => exact .nil
  | @stop t ht rest rest' =>
    have hne : t.kind ≠ .space := by rw [ht]; decide
    rw [Input.skipSpace_of_ne hne, Input.skipSpace_of_ne hne]
    exact .stop ht rest rest'
  | @cons t rest rest' h ih =>
    by_cases ht : t.kind = .space
    · rw [Input.skipSpace_of_space ht, Input.skipSpace_of_space ht]
      exact ih
    · rw [Input.skipSpace_of_ne ht, Input.skipSpace_of_ne ht]
      exact .cons t h

end SameToEnd

/-- The same variables are in scope, and the tokens are the same up to the end. -/
structure Input.SameToEnd (s s' : Input) : Prop where
  scope : s.scope = s'.scope
  tokens : Template.SameToEnd s.tokens s'.tokens

namespace Input.SameToEnd

variable {s s' : Input}

/-- Inputs that agree up to their end show the same next token, for the end ends both. -/
theorem peek_eq (h : s.SameToEnd s') : s.peek = s'.peek := by
  obtain ⟨tokens, scope⟩ := s
  obtain ⟨tokens', scope'⟩ := s'
  obtain ⟨-, h⟩ := h
  cases h <;> rfl

/-- Before the end, the lists go on alike. -/
theorem tail (h : s.SameToEnd s') (hk : s.peek.kind ≠ .eof) : s.tail.SameToEnd s'.tail := by
  obtain ⟨tokens, scope⟩ := s
  obtain ⟨tokens', scope'⟩ := s'
  obtain ⟨hscope, h⟩ := h
  cases h with
  | nil => exact absurd rfl hk
  | stop ht => exact absurd ht hk
  | cons t h => exact ⟨hscope, h⟩

/-- Agreement up to the end is kept by every reader. -/
theorem simulation : Simulation fun _ => Input.SameToEnd where
  refl _ s := ⟨rfl, .refl s.tokens⟩
  loosen h := h
  scope_eq h := h.scope
  withScope _ h := ⟨rfl, h.tokens⟩
  skipSpace {_ s s'} h := by
    obtain ⟨tokens, scope⟩ := s
    obtain ⟨tokens', scope'⟩ := s'
    obtain ⟨rfl, h⟩ := h
    exact ⟨rfl, h.skipSpace scope⟩
  front h := .inl ⟨by rw [h.peek_eq], fun _ => h.peek_eq, h.tail⟩

end Input.SameToEnd

/-- The readers cannot tell lists apart that are the same up to the end. -/
theorem SameToEnd.ofTokens_eq {tokens tokens' : List Token} (h : SameToEnd tokens tokens') :
    Tree.ofTokens tokens = Tree.ofTokens tokens' := by
  have hinput : Input.SameToEnd ⟨tokens, initialScope⟩ ⟨tokens', initialScope⟩ := ⟨rfl, h⟩
  exact Input.SameToEnd.simulation.ofTokens_eq hinput (by rw [hinput.peek_eq])

/-- Whatever tokens there are, the readers come to a tree or an error without any check that they
get ahead, if the names of fields can be cut out; their calls nest at most five times as deep as
there are tokens, and a little deeper.  What follows an end makes no difference. -/
theorem ofTokens_up_to_end :
    (∀ tokens limit, FieldsNamed tokens → 5 * tokens.length + 2 < limit →
      (Unchecked.ofTokens limit tokens).run = some (Tree.ofTokens tokens)) ∧
    ∀ front stop rest, stop.kind = .eof →
      Tree.ofTokens (front ++ stop :: rest) = Tree.ofTokens (front ++ [stop]) := by
  constructor
  · intro tokens limit hfields hlimit
    rw [Unchecked.ofTokens_eq hfields hlimit]
    rfl
  · intro front stop rest hstop
    exact (SameToEnd.append front (.stop hstop rest [])).ofTokens_eq

/-- An action that no right delimiter closes before the end. -/
def openAction : List Token :=
  [⟨.leftDelim, "\x7b\x7b".toList, 0⟩, ⟨.field, ".A".toList, 2⟩, .eof 4]

/-- A right delimiter that stands after the end of an open action does not close it. -/
theorem ofTokens_up_to_end_openAction :
    (Unchecked.ofTokens 28 (openAction ++ [⟨.rightDelim, "\x7d\x7d".toList, 4⟩, .eof 6])).run =
        some (Tree.ofTokens openAction) ∧
      (Tree.ofTokens openAction).map (fun _ => ()) =
        .error (unexpected (.eof 4) .operand) := by
  have hfields : FieldsNamed (openAction ++ [⟨.rightDelim, "\x7d\x7d".toList, 4⟩, .eof 6]) := by
    simp [FieldsNamed, openAction, Token.eof]
    decide
  have hrest := ofTokens_up_to_end.2 (openAction.take 2) (.eof 4)
    [⟨.rightDelim, "\x7d\x7d".toList, 4⟩, .eof 6] rfl
  have hended := ofTokens_up_to_end.1 _ 28 hfields (by decide)
  exact ⟨hended.trans (congrArg some hrest), by decide +kernel⟩

end FieldAudit.Template
