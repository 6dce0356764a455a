import FieldAudit.Proofs.ActionBoundary
import FieldAudit.Template.Node

/-! # Texts that go on with an action

A text that has tokens on its own may go on with an action: the tokens of the text come first, and
then those of the action and of what follows it, as they would be without the text before
(`tokensFrom_opening`).  What has been read since the left delimiter does not matter either, so a
word and a space before the rest of an action only add their tokens (`tokensInside_else`). -/

namespace FieldAudit.Template

open Text

/-- The default left delimiter. -/
def openBraces : List Char := ['\x7b', '\x7b']

/-! ## Actions after a text -/

/-- The first action after a text without any is the one right after it. -/
theorem splitFirst?_openBraces {text : List Char} (h : splitFirst? openBraces text = none)
    (hlast : text.getLast? ≠ some '\x7b') (inside : List Char) :
    splitFirst? openBraces (text ++ (openBraces ++ inside)) = some (text, inside) := by
  induction text with
  | nil => rfl
  | cons c rest ih =>
    rw [splitFirst?] at h
    have hhere : afterPrefix? openBraces (c :: rest) = none := by
      cases hp : afterPrefix? openBraces (c :: rest) with
      | none => rfl
      | some after => rw [hp] at h; cases h
    rw [hhere] at h
    have hrest : splitFirst? openBraces rest = none := Option.map_eq_none_iff.1 h
    -- Nor does a delimiter start at `c` in the longer text: one that reaches over the end of the
    -- text would make the text end in a brace.
    have hhere' : afterPrefix? openBraces (c :: rest ++ (openBraces ++ inside)) = none := by
      cases rest with
      | nil =>
        have hc : c ≠ '\x7b' := fun hc => hlast (by rw [hc]; rfl)
        simp [afterPrefix?, openBraces, List.isPrefixOf, hc.symm]
      | cons d rest => rw [afterPrefix?_extend (by simp [openBraces]), hhere]; rfl
    have hlast' : rest.getLast? ≠ some '\x7b' := by
      cases rest with
      | nil => simp
      | cons d rest => rwa [List.getLast?_cons_cons] at hlast
    rw [List.cons_append, splitFirst?, ← List.cons_append, hhere', ih hrest hlast']
    rfl

/-- What comes before the first action of a text comes before its tokens. -/
theorem tokensFrom_of_opening {visible : ({} : Delimiters).Visible} {pos pos' : Nat}
    {text text' : List Char} {front : List Token} {o : Opening} (hne : ¬ text.isEmpty)
    (hne' : ¬ text'.isEmpty) (ho' : opening? ({} : Delimiters).left pos' text' = some o)
    (ho : opening? ({} : Delimiters).left pos text =
      some ⟨front ++ o.text, o.delimiter, o.inside⟩) :
    tokensFrom {} visible pos text = (tokensFrom {} visible pos' text').map (front ++ ·) := by
  rw [tokensFrom_eq, tokensFrom_eq, if_neg hne, if_neg hne', ho, ho']
  dsimp only
  -- The place inside the action is the same, so what is read there and after it is the same.
  split
  next comment hc =>
    split
    next => rfl
    next next hn =>
      cases tokensFrom {} visible next.pos next.rest with
      | error e => rfl
      | ok tokens => exact congrArg Except.ok (List.append_assoc ..)
  next hc =>
    split
    next => rfl
    next action ha =>
      cases tokensFrom {} visible action.2.pos action.2.rest with
      | error e => rfl
      | ok tokens => exact congrArg Except.ok (List.append_assoc ..)

/-- The first pair of braces opens an action, and the text in front of it is one text token, if the
text does not end in a brace and no trimming marker follows. -/
theorem opening?_openBraces {text : List Char} (h : splitFirst? openBraces text = none)
    (hlast : text.getLast? ≠ some '\x7b') {inside : List Char}
    (htrim : afterLeftTrim? inside = none) (pos : Nat) :
    opening? ({} : Delimiters).left pos (text ++ (openBraces ++ inside)) =
      some ⟨textToken pos text, ⟨.leftDelim, openBraces, pos + byteLength text⟩,
        ⟨pos + byteLength text + 2, inside⟩⟩ := by
  have hsplit : splitFirst? ({} : Delimiters).left _ = _ := splitFirst?_openBraces h hlast inside
  rw [opening?, hsplit]
  dsimp only [Option.map_some]
  rw [htrim]
  rfl

/-- Braces at the very start open an action with no text in front. -/
theorem opening?_at_openBraces {inside : List Char} (htrim : afterLeftTrim? inside = none)
    (pos : Nat) :
    opening? ({} : Delimiters).left pos (openBraces ++ inside) =
      some ⟨[], ⟨.leftDelim, openBraces, pos⟩, ⟨pos + 2, inside⟩⟩ := by
  have hopens : opening? _ pos ([] ++ _) = _ := opening?_openBraces rfl (by simp) htrim pos
  rwa [List.nil_append, byteLength_nil, Nat.add_zero] at hopens

/-- A text that has tokens on its own may go on with an action: its tokens come before those of the
action and of what follows. -/
theorem tokensFrom_opening {visible : ({} : Delimiters).Visible} {pos stop : Nat}
    {text : List Char} {tokens : List Token}
    (h : tokensFrom {} visible pos text = .ok (tokens ++ [.eof stop]))
    (hlast : text.getLast? ≠ some '\x7b') {inside : List Char}
    (htrim : afterLeftTrim? inside = none) :
    tokensFrom {} visible pos (text ++ (openBraces ++ inside)) =
      (tokensFrom {} visible (pos + byteLength text) (openBraces ++ inside)).map (tokens ++ ·) := by
  have hmore (text : List Char) : ¬ (text ++ (openBraces ++ inside)).isEmpty := by
    simp [openBraces]
  have hspace : (openBraces ++ inside).dropWhile isSpace = openBraces ++ inside := rfl
  -- What is left after an action stands at the end of the text.
  have hrest {pos : Nat} {text : List Char} {next : Place} (hr : Place.Reaches ⟨pos, text⟩ next)
      (hlast : text.getLast? ≠ some '\x7b') :
      next.rest.getLast? ≠ some '\x7b' ∧
        next.pos + byteLength next.rest = pos + byteLength text := by
    obtain ⟨skipped, htext, hpos⟩ := hr
    dsimp only at htext hpos
    rw [htext, List.getLast?_append] at hlast
    refine ⟨fun hnext => hlast (by rw [hnext]; rfl), ?_⟩
    rw [htext, hpos, byteLength_append, Nat.add_assoc]
  generalize hall : tokens ++ [Token.eof stop] = all at h
  rw [tokensFrom_eq_ok_iff] at h
  induction h generalizing tokens with
  | @finished pos =>
    -- Nothing stands before the action.
    have hnil : tokens ++ [Token.eof stop] = [] ++ _ := hall
    obtain ⟨rfl, -⟩ := List.append_inj' hnil rfl
    show tokensFrom {} visible pos (openBraces ++ inside) =
      (tokensFrom {} visible pos (openBraces ++ inside)).map ([] ++ ·)
    cases tokensFrom {} visible pos (openBraces ++ inside) <;> rfl
  | @text pos text hne ho =>
    obtain ⟨rfl, -⟩ := List.append_inj' hall rfl
    have hsplit : splitFirst? openBraces text = none := Option.map_eq_none_iff.1 ho
    refine tokensFrom_of_opening (hmore text) (hmore []) (opening?_at_openBraces htrim _) ?_
    rw [opening?_openBraces hsplit hlast htrim, List.append_nil]
  | @comment pos text comment o next rest hne ho hc hn h ih =>
    obtain ⟨back, rfl, rfl⟩ := h.endsOnce.of_append hall.symm
    obtain ⟨hlast', hpos⟩ := hrest (comment_reaches ho hc hn) hlast
    rw [tokensFrom_comment_extend ho hc hn _ (.inr hspace), ih hlast' rfl, hpos, map_append_map]
  | @action pos text o action rest next hne ho hc ha h ih =>
    have happ : o.text ++ o.delimiter :: action ++ rest = tokens ++ [.eof stop] := by
      rw [hall]
      simp
    obtain ⟨back, rfl, rfl⟩ := h.endsOnce.of_append happ
    obtain ⟨hlast', hpos⟩ := hrest (action_reaches ho ha) hlast
    have ha' := actionTokens_extend_of_ne ha (openBraces ++ inside) (.inr hspace)
    rw [tokensFrom_action_extend ho hc ha ha', ih hlast' rfl, hpos, map_append_map]

/-! ## From inside an action -/

/-- The tokens of a text that starts inside an action, after its left delimiter. -/
def tokensInside (visible : ({} : Delimiters).Visible) (pos : Nat) (text : List Char) :
    Except Error (List Token) :=
  match actionTokens braces 0 pos text with
  | .error e => .error e
  | .ok action => (tokensFrom {} visible action.2.pos action.2.rest).map (action.1 ++ ·)

section Inside

variable {visible : ({} : Delimiters).Visible}

/-- The tokens of a text that starts with an action. -/
theorem tokensFrom_openBraces {inside : List Char} (htrim : afterLeftTrim? inside = none)
    (hcomment : afterPrefix? commentOpen inside = none) (pos : Nat) :
    tokensFrom {} visible pos (openBraces ++ inside) =
      (tokensInside visible (pos + 2) inside).map (⟨.leftDelim, openBraces, pos⟩ :: ·) := by
  rw [tokensFrom_eq, if_neg (by simp [openBraces]), opening?_at_openBraces htrim]
  dsimp only
  rw [hcomment]
  dsimp only
  rw [tokensInside]
  show (match actionTokens braces 0 (pos + 2) inside with | .error e => _ | .ok action => _) = _
  cases actionTokens braces 0 (pos + 2) inside with
  | error e => rfl
  | ok action =>
    dsimp only
    cases tokensFrom {} visible action.2.pos action.2.rest <;> rfl

/-- A token of an action comes before the others. -/
theorem tokensInside_scan {pos : Nat} {text : List Char} {s : Scan}
    (hc : closing? braces pos text = none) (hs : scan braces text = .ok s)
    (hn : nesting? 0 s.kind = some 0) :
    tokensInside visible pos text =
      (tokensInside visible (pos + byteLength s.lexeme) s.rest).map
        (⟨s.kind, s.lexeme, pos⟩ :: ·) := by
  rw [tokensInside, actionTokens_eq, hc, hs]
  dsimp only
  rw [hn]
  dsimp only
  rw [tokensInside]
  cases actionTokens braces 0 (pos + byteLength s.lexeme) s.rest with
  | error e => rfl
  | ok action =>
    dsimp only [Except.map]
    cases tokensFrom {} visible action.2.pos action.2.rest <;> rfl

/-- The right delimiter ends the action, and the text after it starts anew. -/
theorem tokensInside_closing (pos : Nat) (text : List Char) :
    tokensInside visible pos (braces ++ text) =
      (tokensFrom {} visible (pos + 2) text).map (⟨.rightDelim, braces, pos⟩ :: ·) := by
  have hclosing : closing? braces pos (braces ++ text) =
      some ⟨⟨.rightDelim, braces, pos⟩, ⟨pos + 2, text⟩⟩ := rfl
  rw [tokensInside, actionTokens_eq, hclosing]
  rfl

/-- At the name of a branch keyword the scanner reads a word. -/
theorem scan_branchKeyword (kind : BranchKind) (rest : List Char) :
    scan braces (kind.keyword.name.toList ++ rest) =
      scanWord braces (wordKind (spanWhile isWordChar (kind.keyword.name.toList ++ rest)).1)
        (spanWhile isWordChar (kind.keyword.name.toList ++ rest)) := by
  cases kind <;> rfl

/-- The word `else` with a branch after it. -/
theorem tokensInside_else (kind : BranchKind) (pos : Nat) (rest : List Char) :
    tokensInside visible pos ("else ".toList ++ (kind.keyword.name.toList ++ rest)) =
      (tokensInside visible (pos + 5) (kind.keyword.name.toList ++ rest)).map
        (⟨.keyword .elseKw, "else".toList, pos⟩ :: ⟨.space, [' '], pos + 4⟩ :: ·) := by
  have helse : scan braces ("else ".toList ++ (kind.keyword.name.toList ++ rest)) =
      .ok ⟨.keyword .elseKw, "else".toList, ' ' :: (kind.keyword.name.toList ++ rest)⟩ := by
    rfl
  have hspace : scan braces (' ' :: (kind.keyword.name.toList ++ rest)) =
      .ok ⟨.space, [' '], kind.keyword.name.toList ++ rest⟩ := by
    cases kind <;> rfl
  -- Neither the word nor the space closes the action or opens a parenthesis.
  rw [tokensInside_scan rfl helse rfl]
  dsimp only
  rw [tokensInside_scan (by cases kind <;> rfl) hspace rfl]
  show Except.map _ (Except.map _ (tokensInside visible (pos + 5) _)) = _
  cases tokensInside visible (pos + 5) (kind.keyword.name.toList ++ rest) <;> rfl

end Inside

end FieldAudit.Template
