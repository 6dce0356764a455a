import FieldAudit.Proofs.ActionOpening
import FieldAudit.Proofs.Reading.ElseBranch

/-! # Chains of alternatives

An `else` that goes on with an `if` or `with` shares the `end` of the branch before it.  A chain of
such alternatives (`chained`) says the same as one branch in the `else` of the other, each with an
`end` of its own (`nested`): either both are read or none is, and the shapes of the trees are the
same (`parse_chained`).  The words of the two texts are worked out here.  That they have the same
tree for one alternative is `ofTokens_elseBranch`; a chain takes one after the other. -/

namespace FieldAudit.Template

open Text

/-! ## The words of a text -/

/-- The word after all others. -/
def Word.eof : Word := ⟨.eof, []⟩

/-- The words of a list of tokens, if there is one. -/
def spelled (result : Except Error (List Token)) : Option (List Word) :=
  result.toOption.map (List.map Token.word)

/-- The words of a text, if it has tokens. -/
def spelling (text : List Char) : Option (List Word) :=
  spelled (tokenize {} text)

/-- The words of tokens put in front are put in front of the words. -/
theorem spelled_append (front : List Token) (result : Except Error (List Token)) :
    spelled (result.map (front ++ ·)) = (spelled result).map (front.map Token.word ++ ·) := by
  cases result with
  | error e => rfl
  | ok tokens => exact congrArg some List.map_append

/-- The words of a text do not depend on where it stands. -/
theorem spelled_tokensFrom (pos : Nat) (text : List Char) :
    spelled (tokensFrom {} visible_default pos text) = spelling text := by
  have hshift := tokensFrom_shift {} visible_default 0 pos text
  rw [Nat.zero_add] at hshift
  rw [spelling, tokenize_default, hshift]
  cases tokensFrom {} visible_default 0 text with
  | error e => rfl
  | ok tokens =>
    refine congrArg some ?_
    rw [List.map_map]
    rfl

/-- The words of a text end in the end of the input. -/
theorem spelling_endsOnce {text : List Char} {words : List Word}
    (h : spelling text = some words) : ∃ front, words = front ++ [.eof] := by
  obtain ⟨tokens, ht, rfl⟩ := Option.map_eq_some_iff.1 h
  rw [tokenize_default] at ht
  cases hr : tokensFrom {} visible_default 0 text with
  | error e => rw [hr] at ht; cases ht
  | ok tokens =>
    rw [hr] at ht
    cases ht
    obtain ⟨front, stop, rfl, -⟩ := (tokensFrom_eq_ok_iff.1 hr).endsOnce
    exact ⟨front.map Token.word, List.map_append⟩

/-- A text that starts with an action.  Its left delimiter has no trim marker. -/
def StartsAction (text : List Char) : Prop :=
  ∃ inside, text = openBraces ++ inside ∧ afterLeftTrim? inside = none

/-- A text may go on with an action. -/
theorem spelling_append {text action : List Char} {words : List Word}
    (h : spelling text = some (words ++ [.eof])) (hlast : text.getLast? ≠ some '\x7b')
    (haction : StartsAction action) :
    spelling (text ++ action) = (spelling action).map (words ++ ·) := by
  obtain ⟨inside, rfl, htrim⟩ := haction
  rw [spelling, tokenize_default] at h
  cases hr : tokensFrom {} visible_default 0 text with
  | error e => rw [hr] at h; cases h
  | ok tokens =>
    obtain ⟨front, stop, rfl, -⟩ := (tokensFrom_eq_ok_iff.1 hr).endsOnce
    rw [hr] at h
    have happ : front.map Token.word ++ [Word.eof] = words ++ [.eof] := by
      rw [← Option.some.inj h, List.map_append]
      rfl
    obtain ⟨rfl, -⟩ := List.append_inj' happ rfl
    rw [spelling, tokenize_default, tokensFrom_opening hr hlast htrim, spelled_append,
      spelled_tokensFrom]

/-- The words of a text that starts with an action. -/
theorem spelling_openBraces {inside : List Char} (htrim : afterLeftTrim? inside = none)
    (hcomment : afterPrefix? commentOpen inside = none) (pos : Nat) :
    spelling (openBraces ++ inside) =
      (spelled (tokensInside visible_default (pos + 2) inside)).map (.opening :: ·) := by
  rw [← spelled_tokensFrom pos, tokensFrom_openBraces htrim hcomment]
  exact spelled_append [⟨.leftDelim, openBraces, pos⟩] _

/-! ## The text of an alternative -/

/-- The text of an action that is a keyword alone. -/
def Keyword.actionText (k : Keyword) : List Char :=
  openBraces ++ (k.name.toList ++ braces)

/-- The text before the pipe of a branch. -/
def BranchKind.openText (kind : BranchKind) : List Char :=
  openBraces ++ kind.keyword.name.toList

/-- The text before the pipe of a branch that goes on from an `else`. -/
def BranchKind.elseText (kind : BranchKind) : List Char :=
  openBraces ++ ("else ".toList ++ kind.keyword.name.toList)

/-- An `else` with a branch keyword starts an action. -/
theorem startsAction_elseText (kind : BranchKind) (text : List Char) :
    StartsAction (kind.elseText ++ text) :=
  ⟨_, List.append_assoc .., rfl⟩

/-- An `else` or `end` by itself starts an action. -/
theorem startsAction_actionText {k : Keyword} (hk : k = .endKw ∨ k = .elseKw) (text : List Char) :
    StartsAction (k.actionText ++ text) := by
  refine ⟨_, List.append_assoc .., ?_⟩
  rcases hk with rfl | rfl <;> rfl

/-- An action of a lone keyword spells its three words in front of what follows. -/
theorem spelling_actionText {k : Keyword} (hk : k = .endKw ∨ k = .elseKw) (text : List Char) :
    spelling (k.actionText ++ text) = (spelling text).map (keywordAction k ++ ·) := by
  have hassoc : k.actionText ++ text = openBraces ++ (k.name.toList ++ (braces ++ text)) := by
    simp only [Keyword.actionText, List.append_assoc]
  have hkeyword : tokensInside visible_default 2 (k.name.toList ++ (braces ++ text)) =
      (tokensFrom {} visible_default (2 + byteLength k.name.toList + 2) text).map
        ([⟨.keyword k, k.name.toList, 2⟩,
          ⟨.rightDelim, braces, 2 + byteLength k.name.toList⟩] ++ ·) := by
    have hscan : scan braces (k.name.toList ++ (braces ++ text)) =
        .ok ⟨.keyword k, k.name.toList, braces ++ text⟩ := by
      rcases hk with rfl | rfl <;> rfl
    have hclosing : closing? braces 2 (k.name.toList ++ (braces ++ text)) = none := by
      rcases hk with rfl | rfl <;> rfl
    rw [tokensInside_scan hclosing hscan rfl]
    dsimp only
    rw [tokensInside_closing]
    cases tokensFrom {} visible_default (2 + byteLength k.name.toList + 2) text <;> rfl
  have htrim : afterLeftTrim? (k.name.toList ++ (braces ++ text)) = none := by
    rcases hk with rfl | rfl <;> rfl
  have hcomment : afterPrefix? commentOpen (k.name.toList ++ (braces ++ text)) = none := by
    rcases hk with rfl | rfl <;> rfl
  rw [hassoc, spelling_openBraces htrim hcomment 0, hkeyword, spelled_append, spelled_tokensFrom,
    Option.map_map]
  rfl

/-- A branch keyword is no trimming marker. -/
theorem openText_trim (kind : BranchKind) (text : List Char) :
    afterLeftTrim? (kind.keyword.name.toList ++ text) = none := by
  cases kind <;> rfl

/-- A branch keyword opens no comment. -/
theorem openText_comment (kind : BranchKind) (text : List Char) :
    afterPrefix? commentOpen (kind.keyword.name.toList ++ text) = none := by
  cases kind <;> rfl

/-- A branch that goes on from an `else` has two more words than one on its own. -/
theorem spelling_elseText (kind : BranchKind) (text : List Char) :
    spelling (kind.elseText ++ text) =
      (spelling (kind.openText ++ text)).map fun words =>
        [.opening, .keyword .elseKw, .space] ++ words.tail := by
  have hassoc : kind.elseText ++ text =
      openBraces ++ ("else ".toList ++ (kind.keyword.name.toList ++ text)) := by
    simp only [BranchKind.elseText, List.append_assoc]
  have hassoc' : kind.openText ++ text = openBraces ++ (kind.keyword.name.toList ++ text) :=
    List.append_assoc ..
  -- The branch on its own is taken at the position that it has after `else` and the space.
  rw [hassoc, hassoc', spelling_openBraces rfl rfl 0, tokensInside_else,
    spelling_openBraces (openText_trim kind text) (openText_comment kind text) 5, Option.map_map]
  show Option.map _ (spelled (Except.map ([⟨.keyword .elseKw, "else".toList, 2⟩,
    ⟨.space, [' '], 6⟩] ++ ·) (tokensInside visible_default 7 _))) = _
  rw [spelled_append, Option.map_map]
  rfl

/-! ## The heads of a text -/

/-- The heads of the actions of a text, if it has tokens. -/
def textHeads (text : List Char) : Option (List Head) :=
  (tokenize {} text).toOption.map heads

/-- A token with a given word. -/
def Word.token (w : Word) : Token := ⟨w.kind, w.lexeme, 0⟩

/-- The heads of the actions among words. -/
def wordHeads (words : List Word) : List Head :=
  heads (words.map Word.token)

/-- The heads of words are the heads of the tokens they are taken from. -/
theorem wordHeads_eq (tokens : List Token) :
    wordHeads (tokens.map Token.word) = heads tokens := by
  refine SameWords.heads_eq ?_
  rw [SameWords, List.map_map, List.map_map]
  rfl

/-- Heads are read action by action, so they are cut where an action or the input ends. -/
theorem wordHeads_append (words : List Word) {rest : List Word}
    (h : ∀ w ∈ rest.head?, w.kind = .leftDelim ∨ w.kind = .eof) :
    wordHeads (words ++ rest) = wordHeads words ++ wordHeads rest := by
  rw [wordHeads, List.map_append, heads_append, wordHeads, wordHeads]
  intro t ht
  cases rest with
  | nil => cases ht
  | cons w rest =>
    cases ht
    exact h w rfl

/-- The opening words of a branch have its head. -/
theorem wordHeads_opening (kind : BranchKind) (words : List Word) :
    wordHeads (kind.opening ++ words) = .branch kind :: wordHeads words := by
  cases kind <;> rfl

/-- The opening words of an `else` with a branch keyword have the head of a chained branch. -/
theorem wordHeads_elseOpening {kind : BranchKind} (hchains : kind.chains = true)
    (words : List Word) :
    wordHeads (kind.elseOpening ++ words) = .elseBranch kind :: wordHeads words := by
  cases kind with
  | ifBranch | withBranch => rfl
  | rangeBranch => cases hchains

/-- The heads of a text are those of the words in front of its end. -/
theorem textHeads_eq_some_iff {text : List Char} {hs : List Head} :
    textHeads text = some hs ↔
      ∃ words, spelling text = some (words ++ [.eof]) ∧ wordHeads words = hs := by
  have hmap : textHeads text = (spelling text).map wordHeads := by
    rw [textHeads, spelling, spelled, Option.map_map]
    exact congrFun (congrArg Option.map (funext fun tokens => (wordHeads_eq tokens).symm)) _
  have heof (words : List Word) : wordHeads (words ++ [.eof]) = wordHeads words := by
    rw [wordHeads_append words (by simp [Word.eof])]
    exact List.append_nil _
  rw [hmap]
  constructor
  · intro h
    obtain ⟨words, hwords, rfl⟩ := Option.map_eq_some_iff.1 h
    obtain ⟨front, rfl⟩ := spelling_endsOnce hwords
    exact ⟨front, hwords, (heof front).symm⟩
  · rintro ⟨words, hwords, rfl⟩
    rw [hwords]
    exact congrArg some (heof words)

/-- A text that ends inside a branch that may still have an `else`.  An action can follow it. -/
structure EndsInBranch (kind : BranchKind) (text : List Char) : Prop where
  heads : ∃ hs stack, textHeads text = some hs ∧
    hs.foldlM Head.step [] = some (.branch kind false :: stack)
  last : text.getLast? ≠ some '\x7b'

/-- The text of a branch from its keyword on, without its `end`: the pipe and the items.  What is
opened there is closed there, and the branch itself stays open, with or without an `else`. -/
structure Clause (kind : BranchKind) (hasElse : Bool) (text : List Char) : Prop where
  heads : ∃ hs, textHeads (kind.openText ++ text) = some (.branch kind :: hs) ∧
    hs.foldlM Head.within [.branch kind false] = some [.branch kind hasElse]
  last : text.getLast? ≠ some '\x7b'

/-! ## The words of a clause -/

/-- A word is a keyword under its own name, a boolean or an identifier. -/
theorem wordKind_cases (word : List Char) :
    (∃ k : Keyword, wordKind word = .keyword k ∧ word = k.name.toList) ∨
      wordKind word = .bool ∨ wordKind word = .identifier := by
  rw [wordKind]
  split
  next k hk =>
    have hname : k.name = String.ofList word := by simpa using List.find?_some hk
    exact .inl ⟨k, rfl, by rw [hname, String.toList_ofList]⟩
  next => split <;> simp

/-- Only the keyword of a branch makes the head of that branch. -/
theorem Head.ofKinds_eq_branch {first second : Token.Kind} {kind : BranchKind}
    (h : ofKinds first second = .branch kind) : first = .keyword kind.keyword := by
  unfold ofKinds at h
  split at h <;> cases h <;> rfl

/-- The words of an action that starts like a branch.  Its first word may be a longer one. -/
theorem spelling_openText (kind : BranchKind) {text : List Char} {words : List Word}
    (h : spelling (kind.openText ++ text) = some words) :
    ∃ word rest, words = .opening :: ⟨wordKind word, word⟩ :: rest := by
  have hassoc : kind.openText ++ text = openBraces ++ (kind.keyword.name.toList ++ text) :=
    List.append_assoc ..
  have hclosing : closing? braces 2 (kind.keyword.name.toList ++ text) = none := by
    cases kind <;> rfl
  rw [hassoc, spelling_openBraces (openText_trim kind text) (openText_comment kind text) 0] at h
  obtain ⟨inside, hinside, rfl⟩ := Option.map_eq_some_iff.1 h
  cases hscan : scan braces (kind.keyword.name.toList ++ text) with
  | error e =>
    rw [tokensInside, actionTokens_eq, hclosing, hscan] at hinside
    cases hinside
  | ok s =>
    -- The keyword stands at the front of the text, so the first word starts with it, but it may go
    -- on with what follows.
    have hword := hscan
    rw [scan_branchKeyword] at hword
    obtain rfl := scanWord_eq_ok hword
    generalize (spanWhile isWordChar (kind.keyword.name.toList ++ text)).1 = word at hscan
    have hnesting : nesting? 0 (wordKind word) = some 0 := by
      obtain ⟨k, hk, -⟩ | hk | hk := wordKind_cases word <;> rw [hk] <;> rfl
    rw [tokensInside_scan hclosing hscan hnesting] at hinside
    have hcons := (spelled_append [⟨wordKind word, word, 2⟩] _).symm.trans hinside
    obtain ⟨rest, -, rfl⟩ := Option.map_eq_some_iff.1 hcons
    exact ⟨word, rest, rfl⟩

/-- The first words of a clause are those of its branch. -/
theorem Clause.words {kind : BranchKind} {hasElse : Bool} {text : List Char}
    (h : Clause kind hasElse text) :
    ∃ words, spelling (kind.openText ++ text) = some (kind.opening ++ words ++ [.eof]) ∧
      (wordHeads words).foldlM Head.within [.branch kind false] =
        some [.branch kind hasElse] := by
  obtain ⟨hs, hheads, hfold⟩ := h.heads
  obtain ⟨words, hwords, hhs⟩ := textHeads_eq_some_iff.1 hheads
  obtain ⟨word, rest, happ⟩ := spelling_openText kind hwords
  have hne : wordKind word ≠ .space ∧ wordKind word ≠ .leftDelim ∧ wordKind word ≠ .eof := by
    obtain ⟨k, hk, -⟩ | hk | hk := wordKind_cases word <;> rw [hk] <;> simp
  -- The end of the text is neither of the two words.
  obtain ⟨words, rfl⟩ : ∃ words', words = .opening :: ⟨wordKind word, word⟩ :: words' := by
    rcases words with _ | ⟨first, _ | ⟨second, words⟩⟩
    · cases happ
    · exact absurd (congrArg Word.kind (List.cons.inj (List.cons.inj happ).2).1).symm hne.2.2
    · cases happ
      exact ⟨words, rfl⟩
  obtain ⟨hbranch, hrest⟩ := List.cons.inj hhs
  have hkind : wordKind word = .keyword kind.keyword := by
    have hfirst : wordsOf (Word.token ⟨wordKind word, word⟩ :: words.map Word.token) = _ :=
      List.filter_cons_of_pos (decide_eq_true hne.1)
    rw [List.map_cons, Head.ofTokens, hfirst] at hbranch
    exact Head.ofKinds_eq_branch hbranch
  obtain ⟨k, hk, rfl⟩ : ∃ k : Keyword, wordKind word = .keyword k ∧ word = k.name.toList := by
    obtain hk | hk | hk := wordKind_cases word
    · exact hk
    · cases hk.symm.trans hkind
    · cases hk.symm.trans hkind
  obtain rfl : k = kind.keyword := Token.Kind.keyword.inj (hk.symm.trans hkind)
  rw [hk] at hwords hrest
  refine ⟨words, hwords, ?_⟩
  rw [← hfold, ← hrest]
  rfl

/-! ## One alternative -/

/-- A concatenation of texts that do not end in a character does not end in it. -/
theorem getLast?_append_ne {c : Char} {text text' : List Char} (h : text.getLast? ≠ some c)
    (h' : text'.getLast? ≠ some c) : (text ++ text').getLast? ≠ some c := by
  rw [List.getLast?_append]
  cases hl : text'.getLast? with
  | none => exact h
  | some last =>
    rw [hl] at h'
    exact h'

/-- The opening of a branch does not end in a brace. -/
theorem openText_last (kind : BranchKind) : kind.openText.getLast? ≠ some '\x7b' := by
  cases kind <;> decide

/-- The opening of a chained branch does not end in a brace. -/
theorem elseText_last (kind : BranchKind) : kind.elseText.getLast? ≠ some '\x7b' := by
  cases kind <;> decide

section Words

variable {kind : BranchKind} {start body : List Char} {front clause : List Word}

/-- A clause may go on with an action. -/
theorem spelling_clause
    (h : spelling (kind.openText ++ body) = some (kind.opening ++ clause ++ [.eof]))
    (hlast : body.getLast? ≠ some '\x7b') {action : List Char} (haction : StartsAction action) :
    spelling (kind.openText ++ (body ++ action)) =
      (spelling action).map (kind.opening ++ clause ++ ·) := by
  rw [← List.append_assoc,
    spelling_append h (getLast?_append_ne (openText_last kind) hlast) haction]

/-- A clause spells the same words behind `else` as it does behind the opening of its branch. -/
theorem spelling_elseClause
    (h : spelling (kind.openText ++ body) = some (kind.opening ++ clause ++ [.eof]))
    (hlast : body.getLast? ≠ some '\x7b') {action : List Char} (haction : StartsAction action) :
    spelling (kind.elseText ++ (body ++ action)) =
      (spelling action).map (kind.elseOpening ++ clause ++ ·) := by
  rw [spelling_elseText, spelling_clause h hlast haction, Option.map_map]
  rfl

/-- The words of a text with a branch right after an `else`. -/
theorem spelling_chainedTail (hstart : spelling start = some (front ++ [.eof]))
    (hlast : start.getLast? ≠ some '\x7b')
    (hbody : spelling (kind.openText ++ body) = some (kind.opening ++ clause ++ [.eof]))
    (hlast' : body.getLast? ≠ some '\x7b') (rest : List Char) :
    spelling (start ++ (kind.elseText ++ (body ++ (Keyword.endKw.actionText ++ rest)))) =
      (spelling rest).map fun words =>
        front ++ (kind.elseOpening ++ (clause ++ (keywordAction .endKw ++ words))) := by
  rw [spelling_append hstart hlast (startsAction_elseText kind _),
    spelling_elseClause hbody hlast' (startsAction_actionText (.inl rfl) rest),
    spelling_actionText (.inl rfl)]
  simp only [Option.map_map, Function.comp_def, List.append_assoc]

/-- The words of a text with a branch in an alternative of its own. -/
theorem spelling_nestedTail (hstart : spelling start = some (front ++ [.eof]))
    (hlast : start.getLast? ≠ some '\x7b')
    (hbody : spelling (kind.openText ++ body) = some (kind.opening ++ clause ++ [.eof]))
    (hlast' : body.getLast? ≠ some '\x7b') (rest : List Char) :
    spelling (start ++ (Keyword.elseKw.actionText ++ (kind.openText ++
        (body ++ (Keyword.endKw.actionText ++ (Keyword.endKw.actionText ++ rest)))))) =
      (spelling rest).map fun words =>
        front ++ (keywordAction .elseKw ++ (kind.opening ++ (clause ++
          (keywordAction .endKw ++ (keywordAction .endKw ++ words))))) := by
  rw [spelling_append hstart hlast (startsAction_actionText (.inr rfl) _),
    spelling_actionText (.inr rfl),
    spelling_clause hbody hlast' (startsAction_actionText (.inl rfl) _),
    spelling_actionText (.inl rfl), spelling_actionText (.inl rfl)]
  simp only [Option.map_map, Function.comp_def, List.append_assoc]

end Words

/-- A text is read as the tokens that have its words. -/
theorem parse_of_spelling {text : List Char} {words : List Word}
    (h : spelling text = some words) :
    ∃ tokens, tokens.map Token.word = words ∧ parse {} text = Tree.ofTokens tokens := by
  rw [parse]
  rw [spelling] at h
  cases ht : tokenize {} text with
  | error e => rw [ht] at h; cases h
  | ok tokens =>
    rw [ht] at h
    exact ⟨tokens, Option.some.inj h, rfl⟩

/-- A text without words is not parsed. -/
theorem parse_of_spelling_none {text : List Char} (h : spelling text = none) :
    (parse {} text).toOption = none := by
  rw [parse]
  rw [spelling] at h
  cases ht : tokenize {} text with
  | error e => rfl
  | ok tokens => rw [ht] at h; cases h

/-- Tokens with the words of a branch right after an `else`. -/
theorem ChainedTail.of_words {kind : BranchKind} {tokens : List Token}
    {front clause words : List Word}
    (h : tokens.map Token.word =
      front ++ (kind.elseOpening ++ (clause ++ (keywordAction .endKw ++ words)))) :
    ∃ before items after back, tokens = before ++ back ∧ before.map Token.word = front ∧
      items.map Token.word = clause ∧ after.map Token.word = words ∧
      ChainedTail kind items after back := by
  obtain ⟨before, _, rfl, hbefore, h⟩ := List.map_eq_append_iff.1 h
  obtain ⟨opening, _, rfl, ho, h⟩ := List.map_eq_append_iff.1 h
  obtain ⟨items, _, rfl, hitems, h⟩ := List.map_eq_append_iff.1 h
  obtain ⟨last, after, rfl, hl, hafter⟩ := List.map_eq_append_iff.1 h
  exact ⟨before, items, after, _, rfl, hbefore, hitems, hafter, .mk ho hl⟩

/-- Tokens with the words of a branch in an alternative of its own. -/
theorem NestedTail.of_words {kind : BranchKind} {tokens : List Token}
    {front clause words : List Word}
    (h : tokens.map Token.word =
      front ++ (keywordAction .elseKw ++ (kind.opening ++ (clause ++
        (keywordAction .endKw ++ (keywordAction .endKw ++ words)))))) :
    ∃ before items after back, tokens = before ++ back ∧ before.map Token.word = front ∧
      items.map Token.word = clause ∧ after.map Token.word = words ∧
      NestedTail kind items after back := by
  obtain ⟨before, _, rfl, hbefore, h⟩ := List.map_eq_append_iff.1 h
  obtain ⟨alone, _, rfl, ha, h⟩ := List.map_eq_append_iff.1 h
  obtain ⟨opening, _, rfl, ho, h⟩ := List.map_eq_append_iff.1 h
  obtain ⟨items, _, rfl, hitems, h⟩ := List.map_eq_append_iff.1 h
  obtain ⟨last, _, rfl, hl, h⟩ := List.map_eq_append_iff.1 h
  obtain ⟨last', after, rfl, hl', hafter⟩ := List.map_eq_append_iff.1 h
  exact ⟨before, items, after, _, rfl, hbefore, hitems, hafter, .mk ha ho hl hl'⟩

section Alternatives

variable {kind : BranchKind} {hasElse : Bool} {start body : List Char}

/-- A branch right after an `else` is read like one in an alternative of its own. -/
theorem parse_elseBranch (hchains : kind.chains = true) (hstart : EndsInBranch kind start)
    (hbody : Clause kind hasElse body) (rest : List Char) :
    (parse {} (start ++ (kind.elseText ++ (body ++
        (Keyword.endKw.actionText ++ rest))))).toOption.map Tree.shape =
      (parse {} (start ++ (Keyword.elseKw.actionText ++ (kind.openText ++ (body ++
        (Keyword.endKw.actionText ++ (Keyword.endKw.actionText ++ rest))))))).toOption.map
        Tree.shape := by
  obtain ⟨hs, stack, hheads, hopen⟩ := hstart.heads
  obtain ⟨front, hfront, rfl⟩ := textHeads_eq_some_iff.1 hheads
  obtain ⟨clause, hclause, hfold⟩ := hbody.words
  have hchained := spelling_chainedTail hfront hstart.last hclause hbody.last rest
  have hnested := spelling_nestedTail hfront hstart.last hclause hbody.last rest
  cases hrest : spelling rest with
  | none =>
    -- No text has tokens if its end has none.
    rw [hrest] at hchained hnested
    rw [parse_of_spelling_none hchained, parse_of_spelling_none hnested]
  | some words =>
    rw [hrest] at hchained hnested
    obtain ⟨tokens, hwords, hparse⟩ := parse_of_spelling hchained
    obtain ⟨tokens', hwords', hparse'⟩ := parse_of_spelling hnested
    obtain ⟨before, items, after, back, rfl, hbefore, hitems, hafter, hback⟩ :=
      ChainedTail.of_words hwords
    obtain ⟨before', items', after', back', rfl, hbefore', hitems', hafter', hback'⟩ :=
      NestedTail.of_words hwords'
    rw [← hbefore, wordHeads_eq] at hopen
    rw [← hitems, wordHeads_eq] at hfold
    rw [hparse, hparse']
    exact ofTokens_elseBranch hchains (hbefore.trans hbefore'.symm) hopen hback hback'
      (hitems.trans hitems'.symm) (hafter.trans hafter'.symm) hfold

/-! ## Chains -/

/-- A clause with another one after its `else` is a clause. -/
theorem Clause.chain {next : List Char} (hchains : kind.chains = true)
    (hbody : Clause kind false body) (hnext : Clause kind hasElse next) :
    Clause kind hasElse (body ++ (kind.elseText ++ next)) := by
  obtain ⟨first, hfirst, hfold⟩ := hbody.words
  obtain ⟨second, hsecond, hfold'⟩ := hnext.words
  have hspelling : spelling (kind.openText ++ (body ++ (kind.elseText ++ next))) =
      some (kind.opening ++ (first ++ (kind.elseOpening ++ second)) ++ [.eof]) := by
    rw [spelling_clause hfirst hbody.last (startsAction_elseText kind next), spelling_elseText,
      hsecond]
    simp [BranchKind.opening, BranchKind.elseOpening]
  refine ⟨⟨wordHeads (first ++ (kind.elseOpening ++ second)), ?_, ?_⟩, ?_⟩
  · exact textHeads_eq_some_iff.2 ⟨_, hspelling, wordHeads_opening kind _⟩
  · -- The `else` in the middle leaves the branch open, still without an `else` of its own.
    rw [wordHeads_append first fun w hw => .inl (by cases hw; rfl), wordHeads_elseOpening hchains,
      List.foldlM_append, hfold]
    have helse : (Head.elseBranch kind).within [.branch kind false] =
        some [.branch kind false] := by
      cases kind <;> rfl
    show ((Head.elseBranch kind).within _).bind _ = _
    rw [helse]
    exact hfold'
  · exact getLast?_append_ne hbody.last (getLast?_append_ne (elseText_last kind) hnext.last)

/-- A step above a stack with something on it does not look further down. -/
theorem Head.step_append {head : Head} {stack stack' : List Frame} (hne : stack ≠ [])
    (h : head.step stack = some stack') (base : List Frame) :
    head.step (stack ++ base) = some (stack' ++ base) := by
  obtain ⟨frame, rest, rfl⟩ := List.exists_cons_of_ne_nil hne
  -- A step looks at the innermost frame only, except that `define` asks that there be none.
  cases head with
  | branch | block | other | endAction =>
    cases h
    rfl
  | define => cases h
  | elseBranch kind =>
    obtain ⟨top, _ | _⟩ | _ := frame
    · dsimp only [step] at h
      split at h
      next htop =>
        cases h
        exact if_pos htop
      next => cases h
    · cases h
    · cases h
  | elseAlone =>
    obtain ⟨top, _ | _⟩ | _ := frame
    · cases h
      rfl
    · cases h
    · cases h

/-- Actions that are open further out do not matter for heads that do not close the outermost. -/
theorem foldlM_step_of_within {hs : List Head} {stack stack' : List Frame} (hne : stack ≠ [])
    (h : hs.foldlM Head.within stack = some stack') (base : List Frame) :
    hs.foldlM Head.step (stack ++ base) = some (stack' ++ base) := by
  induction hs generalizing stack with
  | nil =>
    cases h
    rfl
  | cons head hs ih =>
    rw [List.foldlM_cons] at h ⊢
    obtain ⟨next, hstep, h⟩ := Option.bind_eq_some_iff.1 h
    obtain ⟨hstep, hnext⟩ := Option.filter_eq_some_iff.1 hstep
    rw [Head.step_append hne hstep base]
    exact ih (by simpa using hnext) h

/-- After an `else`, a branch in it ends inside the branch again. -/
theorem EndsInBranch.nest (hstart : EndsInBranch kind start) (hbody : Clause kind false body) :
    EndsInBranch kind (start ++ (Keyword.elseKw.actionText ++ (kind.openText ++ body))) := by
  obtain ⟨hs, stack, hheads, hopen⟩ := hstart.heads
  obtain ⟨front, hfront, rfl⟩ := textHeads_eq_some_iff.1 hheads
  obtain ⟨clause, hclause, hfold⟩ := hbody.words
  have hspelling : spelling (start ++ (Keyword.elseKw.actionText ++ (kind.openText ++ body))) =
      some (front ++ (keywordAction .elseKw ++ (kind.opening ++ clause)) ++ [.eof]) := by
    rw [spelling_append hfront hstart.last (startsAction_actionText (.inr rfl) _),
      spelling_actionText (.inr rfl), hclause]
    simp
  refine ⟨⟨_, .branch kind true :: stack, textHeads_eq_some_iff.2 ⟨_, hspelling, rfl⟩, ?_⟩, ?_⟩
  · rw [wordHeads_append front fun w hw => .inl (by cases hw; rfl),
      wordHeads_append (keywordAction .elseKw) fun w hw => .inl (by cases hw; rfl),
      wordHeads_opening, List.foldlM_append, hopen]
    exact foldlM_step_of_within (by simp) hfold _
  · exact getLast?_append_ne hstart.last (getLast?_append_ne (by decide)
      (getLast?_append_ne (openText_last kind) hbody.last))

/-- The alternatives of a chain that shares one `end`. -/
def chained (kind : BranchKind) : List (List Char) → List Char
  | [] => Keyword.endKw.actionText
  | clause :: rest => kind.elseText ++ (clause ++ chained kind rest)

/-- The same alternatives, each in the `else` of the one before and with an `end` of its own. -/
def nested (kind : BranchKind) : List (List Char) → List Char
  | [] => Keyword.endKw.actionText
  | clause :: rest =>
    Keyword.elseKw.actionText ++
      (kind.openText ++ (clause ++ (nested kind rest ++ Keyword.endKw.actionText)))

/-- The clauses of a chain.  Only the last one may have an `else` of its own. -/
inductive Clauses (kind : BranchKind) : List (List Char) → Prop
  | last {hasElse : Bool} {clause : List Char} (h : Clause kind hasElse clause) :
      Clauses kind [clause]
  | cons {clause : List Char} {rest : List (List Char)} (h : Clause kind false clause)
      (hrest : Clauses kind rest) : Clauses kind (clause :: rest)

/-- A chain is one alternative, whose clause holds the others. -/
theorem Clauses.exists_clause {clauses : List (List Char)} (hchains : kind.chains = true)
    (h : Clauses kind clauses) :
    ∃ hasElse clause, Clause kind hasElse clause ∧
      chained kind clauses = kind.elseText ++ (clause ++ Keyword.endKw.actionText) := by
  induction h with
  | last h => exact ⟨_, _, h, rfl⟩
  | cons h hrest ih =>
    obtain ⟨hasElse, clause, hclause, heq⟩ := ih
    refine ⟨hasElse, _, h.chain hchains hclause, ?_⟩
    rw [chained, heq]
    simp only [List.append_assoc]

end Alternatives

/-- A chain of alternatives is read exactly if the nested alternatives are, whatever comes before
and after, and the trees have the same shapes: those of the template and of all it defines. -/
theorem parse_chained {kind : BranchKind} (hchains : kind.chains = true) {start : List Char}
    (hstart : EndsInBranch kind start) {clauses : List (List Char)} (h : Clauses kind clauses)
    (rest : List Char) :
    (parse {} (start ++ chained kind clauses ++ rest)).toOption.map Tree.shape =
      (parse {} (start ++ nested kind clauses ++ rest)).toOption.map Tree.shape := by
  induction h generalizing start rest with
  | last h =>
    have hone := parse_elseBranch hchains hstart h rest
    simp only [chained, nested, List.append_assoc]
    exact hone
  | @cons body others h hrest ih =>
    obtain ⟨hasElse, next, hnext, heq⟩ := hrest.exists_clause hchains
    -- The outermost alternative first: the others are in its clause.
    have hone := parse_elseBranch hchains hstart (h.chain hchains hnext) rest
    have hinner := ih (hstart.nest h) (Keyword.endKw.actionText ++ rest)
    rw [heq] at hinner
    simp only [chained, nested, heq, List.append_assoc] at hone hinner ⊢
    exact hone.trans hinner

/-- A loop up to a branch in it. -/
def loopStart : List Char :=
  "\x7b\x7brange $i, $x := .L\x7d\x7d\x7b\x7bif .A\x7d\x7da".toList

/-- Clauses with a variable of their own, a variable of the loop and a `break`. -/
def loopClauses : List (List Char) :=
  [" $y := .B\x7d\x7db\x7b\x7b$y\x7d\x7d".toList,
    " .C\x7d\x7d\x7b\x7bbreak\x7d\x7d\x7b\x7belse\x7d\x7d\x7b\x7b$x\x7d\x7d".toList]

/-- An `if` chained in a loop gives the tree of the nested `if`. -/
theorem parse_chained_loop :
    (parse {} (loopStart ++ chained .ifBranch loopClauses ++
        Keyword.endKw.actionText)).toOption.isSome = true ∧
      (parse {} (loopStart ++ chained .ifBranch loopClauses ++
          Keyword.endKw.actionText)).toOption.map Tree.shape =
        (parse {} (loopStart ++ nested .ifBranch loopClauses ++
          Keyword.endKw.actionText)).toOption.map Tree.shape := by
  have hstart : EndsInBranch .ifBranch loopStart :=
    ⟨⟨[.branch .rangeBranch, .branch .ifBranch], [.branch .rangeBranch false], by decide +kernel,
      rfl⟩, by decide +kernel⟩
  have hclauses : Clauses .ifBranch loopClauses :=
    .cons ⟨⟨[.other], by decide +kernel, rfl⟩, by decide +kernel⟩
      (.last ⟨⟨[.other, .elseAlone, .other], by decide +kernel, rfl⟩, by decide +kernel⟩)
  exact ⟨by decide +kernel, parse_chained rfl hstart hclauses _⟩

end FieldAudit.Template
