import FieldAudit.Proofs.JsonText
import FieldAudit.Report
import Mathlib.Data.List.Basic

/-! # The structured report

What is written of a value is a JSON text of that value (`Json.denotes_pretty`).  So the decoding
of the structured report gives back every result, and reports of results that differ in what is
told of them differ (`json_denotes`). -/

namespace FieldAudit.Report

open JsonText

namespace Json

mutual

/-- The value that is written. -/
def value : Json → JsonValue
  | .text value => .string value
  | .number value => .number value
  | .array items => .array (values items)
  | .object fields => .object (members fields)

def values : List Json → List JsonValue
  | [] => []
  | item :: rest => value item :: values rest

def members : List (String × Json) → List (String × JsonValue)
  | [] => []
  | (name, field) :: rest => (name, value field) :: members rest

end

/-- The values of a list of items are the values of each. -/
theorem values_eq_map (items : List Json) : values items = items.map value := by
  induction items with
  | nil => rfl
  | cons item rest ih => rw [values, ih, List.map_cons]

/-! ## Tokens -/

/-- A written text starts with a character that is no blank. -/
theorem skip_of_not_isBlank {c : Char} (text : List Char) (h : isBlank c = false) :
    skip (c :: text) = c :: text :=
  List.dropWhile_cons_of_neg (by simp [h])

/-- A line break and its indentation are blank. -/
@[simp] theorem skip_newLine (level : Nat) (text : List Char) :
    skip (newLine level ++ text) = skip text := by
  have hblank : ∀ c ∈ newLine level, isBlank c = true := by
    intro c hc
    rw [newLine, List.mem_cons, List.mem_replicate] at hc
    rcases hc with rfl | ⟨-, rfl⟩ <;> rfl
  exact List.dropWhile_append_of_pos hblank

/-- Two hexadecimal digits give a control character back. -/
theorem codeUnit?_control : ∀ n < 32,
    codeUnit? '0' '0' (hexDigit (n / 16)) (hexDigit (n % 16)) = some n := by
  decide

/-- A character is read back from the way it is written. -/
theorem characters_escaped (c : Char) {text value rest : List Char}
    (h : Characters text value rest) : Characters (escaped c ++ text) (c :: value) rest := by
  unfold escaped
  split_ifs with hquote hslash hb ht hn hf hr hcontrol
  · subst hquote
    exact .short rfl h
  · subst hslash
    exact .short rfl h
  · subst hb
    exact .short rfl h
  · subst ht
    exact .short rfl h
  · subst hn
    exact .short rfl h
  · subst hf
    exact .short rfl h
  · subst hr
    exact .short rfl h
  · have hread := Characters.unit (codeUnit?_control c.toNat hcontrol) (by omega) h
    rw [Char.ofNat_toNat] at hread
    exact hread
  · exact .plain (by omega) hquote hslash h

/-- Escaped text is read back as the text it escapes. -/
theorem characters_flatMap (value rest : List Char) :
    Characters (value.flatMap escaped ++ '\x22' :: rest) value rest := by
  induction value with
  | nil => exact .close rest
  | cons c value ih =>
    rw [List.flatMap_cons, List.append_assoc]
    exact characters_escaped c ih

/-- A quoted text is its escapes between quotes. -/
theorem quoted_append (value : String) (rest : List Char) :
    quoted value ++ rest = '\x22' :: (value.toList.flatMap escaped ++ '\x22' :: rest) := by
  simp [quoted, Text.doubleQuote]

/-- What follows a written value: a comma, a line end or nothing. -/
def Follows (rest : List Char) : Prop :=
  ∀ c ∈ rest.head?, c = ',' ∨ c = '\n'

/-- The digits of a positive number do not start with a zero. -/
theorem head?_toDigits_ne {n : Nat} (hn : 0 < n) (rest : List Char) :
    (Nat.toDigits 10 n ++ rest).head? ≠ some '0' := by
  induction n using Nat.strongRecOn generalizing rest with
  | ind n ih =>
    rw [Nat.toDigits_eq_if (by decide)]
    by_cases hlt : n < 10
    · rw [if_pos hlt]
      have hdigit : ∀ m < 10, 0 < m → Nat.digitChar m ≠ '0' := by decide
      intro heq
      exact hdigit n hlt hn (Option.some.inj heq)
    · rw [if_neg hlt, List.append_assoc]
      exact ih (n / 10) (by omega) (by omega) _

/-- The digits of a number are read as far as they go. -/
theorem digits_toDigits (n : Nat) {rest : List Char} (hrest : Follows rest) :
    Digits (Nat.toDigits 10 n ++ rest) (Nat.toDigits 10 n) rest := by
  have hdigits : ∀ c ∈ Nat.toDigits 10 n, c.isDigit = true := fun c hc =>
    Nat.isDigit_of_mem_toDigits (by decide) (by decide) hc
  have hstop : ∀ c ∈ rest.head?, c.isDigit = false := by
    intro c hc
    rcases hrest c hc with rfl | rfl <;> rfl
  refine ⟨Nat.toDigits_ne_nil, ?_, ?_⟩
  · rw [List.takeWhile_append_of_pos hdigits]
    cases rest with
    | nil => simp
    | cons c rest => simp [hstop c rfl]
  · rw [List.dropWhile_append_of_pos hdigits]
    cases rest with
    | nil => rfl
    | cons c rest => simp [hstop c rfl]

/-- The digits of a number are read as that number. -/
theorem whole_toString (n : Nat) {rest : List Char} (hrest : Follows rest) :
    Whole ((toString n).toList ++ rest) n rest := by
  rw [Nat.toString_eq_ofList_toDigits, String.toList_ofList]
  rcases Nat.eq_zero_or_pos n with rfl | hn
  · exact .zero rest
  · have h := Whole.digits (head?_toDigits_ne hn rest) (digits_toDigits n hrest)
    rwa [natural, Nat.ofDigitChars_ten_toDigits] at h

/-- A whole number is read as a number without fraction or exponent. -/
theorem number_toString (n : Nat) {rest : List Char} (hrest : Follows rest) :
    Number ((toString n).toList ++ rest) n rest := by
  -- Neither a fraction nor an exponent starts with what follows.
  have hfraction : Fraction rest 0 rest := by
    refine .none fun hpoint => ?_
    rcases hrest '.' hpoint with h | h <;> cases h
  have hexponent : Exponent rest 0 rest := by
    refine .none fun c hc => ?_
    rcases hrest c hc with rfl | rfl <;> rfl
  have h := Number.unsigned (whole_toString n hrest) hfraction hexponent
  rwa [add_zero, zpow_zero, mul_one] at h

/-! ## Values -/

/-- A number may stand in front of a line break. -/
theorem Follows.newLine (level : Nat) (rest : List Char) : Follows (newLine level ++ rest) :=
  fun _ hc => .inr (Option.some.inj hc).symm

/-- A number may stand in front of a comma. -/
theorem Follows.comma (rest : List Char) : Follows (',' :: rest) :=
  fun _ hc => .inl (Option.some.inj hc).symm

/-- A bracketed list is its joined items between brackets, on lines of their own. -/
theorem bracketed_append {items : List (List Char)} (opening closing : Char) (level : Nat)
    (hitems : items ≠ []) (rest : List Char) :
    bracketed opening closing level items ++ rest
      = opening :: (newLine (level + 1) ++ (Text.join (',' :: newLine (level + 1)) items
          ++ (newLine level ++ closing :: rest))) := by
  rw [bracketed, if_neg (by simp [hitems])]
  simp

/-- A printed value begins with a character that is not blank. -/
theorem exists_pretty_cons (level : Nat) (v : Json) :
    ∃ c more, v.pretty level = c :: more ∧ isBlank c = false := by
  have hbracketed (opening closing : Char) (items : List (List Char)) :
      ∃ more, bracketed opening closing level items = opening :: more := by
    unfold bracketed
    split
    · exact ⟨_, rfl⟩
    · exact ⟨_, rfl⟩
  cases v with
  | text value => exact ⟨Text.doubleQuote, _, rfl, rfl⟩
  | number n =>
    rw [pretty, Nat.toString_eq_ofList_toDigits, String.toList_ofList]
    obtain ⟨c, more, hdigits⟩ := List.exists_cons_of_ne_nil (Nat.toDigits_ne_nil (n := n) (b := 10))
    have hdigit : c.isDigit = true := by
      refine Nat.isDigit_of_mem_toDigits (b := 10) (n := n) (by decide) (by decide) ?_
      rw [hdigits]
      exact List.mem_cons_self
    refine ⟨c, more, hdigits, ?_⟩
    simp only [isBlank, Bool.or_eq_false_iff, decide_eq_false_iff_not]
    refine ⟨⟨⟨?_, ?_⟩, ?_⟩, ?_⟩ <;> rintro rfl <;> cases hdigit
  | array items =>
    obtain ⟨more, h⟩ := hbracketed '[' ']' (prettyItems (level + 1) items)
    exact ⟨'[', more, h, rfl⟩
  | object fields =>
    obtain ⟨more, h⟩ := hbracketed '\x7b' '\x7d' (prettyFields (level + 1) fields)
    exact ⟨'\x7b', more, h, rfl⟩

/-- No blanks precede a printed value. -/
theorem skip_pretty (level : Nat) (v : Json) (rest : List Char) :
    skip (v.pretty level ++ rest) = v.pretty level ++ rest := by
  obtain ⟨c, more, hv, hc⟩ := exists_pretty_cons level v
  rw [hv]
  exact skip_of_not_isBlank _ hc

/-- No blanks precede a quoted text. -/
theorem skip_quoted (value : String) (rest : List Char) :
    skip (quoted value ++ rest) = quoted value ++ rest :=
  skip_of_not_isBlank _ rfl

/-- A printed member is read back if its value is. -/
theorem member_pretty {level : Nat} {v : Json} {rest : List Char}
    (h : Reads (v.pretty level ++ rest) v.value rest) (name : String) :
    Member (quoted name ++ (':' :: ' ' :: v.pretty level ++ rest)) (name, v.value) rest := by
  rw [quoted_append]
  have hskip : skip (' ' :: (v.pretty level ++ rest)) = v.pretty level ++ rest :=
    skip_pretty level v rest
  have hmember := Member.named (characters_flatMap name.toList _)
    (skip_of_not_isBlank _ (by rfl : isBlank ':' = false)) (hskip.symm ▸ h)
  rwa [String.ofList_toList] at hmember

mutual

/-- A printed value is read back as the value it stands for. -/
theorem reads_pretty (level : Nat) (v : Json) {rest : List Char} (hrest : Follows rest) :
    Reads (v.pretty level ++ rest) v.value rest := by
  match v with
  | .text value =>
    rw [pretty, quoted_append, Json.value]
    have h := Reads.string (characters_flatMap value.toList rest)
    rwa [String.ofList_toList] at h
  | .number n =>
    rw [pretty, Json.value]
    exact .number (number_toString n hrest)
  | .array [] => exact .emptyArray (skip_of_not_isBlank rest rfl)
  | .array (item :: items) =>
    rw [pretty, bracketed_append _ _ _ (by simp [prettyItems])]
    refine .array ?_
    rw [skip_newLine]
    exact elements_prettyItems (level + 1) level (item :: items) (by simp) rest
  | .object [] => exact .emptyObject (skip_of_not_isBlank rest rfl)
  | .object (field :: fields) =>
    rw [pretty, bracketed_append _ _ _ (by simp [prettyFields])]
    refine .object ?_
    rw [skip_newLine]
    exact members_prettyFields (level + 1) level (field :: fields) (by simp) rest

/-- The printed items of an array are read back one by one. -/
theorem elements_prettyItems (level outer : Nat) (items : List Json) (hitems : items ≠ [])
    (rest : List Char) :
    Elements (skip (Text.join (',' :: newLine level) (prettyItems level items)
      ++ (newLine outer ++ ']' :: rest))) (values items) rest := by
  match items, hitems with
  | [item], _ =>
    simp only [prettyItems, Text.join, values]
    rw [skip_pretty]
    refine .last (reads_pretty level item (.newLine outer _)) ?_
    rw [skip_newLine]
    exact skip_of_not_isBlank rest rfl
  | item :: next :: items, _ =>
    simp only [prettyItems, Text.join, values]
    rw [List.append_assoc, List.append_assoc, List.cons_append, skip_pretty]
    refine .more (reads_pretty level item (.comma _)) (skip_of_not_isBlank _ rfl) ?_
    rw [skip_newLine]
    exact elements_prettyItems level outer (next :: items) (by simp) rest

/-- The printed members of an object are read back one by one. -/
theorem members_prettyFields (level outer : Nat) (fields : List (String × Json))
    (hfields : fields ≠ []) (rest : List Char) :
    Members (skip (Text.join (',' :: newLine level) (prettyFields level fields)
      ++ (newLine outer ++ '\x7d' :: rest))) (members fields) rest := by
  match fields, hfields with
  | [(name, field)], _ =>
    simp only [prettyFields, Text.join, members]
    rw [List.append_assoc, skip_quoted]
    refine .last (member_pretty (reads_pretty level field (.newLine outer _)) name) ?_
    rw [skip_newLine]
    exact skip_of_not_isBlank rest rfl
  | (name, field) :: next :: fields, _ =>
    simp only [prettyFields, Text.join, members]
    rw [List.append_assoc, List.append_assoc, List.append_assoc, List.cons_append (a := ','),
      skip_quoted]
    refine .more (member_pretty (reads_pretty level field (.comma _)) name)
      (skip_of_not_isBlank _ rfl) ?_
    rw [skip_newLine]
    exact members_prettyFields level outer (next :: fields) (by simp) rest

end

/-- What is written of a value, with a line end after it, is a text of that value. -/
theorem denotes_pretty (v : Json) : Denotes (v.pretty 0 ++ ['\n']) v.value := by
  refine ⟨['\n'], ?_, rfl⟩
  rw [skip_pretty]
  exact reads_pretty 0 v fun _ hc => .inr (Option.some.inj hc).symm

end Json

/-! ## The report -/

/-- What the structured report tells of a missing field. -/
structure ReportedField where
  template : String
  line : Nat
  column : Nat
  file : String
  fileLine : Nat
  key : String
  call : String
  deriving DecidableEq

/-- What the structured report tells of a template. -/
structure ReportedResult where
  template : String
  missing : List ReportedField
  deriving DecidableEq

def ReportedField.of (missing : MissingField) : ReportedField where
  template := missing.template
  line := missing.line
  column := missing.column
  file := missing.file
  fileLine := missing.fileLine
  key := missing.key
  call := missing.receiver ++ "." ++ missing.method

def ReportedResult.of (result : CheckResult) : ReportedResult where
  template := result.template
  missing := result.missing.map .of

/-- The value of a missing field: an object for its place in the template and one for the call. -/
def ReportedField.value (field : ReportedField) : JsonValue :=
  .object
    [("template", .object
      [("file", .string field.template), ("line", .number field.line),
       ("col", .number field.column)]),
     ("source", .object
      [("file", .string field.file), ("line", .number field.fileLine), ("key", .string field.key),
       ("call", .string field.call)])]

/-- The value of a template: its path and the values of its missing fields. -/
def ReportedResult.value (result : ReportedResult) : JsonValue :=
  .object
    [("template", .string result.template),
     ("missing", .array (result.missing.map ReportedField.value))]

/-- Reported fields with equal values are equal. -/
theorem ReportedField.value_injective : Function.Injective ReportedField.value := by
  rintro ⟨⟩ ⟨⟩ h
  simpa [ReportedField.value, and_assoc] using h

/-- Reported results with equal values are equal. -/
theorem ReportedResult.value_injective : Function.Injective ReportedResult.value := by
  rintro ⟨template, missing⟩ ⟨template', missing'⟩ h
  have hmap : Function.Injective (List.map ReportedField.value) :=
    List.map_injective_iff.2 ReportedField.value_injective
  simpa [ReportedResult.value, hmap.eq_iff] using h

/-- The object of a result is the value of what it reports. -/
theorem value_resultJson (result : CheckResult) :
    (resultJson result).value = (ReportedResult.of result).value := by
  have hmissing : (result.missing.map missingJson).map Json.value
      = (result.missing.map ReportedField.of).map ReportedField.value := by
    rw [List.map_map, List.map_map]
    exact List.map_congr_left fun missing _ => rfl
  simp only [resultJson, Json.value, Json.members, Json.values_eq_map, hmissing]
  rfl

/-- The report denotes the array of what it reports. -/
theorem denotes_json (results : List CheckResult) :
    Denotes (json results).toList
      (.array ((results.map ReportedResult.of).map ReportedResult.value)) := by
  have hvalues : (results.map resultJson).map Json.value
      = (results.map ReportedResult.of).map ReportedResult.value := by
    rw [List.map_map, List.map_map]
    exact List.map_congr_left fun result _ => value_resultJson result
  have h := Json.denotes_pretty (.array (results.map resultJson))
  rw [Json.value, Json.values_eq_map, hvalues] at h
  rwa [json, String.toList_ofList]

/-- What depends on the values of `f` alone does so on lists as well. -/
theorem factorsThrough_map {α β γ : Type} {f : α → β} {g : α → γ}
    (h : Function.FactorsThrough g f) : Function.FactorsThrough (List.map g) (List.map f) := by
  intro xs ys heq
  induction xs generalizing ys with
  | nil =>
    cases ys with
    | nil => rfl
    | cons y ys => cases heq
  | cons x xs ih =>
    cases ys with
    | nil => cases heq
    | cons y ys =>
      obtain ⟨hhead, htail⟩ := List.cons.inj heq
      rw [List.map_cons, List.map_cons, h hhead, ih htail]

/-- The report depends on nothing else. -/
theorem resultJson_factorsThrough : Function.FactorsThrough resultJson ReportedResult.of := by
  have hfield : Function.FactorsThrough missingJson ReportedField.of := by
    intro a b heq
    simp only [ReportedField.of, ReportedField.mk.injEq] at heq
    simp [missingJson, MissingField.call, heq]
  intro a b heq
  obtain ⟨htemplate, hmissing⟩ := ReportedResult.mk.inj heq
  rw [resultJson, htemplate, factorsThrough_map hfield hmissing]
  rfl

/-- The structured report is a JSON text with one decoding: an array with an object for each result
in their order, which gives back the template and every missing field.  So two reports are the same
text just when all that is told of their results is the same. -/
theorem json_denotes (results results' : List CheckResult) :
    (∀ value, Denotes (json results).toList value ↔
        value = .array ((results.map ReportedResult.of).map ReportedResult.value))
      ∧ (json results = json results' ↔
          results.map ReportedResult.of = results'.map ReportedResult.of) := by
  refine ⟨fun value => ⟨fun h => h.unique (denotes_json results), ?_⟩, ?_, ?_⟩
  · rintro rfl
    exact denotes_json results
  · intro heq
    have hvalue := (denotes_json results).unique (heq ▸ denotes_json results')
    exact List.map_injective_iff.2 ReportedResult.value_injective (JsonValue.array.inj hvalue)
  · intro heq
    rw [json, factorsThrough_map resultJson_factorsThrough heq]
    rfl

end FieldAudit.Report
