import FieldAudit.Check
import FieldAudit.Proofs.ByteOrder
import Mathlib.Data.List.Flatten
import Mathlib.Data.List.Forall2
import Mathlib.Data.List.Nodup
import Mathlib.Data.List.Perm.Basic

/-! # What a check finds

What the calls of a template lack is the sum of what each call lacks alone
(`missingFields_perm_alone`), and a call alone lacks each name of the references that is not among
its keys, as often as it occurs (`map_key_missingFields`).  So the order of the calls does not
matter, and more keys can only take findings away (`missingFields_sublist`).  A check does this for
every template on its own, in byte order of the templates (`check_exact`). -/

namespace FieldAudit

open Render (Usage)
open Template (FieldReference)
open List (Forall₂)
open scoped List

/-! ## One template -/

/-- What some calls lack of one name in one reference. -/
def missingAt (usages : List Usage) (reference : FieldReference) (key : String) :
    List MissingField :=
  (usages.filter fun usage => !usage.keys.contains key).map (MissingField.of reference key)

/-- Missing fields are reported use by use, and in each name by name. -/
theorem missingFields_eq_flatMap (references : List FieldReference) (usages : List Usage) :
    missingFields references usages =
      references.flatMap fun reference => reference.chain.flatMap (missingAt usages reference) :=
  rfl

/-- What is missing from a list of usages is what is missing from each part. -/
theorem missingAt_append (left right : List Usage) (reference : FieldReference) (key : String) :
    missingAt (left ++ right) reference key =
      missingAt left reference key ++ missingAt right reference key := by
  rw [missingAt, List.filter_append, List.map_append]
  rfl

/-- More usages miss what each part misses, up to order. -/
theorem missingFields_append_perm (references : List FieldReference) (left right : List Usage) :
    (missingFields references (left ++ right)).Perm
      (missingFields references left ++ missingFields references right) := by
  simp only [missingFields_eq_flatMap]
  -- For each name the calls stay in order; they come apart over all names and references.
  refine .trans (.flatMap_left _ fun reference _ => ?_) (List.flatMap_append_perm ..).symm
  rw [funext (missingAt_append left right reference)]
  exact (List.flatMap_append_perm ..).symm

/-- What calls lack is what each of them lacks alone. -/
theorem missingFields_perm_alone (references : List FieldReference) (usages : List Usage) :
    (missingFields references usages).Perm
      (usages.flatMap fun usage => missingFields references [usage]) := by
  induction usages with
  | nil => simp [missingFields]
  | cons usage usages ih =>
    rw [List.flatMap_cons]
    exact (missingFields_append_perm references [usage] usages).trans (ih.append_left _)

/-- The order of the usages has no part in what is missing. -/
theorem missingFields_perm (references : List FieldReference) {usages usages' : List Usage}
    (h : usages'.Perm usages) :
    (missingFields references usages').Perm (missingFields references usages) :=
  calc missingFields references usages'
    _ ~ usages'.flatMap fun usage => missingFields references [usage] :=
      missingFields_perm_alone ..
    _ ~ usages.flatMap fun usage => missingFields references [usage] := h.flatMap_right _
    _ ~ missingFields references usages := (missingFields_perm_alone ..).symm

/-- Nothing is missing exactly if no usage lacks a name that is used. -/
theorem missingFields_eq_nil_iff {references : List FieldReference} {usages : List Usage} :
    missingFields references usages = [] ↔
      usages = [] ∨ ∀ usage ∈ usages, ∀ reference ∈ references, ∀ key ∈ reference.chain,
        key ∈ usage.keys := by
  simp only [missingFields, List.flatMap_eq_nil_iff, List.map_eq_nil_iff, List.filter_eq_nil_iff,
    Bool.not_eq_true', Bool.not_eq_false, List.contains_iff_mem]
  constructor
  · exact fun h => .inr fun usage hu reference hr key hk => h reference hr key hk usage hu
  · rintro (rfl | h)
    · rintro reference hr key hk usage ⟨⟩
    · exact fun reference hr key hk usage hu => h usage hu reference hr key hk

/-- A call alone lacks the names that are not among its keys, in the order of the references. -/
theorem map_key_missingFields (references : List FieldReference) (usage : Usage) :
    (missingFields references [usage]).map MissingField.key =
      (references.flatMap FieldReference.chain).filter fun key => !usage.keys.contains key := by
  have hone (reference : FieldReference) (key : String) :
      (missingAt [usage] reference key).map MissingField.key =
        [key].filter fun key => !usage.keys.contains key := by
    by_cases h : key ∈ usage.keys <;> simp [missingAt, MissingField.of, h]
  have hchain (reference : FieldReference) :
      (reference.chain.flatMap (missingAt [usage] reference)).map MissingField.key =
        reference.chain.filter fun key => !usage.keys.contains key := by
    rw [List.map_flatMap, List.flatMap_congr fun key _ => hone reference key,
      ← List.filter_flatMap, List.flatMap_singleton']
  rw [missingFields_eq_flatMap, List.map_flatMap, List.filter_flatMap]
  exact List.flatMap_congr fun reference _ => hchain reference

/-- A call alone lacks a name as often as it occurs, unless it is among the keys. -/
theorem countP_missingFields_alone (references : List FieldReference) (usage : Usage)
    (key : String) :
    (missingFields references [usage]).countP (·.key = key) =
      if key ∈ usage.keys then 0 else (references.flatMap FieldReference.chain).count key := by
  have hcount : (missingFields references [usage]).countP (·.key = key) =
      ((missingFields references [usage]).map MissingField.key).count key := by
    rw [List.count, List.countP_map]
    rfl
  rw [hcount, map_key_missingFields]
  split_ifs with h
  · exact List.count_eq_zero.2 fun hmem => by simp [h] at hmem
  · exact List.count_filter (by simpa using h)

/-- A call with more keys, and else the same. -/
def Extends (usage usage' : Usage) : Prop :=
  usage.keys ⊆ usage'.keys ∧ usage' = { usage with keys := usage'.keys }

/-- Usages that pass more names miss no more. -/
theorem missingAt_sublist {usages usages' : List Usage} (h : Forall₂ Extends usages usages')
    (reference : FieldReference) (key : String) :
    (missingAt usages' reference key).Sublist (missingAt usages reference key) := by
  induction h with
  | nil => exact .refl _
  | @cons usage usage' usages usages' hu _ ih =>
    rw [← List.singleton_append, missingAt_append, ← List.singleton_append (l := usages),
      missingAt_append]
    refine .append ?_ ih
    obtain ⟨hkeys, he⟩ := hu
    -- A finding of the call with more keys is one of the call itself: it tells nothing of the keys.
    by_cases hk : key ∈ usage.keys
    · simp [missingAt, hk, hkeys hk]
    · have hsame : MissingField.of reference key usage' = .of reference key usage := by rw [he]; rfl
      by_cases hk' : key ∈ usage'.keys <;> simp [missingAt, hk, hk', hsame]

/-- More keys can only take findings away. -/
theorem missingFields_sublist (references : List FieldReference) {usages usages' : List Usage}
    (h : Forall₂ Extends usages usages') :
    (missingFields references usages').Sublist (missingFields references usages) :=
  .flatMap_right _ fun reference _ =>
    .flatMap_right _ fun key _ => missingAt_sublist h reference key

/-! ## All templates -/

/-- The calls that render a template. -/
def usagesFor (usages : List (String × List Usage)) (template : String) : List Usage :=
  (usages.lookup template).getD []

/-- The result for one template. -/
def resultFor (usages : List (String × List Usage)) (entry : String × List FieldReference) :
    CheckResult :=
  ⟨entry.1, missingFields entry.2 (usagesFor usages entry.1)⟩

variable {fields : List (String × List FieldReference)}
variable {usages usages' : List (String × List Usage)}

/-- The check reports the templates in order, each by itself. -/
theorem check_eq_map :
    check fields usages =
      (fields.mergeSort fun a b => Text.le a.1 b.1).map (resultFor usages) :=
  rfl

/-- Each result of the check is that of one template. -/
theorem mem_check {result : CheckResult} :
    result ∈ check fields usages ↔ ∃ entry ∈ fields, resultFor usages entry = result := by
  rw [check_eq_map, List.mem_map]
  simp only [List.mem_mergeSort]

/-- Each template has one result. -/
theorem map_template_check_perm :
    ((check fields usages).map CheckResult.template).Perm (fields.map Prod.fst) := by
  rw [check_eq_map, List.map_map]
  exact (List.mergeSort_perm ..).map _

/-- The results come in byte order of the templates. -/
theorem check_pairwise (hf : (fields.map Prod.fst).Nodup) :
    (check fields usages).Pairwise fun r r' => Text.bytes r.template < Text.bytes r'.template := by
  rw [check_eq_map, List.pairwise_map]
  exact Text.mergeSort_bytes_lt hf

/-- Two checks of the same templates are compared template by template. -/
theorem forall₂_check {R : CheckResult → CheckResult → Prop}
    (h : ∀ entry ∈ fields, R (resultFor usages entry) (resultFor usages' entry)) :
    Forall₂ R (check fields usages) (check fields usages') := by
  rw [check_eq_map, check_eq_map, List.forall₂_map_left_iff, List.forall₂_map_right_iff,
    List.forall₂_same]
  exact fun entry hentry => h entry (List.mem_mergeSort.1 hentry)

/-- The result of a template depends on its own usages only. -/
theorem resultFor_congr {entry : String × List FieldReference}
    (h : usages'.lookup entry.1 = usages.lookup entry.1) :
    resultFor usages' entry = resultFor usages entry := by
  rw [resultFor, resultFor, usagesFor, usagesFor, h]

/-- What a check of templates against calls promises. -/
structure ExactCheck (fields : List (String × List FieldReference))
    (usages : List (String × List Usage)) : Prop where
  /-- There is one result for each template. -/
  templates : (check fields usages).map CheckResult.template ~ fields.map Prod.fst
  /-- The results come in byte order of the templates. -/
  ordered : (check fields usages).Pairwise fun r r' =>
    Text.bytes r.template < Text.bytes r'.template
  /-- Nothing is missing exactly if no call renders the template or every call supplies every name
  of every reference. -/
  nothing_iff : ∀ r ∈ check fields usages, ∀ references, (r.template, references) ∈ fields →
    (r.missing = [] ↔ usagesFor usages r.template = [] ∨
      ∀ usage ∈ usagesFor usages r.template, ∀ reference ∈ references, ∀ key ∈ reference.chain,
        key ∈ usage.keys)
  /-- What is missing is what each call lacks alone. -/
  alone : ∀ r ∈ check fields usages, ∀ references, (r.template, references) ∈ fields →
    r.missing ~ (usagesFor usages r.template).flatMap fun usage => missingFields references [usage]
  /-- A call alone lacks a name as often as it occurs, unless the call supplies it. -/
  count_alone : ∀ entry ∈ fields, ∀ usage key,
    (missingFields entry.2 [usage]).countP (·.key = key) =
      if key ∈ usage.keys then 0 else (entry.2.flatMap FieldReference.chain).count key
  /-- Another order of the calls of a template gives another order of what it lacks, and nothing
  else. -/
  reordered : ∀ usages' template,
    (∀ other, other ≠ template → usages'.lookup other = usages.lookup other) →
    usagesFor usages' template ~ usagesFor usages template →
    Forall₂ (fun r r' => r'.template = r.template ∧ r'.missing ~ r.missing ∧
      (r.template ≠ template → r' = r)) (check fields usages) (check fields usages')
  /-- More keys only take away from what is missing. -/
  extended : ∀ usages',
    (∀ template, Forall₂ Extends (usagesFor usages template) (usagesFor usages' template)) →
    Forall₂ (fun r r' => r'.template = r.template ∧ r'.missing <+ r.missing)
      (check fields usages) (check fields usages')
  /-- The calls of one template do not touch the results of the others. -/
  isolated : ∀ usages' template,
    (∀ other, other ≠ template → usages'.lookup other = usages.lookup other) →
    Forall₂ (fun r r' => r'.template = r.template ∧ (r.template ≠ template → r' = r))
      (check fields usages) (check fields usages')

/-- The result for a template is about its own references. -/
theorem missing_of_mem_check (hf : (fields.map Prod.fst).Nodup) {r : CheckResult}
    (hr : r ∈ check fields usages) {references : List FieldReference}
    (hreferences : (r.template, references) ∈ fields) :
    r.missing = missingFields references (usagesFor usages r.template) := by
  obtain ⟨entry, hentry, rfl⟩ := mem_check.1 hr
  have hsame : entry = (entry.1, references) :=
    List.inj_on_of_nodup_map hf hentry hreferences rfl
  show missingFields entry.2 _ = _
  rw [hsame]
  rfl

/-- A check is exact: it finds what each call lacks, in byte order of the templates and whatever
the order of the calls. -/
theorem check_exact (fields : List (String × List FieldReference))
    (hf : (fields.map Prod.fst).Nodup) (usages : List (String × List Usage)) :
    ExactCheck fields usages where
  templates := map_template_check_perm
  ordered := check_pairwise hf
  nothing_iff r hr references hreferences := by
    rw [missing_of_mem_check hf hr hreferences, missingFields_eq_nil_iff]
  alone r hr references hreferences := by
    rw [missing_of_mem_check hf hr hreferences]
    exact missingFields_perm_alone ..
  count_alone entry _ usage key := countP_missingFields_alone entry.2 usage key
  reordered usages' template hsame hperm := by
    refine forall₂_check fun entry _ => ⟨rfl, ?_, fun hne => resultFor_congr (hsame _ hne)⟩
    by_cases he : entry.1 = template
    · exact missingFields_perm _ (he ▸ hperm)
    · rw [resultFor_congr (hsame _ he)]
  extended usages' hmore :=
    forall₂_check fun entry _ => ⟨rfl, missingFields_sublist _ (hmore entry.1)⟩
  isolated usages' template hsame :=
    forall₂_check fun entry _ => ⟨rfl, fun hne => resultFor_congr (hsame _ hne)⟩

/-- Two templates are checked: one with fields missing, one that is never rendered. -/
theorem check_exact_two_templates :
    ExactCheck
      [("b.html", [⟨"b.html", 2, 1, 2, ["User", "Name"]⟩, ⟨"b.html", 20, 2, 4, ["Name"]⟩]),
       ("a.html", [⟨"a.html", 2, 1, 2, ["Title"]⟩])]
      [("b.html", [⟨"main.go", 7, 90, "set", "Execute", "b.html", ["User"]⟩,
        ⟨"main.go", 9, 140, "set", "Execute", "b.html", ["Name"]⟩])] :=
  check_exact _ (by decide) _

end FieldAudit
