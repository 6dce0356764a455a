import FieldAudit.Proofs.Reading.Passage
import Mathlib.Data.List.Induction
import Mathlib.Data.List.Nodup
import Mathlib.Data.List.Pairwise
import Mathlib.Tactic.Push

/-! # The table of defined templates

A template may define other templates, and one name may be defined more than once as long as all
but one of the blocks are blank.  `defineAll` makes the table of a sequence of definitions one by
one.  The table can also be said without an order of steps: the names in the order in which they
come first, each with its settled block (`Merges`).  `defineAll_cases` proves that the two agree,
and that a sequence without a table has two blocks for one name (`Rivals`), neither of them
blank. -/

namespace FieldAudit.Template

/-- A template as it is defined in a text: its name, the byte offset of the name, and its block. -/
structure Addition where
  pos : Nat
  name : String
  root : Block Node

namespace Addition

/-- Two definitions of one name, neither of them blank. -/
def Rivals (a b : Addition) : Prop :=
  a.name = b.name ∧ a.root.isBlank = false ∧ b.root.isBlank = false

instance (a b : Addition) : Decidable (a.Rivals b) :=
  inferInstanceAs (Decidable (_ ∧ _))

/-- Rivalry is mutual. -/
theorem Rivals.symm {a b : Addition} (h : a.Rivals b) : b.Rivals a :=
  ⟨h.1.symm, h.2.2, h.2.1⟩

end Addition

/-- The table after some more definitions, taken one after the other. -/
def defineAll (defines : List Definition) (added : List Addition) :
    Except Error (List Definition) :=
  added.foldlM (fun defines a => define a.pos a.name a.root defines) defines

@[simp] theorem defineAll_nil (defines : List Definition) : defineAll defines [] = .ok defines :=
  rfl

/-- Adding one list and then another is adding both in turn. -/
theorem defineAll_append (defines : List Definition) (first second : List Addition) :
    defineAll defines (first ++ second) =
      (defineAll defines first).bind (defineAll · second) :=
  List.foldlM_append

/-- Adding a list is adding its first and then the others. -/
theorem defineAll_cons (defines : List Definition) (a : Addition) (rest : List Addition) :
    defineAll defines (a :: rest) =
      (define a.pos a.name a.root defines).bind (defineAll · rest) :=
  List.foldlM_cons

/-! ## The settled block of a name -/

/-- The block that is settled on among blocks for one name: the first that is not blank, or else
the last. -/
def settle (roots : List (Block Node)) : Option (Block Node) :=
  (roots.find? (!·.isBlank)).or roots.getLast?

/-- The blocks for a name. -/
def rootsOf (added : List Addition) (name : String) : List (Block Node) :=
  (added.filter (·.name = name)).map (·.root)

/-- What a definition does to the settled block: it takes the place of a blank one. -/
theorem settle_concat (roots : List (Block Node)) (root : Block Node) :
    settle (roots ++ [root]) =
      some ((settle roots).elim root fun r => if r.isBlank then root else r) := by
  unfold settle
  rw [List.find?_append, List.getLast?_append]
  cases hfind : roots.find? (!·.isBlank) with
  | some r =>
    have hr : r.isBlank = false := by simpa using List.find?_some hfind
    simp [hr]
  | none =>
    -- All blocks so far are blank, and so is the last of them.
    have hblank : ∀ r ∈ roots, r.isBlank = true := by simpa using hfind
    cases hlast : roots.getLast? with
    | none => cases hroot : root.isBlank <;> simp [hroot]
    | some r =>
      have hr : r.isBlank = true := hblank r (List.mem_of_getLast? hlast)
      cases hroot : root.isBlank <;> simp [hr, hroot]

/-- The newest addition under a name comes last among the roots of that name. -/
theorem rootsOf_concat_self (added : List Addition) (a : Addition) :
    rootsOf (added ++ [a]) a.name = rootsOf added a.name ++ [a.root] := by
  simp [rootsOf]

/-- An addition under another name changes nothing. -/
theorem rootsOf_concat_of_ne {a : Addition} {name : String} (h : a.name ≠ name)
    (added : List Addition) : rootsOf (added ++ [a]) name = rootsOf added name := by
  simp [rootsOf, h]

/-- The roots of a name are those that were added under it. -/
theorem mem_rootsOf {added : List Addition} {name : String} {root : Block Node} :
    root ∈ rootsOf added name ↔ ∃ a ∈ added, a.name = name ∧ a.root = root := by
  simp [rootsOf, and_assoc]

/-- A settled block is blank only if all blocks for its name are. -/
theorem isBlank_of_settle {roots : List (Block Node)} {root : Block Node}
    (h : settle roots = some root) (hroot : root.isBlank = true) :
    ∀ r ∈ roots, r.isBlank = true := by
  unfold settle at h
  cases hfind : roots.find? (!·.isBlank) with
  | none => simpa using hfind
  | some r =>
    have hr : r.isBlank = false := by simpa using List.find?_some hfind
    rw [hfind, Option.some_or, Option.some.injEq] at h
    rw [h, hroot] at hr
    cases hr

/-- The root that is settled on is one of those that were added. -/
theorem mem_of_settle {roots : List (Block Node)} {root : Block Node}
    (h : settle roots = some root) : root ∈ roots := by
  rcases Option.or_eq_some_iff.1 h with h | ⟨-, h⟩
  · exact List.mem_of_find?_eq_some h
  · exact List.mem_of_getLast? h

/-! ## One definition -/

/-- A name added at the end is new only if it was not there before. -/
theorem eraseDups_concat (names : List String) (name : String) :
    (names ++ [name]).eraseDups =
      if name ∈ names then names.eraseDups else names.eraseDups ++ [name] := by
  rw [List.eraseDups_append]
  by_cases h : name ∈ names
  · rw [if_pos h, List.removeAll, List.filter_cons_of_neg (by simpa using h)]
    simp
  · rw [if_neg h, List.removeAll, List.filter_cons_of_pos (by simpa using h)]
    simp [List.eraseDups_cons]

/-- A name of a table with distinct names stands at one place only. -/
theorem not_mem_of_distinct {front back : List Definition} {d : Definition}
    (h : ((front ++ d :: back).map Definition.name).Nodup) :
    d.name ∉ front.map Definition.name ∧ d.name ∉ back.map Definition.name := by
  rw [List.map_append, List.map_cons, List.nodup_middle, List.nodup_cons, List.mem_append,
    not_or] at h
  exact h.1

/-- The table that a sequence of definitions makes. -/
structure Merges (added : List Addition) (defines : List Definition) : Prop where
  /-- No name stands twice. -/
  distinct : (defines.map Definition.name).Nodup
  /-- The names come in the order in which they are first defined. -/
  names : defines.map Definition.name = (added.map Addition.name).eraseDups
  /-- Each name has its settled block. -/
  settled : ∀ d ∈ defines, settle (rootsOf added d.name) = some d.root

namespace Merges

variable {added : List Addition} {defines : List Definition}

/-- No additions make an empty table. -/
theorem nil : Merges [] [] :=
  ⟨List.nodup_nil, rfl, List.forall_mem_nil _⟩

/-- The names of the table are the names that were added. -/
theorem mem_names (h : Merges added defines) {name : String} :
    name ∈ defines.map Definition.name ↔ ∃ a ∈ added, a.name = name := by
  rw [h.names, List.mem_eraseDups, List.mem_map]

/-- A sequence of definitions makes one table only. -/
theorem unique {defines' : List Definition} (h : Merges added defines)
    (h' : Merges added defines') : defines = defines' := by
  have image {table : List Definition} (ht : Merges added table) :
      table.map (fun d => (d.name, some d.root)) =
        (added.map Addition.name).eraseDups.map fun name =>
          (name, settle (rootsOf added name)) := by
    rw [← ht.names, List.map_map]
    exact List.map_congr_left fun d hd => by rw [Function.comp_apply, ht.settled d hd]
  have injective : Function.Injective fun d : Definition => (d.name, some d.root) := by
    rintro ⟨name, root⟩ ⟨name', root'⟩ heq
    simpa using heq
  exact injective.list_map ((image h).trans (image h').symm)

/-- A name that is new goes to the end of the table. -/
theorem concat_new (h : Merges added defines) {a : Addition}
    (ha : a.name ∉ defines.map Definition.name) :
    define a.pos a.name a.root defines = .ok (defines ++ [⟨a.name, a.root⟩]) ∧
      Merges (added ++ [a]) (defines ++ [⟨a.name, a.root⟩]) := by
  have hnew : a.name ∉ added.map Addition.name := by
    rwa [← List.mem_eraseDups, ← h.names]
  have hnone : rootsOf added a.name = [] := by
    refine List.eq_nil_iff_forall_not_mem.2 fun root hroot => hnew ?_
    obtain ⟨b, hb, hname, -⟩ := mem_rootsOf.1 hroot
    exact List.mem_map.2 ⟨b, hb, hname⟩
  refine ⟨define_of_not_mem ha, ?_, ?_, ?_⟩
  · rw [List.map_append]
    exact h.distinct.append (List.nodup_singleton _) (by simpa using ha)
  · rw [List.map_append, List.map_append, h.names]
    exact ((eraseDups_concat _ _).trans (if_neg hnew)).symm
  · intro d hd
    rcases List.mem_append.1 hd with hd | hd
    · have hne : a.name ≠ d.name := fun heq => ha (heq ▸ List.mem_map_of_mem hd)
      rw [rootsOf_concat_of_ne hne]
      exact h.settled d hd
    · obtain rfl := List.mem_singleton.1 hd
      rw [rootsOf_concat_self, hnone, settle_concat]
      rfl

/-- A table stands if the block of one of its names is settled anew. -/
theorem concat_known {front back : List Definition} {d : Definition} {a : Addition}
    {root : Block Node} (h : Merges added (front ++ d :: back)) (ha : a.name = d.name)
    (hroot : settle (rootsOf (added ++ [a]) a.name) = some root) :
    Merges (added ++ [a]) (front ++ ⟨a.name, root⟩ :: back) := by
  -- The entry is replaced in place, so the names and their order stay.
  have hnames : (front ++ ⟨a.name, root⟩ :: back).map Definition.name =
      (front ++ d :: back).map Definition.name := by
    simp [ha]
  have hmem : a.name ∈ added.map Addition.name := by
    rw [← List.mem_eraseDups, ← h.names, ha]
    simp
  refine ⟨hnames ▸ h.distinct, ?_, ?_⟩
  · rw [hnames, h.names, List.map_append]
    exact ((eraseDups_concat _ _).trans (if_pos hmem)).symm
  · intro e he
    obtain ⟨hfront, hback⟩ := not_mem_of_distinct h.distinct
    -- Names are distinct, so the other entries are settled by the same additions as before.
    have hne {e : Definition} (he : e ∈ front ∨ e ∈ back) : a.name ≠ e.name := by
      intro heq
      rw [ha] at heq
      rcases he with he | he
      · exact hfront (heq ▸ List.mem_map_of_mem he)
      · exact hback (heq ▸ List.mem_map_of_mem he)
    have hkept {e : Definition} (he : e ∈ front ∨ e ∈ back) :
        settle (rootsOf (added ++ [a]) e.name) = some e.root := by
      rw [rootsOf_concat_of_ne (hne he)]
      exact h.settled e (by rcases he with he | he <;> simp [he])
    rcases List.mem_append.1 he with he | he
    · exact hkept (.inl he)
    · rcases List.mem_cons.1 he with rfl | he
      · exact hroot
      · exact hkept (.inr he)

/-- A definition without a rival goes into the table, and the table stays what it says. -/
theorem step (h : Merges added defines) {a : Addition} (ha : ∀ b ∈ added, ¬ b.Rivals a) :
    ∃ defines', define a.pos a.name a.root defines = .ok defines' ∧
      Merges (added ++ [a]) defines' := by
  by_cases hmem : a.name ∈ defines.map Definition.name
  · obtain ⟨d, hd, hname⟩ := List.mem_map.1 hmem
    have hsettled := h.settled d hd
    obtain ⟨front, back, rfl⟩ := List.append_of_mem hd
    have hfront : a.name ∉ front.map Definition.name :=
      hname ▸ (not_mem_of_distinct h.distinct).1
    have hnew : settle (rootsOf (added ++ [a]) a.name) =
        some (if d.root.isBlank then a.root else d.root) := by
      rw [rootsOf_concat_self, settle_concat, ← hname, hsettled]
      rfl
    refine ⟨_, ?_, h.concat_known hname.symm hnew⟩
    rw [define_append hfront, define, if_pos hname]
    cases hblank : d.root.isBlank with
    | true => rfl
    | false =>
      -- The block of the table is one of those before, and no rival.
      obtain ⟨b, hb, hbname, hbroot⟩ := mem_rootsOf.1 (mem_of_settle hsettled)
      have hroot : a.root.isBlank = true := by
        by_contra hfull
        refine ha b hb ⟨hbname.trans hname, ?_, by simpa using hfull⟩
        rw [hbroot, hblank]
      rw [if_neg Bool.false_ne_true, if_pos hroot, if_neg Bool.false_ne_true, ← hname]
      rfl
  · exact ⟨_, h.concat_new hmem⟩

/-- A definition with a rival does not go into the table. -/
theorem clash (h : Merges added defines) {a b : Addition} (hb : b ∈ added) (hr : b.Rivals a) :
    define a.pos a.name a.root defines = .error ⟨a.pos, .multipleDefinition a.name⟩ := by
  obtain ⟨hname, hbfull, hafull⟩ := hr
  obtain ⟨d, hd, hdname⟩ := List.mem_map.1 (h.mem_names.2 ⟨b, hb, hname⟩)
  have hblank : d.root.isBlank = false := by
    by_contra hblank
    have hall := isBlank_of_settle (h.settled d hd) (by simpa using hblank)
    rw [hall b.root (mem_rootsOf.2 ⟨b, hb, hname.trans hdname.symm, rfl⟩)] at hbfull
    cases hbfull
  obtain ⟨front, back, rfl⟩ := List.append_of_mem hd
  have hfront : a.name ∉ front.map Definition.name :=
    hdname ▸ (not_mem_of_distinct h.distinct).1
  rw [define_append hfront, define, if_pos hdname, if_neg (by simp [hblank]),
    if_neg (by simp [hafull])]
  rfl

/-- The block that is not blank is in the table. -/
theorem mem_of_full (h : Merges added defines) (hp : added.Pairwise (¬ ·.Rivals ·)) {a : Addition}
    (ha : a ∈ added) (hfull : a.root.isBlank = false) : ⟨a.name, a.root⟩ ∈ defines := by
  obtain ⟨d, hd, hname⟩ := List.mem_map.1 (h.mem_names.2 ⟨a, ha, rfl⟩)
  have hsettled := h.settled d hd
  have hdfull : d.root.isBlank = false := by
    by_contra hblank
    have hall := isBlank_of_settle hsettled (by simpa using hblank)
    rw [hall a.root (mem_rootsOf.2 ⟨a, ha, hname.symm, rfl⟩)] at hfull
    cases hfull
  obtain ⟨b, hb, hbname, hbroot⟩ := mem_rootsOf.1 (mem_of_settle hsettled)
  -- The settled block is that of a definition, which is this one: two would be rivals.
  have hab : a = b := by
    by_contra hne
    have : Std.Symm fun a b : Addition => ¬ a.Rivals b := ⟨fun _ _ hn hr => hn hr.symm⟩
    refine hp.forall ha hb hne ⟨?_, hfull, ?_⟩
    · rw [hbname, hname]
    · rw [hbroot, hdfull]
  subst hab
  rw [hbname, hbroot]
  exact hd

end Merges

/-! ## Any number of definitions -/

/-- The first of the definitions with a rival before it. -/
def FirstRival (added : List Addition) (a : Addition) : Prop :=
  ∃ before after, added = before ++ a :: after ∧ before.Pairwise (¬ ·.Rivals ·) ∧
    ∃ b ∈ before, b.Rivals a

/-- Definitions make their table, or stop at the first that has a rival before it. -/
theorem defineAll_cases (added : List Addition) :
    (added.Pairwise (¬ ·.Rivals ·) ∧
      ∃ defines, defineAll [] added = .ok defines ∧ Merges added defines) ∨
    (∃ a, FirstRival added a ∧
      defineAll [] added = .error ⟨a.pos, .multipleDefinition a.name⟩) := by
  -- From the end: the last addition meets the table of those before it, or they have failed
  -- already.
  induction added using List.reverseRecOn with
  | nil => exact .inl ⟨.nil, [], rfl, .nil⟩
  | append_singleton added a ih =>
    rcases ih with ⟨hp, defines, hd, hm⟩ | ⟨b, ⟨before, after, rfl, hp, hr⟩, he⟩
    · by_cases ha : ∀ b ∈ added, ¬ b.Rivals a
      · obtain ⟨defines', hd', hm'⟩ := hm.step ha
        refine .inl ⟨?_, defines', ?_, hm'⟩
        · rw [List.pairwise_append]
          exact ⟨hp, List.pairwise_singleton _ _, fun b hb c hc =>
            List.mem_singleton.1 hc ▸ ha b hb⟩
        · rw [defineAll_append, hd]
          show defineAll defines [a] = _
          rw [defineAll_cons, hd']
          rfl
      · push Not at ha
        obtain ⟨b, hb, hr⟩ := ha
        refine .inr ⟨a, ⟨added, [], rfl, hp, b, hb, hr⟩, ?_⟩
        rw [defineAll_append, hd]
        show defineAll defines [a] = _
        rw [defineAll_cons, hm.clash hb hr]
        rfl
    · refine .inr ⟨b, ⟨before, after ++ [a], by simp, hp, hr⟩, ?_⟩
      rw [defineAll_append, he]
      rfl

/-- Additions with a first rival are not free of rivals. -/
theorem not_pairwise_of_firstRival {added : List Addition} {a : Addition}
    (h : FirstRival added a) : ¬ added.Pairwise (¬ ·.Rivals ·) := by
  obtain ⟨before, after, rfl, -, b, hb, hr⟩ := h
  intro hp
  exact (List.pairwise_append.1 hp).2.2 b hb a List.mem_cons_self hr

/-- The definitions make a table exactly if no two are rivals, and it is the one that says which
block each name has. -/
theorem defineAll_eq_ok_iff {added : List Addition} {defines : List Definition} :
    defineAll [] added = .ok defines ↔ added.Pairwise (¬ ·.Rivals ·) ∧ Merges added defines := by
  rcases defineAll_cases added with ⟨hp, defines', hd, hm⟩ | ⟨a, hfirst, he⟩
  · constructor
    · intro h
      rw [hd] at h
      cases h
      exact ⟨hp, hm⟩
    · rintro ⟨-, hm'⟩
      rw [hd, hm.unique hm']
  · constructor
    · intro h
      rw [he] at h
      cases h
    · rintro ⟨hp, -⟩
      exact absurd hp (not_pairwise_of_firstRival hfirst)

/-- A whole list can be added exactly if no two of its members are rivals. -/
theorem exists_defineAll_iff {added : List Addition} :
    (∃ defines, defineAll [] added = .ok defines) ↔ added.Pairwise (¬ ·.Rivals ·) := by
  constructor
  · rintro ⟨defines, h⟩
    exact (defineAll_eq_ok_iff.1 h).1
  · intro hp
    rcases defineAll_cases added with ⟨-, defines, hd, -⟩ | ⟨a, hfirst, -⟩
    · exact ⟨defines, hd⟩
    · exact absurd hp (not_pairwise_of_firstRival hfirst)

/-- A blank block gives way to another, before or after it. -/
example :
    defineAll [] [⟨0, "a", ⟨0, []⟩⟩, ⟨1, "b", ⟨1, [.dot 1]⟩⟩, ⟨2, "a", ⟨2, [.dot 2]⟩⟩,
        ⟨3, "b", ⟨3, []⟩⟩] =
      .ok [⟨"a", ⟨2, [.dot 2]⟩⟩, ⟨"b", ⟨1, [.dot 1]⟩⟩] :=
  rfl

/-- The definitions fail at the first that has a rival before it. -/
theorem defineAll_eq_error_iff {added : List Addition} {e : Error} :
    defineAll [] added = .error e ↔
      ∃ a, FirstRival added a ∧ e = ⟨a.pos, .multipleDefinition a.name⟩ := by
  constructor
  · intro h
    rcases defineAll_cases added with ⟨-, defines, hd, -⟩ | ⟨a, hfirst, he⟩
    · rw [hd] at h
      cases h
    · rw [he] at h
      cases h
      exact ⟨a, hfirst, rfl⟩
  · rintro ⟨a, ⟨before, after, rfl, hp, b, hb, hr⟩, rfl⟩
    -- Those before the first rival have a table, and the rival clashes with it.
    rcases defineAll_cases before with ⟨-, defines, hd, hm⟩ | ⟨c, hfirst, -⟩
    · rw [defineAll_append, hd]
      show defineAll defines (a :: after) = _
      rw [defineAll_cons, hm.clash hb hr]
      rfl
    · exact absurd hp (not_pairwise_of_firstRival hfirst)

/-- Whether definitions make a table does not depend on their order. -/
theorem pairwise_not_rivals_perm {added added' : List Addition} (h : added.Perm added') :
    added.Pairwise (¬ ·.Rivals ·) ↔ added'.Pairwise (¬ ·.Rivals ·) :=
  h.pairwise_iff fun hn hr => hn hr.symm

end FieldAudit.Template
