import FieldAudit.Analysis
import FieldAudit.Proofs.LoadedFiles
import FieldAudit.Proofs.Walk

/-! # The templates of a directory

A directory of templates is read file by file.  The walk meets every file of the tree once
(`FileTree.mem_walk`), in the lexicographic order of the names that lead to it
(`FileTree.walk_ordered`), which is the order of a depth-first walk that visits the entries of
each directory by name.  So the templates of a directory are all files of the tree, or the error of
the first one that cannot be read (`templateFields_covers`). -/

namespace FieldAudit

/-! ## A list of steps that may fail -/

section

variable {ε α β : Type} {f : α → Except ε β}

/-- A list of steps succeeds exactly if each step does. -/
theorem exists_mapM_eq_ok_iff {xs : List α} :
    (∃ ys, xs.mapM f = .ok ys) ↔ ∀ x ∈ xs, ∃ y, f x = .ok y := by
  induction xs with
  | nil => exact ⟨fun _ => by simp, fun _ => ⟨[], rfl⟩⟩
  | cons x xs ih =>
    rw [List.forall_mem_cons, ← ih, List.mapM_cons]
    constructor
    · rintro ⟨ys, h⟩
      obtain ⟨y, hy, h⟩ := bind_eq_ok h
      obtain ⟨rest, hrest, -⟩ := bind_eq_ok h
      exact ⟨⟨y, hy⟩, rest, hrest⟩
    · rintro ⟨⟨y, hy⟩, rest, hrest⟩
      refine ⟨y :: rest, ?_⟩
      rw [hy, hrest]
      rfl

/-- What a step gives is among the results. -/
theorem mem_of_mapM_eq_ok {xs : List α} {ys : List β} (h : xs.mapM f = .ok ys) {x : α} {y : β}
    (hx : x ∈ xs) (hy : f x = .ok y) : y ∈ ys := by
  induction xs generalizing ys with
  | nil => cases hx
  | cons first xs ih =>
    rw [List.mapM_cons] at h
    obtain ⟨b, hb, h⟩ := bind_eq_ok h
    obtain ⟨rest, hrest, h⟩ := bind_eq_ok h
    cases h
    rcases List.mem_cons.1 hx with rfl | hx
    · rw [hb] at hy
      cases hy
      exact List.mem_cons_self
    · exact List.mem_cons_of_mem b (ih hrest hx)

/-- The error is the one of the first step that fails. -/
theorem exists_first_of_mapM_eq_error {xs : List α} {e : ε} (h : xs.mapM f = .error e) :
    ∃ front x back, xs = front ++ x :: back ∧ (∀ y ∈ front, ∃ b, f y = .ok b) ∧ f x = .error e := by
  induction xs with
  | nil => cases h
  | cons x xs ih =>
    rw [List.mapM_cons] at h
    rcases bind_eq_error h with h | ⟨y, hy, h⟩
    · exact ⟨[], x, xs, rfl, by simp, h⟩
    · rcases bind_eq_error h with h | ⟨rest, -, h⟩
      · obtain ⟨front, first, back, rfl, hfront, hfirst⟩ := ih h
        exact ⟨x :: front, first, back, rfl, List.forall_mem_cons.2 ⟨⟨y, hy⟩, hfront⟩, hfirst⟩
      · cases h

end

/-! ## Paths -/

/-- A text without the separator is one piece. -/
theorem Text.splitOn_of_notMem {separator : Char} {text : List Char} (h : separator ∉ text) :
    splitOn separator text = [text] := by
  induction text with
  | nil => rfl
  | cons c rest ih =>
    rw [List.mem_cons, not_or] at h
    rw [splitOn, if_neg (Ne.symm h.1), ih h.2]

/-- A text up to the first separator is the first piece. -/
theorem Text.splitOn_append_cons {separator : Char} {piece : List Char} (more : List Char)
    (h : separator ∉ piece) :
    splitOn separator (piece ++ separator :: more) = piece :: splitOn separator more := by
  induction piece with
  | nil => rw [List.nil_append, splitOn, if_pos rfl]
  | cons c rest ih =>
    rw [List.mem_cons, not_or] at h
    rw [List.cons_append, splitOn, if_neg (Ne.symm h.1), ih h.2]

/-- A path of names without slashes has these names for its segments. -/
theorem Path.segments_intercalate {names : List String} (hne : names ≠ [])
    (h : ∀ name ∈ names, '/' ∉ name.toList) : segments ("/".intercalate names) = names := by
  induction names with
  | nil => exact absurd rfl hne
  | cons name rest ih =>
    obtain ⟨hname, hrest⟩ := List.forall_mem_cons.1 h
    cases rest with
    | nil =>
      rw [String.intercalate_singleton, segments, Text.splitOn_of_notMem hname]
      simp
    | cons next rest =>
      have htext : ("/".intercalate (name :: next :: rest)).toList
          = name.toList ++ '/' :: ("/".intercalate (next :: rest)).toList := by
        rw [String.intercalate_cons_cons]
        simp
      rw [segments, htext, Text.splitOn_append_cons _ hname, List.map_cons, String.ofList_toList]
      exact congrArg (name :: ·) (ih (by simp) hrest)

namespace FileTree

/-! ## The files of a tree -/

/-- The names that lead to a file of a tree, and its bytes. -/
def HasFile (tree : FileTree) (names : List String) (bytes : List UInt8) : Prop :=
  tree.descend? names = some (.file bytes)

/-- A tree of directories and files as file systems have them: no directory has two entries of one
name, no name has a slash, and nothing is refused. -/
structure WellNamed (tree : FileTree) : Prop where
  distinct : tree.Distinct
  slashFree : ∀ names below, tree.descend? names = some below →
    ∀ entry ∈ below.entries, '/' ∉ entry.1.toList
  unrefused : ∀ names refusal, tree.descend? names ≠ some (.refused refusal)

/-- What a walk has to read where it does not go on: a file, or what is refused. -/
def leaf? : FileTree → Option (Except Refusal (List UInt8))
  | .file bytes => some (.ok bytes)
  | .refused refusal => some (.error refusal)
  | .directory _ => none

variable {tree : FileTree} {entries : List (String × FileTree)} {name : String}

/-- Where names differ, an entry is found by its name. -/
theorem lookup_eq_some_iff_mem {found : FileTree} (h : (entries.map Prod.fst).Nodup) :
    entries.lookup name = some found ↔ (name, found) ∈ entries := by
  induction entries with
  | nil => simp
  | cons first rest ih =>
    obtain ⟨other, tree⟩ := first
    obtain ⟨hfirst, hrest⟩ := List.nodup_cons.1 h
    rw [List.lookup_cons, List.mem_cons, Prod.mk.injEq]
    by_cases hname : name = other
    · subst hname
      have hout : (name, found) ∉ rest := fun hmem => hfirst (List.mem_map.2 ⟨_, hmem, rfl⟩)
      simp [hout, eq_comm]
    · rw [beq_false_of_ne hname]
      simp [hname, ih hrest]

/-- No entry of a directory has a name twice. -/
theorem Distinct.of_mem (h : Distinct (.directory entries)) (hmem : (name, tree) ∈ entries) :
    tree.Distinct :=
  h.entry ((lookup_eq_some_iff_mem (h [] _ rfl)).2 hmem)

/-- A file is a tree as file systems have them. -/
theorem WellNamed.file (bytes : List UInt8) : WellNamed (.file bytes) := by
  refine ⟨distinct_file bytes, ?_, ?_⟩
  · intro names below h
    cases names with
    | nil =>
      cases h
      simp [FileTree.entries]
    | cons name rest => cases h
  · intro names refusal h
    cases names <;> cases h

/-- A directory of such trees is one too, if its names differ and have no slash. -/
theorem WellNamed.directory (hnames : (entries.map Prod.fst).Nodup)
    (hslash : ∀ entry ∈ entries, '/' ∉ entry.1.toList)
    (hentries : ∀ entry ∈ entries, entry.2.WellNamed) : WellNamed (.directory entries) := by
  have hentry {name : String} {tree : FileTree} (hfound : entries.lookup name = some tree) :
      tree.WellNamed := hentries _ ((lookup_eq_some_iff_mem hnames).1 hfound)
  refine ⟨.directory hnames fun name tree hfound => (hentry hfound).distinct, ?_, ?_⟩
  · intro names below h
    cases names with
    | nil =>
      cases h
      exact hslash
    | cons name rest =>
      obtain ⟨inner, hinner, h⟩ := Option.bind_eq_some_iff.1 h
      exact (hentry hinner).slashFree rest below h
  · intro names refusal h
    cases names with
    | nil => cases h
    | cons name rest =>
      obtain ⟨inner, hinner, h⟩ := Option.bind_eq_some_iff.1 h
      exact (hentry hinner).unrefused rest refusal h

/-- The walk goes through each entry. -/
theorem walkEntries_eq_map (entries : List (String × FileTree)) :
    walkEntries entries = entries.map fun entry => (entry.1, entry.2.walk) := by
  induction entries with
  | nil => rfl
  | cons first rest ih => rw [walkEntries, ih, List.map_cons]

/-- A walk through what is no directory meets only that. -/
theorem mem_walk_leaf {leaf content : Except Refusal (List UInt8)} {names : List String}
    (h : tree.leaf? = some leaf) :
    (names, content) ∈ tree.walk ↔ names = [] ∧ content = leaf := by
  cases tree <;> cases h <;> rw [walk, List.mem_singleton, Prod.mk.injEq]

/-- A walk through a directory meets what the walks through its entries meet. -/
theorem mem_walk_directory {names : List String} {content : Except Refusal (List UInt8)} :
    (names, content) ∈ (directory entries).walk ↔ ∃ name rest tree,
      names = name :: rest ∧ (name, tree) ∈ entries ∧ (rest, content) ∈ tree.walk := by
  rw [walk, walkEntries_eq_map]
  simp only [List.mem_flatMap, List.mem_mergeSort, List.mem_map]
  constructor
  · rintro ⟨-, ⟨⟨name, tree⟩, hmem, rfl⟩, ⟨rest, content'⟩, hfile, hnames⟩
    cases hnames
    exact ⟨name, rest, tree, rfl, hmem, hfile⟩
  · rintro ⟨name, rest, tree, rfl, hmem, hfile⟩
    exact ⟨(name, tree.walk), ⟨(name, tree), hmem, rfl⟩, (rest, content), hfile, rfl⟩

/-- The walk meets all that is no directory and nothing else. -/
theorem mem_walk (h : tree.Distinct) {names : List String}
    {content : Except Refusal (List UInt8)} :
    (names, content) ∈ tree.walk ↔ (tree.descend? names).bind leaf? = some content := by
  induction names generalizing tree with
  | nil =>
    cases hleaf : tree.leaf? with
    | some leaf => simp [mem_walk_leaf hleaf, descend?, hleaf, eq_comm]
    | none =>
      cases tree <;> cases hleaf
      rw [mem_walk_directory]
      simp [descend?, leaf?]
  | cons name rest ih =>
    cases hleaf : tree.leaf? with
    | some leaf =>
      have hentries : tree.entries = [] := by cases tree <;> cases hleaf <;> rfl
      simp [mem_walk_leaf hleaf, descend?, entry?, hentries]
    | none =>
      cases tree <;> cases hleaf
      next entries =>
      -- Names in a directory differ, so the entry that a path finds is the one that the walk meets.
      have hnames : (entries.map Prod.fst).Nodup := h [] _ rfl
      rw [mem_walk_directory, descend?, Option.bind_assoc, Option.bind_eq_some_iff]
      simp only [FileTree.entries, entry?, lookup_eq_some_iff_mem hnames]
      constructor
      · rintro ⟨_, _, inner, hnames, hmem, hfile⟩
        cases hnames
        exact ⟨inner, hmem, (ih (h.of_mem hmem)).1 hfile⟩
      · rintro ⟨inner, hmem, hfile⟩
        exact ⟨name, rest, inner, rfl, hmem, (ih (h.of_mem hmem)).2 hfile⟩

/-- The files that the walk meets are the files of the tree. -/
theorem ok_mem_walk (h : tree.Distinct) {names : List String} {bytes : List UInt8} :
    (names, .ok bytes) ∈ tree.walk ↔ tree.HasFile names bytes := by
  rw [mem_walk h, HasFile, Option.bind_eq_some_iff]
  constructor
  · rintro ⟨found, hfound, hleaf⟩
    cases found <;> cases hleaf
    exact hfound
  · intro hfile
    exact ⟨_, hfile, rfl⟩

/-- Where nothing is refused, the walk meets files only. -/
theorem WellNamed.exists_file (h : tree.WellNamed) {names : List String}
    {content : Except Refusal (List UInt8)} (hmem : (names, content) ∈ tree.walk) :
    ∃ bytes, content = .ok bytes ∧ tree.HasFile names bytes := by
  obtain ⟨found, hfound, hleaf⟩ := Option.bind_eq_some_iff.1 ((mem_walk h.distinct).1 hmem)
  cases found with
  | file bytes =>
    cases hleaf
    exact ⟨bytes, rfl, hfound⟩
  | refused refusal => exact absurd hfound (h.unrefused names refusal)
  | directory entries => cases hleaf

/-! ## The order of the walk -/

/-- Names are ordered by their first difference, in byte order.  This is the order in which a
depth-first walk meets files when it visits the entries of each directory by name. -/
def Before (names names' : List String) : Prop :=
  names.map Text.bytes < names'.map Text.bytes

mutual

/-- The walk meets files in the order of their names. -/
theorem walk_ordered (tree : FileTree) (h : tree.Distinct) :
    tree.walk.Pairwise fun a b => Before a.1 b.1 := by
  match tree with
  | .file bytes =>
    rw [walk]
    exact List.pairwise_singleton _ _
  | .refused refusal =>
    rw [walk]
    exact List.pairwise_singleton _ _
  | .directory entries =>
    rw [walk, List.pairwise_flatMap]
    constructor
    · -- Below one entry the files come in their order there.
      rintro ⟨name, files⟩ hmem
      rw [List.pairwise_map]
      refine (walkEntries_ordered entries (fun _ _ hmem => h.of_mem hmem) _
        (List.mem_mergeSort.1 hmem)).imp ?_
      intro a b hab
      exact List.cons_lt_cons_iff.2 (.inr ⟨rfl, hab⟩)
    · -- All files below an entry come before those below a later one.
      have hnames : ((walkEntries entries).map Prod.fst).Nodup := by
        rw [walkEntries_eq_map, List.map_map]
        exact h [] _ rfl
      refine (Text.mergeSort_bytes_lt hnames).imp ?_
      rintro ⟨name, files⟩ ⟨name', files'⟩ hlt file hfile file' hfile'
      obtain ⟨below, -, rfl⟩ := List.mem_map.1 hfile
      obtain ⟨below', -, rfl⟩ := List.mem_map.1 hfile'
      exact List.cons_lt_cons_iff.2 (.inl hlt)

/-- The walk through each entry meets files in the order of their names. -/
theorem walkEntries_ordered (entries : List (String × FileTree))
    (h : ∀ name tree, (name, tree) ∈ entries → tree.Distinct) :
    ∀ entry ∈ walkEntries entries, entry.2.Pairwise fun a b => Before a.1 b.1 := by
  match entries with
  | [] => simp [walkEntries]
  | (name, tree) :: rest =>
    rw [walkEntries, List.forall_mem_cons]
    refine ⟨walk_ordered tree (h name tree List.mem_cons_self), ?_⟩
    exact walkEntries_ordered rest fun name tree hmem =>
      h name tree (List.mem_cons_of_mem _ hmem)

end

/-! ## Paths of files -/

/-- The names that lead to something have no slash. -/
theorem WellNamed.slashFree_names (h : tree.WellNamed) {names : List String} {found : FileTree}
    (hfound : tree.descend? names = some found) : ∀ name ∈ names, '/' ∉ name.toList := by
  induction names generalizing tree with
  | nil => simp
  | cons name rest ih =>
    obtain ⟨inner, hinner, hfound⟩ := Option.bind_eq_some_iff.1 hfound
    have hmem : (name, inner) ∈ tree.entries :=
      (lookup_eq_some_iff_mem (h.distinct [] tree rfl)).1 hinner
    have hstep (names : List String) : tree.descend? (name :: names) = inner.descend? names := by
      rw [descend?, hinner]
      rfl
    have hbelow : inner.WellNamed :=
      ⟨h.distinct.entry hinner,
        fun names below hb => h.slashFree (name :: names) below (hstep _ ▸ hb),
        fun names refusal hb => h.unrefused (name :: names) refusal (hstep _ ▸ hb)⟩
    exact List.forall_mem_cons.2 ⟨h.slashFree [] tree rfl _ hmem, ih hbelow hfound⟩

/-- A file is known by its path. -/
theorem WellNamed.path_injective (h : tree.WellNamed) {names names' : List String}
    {bytes bytes' : List UInt8} (hfile : tree.HasFile names bytes)
    (hfile' : tree.HasFile names' bytes') (hpath : "/".intercalate names = "/".intercalate names') :
    names = names' := by
  cases tree with
  | file content =>
    -- Only the empty list of names leads to it.
    have hnil {names : List String} {bytes : List UInt8}
        (h : (FileTree.file content).HasFile names bytes) : names = [] := by
      cases names with
      | nil => rfl
      | cons name rest => cases h
    rw [hnil hfile, hnil hfile']
  | refused refusal => exact absurd rfl (h.unrefused [] refusal)
  | directory entries =>
    have hne {names : List String} {bytes : List UInt8}
        (h : (FileTree.directory entries).HasFile names bytes) : names ≠ [] := by
      rintro rfl
      cases h
    rw [← Path.segments_intercalate (hne hfile) (h.slashFree_names hfile), hpath,
      Path.segments_intercalate (hne hfile') (h.slashFree_names hfile')]

end FileTree

/-! ## All templates of a tree -/

namespace Template

variable {d : Delimiters} {root : String} {tree : FileTree}

/-- A file that gives an entry is one that can be read as a template, and the entry has its path and
its references. -/
theorem analyzeFile_eq_ok_iff {names : List String} {content : Except Refusal (List UInt8)}
    {entry : String × List FieldReference} :
    analyzeFile d root names content = .ok entry ↔ ∃ bytes, content = .ok bytes
      ∧ entry.1 = "/".intercalate names
      ∧ analyze d entry.1 (Text.decode bytes) = .ok entry.2 := by
  obtain ⟨path, references⟩ := entry
  cases content with
  | error refusal => simp [analyzeFile]
  | ok bytes =>
    simp only [analyzeFile, Except.ok.injEq, exists_eq_left']
    cases hread : analyze d ("/".intercalate names) (Text.decode bytes) with
    | error failure =>
      simp only [reduceCtorEq, false_iff, not_and]
      rintro rfl h
      rw [hread] at h
      cases h
    | ok found =>
      simp only [Except.ok.injEq, Prod.mk.injEq]
      constructor
      · rintro ⟨rfl, rfl⟩
        exact ⟨rfl, hread⟩
      · rintro ⟨rfl, h⟩
        rw [hread] at h
        cases h
        exact ⟨rfl, rfl⟩

/-- A file that fails is malformed as a template. -/
theorem analyzeFile_eq_error {names : List String} {bytes : List UInt8} {failure : Failure}
    (h : analyzeFile d root names (.ok bytes) = .error failure) :
    ∃ cause, failure = .template cause
      ∧ analyze d ("/".intercalate names) (Text.decode bytes) = .error cause := by
  simp only [analyzeFile] at h
  cases hread : analyze d ("/".intercalate names) (Text.decode bytes) with
  | ok found =>
    rw [hread] at h
    cases h
  | error cause =>
    rw [hread] at h
    cases h
    exact ⟨cause, rfl, rfl⟩

/-- The references of a template have its path. -/
theorem analyze_path_eq {path : String} {source : List Char} {references : List FieldReference}
    (h : analyze d path source = .ok references) : ∀ r ∈ references, r.path = path := by
  unfold analyze at h
  split at h
  next tree _ =>
    cases h
    intro r hr
    rw [fieldReferences, Block.visited_eq] at hr
    obtain ⟨n, -, hr⟩ := List.mem_filterMap.1 hr
    obtain ⟨chain, -, rfl⟩ := Option.map_eq_some_iff.1 hr
    rfl
  next => cases h

/-- The failure of a template has its path. -/
theorem analyze_error_path {path : String} {source : List Char} {failure : ParseFailure}
    (h : analyze d path source = .error failure) : failure.path = path := by
  unfold analyze at h
  split at h
  next => cases h
  next =>
    cases h
    rfl

/-- A file of a tree can be read as a template. -/
def Readable (d : Delimiters) (names : List String) (bytes : List UInt8) : Prop :=
  ∃ references, analyze d ("/".intercalate names) (Text.decode bytes) = .ok references

/-- A file can be read as a template exactly if it gives an entry, wherever its directory is. -/
theorem readable_iff (root : String) {names : List String} {bytes : List UInt8} :
    Readable d names bytes ↔ ∃ entry, analyzeFile d root names (.ok bytes) = .ok entry := by
  simp only [analyzeFile_eq_ok_iff, Except.ok.injEq, exists_eq_left']
  constructor
  · rintro ⟨references, h⟩
    exact ⟨(_, references), rfl, h⟩
  · rintro ⟨⟨path, references⟩, rfl, h⟩
    exact ⟨references, h⟩

/-- A tree has an answer exactly if each of its files can be read as a template. -/
theorem exists_analyzeTree_eq_ok_iff (h : tree.WellNamed) :
    (∃ fields, analyzeTree d root tree = .ok fields) ↔
      ∀ names bytes, tree.HasFile names bytes → Readable d names bytes := by
  have hsteps : (∃ fields, analyzeTree d root tree = .ok fields) ↔
      ∃ templates, tree.walk.mapM (fun file => analyzeFile d root file.1 file.2)
        = .ok templates := by
    constructor
    · rintro ⟨fields, hfields⟩
      obtain ⟨templates, htemplates, -⟩ := bind_eq_ok hfields
      exact ⟨templates, htemplates⟩
    · rintro ⟨templates, htemplates⟩
      exact ⟨_, by rw [analyzeTree, htemplates]; rfl⟩
  rw [hsteps, exists_mapM_eq_ok_iff]
  constructor
  · intro hall names bytes hfile
    have hmem := (FileTree.ok_mem_walk h.distinct).2 hfile
    exact (readable_iff root).2 (hall (names, .ok bytes) hmem)
  · rintro hall ⟨names, content⟩ hmem
    obtain ⟨bytes, rfl, hfile⟩ := h.exists_file hmem
    exact (readable_iff root).1 (hall names bytes hfile)

/-- The entries of the files of a tree: one for each path, in byte order of the paths. -/
structure Covers (d : Delimiters) (tree : FileTree) (fields : List (String × List FieldReference)) :
    Prop where
  ordered : fields.Pairwise fun a b => Text.bytes a.1 < Text.bytes b.1
  mem_iff : ∀ path references, (path, references) ∈ fields ↔ ∃ names bytes,
    tree.HasFile names bytes ∧ path = "/".intercalate names
      ∧ analyze d path (Text.decode bytes) = .ok references
  unique : ∀ names names' bytes bytes', tree.HasFile names bytes → tree.HasFile names' bytes' →
    "/".intercalate names = "/".intercalate names' → names = names'
  path_eq : ∀ path references, (path, references) ∈ fields → ∀ r ∈ references, r.path = path

/-- The answer for a tree has an entry for each file. -/
theorem analyzeTree_covers (h : tree.WellNamed) {fields : List (String × List FieldReference)}
    (hfields : analyzeTree d root tree = .ok fields) : Covers d tree fields := by
  obtain ⟨templates, htemplates, hfields⟩ := bind_eq_ok hfields
  cases hfields
  have hmem (path : String) (references : List FieldReference) :
      (path, references) ∈ templates.mergeSort (fun a b => Text.le a.1 b.1) ↔ ∃ names bytes,
        tree.HasFile names bytes ∧ path = "/".intercalate names
          ∧ analyze d path (Text.decode bytes) = .ok references := by
    rw [List.mem_mergeSort]
    constructor
    · intro hentry
      obtain ⟨⟨names, content⟩, hmem, hstep⟩ := mapM_eq_ok htemplates _ hentry
      obtain ⟨bytes, rfl, hread⟩ := analyzeFile_eq_ok_iff.1 hstep
      exact ⟨names, bytes, (FileTree.ok_mem_walk h.distinct).1 hmem, hread⟩
    · rintro ⟨names, bytes, hfile, hread⟩
      exact mem_of_mapM_eq_ok htemplates ((FileTree.ok_mem_walk h.distinct).2 hfile)
        (analyzeFile_eq_ok_iff.2 ⟨bytes, rfl, hread⟩)
  -- The walk meets no file twice, and no two files have one path.
  have hpaths : (templates.map Prod.fst).Nodup := by
    have hpath : ∀ (file : List String × Except Refusal (List UInt8)) entry,
        analyzeFile d root file.1 file.2 = .ok entry → entry.1 = "/".intercalate file.1 := by
      intro file entry hread
      obtain ⟨-, -, hpath, -⟩ := analyzeFile_eq_ok_iff.1 hread
      exact hpath
    rw [map_of_mapM_eq_ok hpath htemplates]
    refine List.pairwise_map.2 ((FileTree.walk_ordered tree h.distinct).imp_of_mem ?_)
    rintro ⟨names, content⟩ ⟨names', content'⟩ hmem hmem' hbefore hpath
    obtain ⟨bytes, -, hfile⟩ := h.exists_file hmem
    obtain ⟨bytes', -, hfile'⟩ := h.exists_file hmem'
    have hnames := h.path_injective hfile hfile' hpath
    subst hnames
    exact List.lt_irrefl _ hbefore
  refine ⟨Text.mergeSort_bytes_lt hpaths, hmem, ?_, ?_⟩
  · intro names names' bytes bytes' hfile hfile' hpath
    exact h.path_injective hfile hfile' hpath
  · intro path references hentry
    obtain ⟨names, bytes, -, -, hanalyze⟩ := (hmem path references).1 hentry
    exact analyze_path_eq hanalyze

/-- The error of a tree is the one of a file that cannot be read, and every file before it in the
order of the walk can be read. -/
structure FailsAt (d : Delimiters) (tree : FileTree) (names : List String) (bytes : List UInt8)
    (failure : ParseFailure) : Prop where
  hasFile : tree.HasFile names bytes
  analyze_eq : analyze d ("/".intercalate names) (Text.decode bytes) = .error failure
  readable : ∀ names' bytes', tree.HasFile names' bytes' → FileTree.Before names' names →
    Readable d names' bytes'

/-- A tree that fails does so at its first file that cannot be read as a template. -/
theorem analyzeTree_failsAt (h : tree.WellNamed) {failure : Failure}
    (hfailure : analyzeTree d root tree = .error failure) :
    ∃ cause names bytes, failure = .template cause ∧ FailsAt d tree names bytes cause := by
  rcases bind_eq_error hfailure with hfailure | ⟨templates, -, hfailure⟩
  · obtain ⟨front, ⟨names, content⟩, back, hwalk, hfront, hfirst⟩ :=
      exists_first_of_mapM_eq_error hfailure
    have hmem : (names, content) ∈ tree.walk := by
      rw [hwalk]
      simp
    obtain ⟨bytes, rfl, hfile⟩ := h.exists_file hmem
    obtain ⟨cause, rfl, hcause⟩ := analyzeFile_eq_error hfirst
    have hordered := FileTree.walk_ordered tree h.distinct
    rw [hwalk, List.pairwise_append, List.pairwise_cons] at hordered
    obtain ⟨-, ⟨hback, -⟩, -⟩ := hordered
    refine ⟨cause, names, bytes, rfl, hfile, hcause, ?_⟩
    intro names' bytes' hfile' hbefore
    rw [← FileTree.ok_mem_walk h.distinct, hwalk, List.mem_append, List.mem_cons] at hfile'
    -- What the walk meets later does not come before the failing file.
    rcases hfile' with hfile' | hfile' | hfile'
    · exact (readable_iff root).2 (hfront _ hfile')
    · cases hfile'
      exact absurd hbefore (List.lt_irrefl _)
    · exact absurd (hback _ hfile') (List.lt_asymm hbefore)
  · cases hfailure

end Template

/-! ## The directory of a run -/

/-- The templates of a directory that is found are those of its tree. -/
theorem templateFields_of_tree {w : Workspace} {d : Template.Delimiters} {directory : String}
    {tree : FileTree} (h : w.files.tree directory = .ok tree) :
    templateFields w d directory = Template.analyzeTree d directory tree := by
  rw [templateFields, h]

/-- The templates of a directory are all files below it, each one once and by its path.  There is an
answer if every file can be read, and otherwise the error of the first file of the walk that cannot
be read. -/
theorem templateFields_covers {w : Workspace} {d : Template.Delimiters} {directory : String}
    {tree : FileTree} (htree : w.files.tree directory = .ok tree) (hnames : tree.WellNamed) :
    ((∃ fields, templateFields w d directory = .ok fields) ↔
        ∀ names bytes, tree.HasFile names bytes → Template.Readable d names bytes)
      ∧ (∀ fields, templateFields w d directory = .ok fields → Template.Covers d tree fields)
      ∧ ∀ failure, templateFields w d directory = .error failure →
          ∃ cause names bytes, failure = .template cause ∧
            Template.FailsAt d tree names bytes cause := by
  rw [templateFields_of_tree htree]
  exact ⟨Template.exists_analyzeTree_eq_ok_iff hnames,
    fun _ hfields => Template.analyzeTree_covers hnames hfields,
    fun _ hfailure => Template.analyzeTree_failsAt hnames hfailure⟩

/-- Two templates that cannot be read.  The walk meets the one in the directory first, though its
path is the later one. -/
def brokenTemplates : FileTree :=
  .directory [("a.html", .file (Text.bytes "\x7b\x7bend\x7d\x7d")),
    ("a", .directory [("x.html", .file (Text.bytes "\x7b\x7b.A"))])]

/-- The two templates are in a tree as file systems have them. -/
theorem wellNamed_brokenTemplates : brokenTemplates.WellNamed := by
  have hinner : (FileTree.directory [("x.html", .file (Text.bytes "\x7b\x7b.A"))]).WellNamed :=
    .directory (by decide) (by decide) (List.forall_mem_singleton.2 (.file _))
  refine .directory (by decide) (by decide) ?_
  exact List.forall_mem_cons.2 ⟨.file _, List.forall_mem_singleton.2 hinner⟩

/-- They are the only files of the tree. -/
theorem names_of_hasFile_brokenTemplates {names : List String} {bytes : List UInt8}
    (h : brokenTemplates.HasFile names bytes) : names = ["a.html"] ∨ names = ["a", "x.html"] := by
  rw [← FileTree.ok_mem_walk wellNamed_brokenTemplates.distinct, brokenTemplates,
    FileTree.mem_walk_directory] at h
  obtain ⟨name, rest, tree, rfl, hentry, hrest⟩ := h
  simp only [List.mem_cons, List.not_mem_nil, or_false, Prod.mk.injEq] at hentry
  rcases hentry with ⟨rfl, rfl⟩ | ⟨rfl, rfl⟩
  · rw [FileTree.mem_walk_leaf rfl] at hrest
    simp [hrest.1]
  · rw [FileTree.mem_walk_directory] at hrest
    obtain ⟨inner, below, file, rfl, hentry, hbelow⟩ := hrest
    cases List.mem_singleton.1 hentry
    rw [FileTree.mem_walk_leaf rfl] at hbelow
    simp [hbelow.1]

/-- A run beside the directory of these templates. -/
def brokenProject : Workspace where
  files := ⟨.directory [("templates", brokenTemplates)], []⟩
  home := some "/home"
  goPath := none

/-- The directory with the two templates fails at the one that the walk meets first. -/
theorem templateFields_covers_broken :
    Text.bytes "a.html" < Text.bytes "a/x.html" ∧
      ∃ cause, templateFields brokenProject {} "templates" = .error (.template cause)
        ∧ cause.path = "a/x.html" := by
  have hnested : ¬ Template.Readable {} ["a", "x.html"] (Text.bytes "\x7b\x7b.A") := by
    rintro ⟨references, h⟩
    have hfails : (Template.analyze {} ("/".intercalate ["a", "x.html"])
        (Text.decode (Text.bytes "\x7b\x7b.A"))).toOption = none := by decide +kernel
    rw [h] at hfails
    cases hfails
  have htree : brokenProject.files.tree "templates" = .ok brokenTemplates := by rfl
  obtain ⟨hok, -, herror⟩ := templateFields_covers (d := {}) htree wellNamed_brokenTemplates
  refine ⟨by decide, ?_⟩
  cases hanswer : templateFields brokenProject {} "templates" with
  | ok fields => exact absurd (hok.1 ⟨fields, hanswer⟩ ["a", "x.html"] _ rfl) hnested
  | error failure =>
    obtain ⟨cause, names, bytes, rfl, hfails⟩ := herror failure hanswer
    refine ⟨cause, rfl, ?_⟩
    rw [Template.analyze_error_path hfails.analyze_eq]
    rcases names_of_hasFile_brokenTemplates hfails.hasFile with rfl | rfl
    · refine absurd (hfails.readable ["a", "x.html"] _ rfl ?_) hnested
      exact List.cons_lt_cons_iff.2 (.inl (by decide))
    · rfl

end FieldAudit
