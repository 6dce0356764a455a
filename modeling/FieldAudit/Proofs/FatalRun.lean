import FieldAudit.CommandLine
import FieldAudit.CommandLine.OptionReader
import FieldAudit.Proofs.LoadedFiles
import FieldAudit.Proofs.Messages.Templates

/-! # What a failing run writes

A run that fails writes nothing but an error, and the error is one line if no name of a file or a
directory and no message of the operating system has a line break.  There are two exceptions.  The
error about a render call may show an expression of the package as it is written, over several
lines.  And a report that cannot be written has been written in part, after the warnings of the run
(`run_failed_line`). -/

namespace FieldAudit

/-! ## Names of files -/

mutual

/-- Whether all names in a tree, and all that the operating system says about it, are on one
line. -/
def FileTree.isOneLine : FileTree → Bool
  | .file _ => true
  | .refused refusal => OneLine refusal.error.message
  | .directory entries => FileTree.areOneLine entries

/-- Whether all names in the entries of a directory are on one line. -/
def FileTree.areOneLine : List (String × FileTree) → Bool
  | [] => true
  | (name, tree) :: rest => OneLine name && (tree.isOneLine && FileTree.areOneLine rest)

end

namespace FileTree

/-- In a tree with names on one line, so is the name of each entry. -/
theorem mem_of_areOneLine {entries : List (String × FileTree)} (h : areOneLine entries = true)
    {entry : String × FileTree} (hentry : entry ∈ entries) :
    OneLine entry.1 ∧ entry.2.isOneLine = true := by
  induction entries with
  | nil => cases hentry
  | cons first rest ih =>
    obtain ⟨name, tree⟩ := first
    rw [areOneLine, Bool.and_eq_true, Bool.and_eq_true, decide_eq_true_eq] at h
    rcases List.mem_cons.1 hentry with rfl | hentry
    · exact ⟨h.1, h.2.1⟩
    · exact ih h.2.2 hentry

/-- The same of the entries of any tree. -/
theorem isOneLine_entries {tree : FileTree} (h : tree.isOneLine = true)
    {entry : String × FileTree} (hentry : entry ∈ tree.entries) :
    OneLine entry.1 ∧ entry.2.isOneLine = true := by
  cases tree with
  | file bytes => cases hentry
  | refused refusal => cases hentry
  | directory entries => exact mem_of_areOneLine h hentry

/-- What the operating system says about a tree is on one line. -/
theorem isOneLine_refused {refusal : Refusal} (h : (refused refusal).isOneLine = true) :
    OneLine refusal.error.message := by
  simpa [isOneLine] using h

/-- What is found in a tree with names on one line has names on one line. -/
theorem isOneLine_descend? {tree found : FileTree} {names : List String}
    (h : tree.isOneLine = true) (hfound : tree.descend? names = some found) :
    found.isOneLine = true := by
  induction names generalizing tree with
  | nil =>
    cases hfound
    exact h
  | cons name rest ih =>
    obtain ⟨inner, hinner, hfound⟩ := Option.bind_eq_some_iff.1 hfound
    refine ih ?_ hfound
    obtain ⟨before, after, hentries, -⟩ := List.lookup_eq_some_iff.1 hinner
    have hmem : (name, inner) ∈ tree.entries := by
      rw [hentries]
      simp
    exact (isOneLine_entries h hmem).2

/-- What a walk meets: the names that lead there are on one line, and so is what the operating
system says. -/
def PlainlyMet (met : List String × Except Refusal (List UInt8)) : Prop :=
  (∀ name ∈ met.1, OneLine name)
    ∧ ∀ refusal, met.2 = .error refusal → OneLine refusal.error.message

mutual

/-- A walk through a tree with names on one line meets everything so. -/
theorem plainlyMet_walk (tree : FileTree) (h : tree.isOneLine = true)
    {met : List String × Except Refusal (List UInt8)} (hmet : met ∈ tree.walk) :
    PlainlyMet met := by
  match tree with
  | .file bytes =>
    rw [walk, List.mem_singleton] at hmet
    subst hmet
    exact ⟨by simp, by simp⟩
  | .refused refusal =>
    rw [walk, List.mem_singleton] at hmet
    subst hmet
    refine ⟨by simp, ?_⟩
    rintro _ ⟨⟩
    exact isOneLine_refused h
  | .directory entries =>
    rw [walk] at hmet
    obtain ⟨⟨name, files⟩, hmem, hmet⟩ := List.mem_flatMap.1 hmet
    obtain ⟨⟨names, content⟩, hnames, rfl⟩ := List.mem_map.1 hmet
    obtain ⟨hname, hfiles⟩ := plainlyMet_walkEntries entries h (List.mem_mergeSort.1 hmem)
    obtain ⟨hbelow, hcontent⟩ := hfiles _ hnames
    exact ⟨List.forall_mem_cons.2 ⟨hname, hbelow⟩, hcontent⟩

/-- The same of the walks through the entries of a directory. -/
theorem plainlyMet_walkEntries (entries : List (String × FileTree))
    (h : areOneLine entries = true)
    {entry : String × List (List String × Except Refusal (List UInt8))}
    (hentry : entry ∈ walkEntries entries) :
    OneLine entry.1 ∧ ∀ met ∈ entry.2, PlainlyMet met := by
  match entries with
  | [] => cases hentry
  | (name, tree) :: rest =>
    rw [areOneLine, Bool.and_eq_true, Bool.and_eq_true, decide_eq_true_eq] at h
    rw [walkEntries, List.mem_cons] at hentry
    rcases hentry with rfl | hentry
    · exact ⟨h.1, fun met hmet => plainlyMet_walk tree h.2.1 hmet⟩
    · exact plainlyMet_walkEntries rest h.2.2 hentry

end

end FileTree

namespace FileSystem

variable {fs : FileSystem} {path : String}

/-- The tree at a path has names on one line. -/
theorem isOneLine_tree {tree : FileTree} (h : fs.root.isOneLine = true)
    (htree : fs.tree path = .ok tree) : tree.isOneLine = true := by
  obtain ⟨place, hplace⟩ := FileSystem.tree_eq_ok htree
  exact FileTree.isOneLine_descend? h hplace

/-- Why names cannot be followed is told on one line. -/
theorem follow_eq_error (h : fs.root.isOneLine = true) {place names : List String}
    {error : OsError} (herror : fs.follow place names = .error error) :
    OneLine error.message := by
  induction names generalizing place with
  | nil => cases herror
  | cons name rest ih =>
    rw [follow] at herror
    split at herror
    next =>
      cases herror
      decide
    next =>
      cases herror
      decide
    next refusal hplace =>
      cases herror
      split
      · exact FileTree.isOneLine_refused (FileTree.isOneLine_descend? h hplace)
      · decide
    next entries _ =>
      split at herror
      · exact ih herror
      · split at herror
        · exact ih herror
        · cases herror
          decide

/-- Why there is no tree at a path is told on one line. -/
theorem tree_eq_error (h : fs.root.isOneLine = true) {error : OsError}
    (herror : fs.tree path = .error error) : OneLine error.message := by
  rcases bind_eq_error herror with herror | ⟨place, -, herror⟩
  · unfold locate at herror
    split at herror
    · cases herror
      decide
    · dsimp only at herror
      split at herror
      next hfollow =>
        cases herror
        exact follow_eq_error h hfollow
      next =>
        split at herror
        · cases herror
          decide
        · cases herror
  · split at herror
    next => cases herror
    next =>
      cases herror
      decide

end FileSystem

/-- A path put together of paths on one line is on one line. -/
theorem Path.oneLine_join {base path : String} (hbase : OneLine base) (hpath : OneLine path) :
    OneLine (Path.join base path) := by
  unfold Path.join
  split
  · exact hpath
  · split
    · exact hbase.append hpath
    · exact .append (hbase.append (by decide)) hpath

/-- A path that goes on by names on one line is on one line. -/
theorem Path.oneLine_foldl_join {root : String} {names : List String} (hroot : OneLine root)
    (hnames : ∀ name ∈ names, OneLine name) : OneLine (names.foldl Path.join root) := by
  induction names generalizing root with
  | nil => exact hroot
  | cons name rest ih =>
    obtain ⟨hname, hrest⟩ := List.forall_mem_cons.1 hnames
    exact ih (Path.oneLine_join hroot hname) hrest

/-- A piece of a text has only characters of the text. -/
theorem Text.subset_of_mem_splitOn {separator : Char} {text piece : List Char}
    (h : piece ∈ Text.splitOn separator text) : piece ⊆ text := by
  induction text generalizing piece with
  | nil => simp_all [Text.splitOn]
  | cons c rest ih =>
    rw [Text.splitOn] at h
    split at h
    next =>
      rcases List.mem_cons.1 h with rfl | h
      · exact List.nil_subset _
      · exact List.subset_cons_of_subset c (ih h)
    next =>
      split at h
      next hnil => exact absurd hnil (Text.splitOn_ne_nil _ _)
      next first pieces hpieces =>
        rcases List.mem_cons.1 h with rfl | h
        · exact List.cons_subset_cons c (ih (by rw [hpieces]; exact List.mem_cons_self))
        · exact List.subset_cons_of_subset c (ih (by rw [hpieces]; exact List.mem_cons_of_mem _ h))

/-- All names that a run sees, and all that the operating system says, are on one line. -/
structure Workspace.IsOneLine (w : Workspace) : Prop where
  files : w.files.root.isOneLine = true
  home : ∀ path, w.home = some path → OneLine path
  goPath : ∀ path, w.goPath = some path → OneLine path

/-- The directories that packages are searched under have names on one line. -/
theorem Workspace.IsOneLine.sourceRoots {w : Workspace} (h : w.IsOneLine) :
    ∀ root ∈ w.sourceRoots, OneLine root := by
  intro path hpath
  obtain ⟨root, hroot, rfl⟩ := List.mem_map.1 hpath
  refine Path.oneLine_join ?_ (by decide)
  have hstandard : ∀ root ∈ w.home.toList.map (Path.join · "go"), OneLine root := by
    intro root hroot
    obtain ⟨home, hhome, rfl⟩ := List.mem_map.1 hroot
    exact Path.oneLine_join (h.home home (Option.mem_toList.1 hhome)) (by decide)
  unfold Workspace.roots at hroot
  dsimp only at hroot
  split at hroot
  next value hvalue =>
    split at hroot
    next => exact hstandard root hroot
    next =>
      obtain ⟨piece, hpiece, rfl⟩ := List.mem_map.1 hroot
      rw [OneLine.ofList_iff]
      exact fun hmem => h.goPath value hvalue (Text.subset_of_mem_splitOn hpiece hmem)
  next => exact hstandard root hroot

/-! ## Failures -/

/-- A failed operation is told on one line if its target and its error are. -/
theorem oneLine_operationFailure {component operation target error : String}
    (hcomponent : OneLine component) (hoperation : OneLine operation) (htarget : OneLine target)
    (herror : OneLine error) : OneLine (operationFailure component operation target error) := by
  have hescaped : '\n' ∉ target.toList.flatMap fun c =>
      if c = Text.singleQuote then ['\\', c] else [c] := by
    intro hmem
    obtain ⟨c, hc, hmem⟩ := List.mem_flatMap.1 hmem
    have hchar : '\n' = c := by
      split at hmem <;> simpa using hmem
    exact htarget (hchar ▸ hc)
  have hquote : OneLine "('" := by decide
  exact .append (.append (.append (.append (.append (hcomponent.append (by decide)) hoperation)
    hquote) (OneLine.ofList_iff.2 hescaped)) (by decide)) herror

/-- A failure is told on one line if it and its causes are. -/
theorem Failure.oneLine_fullMessage {failure : Failure} (hmessage : OneLine failure.message)
    (hcauses : ∀ cause ∈ failure.causes, OneLine cause) : OneLine failure.fullMessage :=
  .intercalate (by decide) (List.forall_mem_cons.2 ⟨hmessage, hcauses⟩)

namespace Failure

variable {directory path root : String} {error : OsError}

/-- A directory that cannot be listed is told on one line. -/
theorem oneLine_list (hdirectory : OneLine directory) (herror : OneLine error.message) :
    OneLine (Failure.list directory error).fullMessage :=
  oneLine_fullMessage (oneLine_operationFailure (by decide) (by decide) hdirectory herror)
    (List.forall_mem_singleton.2 herror)

/-- A file that cannot be read is told on one line. -/
theorem oneLine_read (hpath : OneLine path) (herror : OneLine error.message) :
    OneLine (Failure.read path error).fullMessage :=
  oneLine_fullMessage (oneLine_operationFailure (by decide) (by decide) hpath herror)
    (List.forall_mem_singleton.2 herror)

/-- A walk that cannot go on is told on one line. -/
theorem oneLine_walk (hroot : OneLine root) (hpath : OneLine path)
    (herror : OneLine error.message) : OneLine (Failure.walk root path error).fullMessage := by
  have hcause : OneLine (walkError path error) :=
    .append (.append (.append (by decide) hpath) (by decide)) herror
  refine oneLine_fullMessage ?_ ?_
  · exact oneLine_operationFailure (by decide) (by decide) hroot hcause
  · exact List.forall_mem_cons.2 ⟨hcause, List.forall_mem_singleton.2 herror⟩

/-- A parser that cannot be used is told on one line, as its fault is. -/
theorem oneLine_grammar {fault : String} (hfault : OneLine fault) :
    OneLine (Failure.grammar fault).fullMessage :=
  oneLine_fullMessage (.append (by decide) hfault) (by simp [causes])

/-- A syntax error is told on one line, as its file is. -/
theorem oneLine_malformed {place : Place} (hfile : OneLine place.file) :
    OneLine (Failure.malformed place).fullMessage := by
  have hplace : OneLine place.text :=
    .append (.append (.append (hfile.append (by decide)) (.toString_nat _)) (by decide))
      (.toString_nat _)
  exact oneLine_fullMessage (.append (by decide) hplace) (by simp [causes])

/-- A package that is not found is told on one line. -/
theorem oneLine_noPackage {package : String} {searched : List String}
    (hpackage : OneLine package) (hsearched : ∀ root ∈ searched, OneLine root) :
    OneLine (Failure.noPackage package searched).fullMessage := by
  refine oneLine_fullMessage ?_ (by simp [causes])
  exact oneLine_operationFailure (by decide) (by decide) hpackage
    (.append (by decide) (.intercalate (by decide) hsearched))

end Failure

/-! ## Packages -/

namespace Go

/-- The Go files of a directory have names on one line, and so is why they cannot be read. -/
theorem oneLine_of_mem_sourceFiles {directory : FileTree}
    {source : String × Except OsError (List UInt8)} (h : directory.isOneLine = true)
    (hsource : source ∈ sourceFiles directory) :
    OneLine source.1 ∧ ∀ error, source.2 = .error error → OneLine error.message := by
  obtain ⟨⟨name, tree⟩, hentry, hfile⟩ := List.mem_filterMap.1 (List.mem_mergeSort.1 hsource)
  obtain ⟨-, hfile⟩ := Option.ite_none_right_eq_some.1 hfile
  obtain ⟨content, hcontent, rfl⟩ := Option.map_eq_some_iff.1 hfile
  obtain ⟨hname, htree⟩ := FileTree.isOneLine_entries h hentry
  refine ⟨hname, ?_⟩
  rintro error rfl
  cases tree with
  | file bytes => cases hcontent
  | directory entries => cases hcontent
  | refused refusal =>
    obtain ⟨-, hcontent⟩ := Option.ite_none_left_eq_some.1 hcontent
    cases hcontent
    exact FileTree.isOneLine_refused htree

/-- The place of a syntax error is in the file that is read. -/
theorem File.read_eq_error {parser : Parser} {name : String} {source : List Char} {place : Place}
    (h : File.read parser name source = .error place) : place.file = name := by
  unfold File.read at h
  split at h
  · cases h
    rfl
  · split at h
    · cases h
      rfl
    · cases h

/-- Why a file cannot be loaded is told on one line. -/
theorem loadFile_eq_error {parser : Parser} {directory name : String}
    {content : Except OsError (List UInt8)} {failure : Failure} (hdirectory : OneLine directory)
    (hname : OneLine name) (hcontent : ∀ error, content = .error error → OneLine error.message)
    (h : loadFile parser directory name content = .error failure) :
    OneLine failure.fullMessage := by
  have hpath := Path.oneLine_join hdirectory hname
  rcases bind_eq_error h with h | ⟨source, -, h⟩
  · cases content with
    | error error =>
      cases h
      exact Failure.oneLine_read hpath (hcontent error rfl)
    | ok bytes =>
      rw [readText] at h
      split at h
      · cases h
        exact Failure.oneLine_read hpath (by decide)
      · cases h
  · split at h
    next hread =>
      cases h
      exact Failure.oneLine_malformed (File.read_eq_error hread ▸ hname)
    next => cases h

section

variable {w : Workspace} {name : String} (hw : w.IsOneLine)

include hw

/-- What is listed at a path has names on one line, and so is why it cannot be read. -/
theorem listSources_eq_ok {directory : String}
    {sources : List (String × Except OsError (List UInt8))}
    (h : listSources w directory = .ok sources) {source : String × Except OsError (List UInt8)}
    (hsource : source ∈ sources) :
    OneLine source.1 ∧ ∀ error, source.2 = .error error → OneLine error.message := by
  unfold listSources at h
  split at h
  next => cases h
  next => cases h
  next => cases h
  next htree =>
    cases h
    exact oneLine_of_mem_sourceFiles (FileSystem.isOneLine_tree hw.files htree) hsource

/-- Why a directory cannot be listed is told on one line. -/
theorem listSources_eq_error {directory : String} {failure : Failure}
    (hdirectory : OneLine directory) (h : listSources w directory = .error failure) :
    OneLine failure.fullMessage := by
  unfold listSources at h
  split at h
  next htree =>
    cases h
    exact Failure.oneLine_list hdirectory (FileSystem.tree_eq_error hw.files htree)
  next htree =>
    cases h
    have hrefused := FileTree.isOneLine_refused (FileSystem.isOneLine_tree hw.files htree)
    exact Failure.oneLine_list hdirectory hrefused
  next =>
    cases h
    exact Failure.oneLine_list hdirectory (by decide)
  next => cases h

/-- Why a package is not found is told on one line. -/
theorem locatePackage_eq_error {failure : Failure} (hname : OneLine name)
    (h : locatePackage w name = .error failure) : OneLine failure.fullMessage := by
  unfold locatePackage at h
  split at h
  next => cases h
  next =>
    split at h
    next => cases h
    next =>
      cases h
      exact Failure.oneLine_noPackage hname hw.sourceRoots

/-- A package that is found is in a directory with a name on one line. -/
theorem locatePackage_eq_ok {location : PackageLocation} (hname : OneLine name)
    (h : locatePackage w name = .ok location) : OneLine location.directory := by
  unfold locatePackage at h
  split at h
  next =>
    cases h
    exact hname
  next =>
    split at h
    next root hroot =>
      cases h
      exact Path.oneLine_join (hw.sourceRoots root (List.mem_of_find?_eq_some hroot)) hname
    next => cases h

/-- Why a package cannot be loaded is told on one line. -/
theorem loadPackage_eq_error {parser : Parser} {failure : Failure} (hparser : parser.Sound)
    (hname : OneLine name) (h : loadPackage parser w name = .error failure) :
    OneLine failure.fullMessage := by
  rcases bind_eq_error h with h | ⟨location, hlocation, h⟩
  · exact locatePackage_eq_error hw hname h
  have hdirectory := locatePackage_eq_ok hw hname hlocation
  rcases bind_eq_error h with h | ⟨sources, hsources, h⟩
  · exact listSources_eq_error hw hdirectory h
  rcases bind_eq_error h with h | ⟨-, -, h⟩
  · unfold Parser.start at h
    split at h
    next fault hfault =>
      cases h
      exact Failure.oneLine_grammar (hparser.fault fault hfault)
    next => cases h
  rcases bind_eq_error h with h | ⟨files, -, h⟩
  · obtain ⟨source, hsource, h⟩ := mapM_eq_error h
    obtain ⟨hfile, hcontent⟩ := listSources_eq_ok hw hsources hsource
    exact loadFile_eq_error hdirectory hfile hcontent h
  · cases h

/-- The files of a package have names on one line. -/
theorem oneLine_name_of_loadPackage {parser : Parser} {package : Package}
    (h : loadPackage parser w name = .ok package) :
    ∀ file ∈ package.files, OneLine file.name := by
  obtain ⟨directory, sources, hsources, hfiles⟩ := loadPackage_eq_ok h
  intro file hfile
  obtain ⟨source, hsource, hload⟩ := mapM_eq_ok hfiles file hfile
  obtain ⟨text, hread⟩ := loadFile_eq_ok hload
  rw [(File.read_eq_ok hread).1]
  exact (listSources_eq_ok hw hsources hsource).1

end

end Go

/-! ## Templates -/

namespace Template

/-- Why a file cannot be read as a template is told on one line. -/
theorem oneLine_of_analyzeFile {d : Delimiters} {root : String}
    {met : List String × Except Refusal (List UInt8)} {failure : Failure} (hroot : OneLine root)
    (hmet : FileTree.PlainlyMet met) (h : analyzeFile d root met.1 met.2 = .error failure) :
    OneLine failure.fullMessage := by
  obtain ⟨names, content⟩ := met
  obtain ⟨hnames, hcontent⟩ := hmet
  cases content with
  | error refusal =>
    cases h
    have hpath := Path.oneLine_foldl_join hroot hnames
    have herror := hcontent refusal rfl
    unfold Refusal.failure
    dsimp only
    split
    · exact Failure.oneLine_walk hroot hpath herror
    · exact Failure.oneLine_read hpath herror
  | ok bytes =>
    -- A file that can be read fails by its template alone, and the message names the place.
    simp only [analyzeFile, analyze] at h
    cases hparse : parse d (Text.decode bytes) with
    | ok tree =>
      rw [hparse] at h
      cases h
    | error e =>
      rw [hparse] at h
      cases h
      have hpath : OneLine ("/".intercalate names) := .intercalate (by decide) hnames
      refine Failure.oneLine_fullMessage ?_ (by simp [Failure.causes])
      exact .append (.append (.append (.append (.append (.append (.append (by decide) hpath)
        (by decide)) (.toString_nat _)) (by decide)) (.toString_nat _)) (by decide))
        (parse_error_oneLine hparse)

end Template

/-- Why a directory of templates cannot be read is told on one line. -/
theorem templateFields_eq_error {w : Workspace} {d : Template.Delimiters} {directory : String}
    {failure : Failure} (hw : w.IsOneLine) (hdirectory : OneLine directory)
    (h : templateFields w d directory = .error failure) : OneLine failure.fullMessage := by
  unfold templateFields at h
  split at h
  next htree =>
    cases h
    exact Failure.oneLine_walk hdirectory hdirectory (FileSystem.tree_eq_error hw.files htree)
  next tree htree =>
    have hnames := FileSystem.isOneLine_tree hw.files htree
    rcases bind_eq_error h with h | ⟨templates, -, h⟩
    · obtain ⟨met, hmet, h⟩ := mapM_eq_error h
      exact Template.oneLine_of_analyzeFile hdirectory (FileTree.plainlyMet_walk tree hnames hmet) h
    · cases h

/-! ## Whole runs -/

/-- A run stops at a render call: the call is named on one line, and the reason shows an expression
of the package. -/
structure Render.StopsAt (parser : Go.Parser) (w : Workspace) (name message : String)
    (package : Go.Package) (call : UnsupportedCall) : Prop where
  load : Go.loadPackage parser w name = .ok package
  stop : findUsages .abort package = .error call
  message : ∃ start, OneLine start ∧ message = start ++ call.unsupported.reason
  shows : package.Shows call.unsupported.reason

/-- Why there are no uses of templates is told on one line, or the search stops at a render call. -/
theorem packageUsages_eq_error {parser : Go.Parser} {w : Workspace} {name : String}
    {policy : Render.Policy} {failure : Failure} (hparser : parser.Sound) (hw : w.IsOneLine)
    (hname : OneLine name) (h : packageUsages parser w name policy = .error failure) :
    OneLine failure.fullMessage
      ∨ policy = .abort
        ∧ ∃ package call, Render.StopsAt parser w name failure.fullMessage package call := by
  rcases bind_eq_error h with h | ⟨package, hload, h⟩
  · exact .inl (Go.loadPackage_eq_error hw hparser hname h)
  · have hshape := Go.loadPackage_shaped hparser hload
    have hnames := Go.oneLine_name_of_loadPackage hw hload
    split at h
    next => cases h
    next call hcall =>
      cases h
      obtain ⟨⟨start, hstart, hmessage⟩, hreason⟩ :=
        Render.findUsages_eq_error hshape hnames hcall
      have hfull : (Failure.unsupported call).fullMessage = start ++ call.unsupported.reason :=
        String.intercalate_singleton.trans hmessage
      rcases hreason with hreason | hshows
      · exact .inl (hfull ▸ hstart.append hreason)
      · cases policy with
        | abort => exact .inr ⟨rfl, package, call, hload, hcall, ⟨start, hstart, hfull⟩, hshows⟩
        | skip =>
          rw [Render.findUsages_skip] at hcall
          cases hcall

namespace CommandLine

/-- The report of a run cannot be written: of the report there is what the output has taken, and the
error comes after the warnings. -/
structure Unwritten (tools : Tools) (w : Workspace) (arguments : List Argument)
    (options : Options) (analysis : Analysis) (outlet : Outlet) : Prop where
  read : tools.options (normalizeVector arguments) = .ok options
  found : analyze tools.parser w options.settings = .ok analysis
  fails : w.outlet = some outlet
  refuses : Outlet.refuses outlet (Report.render options.format analysis.results) = true
  output : (run tools w arguments).output
    = Outlet.taken outlet (Report.render options.format analysis.results)
  errors : (run tools w arguments).errors
    = warningsText analysis ++ errorText ("failed to write report: " ++ outlet.error.message)

/-- A run that fails either gives no report or cannot write it. -/
theorem run_eq_failed {tools : Tools} {w : Workspace} {arguments : List Argument}
    (h : (run tools w arguments).exitCode = 1) :
    (∃ options failure, tools.options (normalizeVector arguments) = .ok options
        ∧ options.settings.fault? = none
        ∧ analyze tools.parser w options.settings = .error failure
        ∧ run tools w arguments = .failed failure)
      ∨ ∃ options analysis outlet, Unwritten tools w arguments options analysis outlet := by
  cases hoptions : tools.options (normalizeVector arguments) with
  | error notice =>
    rw [run, hoptions] at h
    cases notice <;> cases h
  | ok options =>
    cases hfault : options.settings.fault? with
    | some fault =>
      simp only [run, hoptions, hfault] at h
      cases h
    | none =>
      cases hanalysis : analyze tools.parser w options.settings with
      | error failure =>
        refine .inl ⟨options, failure, rfl, hfault, hanalysis, ?_⟩
        simp only [run, hoptions, hfault, hanalysis]
      | ok analysis =>
        have hrun : run tools w arguments = writeReport w options.format analysis := by
          simp only [run, hoptions, hfault, hanalysis]
        -- Without an analysis that failed, only the report is left to fail.
        rw [hrun, writeReport] at h
        split at h
        next outlet houtlet =>
          split at h
          next hrefuses =>
            have hend : run tools w arguments = .unwritten options.format analysis outlet := by
              rw [hrun, writeReport, houtlet]
              simp only [hrefuses, if_true]
            refine .inr ⟨options, analysis, outlet, hoptions, hanalysis, houtlet, hrefuses, ?_, ?_⟩
            · exact congrArg Outcome.output hend
            · exact congrArg Outcome.errors hend
          next => cases h
        next => cases h

/-- The tools of this library. -/
def standardTools : Tools := ⟨readOptions, Go.Grammar.parser⟩

/-- A package of one file, and one template. -/
def smallProject (source template : String) : Workspace where
  files :=
    ⟨.directory [("app", .directory [("main.go", .file (Text.bytes source))]),
      ("templates", .directory [("a.html", .file (Text.bytes template))])], []⟩
  home := some "/home"
  goPath := none

/-- The arguments for such a project. -/
def smallArguments : List Argument :=
  ["tmplcheck", "-t", "templates", "-p", "app"].map Text.bytes

/-- The names in such a project are on one line. -/
theorem isOneLine_smallProject (source template : String) :
    (smallProject source template).IsOneLine where
  files := rfl
  home := fun _ h => by cases h; decide
  goPath := fun _ h => by cases h

/-- A run that fails, with any reader of options and any parser that is sound, writes an error to
the error output and nothing else.  The error is a single line, unless the run stops at a render
call and shows an expression of the package.  Only a run whose report cannot be written has written
more. -/
theorem run_failed_line {tools : Tools} {w : Workspace} {arguments : List Argument}
    (hparser : tools.parser.Sound) (hw : w.IsOneLine)
    (hpaths : ∀ options, tools.options (normalizeVector arguments) = .ok options →
      OneLine options.templates ∧ OneLine options.package)
    (hexit : (run tools w arguments).exitCode = 1) :
    ((run tools w arguments).output = ""
      ∧ ∃ message, (run tools w arguments).errors = "error: " ++ message ++ "\n"
        ∧ (OneLine message ∨ ∃ options package call,
            tools.options (normalizeVector arguments) = .ok options
              ∧ options.settings.policy = .abort
              ∧ Render.StopsAt tools.parser w options.package message package call))
      ∨ ∃ options analysis outlet, Unwritten tools w arguments options analysis outlet := by
  rcases run_eq_failed hexit with ⟨options, failure, hoptions, hfault, hfailure, hrun⟩ | hunwritten
  · obtain ⟨htemplates, hpackage⟩ := hpaths options hoptions
    rw [hrun]
    refine .inl ⟨rfl, failure.fullMessage, rfl, ?_⟩
    simp only [analyze, hfault] at hfailure
    -- The package comes first, and the templates are read only if its calls can be.
    rcases bind_eq_error hfailure with h | ⟨findings, -, h⟩
    · refine (packageUsages_eq_error hparser hw hpackage h).imp id ?_
      rintro ⟨hpolicy, package, call, hstops⟩
      exact ⟨options, package, call, hoptions, hpolicy, hstops⟩
    · rcases bind_eq_error h with h | ⟨fields, -, h⟩
      · exact .inl (templateFields_eq_error hw htemplates h)
      · cases h
  · exact .inr hunwritten

/-- A template fails at a literal with a line break, which the error shows escaped. -/
theorem run_failed_line_literal :
    let w := smallProject "package main" "\x7b\x7b`a\nb`.X\x7d\x7d"
    (run standardTools w smallArguments).exitCode = 1
      ∧ (((run standardTools w smallArguments).output = ""
        ∧ ∃ message, (run standardTools w smallArguments).errors = "error: " ++ message ++ "\n"
          ∧ (OneLine message ∨ ∃ options package call,
              standardTools.options (normalizeVector smallArguments) = .ok options
                ∧ options.settings.policy = .abort
                ∧ Render.StopsAt standardTools.parser w options.package message package call))
        ∨ ∃ options analysis outlet,
            Unwritten standardTools w smallArguments options analysis outlet) := by
  intro w
  have hexit : (run standardTools w smallArguments).exitCode = 1 := by decide +kernel
  have hoptions : standardTools.options (normalizeVector smallArguments)
      = .ok ⟨"templates", "app", "\x7b\x7b", "\x7d\x7d", .plain, false⟩ :=
    eq_ok_of_toOption (by decide +kernel)
  refine ⟨hexit, run_failed_line Go.Grammar.parser_sound (isOneLine_smallProject _ _) ?_ hexit⟩
  intro options h
  cases hoptions.symm.trans h
  exact ⟨by decide, by decide⟩

/-- A run stops at a render call whose data is a call over several lines, and so is its error. -/
theorem run_failed_shows_lines :
    let w := smallProject
      ("package main\n\nimport \"github.com/go-web-framework/templates\"\n\n"
        ++ "var set templates.Set\n\nfunc run(w W) \x7b\n"
        ++ "\tset.Execute(\"a.html\", w, data(\n\t\t1,\n\t))\n\x7d\n")
      "\x7b\x7b.Title\x7d\x7d"
    w.IsOneLine ∧ (run standardTools w smallArguments).exitCode = 1
      ∧ (run standardTools w smallArguments).errors
        = "error: main.go:8: unsupported argument in call to set.Execute: "
          ++ "data argument data(\n\t\t1,\n\t) is not a composite literal\n" := by
  intro w
  refine ⟨isOneLine_smallProject _ _, ?_, ?_⟩ <;> decide +kernel

end CommandLine

end FieldAudit
