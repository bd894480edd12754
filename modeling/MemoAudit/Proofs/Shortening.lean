import MemoAudit.Proofs.Locating
import MemoAudit.Proofs.Verbatim

/-!
# Paths as they look from the working directory

A report shows a path relative to the working directory if it resolves to something there, and as
it was given otherwise.  In a file system without links, `Path.normalize` says what a path denotes:
it is read from within the directory, and two dots take away the part before them.  Here it is shown
that showing a path in this way keeps what it denotes (`labels_denote`), so that a reader can tell
apart any two files that the report is about.

Resolving does not work like that.  It goes along the parts and keeps a *spelling*, which is
relative if the path is, and then begins with as many pairs of dots as it has led above its start
(`Path.enter`).  The invariant is that the spelling goes on denoting what has been read so far
(`Path.normalize_foldl_enter`).  For a path from the root it also has to be known that no dots are
left in the spelling, because there going up always takes a part away.
-/

namespace MemoAudit

namespace Path

/-! ## Resolving dots -/

theorem foldl_resolveStep_of_notMem {parts : List String} (h : ".." ∉ parts)
    (before : List String) : parts.foldl resolveStep before = parts.reverse ++ before := by
  induction parts generalizing before with
  | nil => rfl
  | cons part rest ih =>
    rw [List.mem_cons, not_or] at h
    rw [List.foldl_cons, resolveStep, if_neg (Ne.symm h.1), ih h.2, List.reverse_cons,
      List.append_assoc, List.singleton_append]

/-- Parts without two dots are resolved already. -/
theorem resolveParts_of_notMem {parts : List String} (h : ".." ∉ parts) :
    resolveParts parts = parts := by
  rw [resolveParts, foldl_resolveStep_of_notMem h, List.append_nil, List.reverse_reverse]

theorem mem_foldl_resolveStep {parts before : List String} {part : String}
    (h : part ∈ parts.foldl resolveStep before) : part ∈ before ∨ part ∈ parts ∧ part ≠ ".." := by
  induction parts generalizing before with
  | nil => exact .inl h
  | cons first rest ih =>
    rcases ih h with hstep | ⟨hrest, hdots⟩
    · unfold resolveStep at hstep
      split at hstep
      · exact .inl (List.mem_of_mem_drop hstep)
      · rename_i hdots
        rcases List.mem_cons.1 hstep with rfl | hbefore
        · exact .inr ⟨List.mem_cons_self, hdots⟩
        · exact .inl hbefore
    · exact .inr ⟨List.mem_cons_of_mem first hrest, hdots⟩

/-- Resolving keeps some of the parts, and of these none that is two dots. -/
theorem mem_of_mem_resolveParts {parts : List String} {part : String}
    (h : part ∈ resolveParts parts) : part ∈ parts ∧ part ≠ ".." := by
  rw [resolveParts, List.mem_reverse] at h
  exact (mem_foldl_resolveStep h).resolve_left List.not_mem_nil

theorem dots_notMem_resolveParts (parts : List String) : ".." ∉ resolveParts parts :=
  fun h => (mem_of_mem_resolveParts h).2 rfl

/-- The parts in front may be resolved first. -/
theorem resolveParts_append (front rest : List String) :
    resolveParts (front ++ rest) = resolveParts (resolveParts front ++ rest) := by
  have hfront : (resolveParts front).foldl resolveStep [] = front.foldl resolveStep [] := by
    rw [foldl_resolveStep_of_notMem (dots_notMem_resolveParts front), resolveParts,
      List.reverse_reverse, List.append_nil]
  rw [resolveParts, resolveParts, List.foldl_append, List.foldl_append, hfront]

theorem resolveParts_append_dots {part : String} (front : List String) (h : part ≠ "..") :
    resolveParts (front ++ [part, ".."]) = resolveParts front := by
  rw [resolveParts, List.foldl_append]
  simp [resolveStep, h, resolveParts]

/-! ## What a spelling denotes -/

theorem normalize_below (path directory : Path) (names : List String) :
    (path.below names).normalize directory =
      ⟨.root, resolveParts ((path.normalize directory).parts ++ names)⟩ := by
  rw [normalize, parts_within_below, resolveParts_append]
  rfl

/-- No dots are left in the spelling if it starts from the root. -/
def IsSettled (path : Path) : Prop := path.isAbsolute = true → ".." ∉ path.parts

/-- Going up from a spelling takes its last part away, or adds two dots to it. -/
theorem normalize_above {path : Path} (directory : Path) (h : path.IsSettled) :
    path.above.normalize directory = (path.below [".."]).normalize directory := by
  obtain ⟨anchor, parts⟩ := path
  rcases List.eq_nil_or_concat' parts with rfl | ⟨front, last, rfl⟩
  · cases anchor <;> rfl
  · by_cases hlast : last = ".."
    · -- Dots at the end are only left where more of them are added.
      subst hlast
      cases anchor with
      | relative => simp [above, below, child]
      | root | doubleRoot => simp [IsSettled, isAbsolute] at h
    · have habove : above ⟨anchor, front ++ [last]⟩ = ⟨anchor, front⟩ := by
        cases anchor <;> simp [above, parent, hlast]
      have hdots := resolveParts_append_dots ((within ⟨anchor, front⟩ directory).parts) hlast
      have hbelow := parts_within_below ⟨anchor, front⟩ directory [last, ".."]
      rw [habove, normalize, normalize, ← hdots, ← hbelow]
      simp [below]

/-- One step of reading a path where there are no links: two dots lead up, any other part leads
down. -/
def enter (before : Path) (part : String) : Path :=
  if part = ".." then before.above else before.child part

theorem anchor_enter (before : Path) (part : String) :
    (before.enter part).anchor = before.anchor := by
  unfold enter above
  split
  · split <;> rfl
  · rfl

theorem IsSettled.enter {before : Path} (h : before.IsSettled) (part : String) :
    (before.enter part).IsSettled := by
  obtain ⟨anchor, parts⟩ := before
  unfold IsSettled isAbsolute at h ⊢
  rw [anchor_enter]
  intro habsolute
  have hparts := h habsolute
  by_cases hpart : part = ".."
  · have henter : Path.enter ⟨anchor, parts⟩ part = parent ⟨anchor, parts⟩ := by
      cases anchor <;> simp_all [Path.enter, above]
    rw [henter]
    exact fun hmem => hparts (List.mem_of_mem_dropLast hmem)
  · simp [Path.enter, hpart, child, hparts, Ne.symm hpart]

theorem anchor_foldl_enter (before : Path) (parts : List String) :
    (parts.foldl enter before).anchor = before.anchor := by
  induction parts generalizing before with
  | nil => rfl
  | cons part rest ih => rw [List.foldl_cons, ih, anchor_enter]

/-- The spelling that is read denotes what the parts denote. -/
theorem normalize_foldl_enter {before : Path} (directory : Path) (parts : List String)
    (h : before.IsSettled) :
    (parts.foldl enter before).normalize directory = (before.below parts).normalize directory := by
  induction parts generalizing before with
  | nil => rw [List.foldl_nil, below, List.append_nil]
  | cons part rest ih =>
    have henter : (before.enter part).normalize directory =
        (before.below [part]).normalize directory := by
      unfold enter
      split
      · rename_i hpart
        rw [normalize_above directory h, hpart]
      · rfl
    rw [List.foldl_cons, ih (h.enter part), normalize_below, henter, ← normalize_below]
    simp [below]

/-- What is read of a path starts from the root if the path does, and from nothing otherwise. -/
def spelling (path : Path) : Path :=
  path.parts.foldl enter (if path.isAbsolute then rootDirectory else ⟨.relative, []⟩)

theorem normalize_spelling (path directory : Path) :
    path.spelling.normalize directory = path.normalize directory := by
  unfold spelling
  by_cases habsolute : path.isAbsolute = true
  · rw [if_pos habsolute, normalize_foldl_enter directory _ fun _ => List.not_mem_nil, normalize,
      normalize, within, within, if_pos habsolute]
    rfl
  · have hrelative : path.anchor = .relative := by simpa [isAbsolute] using habsolute
    rw [if_neg habsolute, normalize_foldl_enter directory _ fun _ => List.not_mem_nil, ← hrelative]
    rfl

theorem anchor_within_spelling (path : Path) {directory : Path} (h : directory.anchor = .root) :
    (path.spelling.within directory).anchor = .root := by
  have hanchor : path.spelling.anchor =
      (if path.isAbsolute then rootDirectory else ⟨.relative, []⟩ : Path).anchor :=
    anchor_foldl_enter _ _
  unfold within
  by_cases habsolute : path.isAbsolute = true
  · rw [if_pos habsolute] at hanchor
    rw [if_pos (by rw [isAbsolute, hanchor]; rfl), hanchor]
    rfl
  · rw [if_neg habsolute] at hanchor
    rw [if_neg (by rw [isAbsolute, hanchor]; decide)]
    exact h

end Path

/-! ## File systems without links -/

/-- A link that stands somewhere is counted. -/
theorem Directory.linkCount_ne_zero {entries : Directory} {permissions : Permissions}
    {place : Place} {target : String}
    (h : (Entry.directory entries permissions).at? place = some (.link target)) :
    entries.linkCount ≠ 0 := by
  induction entries using entryInduction generalizing place permissions with
  | nil => cases place <;> simp [Entry.at?] at h
  | cons first entry rest ihEntry ihRest =>
    cases place with
    | nil => simp at h
    | cons name place =>
      rw [at?_cons] at h
      by_cases hname : name = first
      · rw [if_pos hname] at h
        cases entry with
        | directory inner permissions' =>
          have hinner := ihEntry inner permissions' rfl h
          simp [linkCount, hinner]
        | link => simp [linkCount]
        | file | special => cases place <;> simp [Entry.at?] at h
      · rw [if_neg hname] at h
        have hrest := ihRest h
        cases entry <;> simp [linkCount, hrest]

namespace FileSystem

/-- There is no link anywhere. -/
def IsLinkless (fs : FileSystem) : Prop := ∀ place target, fs.at? place ≠ some (.link target)

theorem isLinkless_of_linkCount {fs : FileSystem} (h : fs.root.linkCount = 0) : fs.IsLinkless :=
  fun _ _ hlink => Directory.linkCount_ne_zero hlink h

variable {fs : FileSystem} (hlinks : fs.IsLinkless)

include hlinks

theorem linkTarget?_of_isLinkless (directory path : Path) :
    fs.linkTarget? directory path = none := by
  refine Option.eq_none_iff_forall_ne_some.2 fun target htarget => ?_
  exact hlinks _ _ (linkTarget?_eq_some_iff.1 htarget).2.2

/-- Without links, all parts of a path can be read, one after the other. -/
theorem follow_of_isLinkless (directory : Path) (depth : Nat) (pending : List Path) (before : Path)
    {parts : List String} (hparts : ∀ part ∈ parts, part ≠ "" ∧ part ≠ ".") :
    fs.follow directory depth pending before parts = .ok (parts.foldl Path.enter before) := by
  induction parts generalizing before with
  | nil => rw [follow, List.foldl_nil]
  | cons part rest ih =>
    rw [List.forall_mem_cons] at hparts
    have hpart : ¬ (part = "" || part = ".") = true := by simpa using hparts.1
    rw [follow, if_neg hpart, List.foldl_cons, Path.enter]
    by_cases hdots : part = ".."
    · rw [if_pos hdots, if_pos hdots, ih _ hparts.2]
    · rw [if_neg hdots, if_neg hdots]
      simp only [linkTarget?_of_isLinkless hlinks]
      exact ih _ hparts.2

theorem realPath_of_isLinkless {directory path : Path} (hdirectory : directory.anchor = .root)
    (hpath : path.IsProper) : fs.realPath directory path = path.normalize directory := by
  have hparts (part : String) (hpart : part ∈ path.parts) : part ≠ "" ∧ part ≠ "." := by
    have hisPart := (hpath part hpart).1
    constructor <;> rintro rfl <;> simp [Path.isPart] at hisPart
  have hspelling : fs.follow directory (2 * fs.root.linkCount) []
      (if path.isAbsolute then Path.rootDirectory else ⟨.relative, []⟩) path.parts =
        .ok path.spelling :=
    follow_of_isLinkless hlinks _ _ _ _ hparts
  simp only [realPath, hspelling, path.anchor_within_spelling hdirectory,
    ← path.normalize_spelling directory]
  rfl

theorem find_ne_tooManyLinks (directory path : Path) :
    fs.find directory path ≠ .error .tooManyLinks := by
  have hlocate (links : Nat) (here : Place) (parts : List String) :
      fs.locate links here parts ≠ .error .tooManyLinks := by
    fun_induction fs.locate links here parts with
    | case1 | case2 | case4 | case11 => simp
    | case3 | case5 | case6 | case10 => assumption
    | case7 =>
      unfold missingName
      split <;> simp
    | case8 here entries permissions part rest hhere _ _ _ _ target hlookup
    | case9 here entries permissions part rest hhere _ _ _ _ target _ hlookup =>
      exact absurd ((at?_concat hhere part).trans hlookup) (hlinks _ _)
  unfold find
  split
  · simp
  · cases hfound : fs.locate linkLimit [] (path.within directory).parts with
    | ok reached => simp [Except.map]
    | error fault =>
      have hfault : fault ≠ .tooManyLinks := by
        rintro rfl
        exact hlocate _ _ _ hfound
      simpa [Except.map] using hfault

/-- Without links, a path that the system can be asked about resolves to what it denotes. -/
theorem resolve_of_isLinkless {directory path : Path} (hdirectory : directory.anchor = .root)
    (hpath : path.IsProper) :
    fs.resolve directory path =
      if path.isPresentable then .ok (path.normalize directory) else .error .nullCharacter := by
  unfold resolve
  rw [realPath_of_isLinkless hlinks hdirectory hpath]
  split
  · dsimp only
    split
    · exact absurd ‹_› (find_ne_tooManyLinks hlinks _ _)
    · rfl
  · rfl

end FileSystem

/-! ## Labels -/

namespace Path

/-- The path is that of the directory or of something below it. -/
def LiesIn (path directory : Path) : Prop := ∃ names, path = directory.below names

theorem relativeTo?_eq_some_iff {path directory rest : Path} :
    path.relativeTo? directory = some rest ↔
      ∃ names, path = directory.below names ∧ rest = ⟨.relative, names⟩ := by
  obtain ⟨anchor, parts⟩ := path
  unfold relativeTo? below
  constructor
  · intro h
    split at h
    · rename_i hbelow
      obtain ⟨names, rfl⟩ := List.isPrefixOf_iff_prefix.1 hbelow.2
      refine ⟨names, by rw [← hbelow.1], ?_⟩
      simpa using (Option.some.inj h).symm
    · cases h
  · rintro ⟨names, hpath, rfl⟩
    cases hpath
    simp

theorem IsProper.normalize {path directory : Path} (hpath : path.IsProper)
    (hdirectory : directory.IsProper) : (path.normalize directory).IsProper := by
  intro part hpart
  have hmem := (mem_of_mem_resolveParts hpart).1
  unfold within at hmem
  split at hmem
  · exact hpath part hmem
  · exact (List.mem_append.1 hmem).elim (hdirectory part) (hpath part)

variable {path directory : Path}

/-- What is left of a path below the directory denotes what the path does. -/
theorem normalize_rest {names : List String}
    (h : path.normalize directory = directory.below names) :
    normalize ⟨.relative, names⟩ directory = path.normalize directory := by
  have hresolved := resolveParts_of_notMem (dots_notMem_resolveParts (path.within directory).parts)
  have hparts : (path.normalize directory).parts = directory.parts ++ names := by rw [h]; rfl
  calc normalize ⟨.relative, names⟩ directory
    _ = ⟨.root, resolveParts (path.normalize directory).parts⟩ := by rw [hparts]; rfl
    _ = path.normalize directory := by rw [normalize, hresolved]

end Path

namespace Workspace

variable {workspace : Workspace} {path : Path} (hlinks : workspace.files.IsLinkless)
  (hroot : workspace.directory.anchor = .root) (hdirectory : workspace.directory.IsProper)
  (hpath : path.IsProper)

include hlinks hroot hdirectory hpath

/-- The label of a path is the text of a path that denotes the same, and that is the rest of it
below the working directory if it resolves to something there. -/
theorem exists_label :
    ∃ shown : Path, shown.IsProper ∧ workspace.label path = .ok shown.text ∧
      shown.normalize workspace.directory = path.normalize workspace.directory ∧
      ∀ names, workspace.resolve path = .ok (workspace.directory.below names) →
        shown = ⟨.relative, names⟩ ∧ ".." ∉ names := by
  have hresolve : workspace.resolve path = _ :=
    FileSystem.resolve_of_isLinkless hlinks hroot hpath
  unfold label
  rw [hresolve]
  by_cases hpresentable : path.isPresentable = true
  · simp only [if_pos hpresentable, Path.shorten]
    cases hrest : (path.normalize workspace.directory).relativeTo? workspace.directory with
    | none =>
      refine ⟨path, hpath, rfl, rfl, fun names hnames => ?_⟩
      have hsome := Path.relativeTo?_eq_some_iff.2 ⟨names, Except.ok.inj hnames, rfl⟩
      rw [hrest] at hsome
      cases hsome
    | some rest =>
      obtain ⟨names, hbelow, rfl⟩ := Path.relativeTo?_eq_some_iff.1 hrest
      have hproper := hpath.normalize hdirectory
      rw [hbelow] at hproper
      refine ⟨⟨.relative, names⟩, fun part hpart => hproper part (List.mem_append_right _ hpart),
        rfl, Path.normalize_rest hbelow, fun others hothers => ?_⟩
      rw [hbelow, Except.ok.injEq] at hothers
      obtain rfl := Path.below_injective _ hothers
      have hdots : ".." ∉ (path.normalize workspace.directory).parts :=
        Path.dots_notMem_resolveParts _
      rw [hbelow] at hdots
      exact ⟨rfl, fun hmem => hdots (List.mem_append_right _ hmem)⟩
  · rw [if_neg hpresentable]
    refine ⟨path, hpath, rfl, rfl, fun names hnames => ?_⟩
    cases hnames

end Workspace

/-- **A label denotes the file that it is shown for.**  In a workspace without links, whatever its
working directory is, every path that is given as text has a label.  The label, read from within
the working directory, denotes what the path denotes, and it is relative and has no two dots in it
if the path resolves to the working directory or to something below it.  A path resolves to what it
denotes, unless it has a null character in it, so that the system cannot be asked about it and there
is no such file.  Hence paths that denote different files have different labels, and these labels
are what a report holds where it names files: in its headings, and in the cells of the table of all
files. -/
theorem labels_denote (workspace : Workspace) (cwd : String)
    (hlinks : workspace.files.IsLinkless)
    (hdirectory : workspace.directory = (Path.ofString cwd).normalize Path.rootDirectory) :
    (∀ text : String, ∃ shown, workspace.label (Path.ofString text) = .ok shown ∧
      (Path.ofString shown).normalize workspace.directory =
        (Path.ofString text).normalize workspace.directory ∧
      ∀ resolved, workspace.resolve (Path.ofString text) = .ok resolved →
        resolved.LiesIn workspace.directory →
        (Path.ofString shown).anchor = .relative ∧ ".." ∉ (Path.ofString shown).parts) ∧
    (∀ text : String, workspace.resolve (Path.ofString text) =
      if (Path.ofString text).isPresentable then
        .ok ((Path.ofString text).normalize workspace.directory)
      else .error .nullCharacter) ∧
    (∀ text other : String,
      (Path.ofString text).normalize workspace.directory ≠
        (Path.ofString other).normalize workspace.directory →
      workspace.label (Path.ofString text) ≠ workspace.label (Path.ofString other)) ∧
    ∀ (findings : List Finding) (texts : List String) (verbose : Bool), ∃ blocks,
      workspace.report findings (texts.map Path.ofString) verbose = (blocks, none) ∧
      List.Forall₂
        (fun content group => ∃ shown, workspace.label (Path.ofString group.1) = .ok shown ∧
          content = .markup s!"[bold cyan]{shown}[/bold cyan]")
        (Report.headings blocks) (Report.groups findings) ∧
      List.Forall₂
        (fun content row => ∃ shown, workspace.label row.path = .ok shown ∧
          content = .markup shown)
        (Report.fileCells blocks) (Report.fileRows findings (texts.map Path.ofString)) := by
  have hroot : workspace.directory.anchor = .root := by rw [hdirectory]; rfl
  have hproper : workspace.directory.IsProper := by
    rw [hdirectory]
    exact (Path.isProper_ofString cwd).normalize fun part hpart => by cases hpart
  have hlabel (text : String) := Workspace.exists_label hlinks hroot hproper
    (Path.isProper_ofString text)
  have hresolve (text : String) := FileSystem.resolve_of_isLinkless hlinks hroot
    (Path.isProper_ofString text)
  refine ⟨fun text => ?_, hresolve, fun text other hne hsame => ?_,
    fun findings texts verbose => ?_⟩
  · obtain ⟨shown, hshown, heq, hdenotes, hbelow⟩ := hlabel text
    refine ⟨shown.text, heq, by rw [Path.ofString_text hshown, hdenotes], ?_⟩
    rintro resolved hresolved ⟨names, rfl⟩
    obtain ⟨rfl, hnames⟩ := hbelow names hresolved
    rw [Path.ofString_text hshown]
    exact ⟨rfl, hnames⟩
  · obtain ⟨a, ha, halabel, hadenotes, -⟩ := hlabel text
    obtain ⟨b, hb, hblabel, hbdenotes, -⟩ := hlabel other
    rw [halabel, hblabel, Except.ok.injEq] at hsame
    obtain rfl : a = b := Path.text_injective ha hb hsame
    exact hne (hadenotes.symm.trans hbdenotes)
  · have hlabelled (text : String) : Report.HasLabel workspace.label (Path.ofString text) := by
      obtain ⟨shown, -, heq, -⟩ := hlabel text
      exact ⟨shown.text, heq⟩
    have hwhole : (workspace.report findings (texts.map Path.ofString) verbose).2 = none :=
      Report.snd_document_eq_none_iff.2
        ⟨fun _ _ => hlabelled _, List.forall_mem_map.2 fun text _ => hlabelled text⟩
    obtain ⟨rows, hsnd, hrows, hcells⟩ := Report.exists_fileCells_document hwhole
    refine ⟨_, Prod.ext rfl hwhole, ?_, ?_⟩
    · rw [Workspace.report, Report.headings_document, List.forall₂_map_left_iff,
        Report.forall₂_labelled_iff]
      intro group _
      obtain ⟨shown, heq⟩ := hlabelled group.1
      exact ⟨shown, heq, shown, heq, rfl⟩
    · rw [Workspace.report, hcells, ← hsnd, List.forall₂_map_left_iff, List.forall₂_map_right_iff,
        List.forall₂_same]
      exact fun row hrow => ⟨row.1, hrows row hrow, rfl⟩

/-- A file in the working directory, and one of the same name in a directory beside it, whose own
name goes on from that of the working directory. -/
def neighbours : Workspace where
  files := { root := [("a", .directory [("b", .directory [("c.rb", .file [])]),
    ("bc", .directory [("c.rb", .file [])])])] }
  directory := ⟨.root, ["a", "b"]⟩
  parse := Parsed.blank

/-- The file below is named from there, however roundabout its path is, and the other one is not
mistaken for it. -/
theorem labels_denote_neighbours :
    neighbours.files.IsLinkless ∧
      neighbours.directory = (Path.ofString "/a/./b").normalize Path.rootDirectory ∧
      (∃ shown, neighbours.label (Path.ofString "//a/bc/..//../a/b/c.rb") = .ok shown ∧
        (Path.ofString shown).normalize neighbours.directory = ⟨.root, ["a", "b", "c.rb"]⟩ ∧
        (Path.ofString shown).anchor = .relative ∧ ".." ∉ (Path.ofString shown).parts) ∧
      neighbours.label (Path.ofString "//a/bc/..//../a/b/c.rb") ≠
        neighbours.label (Path.ofString "../bc/./c.rb") := by
  have hlinks : neighbours.files.IsLinkless := by
    refine FileSystem.isLinkless_of_linkCount ?_
    simp [neighbours, Directory.linkCount]
  have hdirectory : neighbours.directory =
      (Path.ofString "/a/./b").normalize Path.rootDirectory := by decide
  have hdenotes : (Path.ofString "//a/bc/..//../a/b/c.rb").normalize neighbours.directory =
      ⟨.root, ["a", "b", "c.rb"]⟩ := by decide
  have hother : (Path.ofString "../bc/./c.rb").normalize neighbours.directory =
      ⟨.root, ["a", "bc", "c.rb"]⟩ := by decide
  obtain ⟨hlabel, hresolve, hapart, -⟩ := labels_denote neighbours "/a/./b" hlinks hdirectory
  obtain ⟨shown, hshown, hsame, hbelow⟩ := hlabel "//a/bc/..//../a/b/c.rb"
  have hresolved : neighbours.resolve (Path.ofString "//a/bc/..//../a/b/c.rb") =
      .ok ⟨.root, ["a", "b", "c.rb"]⟩ := by
    rw [hresolve, hdenotes, if_pos (by decide)]
  refine ⟨hlinks, hdirectory, ⟨shown, hshown, hsame.trans hdenotes, ?_⟩, ?_⟩
  · exact hbelow _ hresolved ⟨["c.rb"], rfl⟩
  · refine hapart _ _ ?_
    rw [hdenotes, hother]
    decide

end MemoAudit
