import Mathlib
import MemoAudit.Proofs.Locating
import MemoAudit.Settings.Lookup

/-!
# File systems that grow

A file system *grows* (`FileSystem.GrowsTo`) when regular files are added to it, in directories that
are there or in new ones, and everything that was there stays.  New files do not have the name of
configuration files.

No link is new and none is gone, and so whatever depends on links alone stays as it is: the spelling
of a path without links (`GrowsTo.realPath_eq`).  What a path leads to can change in one way only:
it may lead somewhere where a name was missing before.  If it led to something, it leads to the same
place, and the outline of the entry there is the same; if it was refused for another reason, it
still is (`GrowsTo.persists_locate`).  So a search comes to the files to which it came, and any
other file to which it comes is one that could not be found (`GrowsTo.exposes`,
`GrowsTo.locate_notFound`).

Putting a file at a place where there is room for it is a way of growing
(`FileSystem.growsTo_insert`), and it leaves a sound file system sound
(`FileSystem.IsSound.insert`).
-/

namespace MemoAudit

/-- A name that an operating system accepts for an entry. -/
def IsEntryName (name : String) : Prop :=
  name ≠ "" ∧ name ≠ "." ∧ name ≠ ".." ∧ name.utf8ByteSize ≤ nameLimit

instance (name : String) : Decidable (IsEntryName name) :=
  inferInstanceAs (Decidable (_ ∧ _ ∧ _ ∧ _))

namespace FileSystem

variable {fs grown : FileSystem}

/-- A file system as an operating system keeps it: names tell entries apart, and are such as it
accepts. -/
structure IsSound (fs : FileSystem) : Prop where
  isTree : fs.root.IsTree
  names : ∀ name ∈ fs.root.names, IsEntryName name

theorem IsSound.isEntryName (h : fs.IsSound) {place : Place} {name : String} {entry : Entry}
    (hat : fs.at? (place ++ [name]) = some entry) : IsEntryName name :=
  h.names name (Directory.mem_names_of_at? hat)

/-- Everything in the first file system is in the second one, and besides there are new directories
and new regular files in the second one, but none that has the name of configuration files. -/
structure GrowsTo (fs grown : FileSystem) : Prop where
  kept : ∀ place entry, fs.at? place = some entry →
    ∃ entry', grown.at? place = some entry' ∧ entry'.outline = entry.outline
  added : ∀ place entry, fs.at? place = none → grown.at? place = some entry →
    entry.isDirectory = true ∨ entry.isFile = true ∧ place.getLast? ≠ some configurationName

end FileSystem

namespace Entry

variable {entry other : Entry}

theorem outline_eq_link_iff {target : String} :
    entry.outline = .link target ↔ entry = .link target := by
  cases entry <;> simp [outline]

@[simp] theorem isDirectory_outline (entry : Entry) :
    entry.outline.isDirectory = entry.isDirectory := by
  cases entry <;> rfl

@[simp] theorem isPassable_outline (entry : Entry) :
    entry.outline.isPassable = entry.isPassable := by
  cases entry <;> rfl

/-- The outline of an entry that holds nothing is the entry. -/
theorem eq_of_outline_eq (hentry : entry.isDirectory = false) (h : other.outline = entry.outline) :
    other = entry := by
  cases entry <;> cases other <;> simp_all [outline, isDirectory]

theorem Exposes.ne_link {ignored names : List String} (h : entry.Exposes ignored names)
    (target : String) : entry ≠ .link target := by
  rintro rfl
  obtain rfl := h.eq_nil_of_not_isDirectory rfl
  simp [exposes_nil_iff, Entry.isFile] at h

theorem exists_of_outline_eq_directory {entries : Directory} {permissions : Permissions}
    (h : entry.outline = (Entry.directory entries permissions).outline) :
    ∃ others, entry = .directory others permissions := by
  cases entry <;> simp_all [outline]

end Entry

namespace FileSystem.GrowsTo

variable {fs grown : FileSystem} {here : Place} {links : Nat} {parts : List String}

/-- The links are the same. -/
theorem at?_eq_link_iff (h : fs.GrowsTo grown) {place : Place} {target : String} :
    grown.at? place = some (.link target) ↔ fs.at? place = some (.link target) := by
  constructor
  · intro hgrown
    cases hat : fs.at? place with
    | none => simpa [Entry.isDirectory, Entry.isFile] using h.added place _ hat hgrown
    | some entry =>
      obtain ⟨entry', hentry', houtline⟩ := h.kept place entry hat
      rw [hgrown, Option.some.injEq] at hentry'
      rw [← hentry'] at houtline
      rw [Entry.outline_eq_link_iff.1 houtline.symm]
  · intro hat
    obtain ⟨entry', hentry', houtline⟩ := h.kept place _ hat
    rw [hentry', Entry.outline_eq_link_iff.1 houtline]

theorem exists_directory (h : fs.GrowsTo grown) {entries : Directory} {permissions : Permissions}
    (hat : fs.at? here = some (.directory entries permissions)) :
    ∃ others, grown.at? here = some (.directory others permissions) := by
  obtain ⟨entry', hentry', houtline⟩ := h.kept here _ hat
  obtain ⟨others, rfl⟩ := Entry.exists_of_outline_eq_directory houtline
  exact ⟨others, hentry'⟩

theorem linkCount_eq (h : fs.GrowsTo grown) (hfs : fs.root.IsTree) (hgrown : grown.root.IsTree) :
    grown.root.linkCount = fs.root.linkCount := by
  rw [← Directory.length_linkPlaces, ← Directory.length_linkPlaces]
  refine ((List.perm_ext_iff_of_nodup (Directory.nodup_linkPlaces hgrown)
    (Directory.nodup_linkPlaces hfs)).2 fun place => ?_).length_eq
  rw [Directory.mem_linkPlaces_iff hgrown {}, Directory.mem_linkPlaces_iff hfs {}]
  exact exists_congr fun target => h.at?_eq_link_iff

/-! ## Spellings without links -/

/-- The directories above an entry have the permissions that they had. -/
theorem leadsTo_eq (h : fs.GrowsTo grown) {place : Place} {entry : Entry}
    (hat : fs.at? place = some entry) : grown.leadsTo place = fs.leadsTo place := by
  have habove (above : Nat) : (grown.at? (place.take above)).any Entry.isPassable =
      (fs.at? (place.take above)).any Entry.isPassable := by
    rw [← List.take_append_drop above place, at?_append] at hat
    obtain ⟨found, hfound, -⟩ := Option.bind_eq_some_iff.1 hat
    obtain ⟨found', hfound', houtline⟩ := h.kept _ _ hfound
    rw [hfound, hfound', Option.any_some, Option.any_some, ← Entry.isPassable_outline, houtline,
      Entry.isPassable_outline]
  simp only [leadsTo, habove]

/-- The system shows the same links. -/
theorem linkTarget?_eq (h : fs.GrowsTo grown) (directory path : Path) :
    grown.linkTarget? directory path = fs.linkTarget? directory path := by
  ext target
  simp only [linkTarget?_eq_some_iff, h.at?_eq_link_iff]
  exact and_congr_right fun _ => and_congr_left fun hlink => by rw [h.leadsTo_eq hlink]

theorem follow_eq (h : fs.GrowsTo grown) (directory : Path) (depth : Nat) (pending : List Path)
    (before : Path) (pieces : List String) :
    grown.follow directory depth pending before pieces =
      fs.follow directory depth pending before pieces := by
  fun_induction fs.follow directory depth pending before pieces with
  | case1 => rw [follow]
  | case2 depth pending before piece rest hpiece ih => rw [follow, if_pos hpiece, ih]
  | case3 depth pending before rest hpiece ih => rw [follow, if_neg hpiece, if_pos rfl, ih]
  | case4 pending before piece rest hpiece hdots next restText target hlink =>
    rw [← h.linkTarget?_eq] at hlink
    rw [follow, if_neg hpiece, if_neg hdots]
    simp only [next] at hlink
    simp only [hlink, next, restText]
  | case5 pending before piece rest hpiece hdots next restText target depth hlink hpending =>
    rw [← h.linkTarget?_eq] at hlink
    rw [follow, if_neg hpiece, if_neg hdots]
    simp only [next] at hlink
    simp only [hlink, if_pos hpending, next, restText]
  | case6 pending before piece rest hpiece hdots next restText target depth hlink hpending start
      stuck hstuck ih =>
    rw [← h.linkTarget?_eq] at hlink
    rw [hstuck] at ih
    simp only [next, start, dite_eq_ite] at hlink ih
    rw [follow, if_neg hpiece, if_neg hdots]
    simp only [hlink, if_neg hpending, ih, next, restText]
  | case7 pending before piece rest hpiece hdots next target depth hlink hpending start real hreal
      ih ih' =>
    rw [← h.linkTarget?_eq] at hlink
    rw [hreal] at ih
    simp only [next, start, dite_eq_ite] at hlink ih
    rw [follow, if_neg hpiece, if_neg hdots]
    simp only [hlink, if_neg hpending, ih, ih', next]
  | case8 pending before piece rest hpiece hdots next depth hlink ih =>
    rw [← h.linkTarget?_eq] at hlink
    simp only [next] at hlink
    rw [follow, if_neg hpiece, if_neg hdots]
    simp only [hlink]
    exact ih

theorem realPath_eq (h : fs.GrowsTo grown) (hfs : fs.root.IsTree) (hgrown : grown.root.IsTree)
    (directory path : Path) : grown.realPath directory path = fs.realPath directory path := by
  simp only [realPath, h.linkCount_eq hfs hgrown, h.follow_eq]

/-! ## What paths lead to -/

/-- What becomes of the outcome of locating a path.  What was found is there with the outline that
it had, and other refusals than for a missing name stay. -/
inductive Persists : Except AccessFault Reached → Except AccessFault Reached → Prop
  | found {reached : Reached} {entry : Entry} (h : entry.outline = reached.entry.outline) :
      Persists (.ok reached) (.ok { reached with entry })
  | missing (outcome : Except AccessFault Reached) : Persists (.error .notFound) outcome
  | refused (fault : AccessFault) : Persists (.error fault) (.error fault)

theorem persists_locate (h : fs.GrowsTo grown) (hgrown : grown.IsSound) (links : Nat) (here : Place)
    (parts : List String) :
    Persists (fs.locate links here parts) (grown.locate links here parts) := by
  fun_induction fs.locate links here parts with
  | case1 links here parts hhere => exact .missing _
  | case2 links here entry hhere =>
    obtain ⟨entry', hentry', houtline⟩ := h.kept here entry hhere
    rw [locate.eq_def, hentry']
    exact .found houtline
  | case3 links here entries permissions rest hhere ih =>
    obtain ⟨others, hothers⟩ := h.exists_directory hhere
    rw [locate_empty hothers]
    exact ih
  | case4 links here entries permissions part rest hhere hempty hpass =>
    obtain ⟨others, hothers⟩ := h.exists_directory hhere
    rw [locate_denied hothers rest hpass hempty]
    exact .refused _
  | case5 links here entries permissions rest hhere hpass _ ih =>
    rw [Bool.not_eq_false] at hpass
    obtain ⟨others, hothers⟩ := h.exists_directory hhere
    rw [locate_dot hothers rest hpass]
    exact ih
  | case6 links here entries permissions rest hhere hpass _ _ ih =>
    rw [Bool.not_eq_false] at hpass
    obtain ⟨others, hothers⟩ := h.exists_directory hhere
    rw [locate_dots hothers rest hpass]
    exact ih
  | case7 links here entries permissions part rest hhere hempty hpass hdot hdots hlookup =>
    rw [Bool.not_eq_false] at hpass
    obtain ⟨others, hothers⟩ := h.exists_directory hhere
    by_cases hlong : part.utf8ByteSize > nameLimit
    · -- A name that is too long has not been added.
      have hpart : grown.at? (here ++ [part]) = none :=
        Option.eq_none_iff_forall_ne_some.2 fun entry hentry =>
          absurd (hgrown.isEntryName hentry).2.2.2 (by omega)
      rw [locate_missing hothers rest hpass hempty hdot hdots hpart]
      exact .refused _
    · rw [missingName, if_neg hlong]
      exact .missing _
  | case8 here entries permissions part rest hhere hempty hpass hdot hdots target hlookup =>
    rw [Bool.not_eq_false] at hpass
    obtain ⟨others, hothers⟩ := h.exists_directory hhere
    have hlink := h.at?_eq_link_iff.2 ((at?_concat hhere part).trans hlookup)
    rw [locate_link_zero hothers rest hpass hempty hdot hdots hlink]
    exact .refused _
  | case9 here entries permissions part rest hhere hempty hpass hdot hdots target links hlookup
      ih =>
    rw [Bool.not_eq_false] at hpass
    obtain ⟨others, hothers⟩ := h.exists_directory hhere
    have hlink := h.at?_eq_link_iff.2 ((at?_concat hhere part).trans hlookup)
    rw [Nat.succ_eq_add_one, locate_link hothers rest hpass hempty hdot hdots hlink]
    exact ih
  | case10 here entries permissions part rest hhere hempty hpass hdot hdots entry links hzero hsucc
      hlookup ih =>
    rw [Bool.not_eq_false] at hpass
    obtain ⟨others, hothers⟩ := h.exists_directory hhere
    obtain ⟨entry', hentry', houtline⟩ := h.kept _ _ ((at?_concat hhere part).trans hlookup)
    have hlink (target : String) : entry' ≠ .link target := by
      rintro rfl
      have hentry := Entry.outline_eq_link_iff.1 houtline.symm
      cases links with
      | zero => exact hzero target rfl hentry
      | succ links => exact hsucc target links rfl hentry
    rw [locate_name hothers rest hpass hempty hdot hdots hentry' hlink]
    exact ih
  | case11 links here entry part rest hentry hhere =>
    obtain ⟨entry', hentry', houtline⟩ := h.kept here entry hhere
    have hdirectory : entry'.isDirectory = false := by
      cases entry' with
      | directory others permissions =>
        obtain ⟨entries, rfl⟩ := Entry.exists_of_outline_eq_directory houtline.symm
        exact absurd rfl (hentry entries permissions)
      | file | link | special => rfl
    rw [locate_notDirectory hentry' hdirectory]
    exact .refused _

section

variable {directory path real : Path} {entry : Entry} {fault : AccessFault}

theorem exists_find (h : fs.GrowsTo grown) (hgrown : grown.IsSound)
    (hfind : fs.find directory path = .ok entry) :
    ∃ entry', grown.find directory path = .ok entry' ∧ entry'.outline = entry.outline := by
  unfold find at hfind ⊢
  split at hfind
  · cases hfind
  · have hpersists := h.persists_locate hgrown linkLimit [] (path.within directory).parts
    generalize fs.locate linkLimit [] (path.within directory).parts = before at hpersists hfind
    generalize grown.locate linkLimit [] (path.within directory).parts = after at hpersists
    cases hpersists with
    | found houtline =>
      cases hfind
      rw [if_neg ‹_›]
      exact ⟨_, rfl, houtline⟩
    | missing | refused => cases hfind

theorem find_error (h : fs.GrowsTo grown) (hgrown : grown.IsSound)
    (hfind : fs.find directory path = .error fault) (hfault : fault ≠ .notFound) :
    grown.find directory path = .error fault := by
  unfold find at hfind ⊢
  split at hfind
  · rw [if_pos ‹_›]
    exact hfind
  · have hpersists := h.persists_locate hgrown linkLimit [] (path.within directory).parts
    generalize fs.locate linkLimit [] (path.within directory).parts = before at hpersists hfind
    generalize grown.locate linkLimit [] (path.within directory).parts = after at hpersists
    rw [if_neg ‹_›]
    cases hpersists with
    | found => cases hfind
    | missing =>
      cases hfind
      exact absurd rfl hfault
    | refused => exact hfind

theorem resolve_eq (h : fs.GrowsTo grown) (hfs : fs.IsSound) (hgrown : grown.IsSound)
    (hreal : fs.resolve directory path = .ok real) (hfind : fs.find directory real = .ok entry) :
    grown.resolve directory path = .ok real := by
  obtain ⟨entry', hentry', -⟩ := h.exists_find hgrown hfind
  unfold resolve at hreal ⊢
  split at hreal
  · have hspelled : fs.realPath directory path = real := by
      simp only at hreal
      split at hreal <;> cases hreal
      rfl
    rw [if_pos ‹_›]
    simp only [h.realPath_eq hfs.isTree hgrown.isTree, hspelled, hentry']
  · cases hreal

end

/-! ## What searches come to -/

section

variable {tree tree' : Entry} {ignored : List String} {names : List String}

/-- Whatever is below a place is below it in both file systems. -/
theorem exists_below (h : fs.GrowsTo grown) (htree : fs.at? here = some tree)
    (htree' : grown.at? here = some tree') {way : Place} {entry : Entry}
    (hentry : tree.at? way = some entry) :
    ∃ entry', tree'.at? way = some entry' ∧ entry'.outline = entry.outline := by
  have hat : fs.at? (here ++ way) = some entry := by
    rw [at?_append, htree, Option.bind_some, hentry]
  obtain ⟨entry', hentry', houtline⟩ := h.kept _ _ hat
  rw [at?_append, htree', Option.bind_some] at hentry'
  exact ⟨entry', hentry', houtline⟩

theorem any_isOpen (h : fs.GrowsTo grown) (htree : fs.at? here = some tree)
    (htree' : grown.at? here = some tree') {way : Place}
    (hopened : (tree.at? way).any Entry.isOpen = true) :
    (tree'.at? way).any Entry.isOpen = true := by
  obtain ⟨entry, hentry, hopen⟩ := (Option.any_eq_true _ _).1 hopened
  obtain ⟨entry', hentry', houtline⟩ := h.exists_below htree htree' hentry
  rw [hentry', Option.any_some, ← Entry.isOpen_outline, houtline, Entry.isOpen_outline, hopen]

/-- A file to which a search may come is one to which it may come still. -/
theorem exposes (h : fs.GrowsTo grown) (htree : fs.at? here = some tree)
    (htree' : grown.at? here = some tree') (hexposes : tree.Exposes ignored names) :
    tree'.Exposes ignored names := by
  refine ⟨?_, fun way hway hne => h.any_isOpen htree htree' (hexposes.opened way hway hne),
    hexposes.kept⟩
  obtain ⟨entry, hentry, hfile⟩ := (Option.any_eq_true _ _).1 hexposes.isFile
  obtain ⟨entry', hentry', houtline⟩ := h.exists_below htree htree' hentry
  rw [hentry', Option.any_some, ← Entry.isFile_outline, houtline, Entry.isFile_outline, hfile]

/-- The system looks at all entries to which a search comes if it does so afterwards. -/
theorem isClear (h : fs.GrowsTo grown) (htree : fs.at? here = some tree)
    (htree' : grown.at? here = some tree') {shown : Path} (hclear : tree'.IsClear ignored shown) :
    tree.IsClear ignored shown := by
  intro way hadmits name hname
  have hadmits' : tree'.Admits ignored way :=
    ⟨fun front hfront => h.any_isOpen htree htree' (hadmits.opened front hfront), hadmits.kept⟩
  obtain ⟨entry, hentry⟩ := Option.isSome_iff_exists.1 hname
  obtain ⟨entry', hentry', -⟩ := h.exists_below htree htree' hentry
  exact hclear way hadmits' name (by rw [hentry', Option.isSome_some])

end

end FileSystem.GrowsTo

namespace FileSystem

variable {fs grown : FileSystem} {here : Place} {tree tree' : Entry} {ignored names : List String}

/-- A file to which a search may come is found by its names. -/
theorem locate_of_exposes (hfs : fs.IsSound) (htree : fs.at? here = some tree)
    (hexposes : tree.Exposes ignored names) (links : Nat) :
    ∃ content readable,
      fs.locate links here names = .ok ⟨here ++ names, .file content readable, links⟩ := by
  induction names generalizing here tree with
  | nil =>
    cases tree with
    | file content readable =>
      rw [locate.eq_def, htree, List.append_nil]
      exact ⟨content, readable, rfl⟩
    | directory | link | special => simp [Entry.exposes_nil_iff, Entry.isFile] at hexposes
  | cons name names ih =>
    cases tree with
    | directory entries permissions =>
      obtain ⟨hopen, -, inner, hlookup, hinner⟩ := Entry.exposes_cons_iff.1 hexposes
      have hat := (at?_concat htree name).trans hlookup
      obtain ⟨hempty, hdot, hdots, -⟩ := hfs.isEntryName hat
      obtain ⟨content, readable, hlocate⟩ := ih hat hinner
      rw [locate_name htree _ (Permissions.pass_of_isOpen hopen) hempty hdot hdots hat
          hinner.ne_link,
        hlocate, List.append_assoc]
      exact ⟨content, readable, rfl⟩
    | file | link | special => cases hexposes.eq_nil_of_not_isDirectory rfl

/-- A file to which a search may come only after the file system has grown was not there before. -/
theorem GrowsTo.locate_notFound (h : fs.GrowsTo grown) (hgrown : grown.IsSound)
    (htree : fs.at? here = some tree) (htree' : grown.at? here = some tree')
    (hexposes : tree'.Exposes ignored names) (hnew : ¬ tree.Exposes ignored names) (links : Nat) :
    fs.locate links here names = .error .notFound := by
  obtain ⟨entry', hentry', houtline⟩ := h.kept here tree htree
  obtain rfl : tree' = entry' := Option.some.inj (htree'.symm.trans hentry')
  induction names generalizing here tree tree' with
  | nil =>
    rw [Entry.exposes_nil_iff] at hexposes hnew
    rw [← Entry.isFile_outline, houtline, Entry.isFile_outline] at hexposes
    exact absurd hexposes hnew
  | cons name names ih =>
    cases tree' with
    | directory others permissions =>
      obtain ⟨entries, rfl⟩ := Entry.exists_of_outline_eq_directory houtline.symm
      obtain ⟨hopen, hname, inner', hlookup', hinner'⟩ := Entry.exposes_cons_iff.1 hexposes
      have hat' := (at?_concat htree' name).trans hlookup'
      obtain ⟨hempty, hdot, hdots, hshort⟩ := hgrown.isEntryName hat'
      have hpass := Permissions.pass_of_isOpen hopen
      cases hlookup : entries.lookup name with
      | none =>
        have hat := (at?_concat htree name).trans hlookup
        rw [locate_missing htree _ hpass hempty hdot hdots hat, missingName, if_neg (by omega)]
      | some inner =>
        have hat := (at?_concat htree name).trans hlookup
        have hinner : ¬ inner.Exposes ignored names := fun hinner =>
          hnew (Entry.exposes_cons_iff.2 ⟨hopen, hname, inner, hlookup, hinner⟩)
        obtain ⟨inner'', hinner'', hsame⟩ := h.kept _ _ hat
        obtain rfl : inner' = inner'' := Option.some.inj (hat'.symm.trans hinner'')
        have hlink (target : String) : inner ≠ .link target := by
          rintro rfl
          exact hinner'.ne_link target (Entry.outline_eq_link_iff.1 hsame)
        rw [locate_name htree _ hpass hempty hdot hdots hat hlink]
        exact ih hat hat' hinner' hinner hinner'' hsame
    | file | link | special => cases hexposes.eq_nil_of_not_isDirectory rfl

end FileSystem

/-! ## Adding a file -/

namespace Directory

variable {entries : Directory} {name other : String} {entry file : Entry} {place : Place}

theorem lookup_set (entries : Directory) (name other : String) (entry : Entry) :
    (entries.set name entry).lookup other =
      if other = name then some entry else entries.lookup other := by
  induction entries with
  | nil => rw [set, lookup_cons]
  | cons first rest ih =>
    obtain ⟨first, old⟩ := first
    rw [set]
    by_cases hfirst : first = name
    · subst hfirst
      rw [if_pos rfl, lookup_cons, lookup_cons]
      by_cases hother : other = first <;> simp [hother]
    · rw [if_neg hfirst, lookup_cons, lookup_cons, ih]
      by_cases hother : other = first
      · simp [hother, hfirst]
      · simp [hother]

theorem mem_of_mem_set {pair : String × Entry} (h : pair ∈ entries.set name entry) :
    pair = (name, entry) ∨ pair ∈ entries := by
  induction entries with
  | nil => exact .inl (List.mem_singleton.1 h)
  | cons first rest ih =>
    rw [set] at h
    split at h
    · exact (List.mem_cons.1 h).imp_right (List.mem_cons_of_mem first)
    · rcases List.mem_cons.1 h with rfl | h
      · exact .inr List.mem_cons_self
      · exact (ih h).imp_right (List.mem_cons_of_mem first)

theorem nodup_set (h : (entries.map Prod.fst).Nodup) :
    ((entries.set name entry).map Prod.fst).Nodup := by
  induction entries with
  | nil => simp [set]
  | cons first rest ih =>
    obtain ⟨other, old⟩ := first
    rw [List.map_cons, List.nodup_cons] at h
    rw [set]
    split
    · rename_i hname
      subst hname
      simpa using h
    · rename_i hne
      rw [List.map_cons, List.nodup_cons]
      refine ⟨fun hmem => ?_, ih h.2⟩
      obtain ⟨pair, hpair, rfl⟩ := List.mem_map.1 hmem
      rcases mem_of_mem_set hpair with rfl | hpair
      · exact hne rfl
      · exact h.1 (List.mem_map.2 ⟨pair, hpair, rfl⟩)

/-- Names tell entries apart also after one has been set. -/
theorem IsTree.set (h : entries.IsTree) (hentry : entry.IsTree) :
    (entries.set name entry).IsTree := by
  refine .intro (nodup_set h.nodup) fun other inner permissions hmem => ?_
  rcases mem_of_mem_set hmem with heq | hmem
  · cases heq
    exact hentry
  · exact h.inner hmem

/-- A regular file takes the place of whatever was there. -/
theorem getD_replacedBy (hfile : file.isFile = true) (old : Option Entry) :
    (old.map (·.replacedBy file)).getD file = file := by
  cases file with
  | file content readable => cases old <;> simp [Entry.replacedBy]
  | directory | link | special => cases hfile

theorem IsTree.insert (hfile : file.isFile = true) (h : entries.IsTree) :
    (entries.insert file place).IsTree := by
  have hempty : IsTree [] := .intro List.nodup_nil (by simp)
  fun_induction Directory.insert file entries place with
  | case1 entries => exact h
  | case2 entries name =>
    rw [getD_replacedBy hfile]
    refine h.set ?_
    cases file with
    | file => trivial
    | directory | link | special => cases hfile
  | case3 entries name next rest inner permissions hlookup ih =>
    exact h.set (ih (h.inner (mem_of_lookup hlookup)))
  | case4 entries name next rest _ ih => exact h.set (ih hempty)

theorem mem_names_set (h : other ∈ (entries.set name entry).names) :
    other = name ∨ other ∈ entries.names ∨
      ∃ inner permissions, entry = .directory inner permissions ∧ other ∈ names inner := by
  obtain ⟨found, held, hmem, hother⟩ := mem_names_iff.1 h
  rcases mem_of_mem_set hmem with heq | hmem
  · cases heq
    exact hother.imp_right .inr
  · exact .inr (.inl (mem_names_iff.2 ⟨found, held, hmem, hother⟩))

theorem mem_names_insert (hfile : file.isFile = true)
    (h : other ∈ (entries.insert file place).names) : other ∈ place ∨ other ∈ entries.names := by
  fun_induction Directory.insert file entries place with
  | case1 entries => exact .inr h
  | case2 entries name =>
    rw [getD_replacedBy hfile] at h
    rcases mem_names_set h with rfl | h | ⟨inner, permissions, rfl, -⟩
    · exact .inl List.mem_cons_self
    · exact .inr h
    · cases hfile
  | case3 entries name next rest inner permissions hlookup ih =>
    rcases mem_names_set h with rfl | h | ⟨_, _, heq, h⟩
    · exact .inl List.mem_cons_self
    · exact .inr h
    · cases heq
      refine (ih h).imp (List.mem_cons_of_mem name) fun hinner => ?_
      exact mem_names_iff.2 ⟨name, _, mem_of_lookup hlookup, .inr ⟨inner, permissions, rfl, hinner⟩⟩
  | case4 entries name next rest _ ih =>
    rcases mem_names_set h with rfl | h | ⟨_, _, heq, h⟩
    · exact .inl List.mem_cons_self
    · exact .inr h
    · cases heq
      refine (ih h).imp (List.mem_cons_of_mem name) fun hnil => ?_
      simp [names] at hnil

end Directory

/-- Nothing is at a place below an entry, and nothing but directories stands in the way. -/
structure Entry.IsFree (tree : Entry) (place : Place) : Prop where
  absent : tree.at? place = none
  clear : ∀ way entry, way <+: place → tree.at? way = some entry → entry.isDirectory = true

theorem Entry.IsFree.cases {entries : Directory} {permissions : Permissions} {name : String}
    {rest : Place} (h : (Entry.directory entries permissions).IsFree (name :: rest)) :
    entries.lookup name = none ∨ ∃ inner permissions', rest ≠ [] ∧
      entries.lookup name = some (.directory inner permissions') ∧
        (Entry.directory inner permissions').IsFree rest := by
  cases hlookup : entries.lookup name with
  | none => exact .inl rfl
  | some found =>
    right
    have hat (way : Place) :
        (Entry.directory entries permissions).at? (name :: way) = found.at? way := by
      rw [at?_directory_cons, hlookup, Option.bind_some]
    have hdirectory := h.clear [name] found (by simp) (by simp [hat])
    cases found with
    | directory inner permissions' =>
      refine ⟨inner, permissions', ?_, rfl, by rw [← hat, h.absent],
        fun way entry hway hentry => ?_⟩
      · rintro rfl
        have habsent := h.absent
        simp [hat] at habsent
      · exact h.clear (name :: way) entry (by simpa using hway) (by rw [hat, hentry])
    | file | link | special => cases hdirectory

theorem Entry.isFree_of_none {entries : Directory} {name : String}
    (hlookup : entries.lookup name = none) (permissions : Permissions) (rest : Place) :
    (Entry.directory entries permissions).IsFree (name :: rest) := by
  have hnone (way : Place) : (Entry.directory entries permissions).at? (name :: way) = none := by
    rw [at?_directory_cons, hlookup, Option.bind_none]
  refine ⟨hnone rest, fun way entry hway hentry => ?_⟩
  rcases List.prefix_cons_iff.1 hway with rfl | ⟨way, rfl, -⟩
  · rw [at?_nil, Option.some.injEq] at hentry
    rw [← hentry]
    rfl
  · rw [hnone] at hentry
    cases hentry

theorem Entry.isFree_of_directory {entries inner : Directory} {name : String}
    {permissions' : Permissions} {rest : Place}
    (hlookup : entries.lookup name = some (.directory inner permissions'))
    (h : (Entry.directory inner permissions').IsFree rest) (permissions : Permissions) :
    (Entry.directory entries permissions).IsFree (name :: rest) := by
  have hat (way : Place) : (Entry.directory entries permissions).at? (name :: way) =
      (Entry.directory inner permissions').at? way := by
    rw [at?_directory_cons, hlookup, Option.bind_some]
  refine ⟨(hat rest).trans h.absent, fun way entry hway hentry => ?_⟩
  rcases List.prefix_cons_iff.1 hway with rfl | ⟨way, rfl, hinner⟩
  · rw [at?_nil, Option.some.injEq] at hentry
    rw [← hentry]
    rfl
  · rw [hat] at hentry
    exact h.clear way entry hinner hentry

/-- Where a file is put at a free place, everything stays, and the file and the directories on the
way to it are new. -/
structure Entry.GainsAt (file : Entry) (place : Place) (tree grown : Entry) : Prop where
  kept : ∀ names entry, tree.at? names = some entry →
    ∃ entry', grown.at? names = some entry' ∧ entry'.outline = entry.outline
  added : ∀ names entry, tree.at? names = none → grown.at? names = some entry →
    entry.isDirectory = true ∨ entry = file ∧ names = place

namespace Directory

/-- What holds below a name holds of the directory. -/
theorem gainsAt_set {file new : Entry} {entries : Directory} {permissions : Permissions}
    {name : String} {rest : Place}
    (hkept : ∀ names entry, (entries.lookup name).bind (·.at? names) = some entry →
      ∃ entry', new.at? names = some entry' ∧ entry'.outline = entry.outline)
    (hadded : ∀ names entry, (entries.lookup name).bind (·.at? names) = none →
      new.at? names = some entry → entry.isDirectory = true ∨ entry = file ∧ names = rest) :
    file.GainsAt (name :: rest) (.directory entries permissions)
      (.directory (entries.set name new) permissions) := by
  constructor
  · intro names entry hentry
    cases names with
    | nil =>
      rw [Entry.at?_nil, Option.some.injEq] at hentry
      rw [← hentry]
      exact ⟨_, Entry.at?_nil _, rfl⟩
    | cons first names =>
      rw [Entry.at?_directory_cons] at hentry
      rw [Entry.at?_directory_cons, lookup_set]
      by_cases hfirst : first = name
      · subst hfirst
        rw [if_pos rfl, Option.bind_some]
        exact hkept names entry hentry
      · rw [if_neg hfirst]
        exact ⟨entry, hentry, rfl⟩
  · intro names entry hnone hentry
    cases names with
    | nil => cases hnone
    | cons first names =>
      rw [Entry.at?_directory_cons] at hnone
      rw [Entry.at?_directory_cons, lookup_set] at hentry
      by_cases hfirst : first = name
      · subst hfirst
        rw [if_pos rfl, Option.bind_some] at hentry
        rw [List.cons.injEq, eq_self, true_and]
        exact hadded names entry hnone hentry
      · rw [if_neg hfirst, hnone] at hentry
        cases hentry

theorem gainsAt_insert {file : Entry} (hfile : file.isFile = true) {place : Place}
    (hplace : place ≠ []) {entries : Directory} {permissions : Permissions}
    (hfree : (Entry.directory entries permissions).IsFree place) :
    file.GainsAt place (.directory entries permissions)
      (.directory (entries.insert file place) permissions) := by
  induction place generalizing entries permissions with
  | nil => exact absurd rfl hplace
  | cons name rest ih =>
    obtain hnone | ⟨inner, permissions', hrest, hlookup, hinner⟩ := hfree.cases
    · cases rest with
      | nil =>
        rw [insert, hnone]
        refine gainsAt_set (by simp [hnone]) fun names entry _ hentry => .inr ?_
        cases file with
        | file content readable => cases names <;> simp_all [Entry.at?]
        | directory | link | special => cases hfile
      | cons next rest =>
        have hgains := ih (by simp) (Entry.isFree_of_none (List.lookup_nil) {} rest)
        simp only [insert, hnone]
        refine gainsAt_set (by simp [hnone]) fun names entry _ hentry => ?_
        cases names with
        | nil =>
          rw [Entry.at?_nil, Option.some.injEq] at hentry
          rw [← hentry]
          exact .inl rfl
        | cons first names => exact hgains.added _ entry rfl hentry
    · cases rest with
      | nil => exact absurd rfl hrest
      | cons next rest =>
        have hgains := ih hrest hinner
        simp only [insert, hlookup]
        refine gainsAt_set (fun names entry hentry => ?_) fun names entry hentry => ?_
        · rw [hlookup, Option.bind_some] at hentry
          exact hgains.kept names entry hentry
        · rw [hlookup, Option.bind_some] at hentry
          exact hgains.added names entry hentry

end Directory

/-- A new name may be listed first. -/
theorem Directory.gainsAt_cons {file : Entry} (hfile : file.isDirectory = false)
    {entries : Directory} {name : String} (hnone : entries.lookup name = none)
    (permissions : Permissions) :
    file.GainsAt [name] (.directory entries permissions)
      (.directory ((name, file) :: entries) permissions) := by
  constructor
  · intro names entry hentry
    cases names with
    | nil =>
      rw [Entry.at?_nil, Option.some.injEq] at hentry
      rw [← hentry]
      exact ⟨_, Entry.at?_nil _, rfl⟩
    | cons first names =>
      rw [Entry.at?_directory_cons] at hentry
      rw [Entry.at?_directory_cons, lookup_cons]
      split
      · rename_i hfirst
        rw [hfirst, hnone] at hentry
        cases hentry
      · exact ⟨entry, hentry, rfl⟩
  · intro names entry habsent hentry
    cases names with
    | nil => cases habsent
    | cons first names =>
      rw [Entry.at?_directory_cons] at habsent
      rw [Entry.at?_directory_cons, lookup_cons] at hentry
      split at hentry
      · rename_i hfirst
        rw [Option.bind_some] at hentry
        cases names with
        | nil =>
          rw [Entry.at?_nil, Option.some.injEq] at hentry
          exact .inr ⟨hentry.symm, by rw [hfirst]⟩
        | cons next names => cases file <;> simp_all [Entry.at?, Entry.isDirectory]
      · rw [habsent] at hentry
        cases hentry

/-- A file system grows by a file that it gains. -/
theorem FileSystem.growsTo_of_gainsAt {fs grown : FileSystem} {place : Place} {file : Entry}
    (hfile : file.isFile = true) (hname : place.getLast? ≠ some configurationName)
    (h : file.GainsAt place (.directory fs.root) (.directory grown.root)) : fs.GrowsTo grown := by
  refine ⟨h.kept, fun names entry hnone hentry => ?_⟩
  refine (h.added names entry hnone hentry).imp_right fun ⟨heq, hnames⟩ => ?_
  rw [heq, hnames]
  exact ⟨hfile, hname⟩

theorem FileSystem.growsTo_insert {fs : FileSystem} {place : Place} {file : Entry}
    (hfile : file.isFile = true) (hplace : place ≠ [])
    (hfree : (Entry.directory fs.root).IsFree place)
    (hname : place.getLast? ≠ some configurationName) :
    fs.GrowsTo { root := fs.root.insert file place } :=
  growsTo_of_gainsAt hfile hname (Directory.gainsAt_insert hfile hplace hfree)

/-- A file can be put wherever the names on the way are such as an operating system accepts. -/
theorem FileSystem.IsSound.insert {fs : FileSystem} (h : fs.IsSound) {file : Entry}
    (hfile : file.isFile = true) {place : Place} (hplace : ∀ name ∈ place, IsEntryName name) :
    FileSystem.IsSound { root := fs.root.insert file place } :=
  ⟨h.isTree.insert hfile, fun name hname =>
    (Directory.mem_names_insert hfile hname).elim (hplace name) (h.names name)⟩

end MemoAudit
