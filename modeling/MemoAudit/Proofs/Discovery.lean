import Mathlib
import MemoAudit.Discovery.Search
import MemoAudit.Proofs.Trees

/-!
# Which files a search finds

A search that skips links is described in two steps.

* Going through the entries of a directory finds the files to which the directory *leads*: along its
  entries and into the directories among them (`Directory.Leads`, `mem_searchIn_iff`).  Where names
  tell entries apart, no file is found twice (`nodup_searchIn`).
* The tree *exposes* a file if the entries at the places on the way to it allow a search to come
  there (`Entry.Exposes`).  This does not mention the recursion, and it depends only on the outline
  of each place: so it can be compared between trees whose directories list their entries in another
  order, or in one of which a directory allows less (`Entry.restricted`).

A whole search sorts what it finds.  Strictly increasing lists with the same elements are equal, so
what a search gives is determined by which files it finds (`value_discover_of_mem_iff`), and the
main result, `discover_selects`, compares searches by comparing what trees expose.
-/

namespace MemoAudit

/-! ## Ruby suffixes -/

namespace Path

/-- The name ends in a dot and one of four extensions, in any case, and something stands in front of
the dot. -/
def HasRubySuffix (path : Path) : Prop :=
  ∃ stem extension : List Char, stem ≠ [] ∧ path.name.toList = stem ++ '.' :: extension ∧
    String.ofList (extension.map lowerChar) ∈ ["rb", "rake", "gemspec", "ru"]

theorem mem_rubySuffixes_cons (extension : List Char) :
    String.ofList ('.' :: extension) ∈ rubySuffixes ↔
      String.ofList extension ∈ ["rb", "rake", "gemspec", "ru"] := by
  have hcons (suffix extension' : String) (hsuffix : suffix.toList = '.' :: extension'.toList) :
      String.ofList ('.' :: extension) = suffix ↔ String.ofList extension = extension' := by
    rw [← String.toList_inj, ← String.toList_inj, hsuffix]
    simp
  simp only [rubySuffixes, List.mem_cons, List.not_mem_nil, or_false, hcons ".rb" "rb" rfl,
    hcons ".rake" "rake" rfl, hcons ".gemspec" "gemspec" rfl, hcons ".ru" "ru" rfl]

theorem suffixOf_append {stem extension : List Char} (hstem : stem ≠ []) (hne : extension ≠ [])
    (hdot : '.' ∉ extension) : suffixOf (stem ++ '.' :: extension) = '.' :: extension := by
  have hall : ∀ c ∈ extension.reverse, (c != '.') = true := by
    intro c hc
    simpa using fun h : c = '.' => hdot (h ▸ List.mem_reverse.1 hc)
  have hreverse : (stem ++ '.' :: extension).reverse =
      extension.reverse ++ '.' :: stem.reverse := by
    simp
  rw [suffixOf, hreverse, List.takeWhile_append_of_pos hall, List.dropWhile_append_of_pos hall]
  simp [hstem, hne]

theorem exists_of_suffixOf {name suffix : List Char} (h : suffixOf name = suffix)
    (hne : suffix ≠ []) :
    ∃ stem extension, stem ≠ [] ∧ name = stem ++ '.' :: extension ∧ suffix = '.' :: extension := by
  have hname := List.takeWhile_append_dropWhile (p := (· != '.')) (l := name.reverse)
  cases hdrop : name.reverse.dropWhile (· != '.') with
  | nil => simp [suffixOf, hdrop, hne.symm] at h
  | cons c before =>
    have hdot : c = '.' := by
      simpa [hdrop] using List.head_dropWhile_not (· != '.') (l := name.reverse) (by simp [hdrop])
    rw [hdrop, hdot] at hname
    simp only [suffixOf, hdrop, List.drop_one, List.tail_cons] at h
    split at h
    · exact absurd h.symm hne
    · rename_i hboth
      refine ⟨before.reverse, (name.reverse.takeWhile (· != '.')).reverse, ?_, ?_, h.symm⟩
      · simpa using fun h => hboth (.inr h)
      · simpa using (congrArg List.reverse hname).symm

theorem isRuby_iff {path : Path} : path.isRuby = true ↔ path.HasRubySuffix := by
  have hiff : path.isRuby = true ↔
      String.ofList ((suffixOf path.name.toList).map lowerChar) ∈ rubySuffixes := by
    simp [isRuby, suffix]
  rw [hiff]
  constructor
  · intro h
    have hne : suffixOf path.name.toList ≠ [] := by
      intro hnil
      rw [hnil] at h
      exact absurd h (by decide)
    obtain ⟨stem, extension, hstem, hname, hsuffix⟩ := exists_of_suffixOf rfl hne
    rw [hsuffix, List.map_cons] at h
    exact ⟨stem, extension, hstem, hname, (mem_rubySuffixes_cons _).1 h⟩
  · rintro ⟨stem, extension, hstem, hname, hmem⟩
    have hplain : ∀ word ∈ ["rb", "rake", "gemspec", "ru"], word ≠ "" ∧ '.' ∉ word.toList := by
      decide
    obtain ⟨hne, hdot⟩ := hplain _ hmem
    have hne' : extension ≠ [] := by
      rintro rfl
      exact hne rfl
    have hdot' : '.' ∉ extension := by
      intro h
      have hlower : lowerChar '.' = '.' := by decide
      rw [String.toList_ofList, ← hlower] at hdot
      exact hdot (List.mem_map_of_mem h)
    rw [hname, suffixOf_append hstem hne' hdot', List.map_cons]
    exact (mem_rubySuffixes_cons _).2 hmem

end Path

/-! ## The order of paths -/

namespace Path

/-- The path that names lead to from a path. -/
def below (path : Path) (names : List String) : Path := { path with parts := path.parts ++ names }

theorem below_cons (path : Path) (name : String) (names : List String) :
    path.below (name :: names) = (path.child name).below names := by
  simp [below, child]

theorem below_singleton (path : Path) (name : String) : path.below [name] = path.child name := rfl

theorem below_injective (path : Path) {names others : List String}
    (h : path.below names = path.below others) : names = others := by
  simpa [below] using h

theorem name_child (path : Path) (name : String) : (path.child name).name = name := by
  simp [Path.name, child]

theorem utf8ByteSize_text_child {path : Path} (hparts : path.parts ≠ []) (name : String) :
    (path.child name).text.utf8ByteSize = path.text.utf8ByteSize + 1 + name.utf8ByteSize := by
  have htext (anchor : Anchor) (parts : List String) (h : parts ≠ []) :
      (Path.mk anchor parts).text = anchor.text ++ "/".intercalate parts := by
    cases parts with
    | nil => exact absurd rfl h
    | cons => cases anchor <;> rfl
  have hslash : "/".utf8ByteSize = 1 := by decide
  rw [child, htext _ _ (by simp), htext _ _ hparts,
    String.intercalate_append_of_ne_nil hparts (by simp)]
  simp only [String.utf8ByteSize_append, String.intercalate_singleton, hslash]
  omega

theorem utf8ByteSize_text_below_replicate {path : Path} (hparts : path.parts ≠ []) (name : String)
    (depth : Nat) : (path.below (List.replicate depth name)).text.utf8ByteSize =
      path.text.utf8ByteSize + depth * (1 + name.utf8ByteSize) := by
  induction depth generalizing path with
  | zero => simp [below]
  | succ depth ih =>
    rw [List.replicate_succ, below_cons, ih (by simp [child]), utf8ByteSize_text_child hparts]
    ring

/-- The order in which files are given is total: a path comes first unless the other one is less. -/
theorem partsLe_iff {as bs : List String} : partsLe as bs = true ↔ ¬ bs < as := by
  induction as generalizing bs with
  | nil => simp [partsLe]
  | cons a as ih =>
    cases bs with
    | nil => simp [partsLe]
    | cons b bs =>
      simp only [partsLe, Bool.or_eq_true, decide_eq_true_eq, Bool.and_eq_true, beq_iff_eq, ih]
      exact List.cons_le_cons_iff.symm

theorem le_iff {a b : Path} : a.le b = true ↔ ¬ b.parts < a.parts := partsLe_iff

end Path

/-- Paths from one directory are given in strict order if none is found twice. -/
theorem pairwise_mergeSort_of_nodup {files : List Path} (hnodup : files.Nodup)
    (hparts : ∀ a ∈ files, ∀ b ∈ files, a.parts = b.parts → a = b) :
    (files.mergeSort Path.le).Pairwise fun a b => a.parts < b.parts := by
  have htrans (a b c : Path) (hab : a.le b = true) (hbc : b.le c = true) : a.le c = true :=
    Path.le_iff.2 (List.le_trans (Path.le_iff.1 hab) (Path.le_iff.1 hbc))
  have htotal (a b : Path) : (a.le b || b.le a) = true := by
    rw [Bool.or_eq_true, Path.le_iff, Path.le_iff]
    exact List.le_total _ _
  have hperm := List.mergeSort_perm files Path.le
  have hsorted := List.pairwise_mergeSort htrans htotal files
  have hdistinct := hperm.nodup_iff.2 hnodup
  refine (hsorted.and hdistinct).imp_of_mem fun ha hb h => ?_
  obtain ⟨hle, hne⟩ := h
  refine Decidable.byContradiction fun hlt => hne ?_
  have heq := List.le_antisymm (Path.le_iff.1 hle) hlt
  exact hparts _ (hperm.mem_iff.1 ha) _ (hperm.mem_iff.1 hb) heq

/-! ## What is found -/

/-- A search can go through a directory that lists its entries and can be passed through. -/
def Permissions.isOpen (permissions : Permissions) : Bool := permissions.list && permissions.pass

theorem Permissions.pass_of_isOpen {permissions : Permissions} (h : permissions.isOpen = true) :
    permissions.pass = true :=
  (Bool.and_eq_true_iff.1 h).2

theorem Permissions.refusal?_eq_none_iff {permissions : Permissions} {path : Path} :
    permissions.refusal? path = none ↔ path.isTooLong = false ∧ permissions.pass = true := by
  unfold refusal?
  cases path.isTooLong <;> cases permissions.pass <;> simp

namespace Directory

/-- The entries that come before the first one that the system refuses to look at because its path
is too long.  The directory was come to under the path `shown`. -/
def visible (shown : Path) (entries : Directory) : Directory :=
  entries.takeWhile fun entry => !(shown.child entry.1).isTooLong

variable {shown : Path} {entries : Directory} {name : String} {entry : Entry}

theorem visible_cons (shown : Path) (name : String) (entry : Entry) (rest : Directory) :
    visible shown ((name, entry) :: rest) =
      if (shown.child name).isTooLong then [] else (name, entry) :: visible shown rest := by
  rw [visible, List.takeWhile_cons]
  cases (shown.child name).isTooLong <;> rfl

theorem mem_of_mem_visible (h : (name, entry) ∈ entries.visible shown) : (name, entry) ∈ entries :=
  (List.takeWhile_prefix _).subset h

theorem isTooLong_of_mem_visible (h : (name, entry) ∈ entries.visible shown) :
    (shown.child name).isTooLong = false := by
  simpa using List.mem_takeWhile_imp h

/-- If no path is too long, a search comes along all entries. -/
theorem visible_eq_self (h : ∀ name entry, (name, entry) ∈ entries →
    (shown.child name).isTooLong = false) : entries.visible shown = entries :=
  List.takeWhile_eq_self_iff.2 fun pair hpair => by simpa using h pair.1 pair.2 hpair

theorem visible_map (shown : Path) (entries : Directory) (change : String → Entry → Entry) :
    visible shown (entries.map fun entry => (entry.1, change entry.1 entry.2)) =
      (entries.visible shown).map fun entry => (entry.1, change entry.1 entry.2) := by
  rw [visible, List.takeWhile_map]
  rfl

end Directory

/-- The names lead from an entry to a regular file, as a search goes: through directories that it
can go through and that are not ignored, each time to an entry along which the search comes. -/
inductive Entry.Leads (ignored : List String) : Path → Entry → List String → Prop
  | here {shown : Path} {content : Bytes} {readable : Bool} :
      Leads ignored shown (.file content readable) []
  | inside {shown : Path} {entries : Directory} {permissions : Permissions} {name : String}
      {entry : Entry} {names : List String} (hopen : permissions.isOpen = true)
      (h : (name, entry) ∈ entries.visible shown) (hname : names ≠ [] → name ∉ ignored)
      (hnames : Leads ignored (shown.child name) entry names) :
      Leads ignored shown (.directory entries permissions) (name :: names)

section

variable {fs : FileSystem} {selection : Selection} {place : Place} {links : Nat}
  {permissions : Permissions} {shown : Path} {name : String} {entry : Entry} {rest : Directory}

/-- What a search takes into the result. -/
def Selection.takes (selection : Selection) (file : Path) : Bool :=
  file.isRuby && selection.keeps file

theorem value_consider (selection : Selection) (file : Path) :
    (selection.consider file).value = if selection.takes file then [file] else [] := by
  unfold Selection.consider Selection.takes
  cases file.isRuby <;> cases selection.keeps file <;> rfl

/-- What is found at the first entry comes in front of what is found at the others, unless the first
one ends the search. -/
theorem value_searchIn_of_sight {sighting : Sighting}
    (h : fs.sight selection.followLinks place links permissions shown name entry = sighting) :
    (fs.searchIn selection place links permissions shown ((name, entry) :: rest)).value =
      match sighting with
      | .refused _ => []
      | .nothing | .skippedLink =>
        (fs.searchIn selection place links permissions shown rest).value
      | .file =>
        (if selection.takes (shown.child name) then [shown.child name] else []) ++
          (fs.searchIn selection place links permissions shown rest).value
      | .directory inner left entries permissions' =>
        (if name ∈ selection.ignored ∨ permissions'.list = false then []
          else (fs.searchIn selection inner left permissions' (shown.child name) entries).value) ++
          (fs.searchIn selection place links permissions shown rest).value := by
  rw [FileSystem.searchIn]
  split <;> rename_i hsight <;> rw [h] at hsight <;> subst hsight
  · rfl
  · rfl
  · rfl
  · simp [value_consider]
  · rename_i inner left entries permissions'
    by_cases hname : name ∈ selection.ignored
    · simp [isIgnored, Path.name_child, hname]
    · cases hlist : permissions'.list <;> simp [isIgnored, Path.name_child, hname, hlist]

/-- What is found at one entry, if links are skipped. -/
def FileSystem.foundAt (fs : FileSystem) (selection : Selection) (place : Place) (links : Nat)
    (shown : Path) (name : String) : Entry → List Path
  | .file .. => if selection.takes (shown.child name) then [shown.child name] else []
  | .directory entries permissions =>
    if name ∈ selection.ignored ∨ permissions.list = false then []
    else
      (fs.searchIn selection (place ++ [name]) links permissions (shown.child name) entries).value
  | .link _ | .special => []

theorem value_searchIn_cons (hlinks : selection.followLinks = false)
    (hlook : permissions.refusal? (shown.child name) = none) :
    (fs.searchIn selection place links permissions shown ((name, entry) :: rest)).value =
      fs.foundAt selection place links shown name entry ++
        (fs.searchIn selection place links permissions shown rest).value := by
  have hsight : fs.sight selection.followLinks place links permissions shown name entry =
      fs.sightOf false place links name entry := by
    rw [FileSystem.sight, hlook, hlinks]
  rw [value_searchIn_of_sight hsight]
  cases entry <;> rfl

theorem value_searchIn_of_refusal {fault : AccessFault}
    (hlook : permissions.refusal? (shown.child name) = some fault) :
    (fs.searchIn selection place links permissions shown ((name, entry) :: rest)).value = [] := by
  have hsight : fs.sight selection.followLinks place links permissions shown name entry =
      .refused fault := by
    rw [FileSystem.sight, hlook]
  rw [value_searchIn_of_sight hsight]

/-- A search goes along the entries that it comes to see, if the directory can be passed through. -/
theorem value_searchIn (hlinks : selection.followLinks = false) (entries : Directory) :
    (fs.searchIn selection place links permissions shown entries).value =
      if permissions.pass = true then
        (entries.visible shown).flatMap fun entry =>
          fs.foundAt selection place links shown entry.1 entry.2
      else [] := by
  induction entries with
  | nil =>
    rw [FileSystem.searchIn]
    split <;> rfl
  | cons pair rest ih =>
    obtain ⟨name, entry⟩ := pair
    cases hlook : permissions.refusal? (shown.child name) with
    | none =>
      obtain ⟨hshort, hpass⟩ := Permissions.refusal?_eq_none_iff.1 hlook
      rw [value_searchIn_cons hlinks hlook, ih, if_pos hpass, if_pos hpass, Directory.visible_cons,
        if_neg (by simpa using hshort), List.flatMap_cons]
    | some fault =>
      rw [value_searchIn_of_refusal hlook]
      split
      · -- The path is too long, so that nothing is seen of the directory.
        have hlong : (shown.child name).isTooLong = true := by
          by_contra hshort
          rw [Permissions.refusal?_eq_none_iff.2 ⟨by simpa using hshort, ‹_›⟩] at hlook
          cases hlook
        rw [Directory.visible_cons, if_pos hlong, List.flatMap_nil]
      · rfl

/-- A search of a directory that lists its entries finds the files to which the directory leads and
that it takes. -/
theorem mem_searchIn_iff (hlinks : selection.followLinks = false) {entries : Directory}
    (hlist : permissions.list = true) {file : Path} :
    file ∈ (fs.searchIn selection place links permissions shown entries).value ↔
      ∃ names, (Entry.directory entries permissions).Leads selection.ignored shown names ∧
        file = shown.below names ∧ selection.takes file = true := by
  induction entries using Directory.memberInduction generalizing place permissions shown with
  | step entries ih =>
    rw [value_searchIn hlinks]
    by_cases hpass : permissions.pass = true
    · have hopen : permissions.isOpen = true := by simp [Permissions.isOpen, hlist, hpass]
      rw [if_pos hpass, List.mem_flatMap]
      constructor
      · rintro ⟨⟨name, entry⟩, hpair, hfound⟩
        cases entry with
        | file content readable =>
          simp only [FileSystem.foundAt] at hfound
          split at hfound
          · obtain rfl := List.mem_singleton.1 hfound
            exact ⟨[name], .inside hopen hpair (fun h => absurd rfl h) .here, rfl, ‹_›⟩
          · cases hfound
        | directory inner permissions' =>
          simp only [FileSystem.foundAt] at hfound
          split at hfound
          · cases hfound
          · rename_i hkept
            obtain ⟨hname, hlist'⟩ : name ∉ selection.ignored ∧ permissions'.list = true := by
              simpa using hkept
            obtain ⟨names, hleads, rfl, htakes⟩ :=
              (ih name inner permissions' (Directory.mem_of_mem_visible hpair) hlist').1 hfound
            exact ⟨name :: names, .inside hopen hpair (fun _ => hname) hleads,
              (Path.below_cons ..).symm, htakes⟩
        | link | special => cases hfound
      · rintro ⟨names, hleads, rfl, htakes⟩
        cases hleads with
        | inside _ hpair hname hnames =>
          refine ⟨_, hpair, ?_⟩
          cases hnames with
          | here =>
            rw [Path.below_singleton] at htakes ⊢
            simp [FileSystem.foundAt, htakes]
          | inside hopen' hmem' hname' hnames' =>
            have hlist' : _ = true := (Bool.and_eq_true _ _ ▸ hopen').1
            simp only [FileSystem.foundAt]
            rw [if_neg (by simp [hname (by simp), hlist'])]
            refine (ih _ _ _ (Directory.mem_of_mem_visible hpair) hlist').2 ?_
            exact ⟨_, .inside hopen' hmem' hname' hnames', Path.below_cons .., htakes⟩
    · rw [if_neg hpass]
      constructor
      · intro h
        cases h
      · rintro ⟨names, hleads, -⟩
        cases hleads with
        | inside hopen => simp [Permissions.isOpen, hpass] at hopen

/-- What is found at an entry has the name of the entry on its way. -/
theorem exists_of_mem_foundAt (hlinks : selection.followLinks = false) {file : Path}
    (h : file ∈ fs.foundAt selection place links shown name entry) :
    ∃ names, file = shown.below (name :: names) := by
  cases entry with
  | file =>
    simp only [FileSystem.foundAt] at h
    split at h
    · exact ⟨[], List.mem_singleton.1 h⟩
    · cases h
  | directory inner permissions =>
    simp only [FileSystem.foundAt] at h
    split at h
    · cases h
    · rename_i hkept
      obtain ⟨names, -, rfl, -⟩ :=
        (mem_searchIn_iff hlinks (by simpa using fun hlist => hkept (.inr hlist))).1 h
      exact ⟨names, (Path.below_cons ..).symm⟩
  | link | special => cases h

/-- No file is found twice. -/
theorem nodup_searchIn (hlinks : selection.followLinks = false) {entries : Directory}
    (htree : entries.IsTree) :
    (fs.searchIn selection place links permissions shown entries).value.Nodup := by
  induction entries using Directory.memberInduction generalizing place permissions shown with
  | step entries ih =>
    rw [value_searchIn hlinks]
    split
    · refine List.nodup_flatMap.2 ⟨?_, ?_⟩
      · rintro ⟨name, entry⟩ hpair
        have hmem := Directory.mem_of_mem_visible hpair
        cases entry with
        | file => simp only [FileSystem.foundAt]; split <;> simp
        | directory inner permissions' =>
          simp only [FileSystem.foundAt]
          split
          · exact List.nodup_nil
          · exact ih name inner permissions' hmem (htree.inner hmem)
        | link | special => exact List.nodup_nil
      · -- Files found at different entries have different names on their way.
        have hvisible : (entries.visible shown).Sublist entries := List.takeWhile_sublist _
        have hnames := htree.nodup.sublist (hvisible.map Prod.fst)
        refine (List.pairwise_map.1 hnames).imp fun {pair other} hne => ?_
        refine List.disjoint_left.2 fun file hfile hother => hne ?_
        obtain ⟨names, rfl⟩ := exists_of_mem_foundAt hlinks hfile
        obtain ⟨names', hbelow⟩ := exists_of_mem_foundAt hlinks hother
        exact (List.cons.inj (Path.below_injective shown hbelow)).1
    · exact List.nodup_nil

end

/-! ## The way to a file -/

namespace Entry

/-- A directory that a search can go through. -/
def isOpen : Entry → Bool
  | .directory _ permissions => permissions.isOpen
  | _ => false

/-- The names lead from a directory to a regular file, through directories that a search can go
through and that are not ignored.  They lead through the tree itself: a link would have to be
followed, so neither the file nor a directory on the way is one.  The name of the directory from
which they lead is not among them. -/
structure Exposes (tree : Entry) (ignored : List String) (names : List String) : Prop where
  isFile : (tree.at? names).any Entry.isFile = true
  opened : ∀ way, way <+: names → way ≠ names → (tree.at? way).any isOpen = true
  kept : ∀ way name, way ++ [name] <+: names → way ++ [name] ≠ names → name ∉ ignored

variable {tree other : Entry} {ignored : List String} {name : String} {names : List String}

theorem exposes_nil_iff : tree.Exposes ignored [] ↔ tree.isFile = true := by
  constructor
  · intro h
    simpa using h.isFile
  · intro h
    refine ⟨by simpa using h, fun way hway hne => ?_, fun way name hway _ => ?_⟩
    · exact absurd (List.prefix_nil.1 hway) hne
    · simp at hway

theorem exposes_cons_iff {entries : Directory} {permissions : Permissions} :
    (Entry.directory entries permissions).Exposes ignored (name :: names) ↔
      permissions.isOpen = true ∧ (names ≠ [] → name ∉ ignored) ∧
        ∃ inner, entries.lookup name = some inner ∧ inner.Exposes ignored names := by
  constructor
  · intro h
    have hopen : permissions.isOpen = true := by
      simpa [isOpen] using h.opened [] List.nil_prefix (by simp)
    have hname (hne : names ≠ []) : name ∉ ignored :=
      h.kept [] name (by simp) (by simpa using hne.symm)
    refine ⟨hopen, hname, ?_⟩
    have hisFile := h.isFile
    rw [at?_directory_cons] at hisFile
    cases hlookup : entries.lookup name with
    | none => simp [hlookup] at hisFile
    | some inner =>
      refine ⟨inner, rfl, by simpa [hlookup] using hisFile, fun way hway hne => ?_,
        fun way name' hway hne => ?_⟩
      · have hopened := h.opened (name :: way) (by simpa using hway) (by simpa using hne)
        simpa [at?_directory_cons, hlookup] using hopened
      · exact h.kept (name :: way) name' (by simpa using hway) (by simpa using hne)
  · rintro ⟨hopen, hname, inner, hlookup, h⟩
    refine ⟨by simpa [at?_directory_cons, hlookup] using h.isFile, fun way hway hne => ?_,
      fun way name' hway hne => ?_⟩
    · rcases List.prefix_cons_iff.1 hway with rfl | ⟨way, rfl, hprefix⟩
      · simpa [isOpen] using hopen
      · simpa [at?_directory_cons, hlookup] using h.opened way hprefix (by simpa using hne)
    · cases way with
      | nil =>
        obtain ⟨rfl, -⟩ := List.cons_prefix_cons.1 hway
        exact hname (by rintro rfl; exact hne rfl)
      | cons first way =>
        obtain ⟨rfl, hprefix⟩ := List.cons_prefix_cons.1 hway
        exact h.kept way name' hprefix (by simpa using hne)

/-- Nothing but a directory has files below it. -/
theorem Exposes.eq_nil_of_not_isDirectory (h : tree.Exposes ignored names)
    (htree : tree.isDirectory = false) : names = [] := by
  cases names with
  | nil => rfl
  | cons name names =>
    have hisFile := h.isFile
    cases tree with
    | directory => simp [isDirectory] at htree
    | file | link | special => simp [at?] at hisFile

/-- The system looks at all entries of the directory at a place, because none of their paths is too
long.  The tree was come to under the path `shown`. -/
def Answers (tree : Entry) (shown : Path) (way : Place) : Prop :=
  ∀ name, (tree.at? (way ++ [name])).isSome = true →
    (shown.below (way ++ [name])).isTooLong = false

theorem answers_nil {entries : Directory} {permissions : Permissions} {shown : Path}
    (h : ∀ name ∈ entries.map Prod.fst, (shown.child name).isTooLong = false) :
    (Entry.directory entries permissions).Answers shown [] := by
  intro name hname
  rw [List.nil_append, at?_directory_cons] at hname
  cases hlookup : entries.lookup name with
  | none => simp [hlookup] at hname
  | some inner => exact h name (List.mem_map_of_mem (Directory.mem_of_lookup hlookup))

theorem answers_cons_iff {entries : Directory} {permissions : Permissions} {shown : Path}
    {name : String} {inner : Entry} {way : Place} (hlookup : entries.lookup name = some inner) :
    (Entry.directory entries permissions).Answers shown (name :: way) ↔
      inner.Answers (shown.child name) way := by
  simp only [Answers, List.cons_append, at?_directory_cons, hlookup, Option.bind_some,
    Path.below_cons]

/-- A search comes to a directory through directories that it can go through and that are not
ignored. -/
structure Admits (tree : Entry) (ignored : List String) (way : Place) : Prop where
  opened : ∀ front, front <+: way → (tree.at? front).any isOpen = true
  kept : ∀ front name, front ++ [name] <+: way → name ∉ ignored

/-- The system looks at all entries of the directories to which a search comes. -/
def IsClear (tree : Entry) (ignored : List String) (shown : Path) : Prop :=
  ∀ way, tree.Admits ignored way → tree.Answers shown way

/-- Directories may be checked one by one. -/
theorem IsClear.directory {entries : Directory} {permissions : Permissions} {shown : Path}
    (hshort : ∀ name ∈ entries.map Prod.fst, (shown.child name).isTooLong = false)
    (hinner : ∀ name inner, (name, inner) ∈ entries → inner.isOpen = true → name ∉ ignored →
      inner.IsClear ignored (shown.child name)) :
    (Entry.directory entries permissions).IsClear ignored shown := by
  intro way hadmits
  cases way with
  | nil => exact answers_nil hshort
  | cons name way =>
    have hopened (front : Place) (hfront : front <+: way) :
        ((entries.lookup name).bind fun inner => inner.at? front).any isOpen = true := by
      rw [← at?_directory_cons entries permissions]
      exact hadmits.opened (name :: front) (by simpa using hfront)
    cases hlookup : entries.lookup name with
    | none => simpa [hlookup] using hopened [] List.nil_prefix
    | some inner =>
      rw [hlookup] at hopened
      have hadmits' : inner.Admits ignored way := ⟨hopened, fun front other hfront =>
        hadmits.kept (name :: front) other (by simpa using hfront)⟩
      have hopen : inner.isOpen = true := by simpa using hopened [] List.nil_prefix
      refine (answers_cons_iff hlookup).2 (hinner name inner (Directory.mem_of_lookup hlookup) hopen
        (hadmits.kept [] name (by simp)) way hadmits')

/-- A search comes to the directories on the way to a file. -/
theorem Exposes.admits (h : tree.Exposes ignored names) {way : Place} (hway : way <+: names)
    (hne : way ≠ names) : tree.Admits ignored way := by
  have hlonger (front : Place) (hfront : front <+: way) : front ≠ names := by
    rintro rfl
    exact hne (hway.eq_of_length_le hfront.length_le)
  exact ⟨fun front hfront => h.opened front (hfront.trans hway) (hlonger front hfront),
    fun front name hfront => h.kept front name (hfront.trans hway) (hlonger _ hfront)⟩

/-- A search leads to files to which it may come. -/
theorem Leads.exposes {shown : Path} (h : tree.Leads ignored shown names) (htree : tree.IsTree) :
    tree.Exposes ignored names := by
  induction h with
  | here => exact exposes_nil_iff.2 rfl
  | inside hopen hmem hname _ ih =>
    have hmem := Directory.mem_of_mem_visible hmem
    exact exposes_cons_iff.2 ⟨hopen, hname, _, Directory.IsTree.lookup_eq_some_iff htree |>.2 hmem,
      ih (Directory.IsTree.of_mem htree hmem)⟩

/-- From a directory it leads to files whose paths are not too long. -/
theorem Leads.isTooLong {shown : Path} (h : tree.Leads ignored shown names)
    (hdirectory : tree.isDirectory = true) : (shown.below names).isTooLong = false := by
  induction h with
  | here => cases hdirectory
  | inside _ hmem _ hnames ih =>
    rw [Path.below_cons]
    cases hnames with
    | here =>
      have hshort := Directory.isTooLong_of_mem_visible hmem
      simpa [Path.below] using hshort
    | inside => exact ih rfl

/-- A search leads to all files to which it may come, if the system looks at all entries of the
directories on the way. -/
theorem Exposes.leads {shown : Path} (h : tree.Exposes ignored names) (htree : tree.IsTree)
    (hanswers : ∀ way, way <+: names → way ≠ names → tree.Answers shown way) :
    tree.Leads ignored shown names := by
  induction names generalizing tree shown with
  | nil =>
    rw [exposes_nil_iff] at h
    cases tree with
    | file => exact .here
    | directory | link | special => cases h
  | cons name names ih =>
    cases tree with
    | directory entries permissions =>
      obtain ⟨hopen, hname, inner, hlookup, hinner⟩ := exposes_cons_iff.1 h
      have hvisible : Directory.visible shown entries = entries :=
        Directory.visible_eq_self fun other entry hmem => by
          have hfound := (Directory.IsTree.lookup_eq_some_iff htree).2 hmem
          exact hanswers [] List.nil_prefix (by simp) other (by simp [at?_directory_cons, hfound])
      have hmem := Directory.mem_of_lookup hlookup
      refine .inside hopen (by rwa [hvisible]) hname
        (ih hinner (Directory.IsTree.of_mem htree hmem) fun way hway hne other hother => ?_)
      exact (answers_cons_iff hlookup).1
        (hanswers (name :: way) (by simpa using hway) (by simpa using hne)) other hother
    | file | link | special => cases h.eq_nil_of_not_isDirectory rfl

theorem IsClear.leads_iff {shown : Path} (h : tree.IsClear ignored shown) (htree : tree.IsTree) :
    tree.Leads ignored shown names ↔ tree.Exposes ignored names :=
  ⟨fun hleads => hleads.exposes htree, fun hexposes =>
    hexposes.leads htree fun _ hway hne => h _ (hexposes.admits hway hne)⟩

/-! What a search may come to depends on the outlines of the tree alone. -/

@[simp] theorem isFile_outline (entry : Entry) : entry.outline.isFile = entry.isFile := by
  cases entry <;> rfl

@[simp] theorem isOpen_outline (entry : Entry) : entry.outline.isOpen = entry.isOpen := by
  cases entry <;> rfl

theorem any_isOpen_of_outline {way : Place}
    (hsame : (tree.at? way).map outline = (other.at? way).map outline) :
    (tree.at? way).any isOpen = (other.at? way).any isOpen := by
  have hany := congrArg (Option.any isOpen) hsame
  simpa only [Option.any_map, isOpen_outline] using hany

theorem Exposes.of_outline (h : tree.Exposes ignored names)
    (hsame : ∀ way, way <+: names → (tree.at? way).map outline = (other.at? way).map outline) :
    other.Exposes ignored names := by
  refine ⟨?_, fun way hway hne => ?_, h.kept⟩
  · have hany := congrArg (Option.any Entry.isFile) (hsame names (List.prefix_refl names))
    simp only [Option.any_map, isFile_outline] at hany
    rw [← hany]
    exact h.isFile
  · rw [← any_isOpen_of_outline (hsame way hway)]
    exact h.opened way hway hne

/-- The order of listing does not matter for what a search may come to. -/
theorem Reorders.exposes_iff (h : tree.Reorders other) (htree : tree.IsTree) :
    tree.Exposes ignored names ↔ other.Exposes ignored names :=
  ⟨fun hexposes => hexposes.of_outline fun way _ => h.outline_at? htree way,
    fun hexposes => hexposes.of_outline fun way _ => (h.outline_at? htree way).symm⟩

theorem Reorders.isClear {shown : Path} (h : tree.Reorders other) (htree : tree.IsTree)
    (hclear : tree.IsClear ignored shown) : other.IsClear ignored shown := by
  intro way hadmits name hname
  refine hclear way ⟨fun front hfront => ?_, hadmits.kept⟩ name ?_
  · rw [any_isOpen_of_outline (h.outline_at? htree front)]
    exact hadmits.opened front hfront
  · have hsome := congrArg Option.isSome (h.outline_at? htree (way ++ [name]))
    rw [Option.isSome_map, Option.isSome_map] at hsome
    rw [hsome]
    exact hname

/-- Only the names of directories below the root are compared with those that are ignored. -/
theorem Leads.of_ignored {shown : Path} {ignored' : List String}
    (h : tree.Leads ignored shown names) (htree : tree.IsTree)
    (hsame : ∀ way name, (tree.at? (way ++ [name])).any isDirectory = true →
      (name ∈ ignored' ↔ name ∈ ignored)) : tree.Leads ignored' shown names := by
  induction h with
  | here => exact .here
  | @inside _ _ _ first _ _ hopen hmem hname hnames ih =>
    have hmem' := Directory.mem_of_mem_visible hmem
    have hlookup := (Directory.IsTree.lookup_eq_some_iff htree).2 hmem'
    refine .inside hopen hmem (fun hne => ?_)
      (ih (Directory.IsTree.of_mem htree hmem') fun way other hother => ?_)
    · cases hnames with
      | here => exact absurd rfl hne
      | inside =>
        rw [hsame [] _ (by simp [at?_directory_cons, hlookup, isDirectory])]
        exact hname hne
    · refine hsame (first :: way) other ?_
      rw [List.cons_append, at?_directory_cons, hlookup, Option.bind_some]
      exact hother

theorem leads_iff_of_ignored {shown : Path} {ignored' : List String} (htree : tree.IsTree)
    (h : ∀ way name, (tree.at? (way ++ [name])).any isDirectory = true →
      (name ∈ ignored' ↔ name ∈ ignored)) :
    tree.Leads ignored' shown names ↔ tree.Leads ignored shown names :=
  ⟨fun hleads => hleads.of_ignored htree fun way name hdirectory => (h way name hdirectory).symm,
    fun hleads => hleads.of_ignored htree h⟩

theorem leads_cons_iff {shown : Path} {entries : Directory} {permissions : Permissions} :
    (Entry.directory entries permissions).Leads ignored shown (name :: names) ↔
      permissions.isOpen = true ∧ (names ≠ [] → name ∉ ignored) ∧
        ∃ inner, (name, inner) ∈ entries.visible shown ∧
          inner.Leads ignored (shown.child name) names := by
  constructor
  · intro h
    cases h with
    | inside hopen hmem hname hnames => exact ⟨hopen, hname, _, hmem, hnames⟩
  · rintro ⟨hopen, hname, inner, hmem, hnames⟩
    exact .inside hopen hmem hname hnames

/-- A directory that a search cannot go through hides what lies below it, and nothing else. -/
theorem leads_restricted_iff {permissions : Permissions} (hclosed : permissions.isOpen = false)
    {shown : Path} {place : Place} (htree : tree.IsTree)
    (hplace : (tree.at? place).any isDirectory = true) :
    (tree.restricted permissions place).Leads ignored shown names ↔
      tree.Leads ignored shown names ∧ ¬ place <+: names := by
  induction place generalizing tree shown names with
  | nil =>
    cases tree with
    | directory entries permissions' =>
      refine iff_of_false (fun h => ?_) fun h => h.2 List.nil_prefix
      cases h with
      | inside hopen => simp [hclosed] at hopen
    | file | link | special => simp [isDirectory] at hplace
  | cons first rest ih =>
    cases tree with
    | directory entries permissions' =>
      cases names with
      | nil =>
        refine iff_of_false (fun h => ?_) fun h => ?_
        · cases h
        · cases h.1
      | cons name names =>
        have hvisible := Directory.visible_map shown entries fun other entry =>
          if other = first then entry.restricted permissions rest else entry
        rw [restricted, leads_cons_iff, leads_cons_iff, hvisible]
        by_cases hname : name = first
        · subst hname
          have hinner (inner : Entry) (hmem : (name, inner) ∈ Directory.visible shown entries) :
              (inner.restricted permissions rest).Leads ignored (shown.child name) names ↔
                inner.Leads ignored (shown.child name) names ∧ ¬ rest <+: names := by
            have hmem := Directory.mem_of_mem_visible hmem
            have hlookup := (Directory.IsTree.lookup_eq_some_iff htree).2 hmem
            refine ih (Directory.IsTree.of_mem htree hmem) ?_
            simpa [at?_directory_cons, hlookup] using hplace
          simp only [List.mem_map, Prod.mk.injEq, List.prefix_cons_inj]
          grind
        · have hprefix : ¬ first :: rest <+: name :: names := fun h =>
            hname (List.cons_prefix_cons.1 h).1.symm
          simp only [List.mem_map, Prod.mk.injEq]
          grind
    | file | link | special => simp [at?] at hplace

end Entry

/-! ## A whole search -/

section

variable {workspace : Workspace} {root real : Path} {tree : Entry} {ignored : List String}
  {filter : Option (Path → Bool)}

/-- A search that can start finds, in the order of listing, the files to which it leads, as far as
they are Ruby sources and pass the filter. -/
theorem exists_found (hreal : workspace.resolve root = .ok real)
    (hroot : workspace.entry? real = .ok (some tree)) (hdirectory : tree.isDirectory = true)
    (htree : tree.IsTree) :
    ∃ found : List Path,
      (workspace.discover ⟨ignored, false, filter⟩ root).value = .ok (found.mergeSort Path.le) ∧
        found.Nodup ∧
        ∀ file, file ∈ found ↔ ∃ names, file = real.below names ∧ tree.Leads ignored real names ∧
          file.HasRubySuffix ∧ filter.all (· file) = true := by
  simp only [Workspace.discover, hreal, hroot]
  cases tree with
  | file | link | special => cases hdirectory
  | directory entries permissions =>
    simp only [FileSystem.search]
    cases hlist : permissions.list with
    | false =>
      refine ⟨[], rfl, List.nodup_nil, fun file => iff_of_false List.not_mem_nil ?_⟩
      rintro ⟨names, -, hleads, -⟩
      cases hleads with
      | inside hopen => simp [Permissions.isOpen, hlist] at hopen
    | true =>
      refine ⟨_, rfl, nodup_searchIn rfl htree, fun file => ?_⟩
      refine (mem_searchIn_iff rfl hlist).trans (exists_congr fun names => ?_)
      simp only [Selection.takes, Selection.keeps, Bool.and_eq_true, Path.isRuby_iff]
      exact and_left_comm

/-- The files are given in strict order. -/
theorem exists_discover (hreal : workspace.resolve root = .ok real)
    (hroot : workspace.entry? real = .ok (some tree)) (hdirectory : tree.isDirectory = true)
    (htree : tree.IsTree) :
    ∃ files, (workspace.discover ⟨ignored, false, filter⟩ root).value = .ok files ∧
      files.Pairwise (fun a b => a.parts < b.parts) ∧
      ∀ file, file ∈ files ↔ ∃ names, file = real.below names ∧ tree.Leads ignored real names ∧
        file.HasRubySuffix ∧ filter.all (· file) = true := by
  obtain ⟨found, hvalue, hnodup, hmem⟩ := exists_found hreal hroot hdirectory htree
  refine ⟨_, hvalue, pairwise_mergeSort_of_nodup hnodup fun a ha b hb hparts => ?_, fun file => ?_⟩
  · obtain ⟨names, rfl, -⟩ := (hmem a).1 ha
    obtain ⟨names', rfl, -⟩ := (hmem b).1 hb
    rw [List.append_cancel_left hparts]
  · rw [(List.mergeSort_perm found Path.le).mem_iff, hmem]

/-- Files in strict order are determined by which ones they are. -/
theorem eq_of_pairwise_lt {files others : List Path}
    (hfiles : files.Pairwise fun a b => a.parts < b.parts)
    (hothers : others.Pairwise fun a b => a.parts < b.parts)
    (h : ∀ file, file ∈ files ↔ file ∈ others) : files = others := by
  have hne (a b : Path) (hlt : a.parts < b.parts) : a ≠ b := by
    rintro rfl
    exact List.lt_irrefl _ hlt
  have hperm : files.Perm others :=
    (List.perm_ext_iff_of_nodup (hfiles.imp (hne _ _)) (hothers.imp (hne _ _))).2 h
  exact hperm.eq_of_pairwise (fun _ _ _ _ hlt hgt => absurd hgt (List.lt_asymm hlt)) hfiles hothers

/-- A search gives the only list of files in strict order that holds those to which it leads. -/
theorem value_discover_of_mem_iff (hreal : workspace.resolve root = .ok real)
    (hroot : workspace.entry? real = .ok (some tree)) (hdirectory : tree.isDirectory = true)
    (htree : tree.IsTree) {files : List Path}
    (hfiles : files.Pairwise fun a b => a.parts < b.parts)
    (hmem : ∀ file, file ∈ files ↔ ∃ names, file = real.below names ∧
      tree.Leads ignored real names ∧ file.HasRubySuffix ∧ filter.all (· file) = true) :
    (workspace.discover ⟨ignored, false, filter⟩ root).value = .ok files := by
  obtain ⟨found, hvalue, hfound, hmem'⟩ := exists_discover hreal hroot hdirectory htree
  rw [hvalue, eq_of_pairwise_lt hfound hfiles fun file => (hmem' file).trans (hmem file).symm]

/-- A path lies below a directory if names lead to it from there. -/
theorem isNone_relativeTo?_below (path : Path) (names place : List String) :
    ((path.below names).relativeTo? (path.below place)).isNone = true ↔ ¬ place <+: names := by
  simp [Path.relativeTo?, Path.below, List.prefix_append_right_inj]

/-- **Exact selection.**  Let the names below a directory tell its entries apart.  A search from it
that skips links gives, in the strict order of their parts, regular Ruby files that names lead to
through directories that can be searched and are not ignored, and that pass the filter.  It gives
all of them that have no entry with too long a path beside them or beside a directory on the way.
Moreover:

* of the ignored names only those matter that a directory below the root has;
* when a directory, at any place in the tree, can no longer be listed or passed through, what is
  missing afterwards is what lies below it;
* when directories list their entries in another order, nothing changes, as long as the search comes
  to no entry with too long a path. -/
theorem discover_selects (workspace : Workspace) (root real : Path) (tree : Entry)
    (ignored : List String) (filter : Option (Path → Bool))
    (hreal : workspace.resolve root = .ok real) (hroot : workspace.entry? real = .ok (some tree))
    (hdirectory : tree.isDirectory = true) (htree : tree.IsTree) :
    ∃ files, (workspace.discover ⟨ignored, false, filter⟩ root).value = .ok files ∧
      files.Pairwise (fun a b => a.parts < b.parts) ∧
      (∀ file ∈ files, ∃ names, file = real.below names ∧ tree.Exposes ignored names ∧
        file.HasRubySuffix ∧ filter.all (· file) = true ∧ file.isTooLong = false) ∧
      (∀ names, tree.Exposes ignored names →
        (∀ way, way <+: names → way ≠ names → tree.Answers real way) →
        (real.below names).HasRubySuffix → filter.all (· (real.below names)) = true →
        real.below names ∈ files) ∧
      (∀ ignored', (∀ way name, (tree.at? (way ++ [name])).any Entry.isDirectory = true →
          (name ∈ ignored' ↔ name ∈ ignored)) →
        (workspace.discover ⟨ignored', false, filter⟩ root).value = .ok files) ∧
      (∀ (place : Place) (permissions : Permissions) (other : Workspace),
        (tree.at? place).any Entry.isDirectory = true → permissions.isOpen = false →
        other.resolve root = .ok real →
        other.entry? real = .ok (some (tree.restricted permissions place)) →
        (other.discover ⟨ignored, false, filter⟩ root).value =
          .ok (files.filter fun file => (file.relativeTo? (real.below place)).isNone)) ∧
      ∀ (tree' : Entry) (other : Workspace), tree.Reorders tree' → tree.IsClear ignored real →
        other.resolve root = .ok real → other.entry? real = .ok (some tree') →
        (other.discover ⟨ignored, false, filter⟩ root).value = .ok files := by
  obtain ⟨files, hvalue, hsorted, hmem⟩ := exists_discover hreal hroot hdirectory htree
  refine ⟨files, hvalue, hsorted, fun file hfile => ?_,
    fun names hexposes hanswers hruby hfilter => ?_, fun ignored' hsame => ?_,
    fun place permissions other hplace hclosed hreal' hroot' => ?_,
    fun tree' other hreorders hclear hreal' hroot' => ?_⟩
  · obtain ⟨names, rfl, hleads, hruby, hfilter⟩ := (hmem file).1 hfile
    exact ⟨names, rfl, hleads.exposes htree, hruby, hfilter, hleads.isTooLong hdirectory⟩
  · exact (hmem _).2 ⟨names, rfl, hexposes.leads htree hanswers, hruby, hfilter⟩
  · refine value_discover_of_mem_iff hreal hroot hdirectory htree hsorted fun file => ?_
    simp only [hmem, Entry.leads_iff_of_ignored htree hsame]
  · have hdirectory' : (tree.restricted permissions place).isDirectory = true := by
      rw [Entry.isDirectory_restricted, hdirectory]
    refine value_discover_of_mem_iff hreal' hroot' hdirectory' (htree.restricted permissions place)
      (hsorted.filter _) fun file => ?_
    simp only [List.mem_filter, hmem, Entry.leads_restricted_iff hclosed htree hplace]
    constructor
    · rintro ⟨⟨names, rfl, hleads, hselected⟩, houtside⟩
      rw [isNone_relativeTo?_below] at houtside
      exact ⟨names, rfl, ⟨hleads, houtside⟩, hselected⟩
    · rintro ⟨names, rfl, ⟨hleads, houtside⟩, hselected⟩
      exact ⟨⟨names, rfl, hleads, hselected⟩, (isNone_relativeTo?_below ..).2 houtside⟩
  · have hdirectory' : tree'.isDirectory = true := by
      rw [← hreorders.isDirectory_eq, hdirectory]
    have hclear' := hreorders.isClear htree hclear
    refine value_discover_of_mem_iff hreal' hroot' hdirectory' (hreorders.isTree htree) hsorted
      fun file => ?_
    simp only [hmem, hclear.leads_iff htree, hclear'.leads_iff (hreorders.isTree htree),
      hreorders.exposes_iff htree]

end

/-- A tree below a directory with an ignored name.  One directory in it is ignored, one cannot be
listed and one cannot be passed through; a link leads to a directory and another one to a file. -/
def searchedTree : Entry :=
  .directory [
    ("tmp", .directory [("task.rake", .file [])]),
    ("lib", .directory [("b.rb", .file []), ("a.RB", .file []), ("c.rb", .link "b.rb")]),
    ("private", .directory [("d.rb", .file [])] { list := false }),
    ("sealed", .directory [("e.rb", .file [])] { pass := false }),
    ("link", .link "lib"),
    ("notes.txt", .file []),
    ("a.rb", .file [])]

def searchedWorkspace (tree : Entry) : Workspace where
  files := { root := [("vendor", tree)] }
  directory := Path.rootDirectory
  parse := Parsed.blank

theorem resolve_searchedWorkspace (entries : Directory) :
    (searchedWorkspace (.directory entries)).resolve ⟨.root, ["vendor"]⟩ =
      .ok ⟨.root, ["vendor"]⟩ := by
  cbv

theorem root_searchedWorkspace (entries : Directory) :
    Workspace.entry? (searchedWorkspace (.directory entries)) ⟨.root, ["vendor"]⟩ =
      .ok (some (.directory entries)) := by
  cbv

theorem isTree_searchedTree : searchedTree.IsTree := by
  refine Directory.IsTree.intro (by decide) fun name inner permissions hmem => ?_
  simp only [List.mem_cons, Prod.mk.injEq, Entry.directory.injEq] at hmem
  rcases hmem with ⟨-, rfl, -⟩ | ⟨-, rfl, -⟩ | ⟨-, rfl, -⟩ | ⟨-, rfl, -⟩ | hmem
  · exact .intro (by decide) (by simp)
  · exact .intro (by decide) (by simp)
  · exact .intro (by decide) (by simp)
  · exact .intro (by decide) (by simp)
  · simp at hmem

/-- The root is searched in spite of its name.  The file with a capital suffix is given until its
directory is closed; the ones in the ignored directory and in the sealed one never are. -/
theorem discover_searchedTree :
    (searchedWorkspace searchedTree).resolve ⟨.root, ["vendor"]⟩ = .ok ⟨.root, ["vendor"]⟩ ∧
      Workspace.entry? (searchedWorkspace searchedTree) ⟨.root, ["vendor"]⟩ =
        .ok (some searchedTree) ∧
      searchedTree.isDirectory = true ∧ searchedTree.IsTree ∧ "vendor" ∈ defaultIgnored ∧
      ∃ files,
        ((searchedWorkspace searchedTree).discover {} ⟨.root, ["vendor"]⟩).value = .ok files ∧
        ⟨.root, ["vendor", "lib", "a.RB"]⟩ ∈ files ∧
        ⟨.root, ["vendor", "tmp", "task.rake"]⟩ ∉ files ∧
        ⟨.root, ["vendor", "sealed", "e.rb"]⟩ ∉ files ∧
        ((searchedWorkspace (searchedTree.restricted { list := false } ["lib"])).discover {}
            ⟨.root, ["vendor"]⟩).value =
          .ok (files.filter fun file => (file.relativeTo? ⟨.root, ["vendor", "lib"]⟩).isNone) := by
  have hreal : (searchedWorkspace searchedTree).resolve ⟨.root, ["vendor"]⟩ =
      .ok ⟨.root, ["vendor"]⟩ := resolve_searchedWorkspace _
  have hroot : Workspace.entry? (searchedWorkspace searchedTree) ⟨.root, ["vendor"]⟩ =
      .ok (some searchedTree) := root_searchedWorkspace _
  obtain ⟨files, hvalue, -, hsound, hcomplete, -, hclosed, -⟩ :=
    discover_selects _ _ _ _ defaultIgnored none hreal hroot rfl isTree_searchedTree
  have hexposes (names : List String) (hmem : Path.below ⟨.root, ["vendor"]⟩ names ∈ files) :
      searchedTree.Exposes defaultIgnored names := by
    obtain ⟨names', hnames, hexposes, -⟩ := hsound _ hmem
    rwa [Path.below_injective _ hnames]
  refine ⟨hreal, hroot, rfl, isTree_searchedTree, by decide, files, hvalue, ?_, ?_, ?_, ?_⟩
  · have hexposes : searchedTree.Exposes defaultIgnored ["lib", "a.RB"] :=
      Entry.exposes_cons_iff.2 ⟨rfl, by decide, _, rfl,
        Entry.exposes_cons_iff.2 ⟨rfl, by decide, _, rfl, Entry.exposes_nil_iff.2 rfl⟩⟩
    refine hcomplete _ hexposes (fun way hway hne => ?_)
      ⟨['a'], ['R', 'B'], by decide, rfl, by decide⟩
      rfl
    rcases List.prefix_cons_iff.1 hway with rfl | ⟨rest, rfl, hrest⟩
    · exact Entry.answers_nil (by decide)
    · rcases List.prefix_cons_iff.1 hrest with rfl | ⟨rest, rfl, hnil⟩
      · exact (Entry.answers_cons_iff rfl).2 (Entry.answers_nil (by decide))
      · exact absurd (by rw [List.prefix_nil.1 hnil]) hne
  · intro h
    exact (hexposes ["tmp", "task.rake"] h).kept [] "tmp" (by simp) (by simp) (by decide)
  · intro h
    have hopened := (hexposes ["sealed", "e.rb"] h).opened ["sealed"] (by simp) (by simp)
    revert hopened
    decide
  · refine hclosed ["lib"] { list := false } _ rfl rfl ?_ ?_ <;> cbv

/-! ## What the system refuses

Neither listing alone nor the names alone decide which files a search finds.  A directory that lists
its entries but cannot be passed through loses its files.  And deep below the root a path may be too
long although every name in it is not; the directory then loses what it lists afterwards. -/

/-- A name of as many bytes as a name may have. -/
def longestName : String := String.ofList (List.replicate nameLimit 'a')

theorem utf8ByteSize_longestName : longestName.utf8ByteSize = nameLimit := by
  have hletters (count : Nat) : String.utf8Len (List.replicate count 'a') = count := by
    induction count with
    | zero => rfl
    | succ count ih =>
      rw [List.replicate_succ, String.utf8Len_cons, ih]
      rfl
  rw [longestName, String.utf8ByteSize_ofList, hletters]

/-- Any shorter name is another one. -/
theorem ne_longestName {name : String} (h : name.utf8ByteSize < nameLimit) :
    name ≠ longestName := by
  rintro rfl
  exact absurd utf8ByteSize_longestName h.ne

theorem longestName_not_mem_defaultIgnored : longestName ∉ defaultIgnored := by
  have hshorter : ∀ name ∈ defaultIgnored, name.utf8ByteSize < nameLimit := by decide
  exact fun hmem => ne_longestName (hshorter _ hmem) rfl

/-- Directories of that name within one another, and entries in the innermost one. -/
def nested : Nat → Directory → Directory
  | 0, entries => entries
  | depth + 1, entries => [(longestName, .directory (nested depth entries))]

theorem isTree_nested {entries : Directory} (h : entries.IsTree) (depth : Nat) :
    (nested depth entries).IsTree := by
  induction depth with
  | zero => exact h
  | succ depth ih =>
    refine .intro (by simp [nested]) fun name inner permissions hmem => ?_
    obtain ⟨-, hinner⟩ := Prod.mk.inj (List.mem_singleton.1 hmem)
    cases hinner
    exact ih

theorem Directory.Reorders.nested {entries others : Directory} (h : entries.Reorders others)
    (depth : Nat) : (nested depth entries).Reorders (nested depth others) := by
  induction depth with
  | zero => exact h
  | succ depth ih => exact .inside ih [] [] longestName {}

/-- As far as the paths are not too long, a search goes down to the innermost directory. -/
theorem leads_nested_iff {ignored : List String} (hname : longestName ∉ ignored) {shown : Path}
    {depth : Nat} (hshort : ∀ above < depth,
      (shown.below (List.replicate (above + 1) longestName)).isTooLong = false)
    {entries : Directory} {names : List String} :
    (Entry.directory (nested depth entries)).Leads ignored shown names ↔
      ∃ rest, names = List.replicate depth longestName ++ rest ∧
        (Entry.directory entries).Leads ignored
          (shown.below (List.replicate depth longestName)) rest := by
  induction depth generalizing shown names with
  | zero => simp [nested, Path.below]
  | succ depth ih =>
    have hhere : (shown.child longestName).isTooLong = false := hshort 0 (by omega)
    have hbelow (above : Nat) (habove : above < depth) :
        ((shown.child longestName).below (List.replicate (above + 1) longestName)).isTooLong =
          false := by
      rw [← Path.below_cons]
      exact hshort (above + 1) (by omega)
    have hvisible : Directory.visible shown [(longestName, .directory (nested depth entries))] =
        [(longestName, .directory (nested depth entries))] :=
      Directory.visible_eq_self fun name entry hmem => by
        obtain ⟨rfl, -⟩ := Prod.mk.inj (List.mem_singleton.1 hmem)
        exact hhere
    rw [nested, List.replicate_succ, Path.below_cons]
    constructor
    · intro h
      cases h with
      | inside _ hmem _ hnames =>
        rw [hvisible] at hmem
        obtain ⟨rfl, rfl⟩ := Prod.mk.inj (List.mem_singleton.1 hmem)
        obtain ⟨rest, rfl, hrest⟩ := (ih hbelow).1 hnames
        exact ⟨rest, rfl, hrest⟩
    · rintro ⟨rest, rfl, hrest⟩
      exact .inside rfl (by rw [hvisible]; exact List.mem_singleton_self _) (fun _ => hname)
        ((ih hbelow).2 ⟨rest, rfl, hrest⟩)

/-- The path of a directory that is so deep in fifteen directories below `/vendor`. -/
def nestedPath (depth : Nat) : Path :=
  Path.below ⟨.root, ["vendor"]⟩ (List.replicate depth longestName)

/-- The innermost of the fifteen: its own path is not too long. -/
def innermost : Path := nestedPath 15

theorem utf8ByteSize_nestedPath (depth : Nat) :
    (nestedPath depth).text.utf8ByteSize = 7 + depth * 256 := by
  have hvendor : (Path.mk .root ["vendor"]).text.utf8ByteSize = 7 := by decide
  rw [nestedPath, Path.utf8ByteSize_text_below_replicate (by simp), hvendor,
    utf8ByteSize_longestName, nameLimit]

theorem isTooLong_nestedPath {depth : Nat} (h : depth ≤ 15) :
    (nestedPath depth).isTooLong = false := by
  rw [Path.isTooLong, utf8ByteSize_nestedPath, decide_eq_false_iff_not, pathLimit]
  omega

theorem isTooLong_child_innermost_iff (name : String) :
    (innermost.child name).isTooLong = true ↔ 247 < name.utf8ByteSize := by
  rw [Path.isTooLong, Path.utf8ByteSize_text_child (by simp [innermost, nestedPath, Path.below]),
    innermost, utf8ByteSize_nestedPath, decide_eq_true_eq, pathLimit]
  omega

/-- A search of the nested directories goes down to the innermost one. -/
theorem leads_innermost_iff {entries : Directory} {names : List String} :
    (Entry.directory (nested 15 entries)).Leads defaultIgnored ⟨.root, ["vendor"]⟩ names ↔
      ∃ rest, names = List.replicate 15 longestName ++ rest ∧
        (Entry.directory entries).Leads defaultIgnored innermost rest :=
  leads_nested_iff longestName_not_mem_defaultIgnored fun _ => isTooLong_nestedPath

/-- What a search of the nested directories finds is what its innermost directory leads to. -/
theorem exists_discover_nested {entries : Directory} (htree : entries.IsTree) :
    ∃ files, ((searchedWorkspace (.directory (nested 15 entries))).discover {}
        ⟨.root, ["vendor"]⟩).value = .ok files ∧ files.Pairwise (fun a b => a.parts < b.parts) ∧
      ∀ file, file ∈ files ↔ ∃ rest, file = innermost.below rest ∧
        (Entry.directory entries).Leads defaultIgnored innermost rest ∧ file.HasRubySuffix := by
  obtain ⟨files, hvalue, hsorted, hmem⟩ := @exists_discover _ _ _ _ defaultIgnored none
    (resolve_searchedWorkspace _) (root_searchedWorkspace _) rfl (isTree_nested htree 15)
  refine ⟨files, hvalue, hsorted, fun file => (hmem file).trans ?_⟩
  have hbelow (rest : List String) : innermost.below rest =
      Path.below ⟨.root, ["vendor"]⟩ (List.replicate 15 longestName ++ rest) := by
    simp [innermost, nestedPath, Path.below]
  simp only [leads_innermost_iff, Option.all_none, and_true, hbelow]
  constructor
  · rintro ⟨_, rfl, ⟨rest, rfl, hrest⟩, hruby⟩
    exact ⟨rest, rfl, hrest, hruby⟩
  · rintro ⟨rest, rfl, hrest, hruby⟩
    exact ⟨_, rfl, ⟨rest, rfl, hrest⟩, hruby⟩

theorem isTooLong_longestName : (innermost.child longestName).isTooLong = true := by
  rw [isTooLong_child_innermost_iff, utf8ByteSize_longestName, nameLimit]
  omega

theorem isTooLong_source : (innermost.child "c.rb").isTooLong = false := by
  rw [← Bool.not_eq_true, isTooLong_child_innermost_iff]
  decide

/-- A tree with one file below a directory that cannot be passed through. -/
def guardedTree : Entry :=
  .directory [("open", .directory [("a.rb", .file [])] { pass := false })]

theorem isTree_guardedTree : guardedTree.IsTree := by
  refine Directory.IsTree.intro (by decide) fun name inner permissions hmem => ?_
  obtain ⟨-, rfl, -⟩ := by simpa using hmem
  exact .intro (by decide) (by simp)

/-- A directory with one source. -/
def solitary (source : Bytes) : Directory := [("c.rb", .file source)]

/-- A source, and a file whose path in the innermost directory is too long. -/
def crowded (source : Bytes) : Directory := [("c.rb", .file source), (longestName, .file [])]

theorem isTree_solitary (source : Bytes) : (solitary source).IsTree :=
  .intro (by simp [solitary]) (by simp [solitary])

theorem isTree_crowded (source : Bytes) : (crowded source).IsTree := by
  refine .intro ?_ (by simp [crowded])
  have hne : "c.rb" ≠ longestName := ne_longestName (by decide)
  exact List.nodup_cons.2 ⟨mt List.mem_singleton.1 hne, List.nodup_singleton _⟩

theorem reorders_crowded (source : Bytes) : (crowded source).Reorders (crowded source).reverse :=
  .perm (List.reverse_perm _).symm

/-- A search that comes to the source first comes to the source alone. -/
theorem visible_crowded (source : Bytes) :
    (crowded source).visible innermost = solitary source := by
  rw [crowded, Directory.visible_cons, Directory.visible_cons, if_pos isTooLong_longestName,
    if_neg (by rw [isTooLong_source]; decide)]
  rfl

theorem visible_solitary (source : Bytes) :
    (solitary source).visible innermost = solitary source := by
  rw [solitary, Directory.visible_cons, if_neg (by rw [isTooLong_source]; decide)]
  rfl

/-- A search that comes to the other file first comes to nothing. -/
theorem visible_reverse_crowded (source : Bytes) :
    Directory.visible innermost (crowded source).reverse = [] := by
  have hreverse : (crowded source).reverse = [(longestName, .file []), ("c.rb", .file source)] :=
    rfl
  rw [hreverse, Directory.visible_cons, if_pos isTooLong_longestName]

section

variable {entries : Directory} (htree : entries.IsTree)

theorem leads_innermost {source : Bytes} (hvisible : entries.visible innermost = solitary source)
    {rest : List String} :
    (Entry.directory entries).Leads defaultIgnored innermost rest ↔ rest = ["c.rb"] := by
  constructor
  · intro h
    cases h with
    | inside _ hmem _ hnames =>
      rw [hvisible] at hmem
      obtain ⟨rfl, rfl⟩ := Prod.mk.inj (List.mem_singleton.1 hmem)
      cases hnames
      rfl
  · rintro rfl
    exact .inside rfl (by rw [hvisible]; exact List.mem_singleton_self _) (by simp) .here

include htree

theorem discover_nested {source : Bytes} (hvisible : entries.visible innermost = solitary source) :
    ((searchedWorkspace (.directory (nested 15 entries))).discover {} ⟨.root, ["vendor"]⟩).value =
      .ok [innermost.child "c.rb"] := by
  obtain ⟨files, hvalue, hsorted, hmem⟩ := exists_discover_nested htree
  have hfiles : files = [innermost.child "c.rb"] := by
    refine eq_of_pairwise_lt hsorted (List.pairwise_singleton _ _) fun file => ?_
    simp only [hmem, leads_innermost hvisible, List.mem_singleton]
    constructor
    · rintro ⟨_, rfl, rfl, -⟩
      rfl
    · rintro rfl
      exact ⟨_, rfl, rfl, ['c'], ['r', 'b'], by simp, by rw [Path.name_child]; rfl, by decide⟩
  rw [hvalue, hfiles]

theorem discover_nested_of_nil (hvisible : entries.visible innermost = []) :
    ((searchedWorkspace (.directory (nested 15 entries))).discover {} ⟨.root, ["vendor"]⟩).value =
      .ok [] := by
  obtain ⟨files, hvalue, -, hmem⟩ := exists_discover_nested htree
  have hfiles : files = [] := by
    refine List.eq_nil_iff_forall_not_mem.2 fun file hfile => ?_
    obtain ⟨_, -, hleads, -⟩ := (hmem file).1 hfile
    cases hleads with
    | inside _ hmem =>
      rw [hvisible] at hmem
      cases hmem
  rw [hvalue, hfiles]

end

/-- A source is not found although all directories on the way to it can be listed, because one of
them cannot be passed through.  And whether the source in the innermost of the nested directories is
found depends on the order in which that directory lists its files. -/
theorem discover_refusedEntries :
    guardedTree.at? ["open", "a.rb"] = some (.file []) ∧ "open" ∉ defaultIgnored ∧
      (∀ way, way <+: ["open", "a.rb"] → way ≠ ["open", "a.rb"] →
        ∃ entries permissions, guardedTree.at? way = some (.directory entries permissions) ∧
          permissions.list = true) ∧
      ((searchedWorkspace guardedTree).discover {} ⟨.root, ["vendor"]⟩).value = .ok [] ∧
    (nested 15 (crowded [])).Reorders (nested 15 (crowded []).reverse) ∧
      ((searchedWorkspace (.directory (nested 15 (crowded [])))).discover {}
        ⟨.root, ["vendor"]⟩).value = .ok [innermost.child "c.rb"] ∧
      ((searchedWorkspace (.directory (nested 15 (crowded []).reverse))).discover {}
        ⟨.root, ["vendor"]⟩).value = .ok [] := by
  have htree := isTree_crowded []
  have hreorders := reorders_crowded []
  refine ⟨rfl, by decide, fun way hway hne => ?_, ?_, hreorders.nested 15,
    discover_nested htree (visible_crowded []),
    discover_nested_of_nil (hreorders.isTree htree) (visible_reverse_crowded [])⟩
  · rcases List.prefix_cons_iff.1 hway with rfl | ⟨rest, rfl, hrest⟩
    · exact ⟨_, _, rfl, rfl⟩
    · rcases List.prefix_cons_iff.1 hrest with rfl | ⟨rest, rfl, hnil⟩
      · exact ⟨_, _, rfl, rfl⟩
      · exact absurd (by rw [List.prefix_nil.1 hnil]) hne
  · refine value_discover_of_mem_iff (resolve_searchedWorkspace _) (root_searchedWorkspace _) rfl
      isTree_guardedTree .nil fun file => iff_of_false List.not_mem_nil ?_
    rintro ⟨names, rfl, hleads, hruby, -⟩
    cases hleads with
    | inside _ hmem _ hnames =>
      obtain ⟨rfl, rfl⟩ := by simpa using Directory.mem_of_mem_visible hmem
      cases hnames with
      | inside hopen => exact absurd hopen (by decide)

end MemoAudit
