import Mathlib
import MemoAudit.Proofs.Discovery

/-!
# The way to an entry

Locating a path is a recursion on what is left of it, in which a link may put any number of parts in
front.  Here it is taken apart in the two ways in which proofs want it.

* Step by step, in terms of the places that it comes to: one equation for each kind of entry that
  may be at the next place (`FileSystem.locate_name`, `FileSystem.locate_link`, ...).
* As a whole: a way that is put together from two parts goes on where the first part ends
  (`FileSystem.locate_append`), so that a path below another one is found from there
  (`FileSystem.find_below`).

The last section lists the places of all links of a tree (`Directory.linkPlaces`), of which there
are as many as links are counted, and all names in it (`Directory.names`).
-/

namespace MemoAudit

/-! ## Places in a tree -/

namespace Entry

variable {tree entry : Entry}

theorem at?_append (tree : Entry) (place rest : Place) :
    tree.at? (place ++ rest) = (tree.at? place).bind fun entry => entry.at? rest := by
  induction place generalizing tree with
  | nil => simp
  | cons name place ih =>
    cases tree with
    | directory entries permissions =>
      rw [List.cons_append, at?_directory_cons, at?_directory_cons, Option.bind_assoc]
      exact Option.bind_congr fun inner _ => ih inner
    | file | link | special => rfl

theorem IsTree.of_at? (htree : tree.IsTree) {place : Place} (h : tree.at? place = some entry) :
    entry.IsTree := by
  induction place generalizing tree with
  | nil =>
    rw [at?_nil] at h
    cases h
    exact htree
  | cons name rest ih =>
    cases tree with
    | directory entries permissions =>
      rw [at?_directory_cons] at h
      obtain ⟨inner, hlookup, h⟩ := Option.bind_eq_some_iff.1 h
      exact ih (Directory.IsTree.of_mem htree (Directory.mem_of_lookup hlookup)) h
    | file | link | special => simp [at?] at h

end Entry

namespace FileSystem

variable {fs grown : FileSystem}

theorem at?_append (fs : FileSystem) (place rest : Place) :
    fs.at? (place ++ rest) = (fs.at? place).bind fun entry => entry.at? rest :=
  Entry.at?_append _ place rest

/-- What a directory holds under a name is at the place below it. -/
theorem at?_concat {here : Place} {entries : Directory} {permissions : Permissions}
    (h : fs.at? here = some (.directory entries permissions)) (name : String) :
    fs.at? (here ++ [name]) = entries.lookup name := by
  rw [at?_append, h, Option.bind_some, Entry.at?_directory_cons]
  cases entries.lookup name <;> simp

/-! One step of locating a path, in terms of the places that it comes to. -/

section

variable {here : Place} {links : Nat} {part : String} {entries : Directory}
  {permissions : Permissions} (hhere : fs.at? here = some (.directory entries permissions))
  (rest : List String)

include hhere

theorem locate_empty : fs.locate links here ("" :: rest) = fs.locate links here rest := by
  rw [locate.eq_def]
  simp [hhere]

theorem locate_denied (hpass : permissions.pass = false) (hempty : part ≠ "") :
    fs.locate links here (part :: rest) = .error .denied := by
  rw [locate.eq_def]
  simp [hhere, hpass, hempty]

variable (hpass : permissions.pass = true)

include hpass

theorem locate_dot : fs.locate links here ("." :: rest) = fs.locate links here rest := by
  rw [locate.eq_def]
  simp [hhere, hpass]

theorem locate_dots : fs.locate links here (".." :: rest) = fs.locate links here.dropLast rest := by
  rw [locate.eq_def]
  simp [hhere, hpass]

variable (hempty : part ≠ "") (hdot : part ≠ ".") (hdots : part ≠ "..")

include hempty hdot hdots

theorem locate_missing (hpart : fs.at? (here ++ [part]) = none) :
    fs.locate links here (part :: rest) = .error (missingName part) := by
  rw [at?_concat hhere] at hpart
  rw [locate.eq_def]
  simp [hhere, hpass, hempty, hdot, hdots, hpart]

theorem locate_link_zero {target : String} (hpart : fs.at? (here ++ [part]) = some (.link target)) :
    fs.locate 0 here (part :: rest) = .error .tooManyLinks := by
  rw [at?_concat hhere] at hpart
  rw [locate.eq_def]
  simp [hhere, hpass, hempty, hdot, hdots, hpart]

theorem locate_link {target : String} (hpart : fs.at? (here ++ [part]) = some (.link target)) :
    fs.locate (links + 1) here (part :: rest) =
      fs.locate links (linkStart here target) (Path.pieces target ++ rest) := by
  rw [at?_concat hhere] at hpart
  rw [locate.eq_def]
  simp [hhere, hpass, hempty, hdot, hdots, hpart]

theorem locate_name {entry : Entry} (hpart : fs.at? (here ++ [part]) = some entry)
    (hentry : ∀ target, entry ≠ .link target) :
    fs.locate links here (part :: rest) = fs.locate links (here ++ [part]) rest := by
  rw [at?_concat hhere] at hpart
  rw [locate.eq_def]
  simp only [hhere, hpass, hempty, hdot, hdots, hpart, if_false, Bool.true_eq_false]
  split
  all_goals simp_all

end

theorem locate_notDirectory {here : Place} {links : Nat} {entry : Entry}
    (hhere : fs.at? here = some entry) (hentry : entry.isDirectory = false) (part : String)
    (rest : List String) : fs.locate links here (part :: rest) = .error .notDirectory := by
  rw [locate.eq_def]
  cases entry <;> simp_all [Entry.isDirectory]

end FileSystem

theorem Path.parts_within_below (path directory : Path) (names : List String) :
    ((path.below names).within directory).parts = (path.within directory).parts ++ names := by
  unfold within below isAbsolute
  split <;> simp

namespace FileSystem

variable {fs : FileSystem}

/-- A spelling names a link that the system shows. -/
theorem linkTarget?_eq_some_iff {directory path : Path} {target : String} :
    fs.linkTarget? directory path = some target ↔
      path.isTooLong = false ∧ fs.leadsTo (path.normalize directory).parts = true ∧
        fs.at? (path.normalize directory).parts = some (.link target) := by
  unfold linkTarget?
  dsimp only
  split
  · rename_i hhidden
    refine iff_of_false (by simp) fun ⟨hshort, hleads, _⟩ => ?_
    simp [hshort, hleads] at hhidden
  · rename_i hshown
    rw [Bool.or_eq_true, not_or, Bool.not_eq_true, Bool.not_eq_true, Bool.not_eq_false'] at hshown
    rw [and_iff_right hshown.1, and_iff_right hshown.2]
    split <;> simp_all

/-! The way to an entry, in two parts. -/

section

variable {here : Place} {links : Nat} {parts : List String} {directory path : Path}

theorem at?_of_locate {reached : Reached} (h : fs.locate links here parts = .ok reached) :
    fs.at? reached.place = some reached.entry := by
  fun_induction fs.locate links here parts with
  | case2 links here entry hhere =>
    cases h
    exact hhere
  | case3 => rename_i ih; exact ih h
  | case5 => rename_i ih; exact ih h
  | case6 => rename_i ih; exact ih h
  | case9 => rename_i ih; exact ih h
  | case10 => rename_i ih; exact ih h
  | case1 | case4 | case7 | case8 | case11 => cases h

theorem locate_append (fs : FileSystem) (links : Nat) (here : Place) (parts rest : List String) :
    fs.locate links here (parts ++ rest) =
      (fs.locate links here parts).bind fun reached =>
        fs.locate reached.links reached.place rest := by
  fun_induction fs.locate links here parts with
  | case1 links here parts hhere =>
    rw [locate.eq_def, hhere]
    rfl
  | case2 links here entry hhere => rfl
  | case3 links here entries permissions more hhere ih =>
    rw [List.cons_append, locate_empty hhere]
    exact ih
  | case4 links here entries permissions part more hhere hempty hpass =>
    rw [List.cons_append, locate_denied hhere _ hpass hempty]
    rfl
  | case5 links here entries permissions more hhere hpass _ ih =>
    rw [Bool.not_eq_false] at hpass
    rw [List.cons_append, locate_dot hhere _ hpass]
    exact ih
  | case6 links here entries permissions more hhere hpass _ _ ih =>
    rw [Bool.not_eq_false] at hpass
    rw [List.cons_append, locate_dots hhere _ hpass]
    exact ih
  | case7 links here entries permissions part more hhere hempty hpass hdot hdots hlookup =>
    rw [Bool.not_eq_false] at hpass
    have hpart := (at?_concat hhere part).trans hlookup
    rw [List.cons_append, locate_missing hhere _ hpass hempty hdot hdots hpart]
    rfl
  | case8 here entries permissions part more hhere hempty hpass hdot hdots target hlookup =>
    rw [Bool.not_eq_false] at hpass
    have hlink := (at?_concat hhere part).trans hlookup
    rw [List.cons_append, locate_link_zero hhere _ hpass hempty hdot hdots hlink]
    rfl
  | case9 here entries permissions part more hhere hempty hpass hdot hdots target links hlookup
      ih =>
    rw [Bool.not_eq_false] at hpass
    have hlink := (at?_concat hhere part).trans hlookup
    rw [List.cons_append, Nat.succ_eq_add_one, locate_link hhere _ hpass hempty hdot hdots hlink,
      ← List.append_assoc]
    exact ih
  | case10 here entries permissions part more hhere hempty hpass hdot hdots entry links hzero hsucc
      hlookup ih =>
    rw [Bool.not_eq_false] at hpass
    have hpart := (at?_concat hhere part).trans hlookup
    have hentry (target : String) : entry ≠ .link target := by
      cases links with
      | zero => exact hzero target rfl
      | succ links => exact hsucc target links rfl
    rw [List.cons_append, locate_name hhere _ hpass hempty hdot hdots hpart hentry]
    exact ih
  | case11 links here entry part more hentry hhere =>
    have hdirectory : entry.isDirectory = false := by
      cases entry with
      | directory entries permissions => exact absurd rfl (hentry entries permissions)
      | file | link | special => rfl
    rw [List.cons_append, locate_notDirectory hhere hdirectory]
    rfl

theorem exists_locate_of_find {entry : Entry} (h : fs.find directory path = .ok entry) :
    ∃ reached, fs.locate linkLimit [] (path.within directory).parts = .ok reached ∧
      reached.entry = entry := by
  unfold find at h
  split at h
  · cases h
  · cases hlocate : fs.locate linkLimit [] (path.within directory).parts with
    | error fault =>
      rw [hlocate] at h
      cases h
    | ok reached =>
      rw [hlocate] at h
      cases h
      exact ⟨reached, rfl, rfl⟩

/-- A path that goes on from an entry is found from there, unless its text is too long. -/
theorem find_below {reached : Reached}
    (h : fs.locate linkLimit [] (path.within directory).parts = .ok reached)
    (names : List String) :
    fs.find directory (path.below names) =
      if (path.below names).isTooLong then .error .nameTooLong
      else (fs.locate reached.links reached.place names).map Reached.entry := by
  rw [find, Path.parts_within_below, locate_append, h]
  rfl

end

end FileSystem

/-! ## Links and names of a tree -/

namespace Directory

variable {entries : Directory} {name : String}

theorem lookup_cons (first : String) (entry : Entry) (rest : Directory) :
    List.lookup name ((first, entry) :: rest) =
      if name = first then some entry else List.lookup name rest := by
  rw [List.lookup_cons]
  by_cases hname : name = first
  · simp [hname]
  · rw [show (name == first) = false by simpa using hname, if_neg hname]

theorem at?_cons (first : String) (entry : Entry) (rest : Directory) (permissions : Permissions)
    (place : Place) :
    (Entry.directory ((first, entry) :: rest) permissions).at? (name :: place) =
      if name = first then entry.at? place
      else (Entry.directory rest permissions).at? (name :: place) := by
  rw [Entry.at?_directory_cons, Entry.at?_directory_cons, lookup_cons]
  split <;> rfl

theorem lookup_eq_none {entries : Directory} (h : name ∉ entries.map Prod.fst) :
    entries.lookup name = none := by
  rw [List.lookup_eq_none_iff]
  intro entry hentry
  simpa using fun heq : name = entry.1 => h (heq ▸ List.mem_map_of_mem hentry)

/-- The places of the links in a directory and below it. -/
def linkPlaces : Directory → List Place
  | [] => []
  | (name, .link _) :: rest => [name] :: linkPlaces rest
  | (name, .directory inner _) :: rest => (linkPlaces inner).map (name :: ·) ++ linkPlaces rest
  | (_, _) :: rest => linkPlaces rest

theorem length_linkPlaces (entries : Directory) :
    entries.linkPlaces.length = entries.linkCount := by
  induction entries using entryInduction with
  | nil => simp [linkPlaces, linkCount]
  | cons name entry rest ihEntry ihRest =>
    cases entry with
    | directory inner permissions =>
      simp [linkPlaces, linkCount, ihEntry inner permissions rfl, ihRest]
    | file | link | special => simp [linkPlaces, linkCount, ihRest]

theorem nil_notMem_linkPlaces (entries : Directory) : [] ∉ entries.linkPlaces := by
  induction entries using entryInduction with
  | nil => simp [linkPlaces]
  | cons name entry rest _ ihRest => cases entry <;> simp [linkPlaces, ihRest]

theorem mem_linkPlaces_iff (htree : entries.IsTree) (permissions : Permissions) (place : Place) :
    place ∈ entries.linkPlaces ↔
      ∃ target, (Entry.directory entries permissions).at? place = some (.link target) := by
  induction entries using entryInduction generalizing place permissions with
  | nil => cases place <;> simp [linkPlaces, Entry.at?]
  | cons first entry rest ihEntry ihRest =>
    cases place with
    | nil => simp [nil_notMem_linkPlaces]
    | cons name place =>
      have hrest := ihRest htree.tail permissions (name :: place)
      rw [at?_cons]
      by_cases hname : name = first
      · -- The name of the first entry is not used again.
        subst hname
        have hnone : rest.lookup name = none := lookup_eq_none (List.nodup_cons.1 htree.nodup).1
        have hnotMem : name :: place ∉ rest.linkPlaces := by
          rw [hrest, Entry.at?_directory_cons, hnone]
          simp
        cases entry with
        | directory inner permissions' =>
          have hinner :=
            ihEntry inner permissions' rfl (htree.inner List.mem_cons_self) permissions' place
          simp [linkPlaces, hnotMem, hinner]
        | file | special => cases place <;> simp [linkPlaces, hnotMem, Entry.at?]
        | link target => cases place <;> simp [linkPlaces, hnotMem, Entry.at?]
      · rw [if_neg hname, ← hrest]
        cases entry <;> simp [linkPlaces, hname, Ne.symm hname]

theorem nodup_linkPlaces (htree : entries.IsTree) : entries.linkPlaces.Nodup := by
  induction entries using entryInduction with
  | nil => simp [linkPlaces]
  | cons first entry rest ihEntry ihRest =>
    have hrest := ihRest htree.tail
    have hnotMem (place : Place) : first :: place ∉ rest.linkPlaces := by
      have hnone : rest.lookup first = none := lookup_eq_none (List.nodup_cons.1 htree.nodup).1
      rw [mem_linkPlaces_iff htree.tail {}, Entry.at?_directory_cons, hnone]
      simp
    cases entry with
    | directory inner permissions =>
      have hinner := ihEntry inner permissions rfl (htree.inner List.mem_cons_self)
      rw [linkPlaces, List.nodup_append]
      refine ⟨hinner.map (List.cons_injective), hrest, ?_⟩
      rintro _ hplace _ hother rfl
      obtain ⟨place, -, rfl⟩ := List.mem_map.1 hplace
      exact hnotMem place hother
    | link target =>
      rw [linkPlaces]
      exact List.nodup_cons.2 ⟨hnotMem [], hrest⟩
    | file | special =>
      rw [linkPlaces]
      exact hrest
      all_goals simp

/-- The names in a directory and below it. -/
def names : Directory → List String
  | [] => []
  | (name, .directory inner _) :: rest => name :: (names inner ++ names rest)
  | (name, _) :: rest => name :: names rest

theorem mem_names_iff {other : String} :
    other ∈ entries.names ↔ ∃ name entry, (name, entry) ∈ entries ∧
      (other = name ∨
        ∃ inner permissions, entry = .directory inner permissions ∧ other ∈ names inner) := by
  induction entries with
  | nil => simp [names]
  | cons first rest ih =>
    obtain ⟨first, entry⟩ := first
    simp only [List.mem_cons, or_and_right, exists_or, Prod.mk.injEq, ← ih]
    cases entry with
    | directory inner permissions => simp [names, or_assoc]
    | file | link | special => simp [names]

theorem mem_names_of_at? {permissions : Permissions} {place : Place} {entry : Entry}
    (h : (Entry.directory entries permissions).at? (place ++ [name]) = some entry) :
    name ∈ entries.names := by
  induction place generalizing entries permissions with
  | nil =>
    rw [List.nil_append, Entry.at?_directory_cons] at h
    obtain ⟨inner, hlookup, -⟩ := Option.bind_eq_some_iff.1 h
    exact mem_names_iff.2 ⟨name, inner, mem_of_lookup hlookup, .inl rfl⟩
  | cons first place ih =>
    rw [List.cons_append, Entry.at?_directory_cons] at h
    obtain ⟨inner, hlookup, h⟩ := Option.bind_eq_some_iff.1 h
    cases inner with
    | directory inner permissions =>
      exact mem_names_iff.2 ⟨first, _, mem_of_lookup hlookup, .inr ⟨inner, permissions, rfl, ih h⟩⟩
    | file | link | special => cases place <;> simp [Entry.at?] at h

end Directory

end MemoAudit
