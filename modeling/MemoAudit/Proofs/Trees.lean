import MemoAudit.FileSystem.Basic

/-!
# Trees of entries

A directory is kept as a list of names and entries, and two lists may stand for the same directory:
an operating system lists entries in any order it likes.  What a list must not do is to use a name
twice.  `Directory.IsTree` says that it does not, at any depth, and then an entry is looked up by
its name exactly if it is listed under it (`IsTree.lookup_eq_some_iff`).

Two changes of a tree matter to those who go through it.  The first one keeps the *outline* of every
entry: everything except what a directory holds (`Entry.outline`).

* `Directory.Reorders`: the entries of directories, here or at any depth, are listed in another
  order.  Every place keeps its outline (`Entry.Reorders.outline_at?`).
* `Entry.restricted`: the directory at a place has other permissions.  It is the same tree
  otherwise.
-/

namespace MemoAudit

namespace Directory

/-- The names of a directory tell its entries apart, and so do those of all directories below it. -/
inductive IsTree : Directory → Prop
  | intro {entries : Directory} (nodup : (entries.map Prod.fst).Nodup)
      (below : ∀ name inner permissions,
        (name, Entry.directory inner permissions) ∈ entries → IsTree inner) : IsTree entries

variable {entries others : Directory} {name : String} {entry : Entry}

theorem IsTree.nodup (h : IsTree entries) : (entries.map Prod.fst).Nodup := by
  cases h with
  | intro nodup below => exact nodup

theorem IsTree.inner {inner : Directory} {permissions : Permissions} (h : IsTree entries)
    (hmem : (name, Entry.directory inner permissions) ∈ entries) : IsTree inner := by
  cases h with
  | intro nodup below => exact below name inner permissions hmem

theorem IsTree.tail {first : String × Entry} (h : IsTree (first :: entries)) : IsTree entries := by
  refine .intro (List.nodup_cons.1 h.nodup).2 fun name inner permissions hmem => ?_
  exact h.inner (List.mem_cons_of_mem first hmem)

theorem mem_of_lookup (h : entries.lookup name = some entry) : (name, entry) ∈ entries := by
  obtain ⟨front, rest, rfl, -⟩ := List.lookup_eq_some_iff.1 h
  simp

theorem IsTree.lookup_eq_some_iff (h : IsTree entries) :
    entries.lookup name = some entry ↔ (name, entry) ∈ entries := by
  refine ⟨mem_of_lookup, fun hmem => ?_⟩
  obtain ⟨front, rest, rfl⟩ := List.append_of_mem hmem
  refine List.lookup_eq_some_iff.2 ⟨front, rest, rfl, fun other hother => ?_⟩
  -- The name is not used before, or else it would be used twice.
  have hnodup := h.nodup
  rw [List.map_append, List.nodup_append] at hnodup
  have hne := hnodup.2.2 other.1 (List.mem_map_of_mem hother) name (by simp)
  simpa using Ne.symm hne

/-- Induction along entries, and into the directories among them. -/
theorem entryInduction {motive : Directory → Prop} (nil : motive [])
    (cons : ∀ name entry rest,
      (∀ inner permissions, entry = .directory inner permissions → motive inner) →
      motive rest → motive ((name, entry) :: rest)) : ∀ entries, motive entries
  | [] => nil
  | (name, entry) :: rest =>
    cons name entry rest (fun inner _ _ => entryInduction nil cons inner)
      (entryInduction nil cons rest)
termination_by entries => sizeOf entries
decreasing_by
  · rename_i permissions h
    subst h
    simp only [List.cons.sizeOf_spec, Prod.mk.sizeOf_spec, Entry.directory.sizeOf_spec]
    omega
  · simp only [List.cons.sizeOf_spec]
    omega

/-- Induction into directories: what holds of all directories among the entries holds of the
directory. -/
theorem memberInduction {motive : Directory → Prop}
    (step : ∀ entries, (∀ name inner permissions,
      (name, Entry.directory inner permissions) ∈ entries → motive inner) → motive entries)
    (entries : Directory) : motive entries := by
  refine step entries ?_
  induction entries using entryInduction with
  | nil => simp
  | cons name entry rest ihEntry ihRest =>
    intro name' inner permissions hmem
    rcases List.mem_cons.1 hmem with heq | hmem
    · obtain ⟨-, rfl⟩ := Prod.mk.inj heq
      exact step inner (ihEntry inner permissions rfl)
    · exact ihRest name' inner permissions hmem

/-! ## Another order of listing -/

/-- The entries of a directory, or of directories below it, are listed in another order. -/
inductive Reorders : Directory → Directory → Prop
  | perm {entries others : Directory} (h : entries.Perm others) : Reorders entries others
  | inside {inner inner' : Directory} (h : Reorders inner inner') (front back : Directory)
      (name : String) (permissions : Permissions) :
      Reorders (front ++ (name, .directory inner permissions) :: back)
        (front ++ (name, .directory inner' permissions) :: back)
  | trans {entries between others : Directory} (h : Reorders entries between)
      (h' : Reorders between others) : Reorders entries others

theorem Reorders.symm (h : Reorders entries others) : Reorders others entries := by
  induction h with
  | perm h => exact .perm h.symm
  | inside _ front back name permissions ih => exact .inside ih front back name permissions
  | trans _ _ ih ih' => exact .trans ih' ih

theorem Reorders.isTree (h : Reorders entries others) (htree : IsTree entries) : IsTree others := by
  induction h with
  | perm h =>
    refine .intro ((h.map Prod.fst).nodup_iff.1 htree.nodup) fun name inner permissions hmem => ?_
    exact htree.inner (h.mem_iff.2 hmem)
  | inside h front back name permissions ih =>
    refine .intro (by simpa using htree.nodup) fun name' inner permissions' hmem => ?_
    rcases List.mem_append.1 hmem with hfront | hmem
    · exact htree.inner (List.mem_append_left _ hfront)
    · rcases List.mem_cons.1 hmem with hhere | hback
      · obtain ⟨rfl, hentry⟩ := Prod.mk.inj hhere
        obtain ⟨rfl, rfl⟩ := Entry.directory.inj hentry
        exact ih (htree.inner (List.mem_append_right _ List.mem_cons_self))
      · exact htree.inner (List.mem_append_right _ (List.mem_cons_of_mem _ hback))
  | trans _ _ ih ih' => exact ih' (ih htree)

end Directory

namespace Entry

/-- The entries are the same, or directories that differ in the order of listing. -/
inductive Reorders : Entry → Entry → Prop
  | refl (entry : Entry) : Reorders entry entry
  | directory {entries others : Directory} (h : entries.Reorders others)
      (permissions : Permissions) :
      Reorders (.directory entries permissions) (.directory others permissions)

theorem Reorders.trans {entry between other : Entry} (h : Reorders entry between)
    (h' : Reorders between other) : Reorders entry other := by
  cases h with
  | refl => exact h'
  | directory h permissions =>
    cases h' with
    | refl => exact .directory h permissions
    | directory h' => exact .directory (h.trans h') permissions

/-- An entry below which names tell entries apart. -/
def IsTree : Entry → Prop
  | .directory entries _ => Directory.IsTree entries
  | _ => True

end Entry

namespace Directory

variable {entries others : Directory}

theorem IsTree.of_mem {name : String} {entry : Entry} (h : IsTree entries)
    (hmem : (name, entry) ∈ entries) : entry.IsTree := by
  cases entry with
  | directory inner permissions => exact h.inner hmem
  | file | link | special => trivial

/-- Under every name the same entry is found, up to the order of listing. -/
theorem Reorders.exists_lookup (h : Reorders entries others) (htree : IsTree entries)
    {name : String} {entry : Entry} (hlookup : entries.lookup name = some entry) :
    ∃ other, others.lookup name = some other ∧ entry.Reorders other := by
  induction h generalizing entry with
  | perm h =>
    have hother := (Reorders.perm h).isTree htree
    refine ⟨entry, ?_, .refl entry⟩
    rw [hother.lookup_eq_some_iff, ← h.mem_iff, ← htree.lookup_eq_some_iff]
    exact hlookup
  | inside h front back here permissions ih =>
    rw [List.lookup_append, List.lookup_cons] at hlookup
    rw [List.lookup_append, List.lookup_cons]
    cases hfront : front.lookup name with
    | some found =>
      rw [hfront] at hlookup
      exact ⟨entry, hlookup, .refl entry⟩
    | none =>
      rw [hfront, Option.none_or] at hlookup
      rw [Option.none_or]
      by_cases hname : name = here
      · simp only [hname, beq_self_eq_true, Option.some.injEq] at hlookup
        subst hlookup
        exact ⟨_, by simp [hname], .directory h permissions⟩
      · have hne : (name == here) = false := by simpa using hname
        rw [hne] at hlookup
        rw [hne]
        exact ⟨entry, hlookup, .refl entry⟩
  | trans h _ ih ih' =>
    obtain ⟨between, hbetween, hreorders⟩ := ih htree hlookup
    obtain ⟨other, hother, hreorders'⟩ := ih' (h.isTree htree) hbetween
    exact ⟨other, hother, hreorders.trans hreorders'⟩

end Directory

namespace Entry

variable {entry other : Entry}

theorem at?_directory_cons (entries : Directory) (permissions : Permissions) (name : String)
    (rest : Place) :
    (Entry.directory entries permissions).at? (name :: rest) =
      (entries.lookup name).bind fun inner => inner.at? rest := by
  rw [Entry.at?]

/-- At every place the same entry is found, up to the order of listing. -/
theorem Reorders.exists_at? (h : entry.Reorders other) (htree : entry.IsTree) {place : Place}
    {found : Entry} (hfound : entry.at? place = some found) :
    ∃ found', other.at? place = some found' ∧ found.Reorders found' := by
  induction place generalizing entry other with
  | nil =>
    rw [at?_nil] at hfound ⊢
    cases hfound
    exact ⟨other, rfl, h⟩
  | cons name rest ih =>
    cases h with
    | refl => exact ⟨found, hfound, .refl found⟩
    | directory h permissions =>
      rw [at?_directory_cons] at hfound ⊢
      obtain ⟨inner, hinner, hfound⟩ := Option.bind_eq_some_iff.1 hfound
      obtain ⟨inner', hinner', hreorders⟩ := h.exists_lookup htree hinner
      have hinnerTree := Directory.IsTree.of_mem htree (Directory.mem_of_lookup hinner)
      obtain ⟨found', hfound', hsame⟩ := ih hreorders hinnerTree hfound
      exact ⟨found', by rw [hinner', Option.bind_some, hfound'], hsame⟩

/-- An entry without what it holds. -/
def outline : Entry → Entry
  | .directory _ permissions => .directory [] permissions
  | entry => entry

theorem Reorders.outline_eq (h : entry.Reorders other) : entry.outline = other.outline := by
  cases h with
  | refl => rfl
  | directory => rfl

theorem Reorders.isDirectory_eq (h : entry.Reorders other) :
    entry.isDirectory = other.isDirectory := by
  cases h with
  | refl => rfl
  | directory => rfl

theorem Reorders.symm (h : entry.Reorders other) : other.Reorders entry := by
  cases h with
  | refl => exact .refl entry
  | directory h permissions => exact .directory h.symm permissions

theorem Reorders.isTree (h : entry.Reorders other) (htree : entry.IsTree) : other.IsTree := by
  cases h with
  | refl => exact htree
  | directory h permissions => exact Directory.Reorders.isTree h htree

/-- Every place has the outline that it had before. -/
theorem Reorders.outline_at? (h : entry.Reorders other) (htree : entry.IsTree) (place : Place) :
    (entry.at? place).map outline = (other.at? place).map outline := by
  cases hfound : entry.at? place with
  | some found =>
    obtain ⟨found', hfound', hsame⟩ := h.exists_at? htree hfound
    rw [hfound', Option.map_some, Option.map_some, hsame.outline_eq]
  | none =>
    cases hfound' : other.at? place with
    | none => rfl
    | some found' =>
      obtain ⟨_, hback, -⟩ := h.symm.exists_at? (h.isTree htree) hfound'
      rw [hfound] at hback
      cases hback

/-! ## Other permissions -/

/-- The entry in which the directory at a place has other permissions. -/
def restricted (permissions : Permissions) : Place → Entry → Entry
  | [], .directory entries _ => .directory entries permissions
  | name :: rest, .directory entries permissions' =>
    .directory
      (entries.map fun entry =>
        (entry.1, if entry.1 = name then restricted permissions rest entry.2 else entry.2))
      permissions'
  | _, entry => entry

theorem isDirectory_restricted (permissions : Permissions) (place : Place) (entry : Entry) :
    (entry.restricted permissions place).isDirectory = entry.isDirectory := by
  cases place <;> cases entry <;> rfl

theorem IsTree.restricted (h : entry.IsTree) (permissions : Permissions) (place : Place) :
    (entry.restricted permissions place).IsTree := by
  induction place generalizing entry with
  | nil => cases entry <;> exact h
  | cons name rest ih =>
    cases entry with
    | directory entries permissions =>
      refine Directory.IsTree.intro ?_ fun name' inner permissions' hmem => ?_
      · simpa [Function.comp_def] using Directory.IsTree.nodup h
      · obtain ⟨⟨name', found⟩, hmem, heq⟩ := List.mem_map.1 hmem
        obtain ⟨-, hinner⟩ := Prod.mk.inj heq
        have hfound := Directory.IsTree.of_mem h hmem
        split at hinner
        · have hrestricted := ih hfound
          rw [hinner] at hrestricted
          exact hrestricted
        · obtain rfl : found = .directory inner permissions' := hinner
          exact hfound
    | file | link | special => trivial

end Entry

end MemoAudit
