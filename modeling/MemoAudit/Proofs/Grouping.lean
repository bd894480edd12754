import Mathlib
import MemoAudit.CommandLine.Run
import MemoAudit.Proofs.OrderIndependence

/-!
# The report lists what the lines list

Without decoration, findings are printed one per line in the order in which the analysis hands them
over.  The report goes another way: it splits the findings by the texts of their paths, goes through
the texts in their order and sorts what belongs to each.  This file shows that nothing is lost or
exchanged on that way.

The findings of all groups, one group after the other, are the findings in the order of listing
(`Report.flatMap_groups`): between groups the texts of the paths decide, as they do first in the
order of keys, and findings with one key share their path and so are in one group, where the sort is
stable.  The report itself is looked at as the list of tables that are handed to the console, each
with the block above it (`Report.tables`).  It holds one table for each group, under the label of
its file, as long as files have labels (`Report.tables_document`); and where a report is cut off, it
is the last groups that are missing (`Report.tables_takeWhile`).
-/

namespace MemoAudit

namespace Report

/-! ## Groups -/

/-- The texts of the paths that findings are about, each once, in their order. -/
def groupPaths (findings : List Finding) : List String :=
  (findings.map Finding.pathText).eraseDups.mergeSort fun a b => a < b || a == b

theorem groups_eq (findings : List Finding) :
    groups findings = (groupPaths findings).map fun path =>
      (path, Finding.sort (findings.filter fun finding => finding.pathText == path)) := rfl

theorem fst_groups (findings : List Finding) :
    (groups findings).map Prod.fst = groupPaths findings := by
  simp [groups_eq, Function.comp_def]

theorem mem_groupPaths {findings : List Finding} {path : String} :
    path ∈ groupPaths findings ↔ path ∈ findings.map Finding.pathText := by
  rw [groupPaths, List.mem_mergeSort, List.mem_eraseDups]

theorem nodup_eraseDups (texts : List String) : texts.eraseDups.Nodup := by
  match texts with
  | [] => simp
  | text :: rest =>
    rw [List.eraseDups_cons, List.nodup_cons, List.mem_eraseDups]
    exact ⟨by simp, nodup_eraseDups (rest.filter fun other => !other == text)⟩
termination_by texts.length
decreasing_by exact Nat.lt_succ_of_le (List.length_filter_le _ _)

theorem nodup_groupPaths (findings : List Finding) : (groupPaths findings).Nodup :=
  (List.mergeSort_perm _ _).nodup_iff.2 (nodup_eraseDups _)

theorem groupPaths_pairwise_lt (findings : List Finding) :
    (groupPaths findings).Pairwise (· < ·) := by
  have hle (a b : String) : (a < b || a == b) = true ↔ a ≤ b := by
    simp [le_iff_lt_or_eq]
  have hordered : (groupPaths findings).Pairwise fun a b => (a < b || a == b) = true := by
    refine List.pairwise_mergeSort (fun a b c hab hbc => ?_) (fun a b => ?_) _
    · exact (hle a c).2 (((hle a b).1 hab).trans ((hle b c).1 hbc))
    · rw [Bool.or_eq_true, hle, hle]
      exact le_total a b
  exact hordered.imp₂ (fun a b hab hne => lt_of_le_of_ne ((hle a b).1 hab) hne)
    (nodup_groupPaths findings)

/-- Everything in a group is about the path of the group. -/
theorem pathText_of_mem_groups {findings : List Finding} {group : String × List Finding}
    (hgroup : group ∈ groups findings) {finding : Finding} (hfinding : finding ∈ group.2) :
    finding.pathText = group.1 := by
  rw [groups_eq] at hgroup
  obtain ⟨path, -, rfl⟩ := List.mem_map.1 hgroup
  have hmem := (Finding.isStableSort_sort _).perm.mem_iff.1 hfinding
  simpa using List.of_mem_filter hmem

/-- Of the images of different elements, one is picked out. -/
theorem flatMap_ite_eq {α β : Type} [DecidableEq α] {as : List α} (hnodup : as.Nodup) (a : α)
    (bs : List β) : (as.flatMap fun b => if b = a then bs else []) = if a ∈ as then bs else [] := by
  induction as with
  | nil => rfl
  | cons b rest ih =>
    obtain ⟨hnotMem, hrest⟩ := List.nodup_cons.1 hnodup
    rw [List.flatMap_cons, ih hrest]
    by_cases hb : b = a
    · subst hb
      simp [hnotMem]
    · simp [hb, Ne.symm hb]

/-- The findings with one key are in one group, in the order in which they were made. -/
theorem filter_flatMap_groups (findings : List Finding) (key : Finding.SortKey) :
    ((groups findings).flatMap Prod.snd).filter (·.sortKey = key) =
      findings.filter (·.sortKey = key) := by
  have hgroup (path : String) :
      (Finding.sort (findings.filter fun finding => finding.pathText == path)).filter
          (·.sortKey = key) =
        if path = key.path then findings.filter (·.sortKey = key) else [] := by
    rw [(Finding.isStableSort_sort _).stable, List.filter_filter]
    split
    · refine List.filter_congr fun finding _ => ?_
      rcases eq_or_ne finding.sortKey key with rfl | hkey
      · simp_all [Finding.sortKey]
      · simp [hkey]
    · simp only [List.filter_eq_nil_iff]
      rintro finding - h
      obtain ⟨rfl, rfl⟩ : finding.sortKey = key ∧ finding.pathText = path := by simpa using h
      exact ‹¬_› rfl
  rw [groups_eq, List.flatMap_map, List.filter_flatMap]
  simp only [hgroup]
  rw [flatMap_ite_eq (nodup_groupPaths findings)]
  split
  · rfl
  · -- No finding has the path of the key.
    rename_i hpath
    refine (List.filter_eq_nil_iff.2 fun finding hfinding hkey => hpath ?_).symm
    rw [mem_groupPaths, ← of_decide_eq_true hkey]
    exact List.mem_map_of_mem hfinding

theorem flatMap_groups (findings : List Finding) :
    (groups findings).flatMap Prod.snd = Finding.sort findings := by
  have hsorted := Finding.isStableSort_sort findings
  refine Finding.eq_of_filter_eq ?_ hsorted.ordered fun key => ?_
  · rw [List.pairwise_flatMap]
    constructor
    · intro group hgroup
      rw [groups_eq] at hgroup
      obtain ⟨path, -, rfl⟩ := List.mem_map.1 hgroup
      exact (Finding.isStableSort_sort _).ordered
    · -- The texts of the paths come first in the order of keys.
      have hpaths := groupPaths_pairwise_lt findings
      rw [← fst_groups, List.pairwise_map] at hpaths
      refine hpaths.imp_of_mem fun hgroup hgroup' hlt a ha b hb => ?_
      have hkeys : a.sortKey.path < b.sortKey.path := by
        have htext : a.pathText < b.pathText := by
          rwa [pathText_of_mem_groups hgroup ha, pathText_of_mem_groups hgroup' hb]
        exact htext
      exact (Prod.Lex.toLex_lt_toLex.2 (.inl hkeys)).le
  · rw [filter_flatMap_groups, hsorted.stable]

/-! ## Tables -/

/-- The tables among blocks, each with the block above it; above the first block stands the given
one. -/
def tablesBelow (above : Block) : List Block → List (Block × Table)
  | [] => []
  | .table table :: rest => (above, table) :: tablesBelow (.table table) rest
  | block :: rest => tablesBelow block rest

/-- The tables that are handed to the console, each with the block above it.  Tables inside of
panels are not among them. -/
def tables (blocks : List Block) : List (Block × Table) := tablesBelow .blank blocks

@[simp] theorem tables_nil : tables [] = [] := rfl

/-- Unless a table comes first, it does not matter what stood above. -/
theorem tablesBelow_append (above : Block) (blocks : List Block) {rest : List Block}
    (hrest : ∀ table, .table table ∉ rest.head?) :
    tablesBelow above (blocks ++ rest) = tablesBelow above blocks ++ tables rest := by
  induction blocks generalizing above with
  | nil =>
    cases rest with
    | nil => rfl
    | cons block rest =>
      cases block with
      | table table => exact absurd rfl (hrest table)
      | blank | markup | panel => rfl
  | cons block more ih => cases block <;> simp [tablesBelow, ih]

theorem tablesBelow_eq_nil {blocks : List Block} (h : ∀ table, .table table ∉ blocks)
    (above : Block) : tablesBelow above blocks = [] := by
  induction blocks generalizing above with
  | nil => rfl
  | cons block rest ih =>
    have hrest := ih fun table hmem => h table (List.mem_cons_of_mem block hmem)
    cases block with
    | table table => exact absurd List.mem_cons_self (h table)
    | blank | markup | panel => exact hrest _

/-- What comes below the table of a file. -/
def belowTable (verbose : Bool) (findings : List Finding) : List Block :=
  quotes findings ++ if verbose then advice findings else []

theorem fileBlocks_eq (verbose : Bool) (label : String) (findings : List Finding) :
    fileBlocks verbose label findings =
      .blank :: heading label :: .table (findingTable findings) :: belowTable verbose findings :=
  List.append_assoc _ _ _

theorem of_mem_belowTable {verbose : Bool} {findings : List Finding} {block : Block}
    (h : block ∈ belowTable verbose findings) :
    block = .blank ∨ (∃ finding, quoteBlock? finding = some block) ∨
      ∃ ruleId, adviceBlock? ruleId = some block := by
  rcases List.mem_append.1 h with h | h
  · unfold quotes withBlank at h
    split at h
    · cases h
    · rcases List.mem_append.1 h with h | h
      · obtain ⟨finding, -, hquote⟩ := List.mem_filterMap.1 h
        exact .inr (.inl ⟨finding, hquote⟩)
      · exact .inl (List.mem_singleton.1 h)
  · split at h
    · unfold advice at h
      dsimp only at h
      split at h
      · cases h
      · rcases List.mem_append.1 h with h | h
        · obtain ⟨ruleId, -, hadvice⟩ := List.mem_filterMap.1 h
          exact .inr (.inr ⟨ruleId, hadvice⟩)
        · exact .inl (List.mem_singleton.1 h)
    · cases h

theorem table_notMem_belowTable (verbose : Bool) (findings : List Finding) (table : Table) :
    .table table ∉ belowTable verbose findings := by
  intro h
  rcases of_mem_belowTable h with h | ⟨finding, h⟩ | ⟨ruleId, h⟩
  · cases h
  · simp [quoteBlock?] at h
  · simp [adviceBlock?] at h

theorem table_notMem_head?_fileBlocks (verbose : Bool) (shown : List (String × List Finding))
    {rest : List Block} (hrest : ∀ table, .table table ∉ rest) (table : Table) :
    .table table ∉
      ((shown.flatMap fun group => fileBlocks verbose group.1 group.2) ++ rest).head? := by
  cases shown with
  | nil => exact fun hmem => hrest table (List.mem_of_mem_head? hmem)
  | cons group more => simp [fileBlocks]

/-- The blocks about files hold one table for each file, under the heading of the file.  If they are
followed only as long as a condition holds, which depends on headings and tables alone, the tables
are those of the files before the first one whose heading or table is not let through. -/
theorem tables_takeWhile {p : Block → Bool} (hblank : p .blank)
    (hbelow : ∀ verbose findings, ∀ block ∈ belowTable verbose findings, p block)
    (verbose : Bool) (shown : List (String × List Finding)) {rest : List Block}
    (hrest : ∀ table, .table table ∉ rest) :
    tables (((shown.flatMap fun group => fileBlocks verbose group.1 group.2) ++ rest).takeWhile p) =
      (shown.takeWhile fun group =>
          p (heading group.1) && p (.table (findingTable group.2))).map fun group =>
        (heading group.1, findingTable group.2) := by
  induction shown with
  | nil =>
    exact tablesBelow_eq_nil (fun table h => hrest table ((List.takeWhile_prefix p).subset h)) _
  | cons group more ih =>
    rw [List.flatMap_cons, List.append_assoc, fileBlocks_eq, List.takeWhile_cons]
    simp only [List.cons_append, List.takeWhile_cons, hblank, if_true]
    by_cases hheading : p (heading group.1) = true
    · by_cases htable : p (.table (findingTable group.2)) = true
      · have hhead : ∀ table, .table table ∉ (((more.flatMap fun group =>
            fileBlocks verbose group.1 group.2) ++ rest).takeWhile p).head? := by
          intro table hmem
          rw [List.head?_takeWhile, Option.mem_filter_iff] at hmem
          exact table_notMem_head?_fileBlocks verbose more hrest table hmem.1
        simp only [hheading, htable, if_true, Bool.and_self, List.map_cons]
        rw [List.takeWhile_append_of_pos (hbelow verbose group.2), ← ih]
        show (heading group.1, findingTable group.2) :: tablesBelow _ (_ ++ _) = _
        rw [tablesBelow_append _ _ hhead, tablesBelow_eq_nil (table_notMem_belowTable _ _)]
        rfl
      · simp only [hheading, htable, if_true, Bool.and_false]
        rfl
    · simp [hheading, tables, tablesBelow]

/-! ## Labels

A report goes through the groups as long as their files have labels. -/

section

variable {ε : Type}

@[simp] theorem snd_andThen (blocks rest : List Block × Option ε) :
    (andThen blocks rest).2 = blocks.2.or rest.2 := by
  obtain ⟨front, _ | fault⟩ := blocks <;> rfl

theorem andThen_of_none {blocks : List Block × Option ε} (h : blocks.2 = none)
    (rest : List Block × Option ε) : andThen blocks rest = (blocks.1 ++ rest.1, rest.2) := by
  obtain ⟨front, fault⟩ := blocks
  cases h
  rfl

theorem andThen_of_ne_none {blocks : List Block × Option ε} (h : blocks.2 ≠ none)
    (rest : List Block × Option ε) : andThen blocks rest = blocks := by
  obtain ⟨front, _ | fault⟩ := blocks
  · exact absurd rfl h
  · rfl

variable {label : Path → Except ε String} {findings : List Finding} {analysed : List Path}

/-- A path has a label. -/
def HasLabel (label : Path → Except ε String) (path : Path) : Prop :=
  ∃ shown, label path = .ok shown

/-- Groups up to the first one whose file has no label, each under the label of its file. -/
def labelled (label : Path → Except ε String) :
    List (String × List Finding) → List (String × List Finding)
  | [] => []
  | (path, found) :: rest =>
    match label (Path.ofString path) with
    | .error _ => []
    | .ok shown => (shown, found) :: labelled label rest

/-- A group stands under the label of its file. -/
def IsLabelled (label : Path → Except ε String) (shown group : String × List Finding) : Prop :=
  label (Path.ofString group.1) = .ok shown.1 ∧ shown.2 = group.2

/-- Those are the first ones of the groups. -/
theorem exists_labelled (label : Path → Except ε String) (groups : List (String × List Finding)) :
    ∃ front, front <+: groups ∧ List.Forall₂ (IsLabelled label) (labelled label groups) front := by
  induction groups with
  | nil => exact ⟨[], List.nil_prefix, .nil⟩
  | cons group rest ih =>
    obtain ⟨path, found⟩ := group
    unfold labelled
    cases hlabel : label (Path.ofString path) with
    | error fault => exact ⟨[], List.nil_prefix, .nil⟩
    | ok shown =>
      obtain ⟨front, hprefix, hfront⟩ := ih
      exact ⟨(path, found) :: front, by simpa using hprefix, .cons ⟨hlabel, rfl⟩ hfront⟩

/-- All groups are among them if all files have labels. -/
theorem forall₂_labelled_iff {groups : List (String × List Finding)}
    {r : String × List Finding → String × List Finding → Prop} :
    List.Forall₂ r (labelled label groups) groups ↔ ∀ group ∈ groups,
      ∃ shown, label (Path.ofString group.1) = .ok shown ∧ r (shown, group.2) group := by
  induction groups with
  | nil => simp [labelled]
  | cons group rest ih =>
    obtain ⟨path, found⟩ := group
    unfold labelled
    cases hlabel : label (Path.ofString path) with
    | error fault => simp [hlabel]
    | ok shown => simp [hlabel, ih]

theorem forall_mem_labelled_iff {groups : List (String × List Finding)}
    (h : ∀ group ∈ groups, HasLabel label (Path.ofString group.1))
    {p : String × List Finding → Prop} :
    (∀ shown ∈ labelled label groups, p shown) ↔
      ∀ group ∈ groups,
        ∃ shown, label (Path.ofString group.1) = .ok shown ∧ p (shown, group.2) := by
  induction groups with
  | nil => simp [labelled]
  | cons group rest ih =>
    obtain ⟨path, found⟩ := group
    obtain ⟨⟨shown, hlabel⟩, hrest⟩ := List.forall_mem_cons.1 h
    unfold labelled
    simp only [hlabel, List.forall_mem_cons, ih hrest, Except.ok.injEq, exists_eq_left']

/-- The labels come and go, the findings stay. -/
theorem map_snd_labelled {groups : List (String × List Finding)}
    (h : ∀ group ∈ groups, HasLabel label (Path.ofString group.1)) :
    (labelled label groups).map Prod.snd = groups.map Prod.snd := by
  rw [← List.forall₂_eq_eq_eq, List.forall₂_map_left_iff, List.forall₂_map_right_iff,
    forall₂_labelled_iff]
  intro group hgroup
  obtain ⟨shown, hlabel⟩ := h group hgroup
  exact ⟨shown, hlabel, rfl⟩

theorem exists_of_mem_labelled {groups : List (String × List Finding)}
    {shown : String × List Finding} (h : shown ∈ labelled label groups) :
    ∃ group ∈ groups, IsLabelled label shown group := by
  obtain ⟨front, hprefix, hfront⟩ := exists_labelled label groups
  obtain ⟨position, hlt, rfl⟩ := List.mem_iff_getElem.1 h
  have hlt' : position < front.length := hfront.length_eq ▸ hlt
  exact ⟨front[position], hprefix.subset (List.getElem_mem hlt'), hfront.get hlt hlt'⟩

/-- A blank line is the last thing in front of a heading without a label. -/
theorem fst_sections (verbose : Bool) (groups : List (String × List Finding)) :
    (sections label verbose groups).1 =
      (labelled label groups).flatMap (fun group => fileBlocks verbose group.1 group.2) ++
        ((sections label verbose groups).2.map fun _ => Block.blank).toList := by
  induction groups with
  | nil => rfl
  | cons group rest ih =>
    obtain ⟨path, found⟩ := group
    unfold sections labelled
    cases hlabel : label (Path.ofString path) with
    | error fault => rfl
    | ok shown =>
      rw [snd_andThen, Option.none_or, List.flatMap_cons, List.append_assoc, ← ih]
      rfl

theorem snd_sections_eq_none_iff {verbose : Bool} {groups : List (String × List Finding)} :
    (sections label verbose groups).2 = none ↔
      ∀ group ∈ groups, HasLabel label (Path.ofString group.1) := by
  induction groups with
  | nil => simp [sections]
  | cons group rest ih =>
    obtain ⟨path, found⟩ := group
    unfold sections
    rw [List.forall_mem_cons, HasLabel]
    cases hlabel : label (Path.ofString path) with
    | error fault => simp
    | ok shown => simp [ih]

/-- The tables of files and the summary stand in panels. -/
theorem table_notMem_rest (label : Path → Except ε String) (findings : List Finding)
    (analysed : List Path) (table : Table) :
    .table table ∉ (andThen (allFiles label findings analysed) (summary findings, none)).1 := by
  unfold allFiles
  split
  · simp [andThen, summary]
  · split <;> simp [andThen, fileSummary, summary]

/-- A report goes through the files, and what comes then has no table outside of a panel. -/
theorem exists_fst_document_eq (label : Path → Except ε String) (findings : List Finding)
    (analysed : List Path) (verbose : Bool) :
    ∃ rest, (document label findings analysed verbose).1 =
        ((labelled label (groups findings)).flatMap fun group =>
          fileBlocks verbose group.1 group.2) ++ rest ∧
      ∀ table, .table table ∉ rest := by
  unfold document
  split
  · rename_i h
    exact ⟨[nothingFound], by simp [h.1, groups, labelled], by simp [nothingFound]⟩
  · have hsections : (sections label verbose (groups findings)).1 = _ := fst_sections verbose _
    cases hfault : (sections label verbose (groups findings)).2 with
    | none =>
      refine ⟨_, ?_, table_notMem_rest label findings analysed⟩
      rw [andThen_of_none hfault, hsections, hfault]
      simp
    | some fault =>
      refine ⟨[.blank], ?_, by simp⟩
      rw [andThen_of_ne_none (by simp [hfault]), hsections, hfault]
      rfl

/-- A report has a table for each group, under the heading of its file. -/
theorem tables_document (label : Path → Except ε String) (findings : List Finding)
    (analysed : List Path) (verbose : Bool) :
    tables (document label findings analysed verbose).1 =
      (labelled label (groups findings)).map fun group =>
        (heading group.1, findingTable group.2) := by
  obtain ⟨rest, hblocks, hrest⟩ := exists_fst_document_eq label findings analysed verbose
  have htables := tables_takeWhile (p := fun _ => true) rfl (fun _ _ _ _ => rfl) verbose
    (labelled label (groups findings)) hrest
  have hall {α : Type} (as : List α) : as.takeWhile (fun _ => true) = as :=
    List.takeWhile_eq_self_iff.2 fun _ _ => rfl
  rwa [← hblocks, hall, Bool.and_self, hall] at htables

end

/-- The rows of all tables that are handed to the console. -/
def rows (blocks : List Block) : List (List Content) := (tables blocks).flatMap (·.2.rows)

end Report

/-- There is one stable sort. -/
theorem Finding.IsStableSort.eq_sort {findings sorted : List Finding}
    (h : Finding.IsStableSort findings sorted) : sorted = Finding.sort findings := by
  have hsort := Finding.isStableSort_sort findings
  exact Finding.eq_of_filter_eq h.ordered hsort.ordered fun key =>
    (h.stable key).trans (hsort.stable key).symm

/-- What is picked out of a stable sort is a stable sort of what is picked out. -/
theorem Finding.IsStableSort.filter {findings sorted : List Finding}
    (h : Finding.IsStableSort findings sorted) (p : Finding → Bool) :
    Finding.IsStableSort (findings.filter p) (sorted.filter p) where
  perm := h.perm.filter p
  ordered := h.ordered.filter p
  stable key := by
    have hkey := congrArg (List.filter p) (h.stable key)
    simpa only [List.filter_filter, Bool.and_comm] using hkey

/-- A group is what the stable sort of all findings has about its path. -/
theorem Report.groups_eq_filter (findings : List Finding) :
    Report.groups findings = (Report.groupPaths findings).map fun path =>
      (path, (Finding.sort findings).filter fun finding => finding.pathText == path) := by
  rw [Report.groups_eq]
  refine List.map_congr_left fun path _ => ?_
  rw [((Finding.isStableSort_sort findings).filter _).eq_sort]

/-- Sorting what is sorted changes nothing. -/
theorem Finding.sort_sort (findings : List Finding) :
    Finding.sort (Finding.sort findings) = Finding.sort findings := by
  have hsort := Finding.isStableSort_sort findings
  exact (Finding.IsStableSort.eq_sort ⟨.refl _, hsort.ordered, fun _ => rfl⟩).symm

/-- A finding at the start of a line. -/
def findingAt (name message : String) (line : Ordinal) : Finding where
  ruleId := namingRuleId
  message := message
  location :=
    { path := ⟨.relative, [name]⟩
      line := line
      column := default
      endLine := none
      endColumn := none
      snippet := none }
  severity := defaultSeverity

theorem sortKey_findingAt (name message : String) (line : Ordinal) :
    (findingAt name message line).sortKey = ⟨name, line.val, (default : Ordinal).val⟩ := by
  simp [Finding.sortKey, Finding.pathText, findingAt, Path.text, Anchor.text]

/-- Findings in two files in no order, two of them at the same place. -/
def scatteredFindings : List Finding :=
  [findingAt "b.rb" "second" ⟨10, by decide⟩, findingAt "a.rb" "last" ⟨70, by decide⟩,
    findingAt "b.rb" "third" ⟨10, by decide⟩, findingAt "b.rb" "first" ⟨9, by decide⟩]

/-- The same findings in the order of listing. -/
def listedFindings : List Finding :=
  [findingAt "a.rb" "last" ⟨70, by decide⟩, findingAt "b.rb" "first" ⟨9, by decide⟩,
    findingAt "b.rb" "second" ⟨10, by decide⟩, findingAt "b.rb" "third" ⟨10, by decide⟩]

theorem isStableSort_scatteredFindings :
    Finding.IsStableSort scatteredFindings listedFindings := by
  refine ⟨by decide, ?_, fun key => ?_⟩
  · simp only [listedFindings, List.pairwise_cons, List.forall_mem_cons, ← Finding.le_iff]
    decide
  · obtain ⟨path, line, column⟩ := key
    simp only [scatteredFindings, listedFindings, List.filter_cons, List.filter_nil,
      sortKey_findingAt, decide_eq_true_eq, Finding.SortKey.mk.injEq]
    grind

end MemoAudit
