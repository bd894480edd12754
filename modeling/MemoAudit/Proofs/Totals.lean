import Mathlib
import MemoAudit.Proofs.Grouping
import MemoAudit.Proofs.SmallLetters

/-!
# The totals of a report

A report ends with a table of the analysed files and with a summary.  Both count the same findings,
but along different lines: the table by the texts of paths, for each file that it was given, and the
summary by severities in lower case, besides the number of all findings.  This file says what the
counts are and when they add up.

The rows of the table are two blocks, the files with findings and the others, and their counts are
those of the texts of paths in the list of findings (`Report.Accounts`).  As long as the files have
different texts and no finding is about another file, each finding is counted once
(`Report.Accounts.sum_counts`).  In the same way the severities count each finding that has one of
them (`Report.sum_totalsOf`).  Both are the same fact about counting (`Report.sum_map_count`).
-/

namespace MemoAudit

/-- A severity is recognised by its name in lower case. -/
theorem Report.Severity.ofText?_eq_some_iff {text : String} {severity : Severity} :
    ofText? text = some severity ↔ Text.lower text.toList = severity.name.toList := by
  have hname : ∀ c ∈ severity.name.toList, Text.IsPlainSmall c := by
    have hall : severity.name.toList.all fun c => Text.IsPlainSmall c := by
      cases severity <;> decide
    simpa using hall
  rw [Text.lower_eq_iff hname, ofText?]
  constructor
  · intro h
    have hfound := List.find?_some h
    exact (beq_iff_eq.1 hfound).symm
  · intro h
    rw [h]
    cases severity <;> decide

namespace Report

/-! ## The summary of files -/

theorem mem_sortPaths {paths : List Path} {path : Path} : path ∈ sortPaths paths ↔ path ∈ paths :=
  List.mem_mergeSort

theorem sortPaths_ordered (paths : List Path) :
    ((sortPaths paths).map Path.text).Pairwise (· ≤ ·) := by
  have hle (a b : Path) : (a.text < b.text || a.text == b.text) = true ↔ a.text ≤ b.text := by
    simp [le_iff_lt_or_eq]
  have hordered : (sortPaths paths).Pairwise fun a b =>
      (a.text < b.text || a.text == b.text) = true := by
    refine List.pairwise_mergeSort (fun a b c hab hbc => ?_) (fun a b => ?_) _
    · exact (hle a c).2 (((hle a b).1 hab).trans ((hle b c).1 hbc))
    · rw [Bool.or_eq_true, hle, hle]
      exact le_total _ _
  exact List.pairwise_map.2 (hordered.imp fun h => (hle _ _).1 h)

theorem countFor_eq_count (findings : List Finding) (path : Path) :
    countFor findings path = (findings.map Finding.pathText).count path.text := by
  rw [countFor, List.count_eq_countP, List.countP_map]
  rfl

theorem countFor_eq_zero_iff {findings : List Finding} {path : Path} :
    countFor findings path = 0 ↔ ∀ finding ∈ findings, finding.pathText ≠ path.text := by
  simp [countFor]

/-- The rows with findings, by the texts of their paths. -/
def flaggedRows (findings : List Finding) (analysed : List Path) : List FileRow :=
  (sortPaths (analysed.filter (countFor findings · != 0))).map (fileRow findings)

/-- The rows without findings, by the texts of their paths. -/
def cleanRows (findings : List Finding) (analysed : List Path) : List FileRow :=
  (sortPaths (analysed.filter fun path => !(countFor findings path != 0))).map (fileRow findings)

theorem fileRows_eq (findings : List Finding) (analysed : List Path) :
    fileRows findings analysed = flaggedRows findings analysed ++ cleanRows findings analysed :=
  List.map_append

theorem path_fileRow (findings : List Finding) : FileRow.path ∘ fileRow findings = id := rfl

/-- A summary of files accounts for findings: it has a row for each analysed file, first those of
the files with findings and then the others, both by the texts of their paths, and each row counts
the findings about its path. -/
structure Accounts (findings : List Finding) (analysed : List Path) (flagged clean : List FileRow) :
    Prop where
  paths : ((flagged ++ clean).map FileRow.path).Perm analysed
  flaggedStatus : ∀ row ∈ flagged,
    row.status = .flagged ∧ ∃ finding ∈ findings, finding.pathText = row.path.text
  cleanStatus : ∀ row ∈ clean,
    row.status = .clean ∧ row.count = 0 ∧ ∀ finding ∈ findings, finding.pathText ≠ row.path.text
  counts : ∀ row ∈ flagged ++ clean,
    row.count = (findings.filter (·.pathText = row.path.text)).length
  flaggedOrdered : (flagged.map (·.path.text)).Pairwise (· ≤ ·)
  cleanOrdered : (clean.map (·.path.text)).Pairwise (· ≤ ·)

theorem accounts_fileRows (findings : List Finding) (analysed : List Path) :
    Accounts findings analysed (flaggedRows findings analysed) (cleanRows findings analysed) where
  paths := by
    rw [← fileRows_eq, fileRows, List.map_map, path_fileRow, List.map_id]
    exact ((List.mergeSort_perm _ _).append (List.mergeSort_perm _ _)).trans
      (List.filter_append_perm _ analysed)
  flaggedStatus row hrow := by
    obtain ⟨path, hpath, rfl⟩ := List.mem_map.1 hrow
    have hcount : countFor findings path ≠ 0 := by
      simpa using List.of_mem_filter (mem_sortPaths.1 hpath)
    have hsome := mt countFor_eq_zero_iff.2 hcount
    push Not at hsome
    exact ⟨if_neg hcount, hsome⟩
  cleanStatus row hrow := by
    obtain ⟨path, hpath, rfl⟩ := List.mem_map.1 hrow
    have hcount : countFor findings path = 0 := by
      simpa using List.of_mem_filter (mem_sortPaths.1 hpath)
    exact ⟨if_pos hcount, hcount, countFor_eq_zero_iff.1 hcount⟩
  counts row hrow := by
    rw [← fileRows_eq] at hrow
    obtain ⟨path, -, rfl⟩ := List.mem_map.1 hrow
    show countFor findings path = _
    rw [countFor, List.countP_eq_length_filter]
    rfl
  flaggedOrdered := by
    rw [flaggedRows, List.map_map]
    exact sortPaths_ordered _
  cleanOrdered := by
    rw [cleanRows, List.map_map]
    exact sortPaths_ordered _

/-! ## Sums of counts -/

/-- The counts of different things add up to the length of a list that holds nothing else. -/
theorem sum_map_count {α : Type} [DecidableEq α] {keys values : List α} (hnodup : keys.Nodup)
    (hkeys : ∀ value ∈ values, value ∈ keys) :
    (keys.map fun key => values.count key).sum = values.length := by
  have hsum := Multiset.sum_count_eq_card (s := keys.toFinset) (m := (values : Multiset α))
    fun value hvalue => List.mem_toFinset.2 (hkeys value hvalue)
  rw [List.sum_toFinset _ hnodup] at hsum
  simpa using hsum

/-- If the analysed paths have different texts, and findings are about these only, then each finding
is counted in one row. -/
theorem Accounts.sum_counts {findings : List Finding} {analysed : List Path}
    {flagged clean : List FileRow} (h : Accounts findings analysed flagged clean)
    (hnodup : (analysed.map Path.text).Nodup)
    (hpaths : ∀ finding ∈ findings, finding.pathText ∈ analysed.map Path.text) :
    ((flagged ++ clean).map FileRow.count).sum = findings.length := by
  have hcounts : (flagged ++ clean).map FileRow.count =
      ((flagged ++ clean).map FileRow.path).map (countFor findings) := by
    rw [List.map_map]
    refine List.map_congr_left fun row hrow => ?_
    rw [h.counts row hrow, Function.comp_apply, countFor, List.countP_eq_length_filter]
    rfl
  have hlisted : ∀ text ∈ findings.map Finding.pathText, text ∈ analysed.map Path.text := by
    simpa using hpaths
  calc ((flagged ++ clean).map FileRow.count).sum
      = (analysed.map (countFor findings)).sum := by
        rw [hcounts]
        exact (h.paths.map _).sum_eq
    _ = ((analysed.map Path.text).map fun text =>
          (findings.map Finding.pathText).count text).sum := by
        rw [List.map_map, funext (countFor_eq_count findings)]
        rfl
    _ = findings.length := by rw [sum_map_count hnodup hlisted, List.length_map]

/-! ## The summary -/

/-- What a summary gives: the number of all findings, and the numbers of those of some
severities. -/
structure Totals where
  total : Nat
  counts : List (Severity × Nat)
  deriving DecidableEq, Repr, Inhabited

namespace Totals

/-- The totals as the summary writes them. -/
def text (totals : Totals) : String :=
  let offenses := if totals.total = 1 then "offense" else "offenses"
  " | ".intercalate
    (s!"[bold]{totals.total} {offenses}[/bold]" ::
      totals.counts.map fun (severity, count) => s!"[{severity.style}]{count} {severity.name}[/]")

/-- The totals as they are shown. -/
def shown (totals : Totals) : String :=
  let offenses := if totals.total = 1 then "offense" else "offenses"
  " | ".intercalate
    (s!"{totals.total} {offenses}" ::
      totals.counts.map fun (severity, count) => s!"{count} {severity.name}")

end Totals

/-- The severity of the finding, in lower case, is the given one. -/
def HasSeverity (severity : Severity) (finding : Finding) : Prop :=
  Text.lower finding.severity.toList = severity.name.toList

instance (severity : Severity) : DecidablePred (HasSeverity severity) :=
  fun finding => inferInstanceAs (Decidable (Text.lower finding.severity.toList = _))

/-- The severity of the finding, in lower case, is one that the report has a place for. -/
def IsRanked (finding : Finding) : Prop := ∃ severity ∈ Severity.all, HasSeverity severity finding

instance : DecidablePred IsRanked :=
  fun _ => inferInstanceAs (Decidable (∃ severity ∈ Severity.all, _))

theorem Severity.mem_all (severity : Severity) : severity ∈ Severity.all := by
  cases severity <;> decide

theorem isRanked_iff {finding : Finding} :
    IsRanked finding ↔ (Severity.ofText? finding.severity).isSome := by
  rw [Option.isSome_iff_exists]
  constructor
  · rintro ⟨severity, -, h⟩
    exact ⟨severity, Severity.ofText?_eq_some_iff.2 h⟩
  · rintro ⟨severity, h⟩
    exact ⟨severity, severity.mem_all, Severity.ofText?_eq_some_iff.1 h⟩

/-- The totals are those of findings: each severity that has any is given with their number, gravest
first. -/
structure Totals.AreOf (totals : Totals) (findings : List Finding) : Prop where
  total : totals.total = findings.length
  severities : (totals.counts.map Prod.fst).Sublist Severity.all
  counts : ∀ severity count, (severity, count) ∈ totals.counts ↔
    count ≠ 0 ∧ count = (findings.filter (HasSeverity severity)).length

/-- The severities that have findings, with their numbers. -/
def severityCounts (findings : List Finding) : List (Severity × Nat) :=
  Severity.all.filterMap fun severity =>
    if severityCount findings severity = 0 then none
    else some (severity, severityCount findings severity)

def totalsOf (findings : List Finding) : Totals := ⟨findings.length, severityCounts findings⟩

theorem summaryText_eq (findings : List Finding) :
    summaryText findings = (totalsOf findings).text := by
  have hparts : Severity.all.filterMap (severityPart? findings) =
      (severityCounts findings).map
        fun (severity, count) => s!"[{severity.style}]{count} {severity.name}[/]" := by
    rw [severityCounts, List.map_filterMap]
    refine List.filterMap_congr fun severity _ => ?_
    unfold severityPart?
    by_cases hcount : severityCount findings severity = 0 <;> simp [hcount]
  rw [summaryText, hparts]
  rfl

theorem severityCount_eq (findings : List Finding) (severity : Severity) :
    severityCount findings severity = (findings.filter (HasSeverity severity)).length := by
  rw [severityCount, ← List.countP_eq_length_filter]
  refine List.countP_congr fun finding _ => ?_
  rw [beq_iff_eq, Severity.ofText?_eq_some_iff, decide_eq_true_eq]
  rfl

theorem areOf_totalsOf (findings : List Finding) : (totalsOf findings).AreOf findings where
  total := rfl
  severities := by
    have hfst : (severityCounts findings).map Prod.fst =
        Severity.all.filter (severityCount findings · ≠ 0) := by
      rw [severityCounts, List.map_filterMap, ← List.filterMap_eq_filter]
      refine List.filterMap_congr fun severity _ => ?_
      by_cases hcount : severityCount findings severity = 0 <;> simp [Option.guard, hcount]
    rw [totalsOf, hfst]
    exact List.filter_sublist
  counts severity count := by
    rw [← severityCount_eq]
    simp only [totalsOf, severityCounts, List.mem_filterMap]
    constructor
    · rintro ⟨other, -, h⟩
      split at h
      · cases h
      · obtain ⟨rfl, rfl⟩ : other = severity ∧ _ = count := by simpa using h
        exact ⟨‹_›, rfl⟩
    · rintro ⟨hcount, rfl⟩
      exact ⟨severity, severity.mem_all, if_neg hcount⟩

/-- Left out of the sum are the zeros only. -/
theorem sum_severityCounts (findings : List Finding) :
    ((severityCounts findings).map Prod.snd).sum =
      (Severity.all.map (severityCount findings)).sum := by
  unfold severityCounts
  induction Severity.all with
  | nil => rfl
  | cons severity rest ih =>
    rw [List.filterMap_cons, List.map_cons, List.sum_cons, ← ih]
    by_cases hcount : severityCount findings severity = 0
    · simp [hcount]
    · simp [hcount]

theorem sum_totalsOf (findings : List Finding) :
    ((totalsOf findings).counts.map Prod.snd).sum = (findings.filter IsRanked).length := by
  -- The severities of the findings that have one.
  have hcount (severity : Severity) : severityCount findings severity =
      (findings.filterMap fun finding => Severity.ofText? finding.severity).count severity := by
    rw [severityCount, List.count_filterMap]
  have hranked : (findings.filterMap fun finding => Severity.ofText? finding.severity).length =
      (findings.filter IsRanked).length := by
    rw [List.length_filterMap_eq_countP, ← List.countP_eq_length_filter]
    refine List.countP_congr fun finding _ => ?_
    rw [← isRanked_iff, decide_eq_true_eq]
  have hnodup : Severity.all.Nodup := by decide
  rw [totalsOf, sum_severityCounts, funext hcount, sum_map_count hnodup fun severity _ =>
    severity.mem_all, hranked]

/-! ## What stands in frames -/

section

variable {ε : Type} {label : Path → Except ε String} {findings : List Finding}
  {analysed : List Path} {verbose : Bool}

/-- The blocks that the part about single files is made of. -/
inductive IsSectionBlock (label : Path → Except ε String) (groups : List (String × List Finding)) :
    Block → Prop
  | blank : IsSectionBlock label groups .blank
  | heading {group : String × List Finding} {shown : String} (h : group ∈ groups)
    (hlabel : label (Path.ofString group.1) = .ok shown) :
    IsSectionBlock label groups (heading shown)
  | table {group : String × List Finding} (h : group ∈ groups) :
    IsSectionBlock label groups (.table (findingTable group.2))
  | quote {finding : Finding} {block : Block} (h : quoteBlock? finding = some block) :
    IsSectionBlock label groups block
  | advice {ruleId : String} {block : Block} (h : adviceBlock? ruleId = some block) :
    IsSectionBlock label groups block

theorem isSectionBlock_of_mem_fileBlocks {groups : List (String × List Finding)}
    {group : String × List Finding} (hgroup : group ∈ groups) {shown : String}
    (hlabel : label (Path.ofString group.1) = .ok shown) {block : Block}
    (h : block ∈ fileBlocks verbose shown group.2) : IsSectionBlock label groups block := by
  rw [fileBlocks_eq, List.mem_cons, List.mem_cons, List.mem_cons] at h
  obtain rfl | rfl | rfl | h := h
  · exact .blank
  · exact .heading hgroup hlabel
  · exact .table hgroup
  · obtain rfl | ⟨finding, hquote⟩ | ⟨ruleId, hadvice⟩ := of_mem_belowTable h
    · exact .blank
    · exact .quote hquote
    · exact .advice hadvice

theorem isSectionBlock_of_mem {groups : List (String × List Finding)} {block : Block}
    (h : block ∈ (sections label verbose groups).1) : IsSectionBlock label groups block := by
  rw [fst_sections] at h
  rcases List.mem_append.1 h with h | h
  · obtain ⟨shown, hshown, h⟩ := List.mem_flatMap.1 h
    obtain ⟨group, hgroup, hlabel, hfound⟩ := exists_of_mem_labelled hshown
    rw [hfound] at h
    exact isSectionBlock_of_mem_fileBlocks hgroup hlabel h
  · cases hfault : (sections label verbose groups).2 with
    | none => simp [hfault] at h
    | some fault =>
      obtain rfl : block = .blank := by simpa [hfault] using h
      exact .blank

/-- What a block shows in a rounded frame, and its title. -/
def Block.framed? : Block → Option (Option String × Inside)
  | .panel shown => if shown.frame = .rounded then some (shown.title, shown.inside) else none
  | .blank | .markup _ | .table _ => none

/-- What blocks show in rounded frames, which the parts about single files do not use. -/
def framed (blocks : List Block) : List (Option String × Inside) := blocks.filterMap Block.framed?

theorem framed_append (blocks rest : List Block) :
    framed (blocks ++ rest) = framed blocks ++ framed rest :=
  List.filterMap_append

theorem framed_sections (label : Path → Except ε String) (verbose : Bool)
    (groups : List (String × List Finding)) : framed (sections label verbose groups).1 = [] := by
  refine List.filterMap_eq_nil_iff.2 fun block hblock => ?_
  cases isSectionBlock_of_mem hblock with
  | blank => rfl
  | heading => rfl
  | table => rfl
  | quote h =>
    obtain ⟨snippet, -, rfl⟩ := Option.map_eq_some_iff.1 h
    rfl
  | advice h =>
    obtain ⟨remedy, -, rfl⟩ := Option.map_eq_some_iff.1 h
    rfl

/-! ## Reports that are whole -/

/-- The rows stand under the labels of their files. -/
theorem labelledRows_eq_ok_iff {rows : List FileRow} {shown : List (String × FileRow)} :
    labelledRows label rows = .ok shown ↔
      shown.map Prod.snd = rows ∧ ∀ pair ∈ shown, label pair.2.path = .ok pair.1 := by
  have hrow (row : FileRow) (pair : String × FileRow) :
      (do return (← label row.path, row) : Except ε (String × FileRow)) = .ok pair ↔
        pair.2 = row ∧ label pair.2.path = .ok pair.1 := by
    obtain ⟨text, row'⟩ := pair
    cases hlabel : label row.path with
    | error fault =>
      refine ⟨nofun, ?_⟩
      rintro ⟨rfl, h⟩
      cases hlabel.symm.trans h
    | ok shown =>
      constructor
      · rintro ⟨⟩
        exact ⟨rfl, hlabel⟩
      · rintro ⟨rfl, h⟩
        cases hlabel.symm.trans h
        rfl
  rw [labelledRows, mapM_eq_ok_iff]
  induction shown generalizing rows with
  | nil => simp
  | cons pair more ih =>
    cases rows with
    | nil => simp
    | cons row rest =>
      simp only [List.map_cons, List.cons.injEq, List.forall_mem_cons, hrow, ih]
      exact and_and_and_comm

theorem exists_labelledRows_iff {rows : List FileRow} :
    (∃ shown, labelledRows label rows = .ok shown) ↔ ∀ row ∈ rows, HasLabel label row.path := by
  rw [labelledRows, exists_mapM_eq_ok_iff]
  refine forall₂_congr fun row _ => ?_
  unfold HasLabel
  cases label row.path <;> simp [bind, Except.bind, pure, Except.pure]

theorem forall_groups_iff {p : Path → Prop} :
    (∀ group ∈ groups findings, p (Path.ofString group.1)) ↔
      ∀ finding ∈ findings, p (Path.ofString finding.pathText) := by
  have hpaths : (∀ path ∈ (groups findings).map Prod.fst, p (Path.ofString path)) ↔
      ∀ path ∈ findings.map Finding.pathText, p (Path.ofString path) := by
    simp only [fst_groups, mem_groupPaths]
  simpa using hpaths

theorem forall_fileRows_iff {p : Path → Prop} :
    (∀ row ∈ fileRows findings analysed, p row.path) ↔ ∀ path ∈ analysed, p path := by
  have hperm := (accounts_fileRows findings analysed).paths
  rw [← fileRows_eq] at hperm
  have hpaths : (∀ path ∈ (fileRows findings analysed).map FileRow.path, p path) ↔
      ∀ path ∈ analysed, p path := by
    simp only [hperm.mem_iff]
  simpa using hpaths

theorem snd_allFiles_eq_none_iff :
    (allFiles label findings analysed).2 = none ↔ ∀ path ∈ analysed, HasLabel label path := by
  unfold allFiles
  split
  · rename_i hnone
    simp [hnone]
  · rw [← @forall_fileRows_iff findings, ← exists_labelledRows_iff]
    cases labelledRows label (fileRows findings analysed) <;> simp

/-- The table of all files is shown as a whole or not at all. -/
theorem allFiles_of_ne_none (h : (allFiles label findings analysed).2 ≠ none) :
    (allFiles label findings analysed).1 = [] := by
  unfold allFiles at h ⊢
  split
  · rfl
  · split
    · rfl
    · simp_all

/-- A report is whole if all files that it names have labels. -/
theorem snd_document_eq_none_iff : (document label findings analysed verbose).2 = none ↔
    (∀ finding ∈ findings, HasLabel label (Path.ofString finding.pathText)) ∧
      ∀ path ∈ analysed, HasLabel label path := by
  unfold document
  split
  · rename_i h
    simp [h.1, h.2]
  · rw [snd_andThen, snd_andThen, Option.or_eq_none_iff, Option.or_eq_none_iff,
      snd_sections_eq_none_iff, forall_groups_iff, snd_allFiles_eq_none_iff,
      and_iff_left (rfl : (none : Option ε) = none)]

/-- A report that is whole ends with the table of all files and the summary. -/
theorem exists_fst_document_of_whole (hanalysed : analysed ≠ [])
    (hwhole : (document label findings analysed verbose).2 = none) :
    ∃ rows : List (String × FileRow), rows.map Prod.snd = fileRows findings analysed ∧
      (∀ row ∈ rows, label row.2.path = .ok row.1) ∧
      (document label findings analysed verbose).1 =
        (sections label verbose (groups findings)).1 ++ (fileSummary rows ++ summary findings) := by
  obtain ⟨hheadings, hfiles⟩ := snd_document_eq_none_iff.1 hwhole
  rw [← forall_groups_iff, ← @snd_sections_eq_none_iff _ _ verbose] at hheadings
  rw [← @forall_fileRows_iff findings, ← exists_labelledRows_iff] at hfiles
  obtain ⟨rows, hrows⟩ := hfiles
  obtain ⟨hsnd, hlabels⟩ := labelledRows_eq_ok_iff.1 hrows
  refine ⟨rows, hsnd, hlabels, ?_⟩
  have hsome : ¬ (findings = [] ∧ analysed = []) := fun h => hanalysed h.2
  rw [document, if_neg hsome, andThen_of_none hheadings, allFiles, if_neg hanalysed, hrows]
  rfl

/-- What stands in frames at the end of a report that is whole. -/
theorem framed_document (hanalysed : analysed ≠ [])
    (hwhole : (document label findings analysed verbose).2 = none) :
    ∃ rows : List (String × FileRow), rows.map Prod.snd = fileRows findings analysed ∧
      (∀ row ∈ rows, label row.2.path = .ok row.1) ∧
      framed (document label findings analysed verbose).1 =
        [(none, .table (fileTable rows)),
          (some "Summary", .content (.markup (summaryText findings)))] := by
  obtain ⟨rows, hsnd, hlabels, hblocks⟩ := exists_fst_document_of_whole hanalysed hwhole
  refine ⟨rows, hsnd, hlabels, ?_⟩
  rw [hblocks, framed_append, framed_sections]
  rfl

/-- A report that breaks off shows nothing in frames. -/
theorem framed_document_of_ne_none (hbroken : (document label findings analysed verbose).2 ≠ none) :
    framed (document label findings analysed verbose).1 = [] := by
  unfold document at hbroken ⊢
  split at hbroken
  · exact absurd rfl hbroken
  · rename_i hsome
    rw [if_neg hsome]
    cases hsections : (sections label verbose (groups findings)).2 with
    | some fault => rw [andThen_of_ne_none (by simp [hsections]), framed_sections]
    | none =>
      rw [andThen_of_none hsections] at hbroken ⊢
      rw [framed_append, framed_sections]
      have hfiles : (allFiles label findings analysed).2 ≠ none := by
        simpa using hbroken
      rw [andThen_of_ne_none hfiles, allFiles_of_ne_none hfiles]
      rfl

end

end Report

/-! ## Findings of a run -/

theorem severity_of_mem_findings {style : Style} {file : SourceFile} {findings : List Finding}
    (hrun : ((namingRule style).run file).value = .ok findings) {finding : Finding}
    (hmem : finding ∈ findings) : finding.severity = defaultSeverity := by
  obtain ⟨complaint, -, hmade⟩ := exists_complaint_of_finding hrun hmem
  obtain ⟨location, -, rfl⟩ := Complaint.finding_eq_ok_iff.1 hmade
  rfl

/-- The severity that the rule about names gives its findings has a place in the report. -/
theorem isRanked_of_mem_findings {style : Style} {file : SourceFile} {findings : List Finding}
    (hrun : ((namingRule style).run file).value = .ok findings) {finding : Finding}
    (hmem : finding ∈ findings) : Report.IsRanked finding := by
  rw [Report.isRanked_iff, severity_of_mem_findings hrun hmem]
  decide

/-- What an analysis finds is about the files that it was asked for. -/
theorem Workspace.path_mem_of_mem_analyze {workspace : Workspace} {rules : List Rule}
    (hrules : ∀ rule ∈ rules, rule.KeepsPath) {paths : List Path} {finding : Finding}
    (h : finding ∈ (workspace.analyze rules paths).value) : finding.location.path ∈ paths := by
  rw [value_analyze, (Finding.isStableSort_sort _).perm.mem_iff] at h
  obtain ⟨path, hpath, hmem⟩ := List.mem_flatMap.1 h
  rwa [path_of_mem_contributionsAt hrules hmem]

/-- Paths that are read from text are told apart by their texts. -/
theorem nodup_map_text {paths : List Path} (hproper : ∀ path ∈ paths, path.IsProper)
    (hnodup : paths.Nodup) : (paths.map Path.text).Nodup :=
  hnodup.map_on fun path hpath other hother =>
    Path.text_injective (hproper path hpath) (hproper other hother)

end MemoAudit
