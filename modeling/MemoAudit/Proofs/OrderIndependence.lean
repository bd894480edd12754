import Mathlib
import MemoAudit.Analysis
import MemoAudit.Proofs.Anchors
import MemoAudit.Proofs.Spelling

/-!
# The order of the files does not matter

Files are analysed one after the other, and for each file one rule after the other, and whatever is
found is put at the end of one list.  A file that cannot be read is passed over, and so is a rule
that fails on a file.  At last the list is sorted.

What is sorted is thus a concatenation of *contributions*, each of which depends on one rule and one
path only (`Workspace.contribution`), so that a failure takes away one contribution and touches no
other.  The sort is stable, and stability is all that decides how findings with equal keys are
listed (`Finding.IsStableSort`).  That this order too does not depend on the order of the files
comes from the keys: a key starts with the text of a path, the text determines the path, and so
findings with equal keys are found in one file, where the rules have an order that nobody permutes.
A path that is listed more than once gives the same findings each time, and exchanging equal things
changes nothing.

A path that cannot be handed to the system at all, because it has a null character in it, ends the
analysis wherever it stands among the others.
-/

namespace MemoAudit

namespace Finding

/-! ## Stable sorting -/

/-- The key as a member of the lexicographic order of texts and numbers. -/
def SortKey.lex (key : SortKey) : String ×ₗ Nat ×ₗ Nat :=
  toLex (key.path, toLex (key.line, key.column))

theorem SortKey.lex_injective : Function.Injective SortKey.lex := by
  rintro ⟨path, line, column⟩ ⟨path', line', column'⟩ h
  simpa [SortKey.lex] using h

theorem le_iff {a b : Finding} : a.le b = true ↔ a.sortKey.lex ≤ b.sortKey.lex := by
  simp [le, SortKey.le, SortKey.lex, Prod.Lex.toLex_le_toLex]

/-- The second list is the first in the order of keys, and findings with the same key stand in it as
they stood before. -/
structure IsStableSort (findings sorted : List Finding) : Prop where
  perm : sorted.Perm findings
  ordered : sorted.Pairwise fun a b => a.sortKey.lex ≤ b.sortKey.lex
  stable : ∀ key, sorted.filter (·.sortKey = key) = findings.filter (·.sortKey = key)

theorem isStableSort_sort (findings : List Finding) : IsStableSort findings (sort findings) := by
  have htrans (a b c : Finding) (hab : a.le b = true) (hbc : b.le c = true) : a.le c = true :=
    le_iff.2 ((le_iff.1 hab).trans (le_iff.1 hbc))
  have htotal (a b : Finding) : (a.le b || b.le a) = true := by
    rw [Bool.or_eq_true, le_iff, le_iff]
    exact le_total _ _
  have hperm : (sort findings).Perm findings := List.mergeSort_perm findings le
  refine ⟨hperm, (List.pairwise_mergeSort htrans htotal findings).imp le_iff.1, fun key => ?_⟩
  -- The findings with one key are already in order, so that they are a sublist of the sorted list.
  have hordered : (findings.filter (·.sortKey = key)).Pairwise fun a b => a.le b = true := by
    refine List.pairwise_of_forall_mem_list fun a ha b hb => ?_
    have hkeys : a.sortKey = key ∧ b.sortKey = key :=
      ⟨by simpa using List.of_mem_filter ha, by simpa using List.of_mem_filter hb⟩
    rw [le_iff, hkeys.1, hkeys.2]
  have hsublist : (findings.filter (·.sortKey = key)).Sublist (sort findings) :=
    List.sublist_mergeSort htrans htotal hordered List.filter_sublist
  have hfiltered := hsublist.filter (·.sortKey = key)
  simp only [List.filter_filter, Bool.and_self] at hfiltered
  exact (hfiltered.eq_of_length (hperm.filter _).length_eq.symm).symm

/-- In an ordered list, the first finding has the least key. -/
theorem lex_le_of_mem {a b : Finding} {rest : List Finding}
    (h : (a :: rest).Pairwise fun a b => a.sortKey.lex ≤ b.sortKey.lex) (hb : b ∈ a :: rest) :
    a.sortKey.lex ≤ b.sortKey.lex := by
  rcases List.mem_cons.1 hb with rfl | hb
  · exact le_rfl
  · exact List.rel_of_pairwise_cons h hb

theorem mem_iff_of_filter_eq {findings others : List Finding}
    (h : ∀ key, findings.filter (·.sortKey = key) = others.filter (·.sortKey = key))
    (finding : Finding) : finding ∈ findings ↔ finding ∈ others := by
  have hfilter := congrArg (finding ∈ ·) (h finding.sortKey)
  simpa using hfilter

/-- Ordered lists are the same if for each key they have the same findings in the same order. -/
theorem eq_of_filter_eq {findings others : List Finding}
    (hfindings : findings.Pairwise fun a b => a.sortKey.lex ≤ b.sortKey.lex)
    (hothers : others.Pairwise fun a b => a.sortKey.lex ≤ b.sortKey.lex)
    (h : ∀ key, findings.filter (·.sortKey = key) = others.filter (·.sortKey = key)) :
    findings = others := by
  have hmem := mem_iff_of_filter_eq h
  induction findings generalizing others with
  | nil => exact (List.eq_nil_iff_forall_not_mem.2 fun finding => by simp [← hmem finding]).symm
  | cons a rest ih =>
    cases others with
    | nil => simpa using hmem a
    | cons b rest' =>
      -- Each first finding occurs in the other list, so that both have the least key.
      have hkeys : a.sortKey = b.sortKey := by
        apply SortKey.lex_injective
        apply le_antisymm
        · exact lex_le_of_mem hfindings ((hmem b).2 List.mem_cons_self)
        · exact lex_le_of_mem hothers ((hmem a).1 List.mem_cons_self)
      obtain ⟨rfl, hfirst⟩ : a = b ∧ _ := by simpa [hkeys] using h b.sortKey
      have hrest (key : SortKey) :
          rest.filter (·.sortKey = key) = rest'.filter (·.sortKey = key) := by
        by_cases hkey : a.sortKey = key
        · rw [← hkey]
          exact hfirst
        · simpa [hkey] using h key
      rw [ih hfindings.of_cons hothers.of_cons hrest (mem_iff_of_filter_eq hrest)]

end Finding

/-! ## What a rule contributes -/

/-- The findings of the rule are about the file that it looks at. -/
def Rule.KeepsPath (rule : Rule) : Prop :=
  ∀ file findings, (rule.run file).value = .ok findings →
    ∀ finding ∈ findings, finding.location.path = file.path

theorem keepsPath_namingRule (style : Style) : (namingRule style).KeepsPath := by
  intro file findings hrun finding hfinding
  obtain ⟨complaint, hprescribed, hmade⟩ := exists_complaint_of_finding hrun hfinding
  obtain ⟨_, _, _, ivar, _, _, hspan, _, _⟩ := exists_nodes_of_prescribed hprescribed
  exact (Complaint.isOf_of_finding hspan hmade).1.path

namespace Workspace

variable {workspace : Workspace} {rules : List Rule} {rule : Rule} {path : Path}

/-- The file at a path, parsed, if it can be read. -/
def fileAt? (workspace : Workspace) (path : Path) : Option SourceFile :=
  match workspace.read path with
  | .error _ => none
  | .ok source =>
    let parsed := workspace.parse source
    some { path, source, tree := parsed.root, hasErrors := parsed.hasErrors }

/-- What a rule contributes for a path: its findings in the file there.  A file that cannot be read
gives nothing, and neither does a rule that fails on it. -/
def contribution (workspace : Workspace) (rule : Rule) (path : Path) : List Finding :=
  match workspace.fileAt? path with
  | none => []
  | some file =>
    match (rule.run file).value with
    | .error _ => []
    | .ok findings => findings

/-- The contributions of all rules for a path, in the order of the rules. -/
def contributionsAt (workspace : Workspace) (rules : List Rule) (path : Path) : List Finding :=
  rules.flatMap fun rule => workspace.contribution rule path

/-- All contributions, path by path and rule by rule. -/
def contributions (workspace : Workspace) (rules : List Rule) (paths : List Path) : List Finding :=
  paths.flatMap (workspace.contributionsAt rules)

theorem value_load : (workspace.load path).value = workspace.fileAt? path := by
  unfold load fileAt?
  cases workspace.read path with
  | error fault => rfl
  | ok source =>
    simp only [parseBytes, Logged.value_bind, Logged.value_pure]
    split <;> rfl

theorem findingsOf_eq_contribution :
    workspace.findingsOf rule path = workspace.contribution rule path := by
  rw [findingsOf, contribution, value_load]
  cases workspace.fileAt? path with
  | none => rfl
  | some file =>
    simp only [Rule.findingsOn, Logged.value_bind]
    cases (rule.run file).value <;> rfl

theorem value_analyze (paths : List Path) :
    (workspace.analyze rules paths).value = Finding.sort (workspace.contributions rules paths) := by
  simp only [analyze, Logged.value_bind, Logged.value_pure, Logged.value_mapM, value_check,
    findingsOf_eq_contribution]
  rfl

/-- Everything contributed for a path is about that path. -/
theorem path_of_mem_contributionsAt (hrules : ∀ rule ∈ rules, rule.KeepsPath) {finding : Finding}
    (h : finding ∈ workspace.contributionsAt rules path) : finding.location.path = path := by
  obtain ⟨rule, hrule, hfinding⟩ := List.mem_flatMap.1 h
  unfold contribution fileAt? at hfinding
  cases hread : workspace.read path with
  | error fault => simp [hread] at hfinding
  | ok source =>
    simp only [hread] at hfinding
    split at hfinding
    · cases hfinding
    · exact hrules rule hrule _ _ ‹_› finding hfinding

end Workspace

/-! ## Permuting the paths -/

/-- If one element at most has an image, the images of a list do not depend on its order. -/
theorem flatMap_eq_of_perm {α β : Type} {f : α → List β} {as bs : List α} (h : as.Perm bs)
    (hsingle : ∀ a ∈ as, ∀ b ∈ as, f a ≠ [] → f b ≠ [] → a = b) : as.flatMap f = bs.flatMap f := by
  induction h with
  | nil => rfl
  | cons a _ ih =>
    rw [List.flatMap_cons, List.flatMap_cons, ih fun b hb c hc =>
      hsingle b (List.mem_cons_of_mem a hb) c (List.mem_cons_of_mem a hc)]
  | swap a b rest =>
    simp only [List.flatMap_cons]
    by_cases ha : f a = []
    · simp [ha]
    · by_cases hb : f b = []
      · simp [hb]
      · rw [hsingle a (by simp) b (by simp) ha hb]
  | trans hfirst _ ih ih' =>
    rw [ih hsingle, ih' fun a ha b hb => hsingle a (hfirst.mem_iff.2 ha) b (hfirst.mem_iff.2 hb)]

namespace Workspace

variable {workspace : Workspace} {rules : List Rule} {paths others : List Path}

/-- The contributions with one key come from one path, and their order does not depend on that of
the paths. -/
theorem filter_contributions_eq (hrules : ∀ rule ∈ rules, rule.KeepsPath)
    (hpaths : ∀ path ∈ paths, path.IsProper) (hperm : paths.Perm others) (key : Finding.SortKey) :
    (workspace.contributions rules paths).filter (·.sortKey = key) =
      (workspace.contributions rules others).filter (·.sortKey = key) := by
  have htext {path : Path}
      (h : (workspace.contributionsAt rules path).filter (·.sortKey = key) ≠ []) :
      path.text = key.path := by
    obtain ⟨finding, hfinding⟩ := List.exists_mem_of_ne_nil _ h
    obtain ⟨hmem, hkey⟩ := List.mem_filter.1 hfinding
    rw [← of_decide_eq_true hkey, ← path_of_mem_contributionsAt hrules hmem]
    rfl
  rw [contributions, contributions, List.filter_flatMap, List.filter_flatMap]
  refine flatMap_eq_of_perm hperm fun path hpath other hother hsome hsome' => ?_
  exact Path.text_injective (hpaths path hpath) (hpaths other hother)
    ((htext hsome).trans (htext hsome').symm)

theorem value_analyze_eq_of_perm (workspace : Workspace) (hrules : ∀ rule ∈ rules, rule.KeepsPath)
    (hpaths : ∀ path ∈ paths, path.IsProper) (hperm : paths.Perm others) :
    (workspace.analyze rules paths).value = (workspace.analyze rules others).value := by
  have hsort (paths : List Path) := Finding.isStableSort_sort (workspace.contributions rules paths)
  rw [value_analyze, value_analyze]
  refine Finding.eq_of_filter_eq (hsort paths).ordered (hsort others).ordered fun key => ?_
  rw [(hsort paths).stable, (hsort others).stable]
  exact filter_contributions_eq hrules hpaths hperm key

end Workspace

theorem value_whilePresentable {α : Type} (visit : List Path → Logged α) (paths : List Path) :
    (whilePresentable visit paths).value =
      if paths.all Path.isPresentable then .ok (visit paths).value else .error .nullCharacter := by
  simp only [whilePresentable, Logged.value_bind, Logged.value_pure]
  by_cases h : paths.all Path.isPresentable = true
  · rw [if_pos h, if_pos h, List.takeWhile_eq_self_iff.2 (List.all_eq_true.1 h)]
  · rw [if_neg h, if_neg h]

/-- **The analysis does not depend on the order of the files.**  It gives the stable sort of all
contributions, each of which is what one rule finds in one file, or nothing if the file cannot be
read or the rule fails on it; and it gives the same list for every other order of the same paths,
with all the repetitions there may be.  The rules are arbitrary, as long as what they find in a file
is about that file.  Only a text with a null character, which no file has for a path, ends the
analysis, and again wherever it stands. -/
theorem analyze_isStableSort (workspace : Workspace) (rules : List Rule)
    (hrules : ∀ rule ∈ rules, rule.KeepsPath) (names : List String) :
    (whilePresentable (workspace.analyze rules) (names.map Path.ofString)).value =
        (if (names.map Path.ofString).all Path.isPresentable then
          .ok (workspace.analyze rules (names.map Path.ofString)).value
        else .error .nullCharacter) ∧
      Finding.IsStableSort (workspace.contributions rules (names.map Path.ofString))
        (workspace.analyze rules (names.map Path.ofString)).value ∧
      ∀ others : List String, (others.map Path.ofString).Perm (names.map Path.ofString) →
        (workspace.analyze rules (others.map Path.ofString)).value =
            (workspace.analyze rules (names.map Path.ofString)).value ∧
          (whilePresentable (workspace.analyze rules) (others.map Path.ofString)).value =
            (whilePresentable (workspace.analyze rules) (names.map Path.ofString)).value := by
  refine ⟨value_whilePresentable _ _, ?_, ?_⟩
  · rw [Workspace.value_analyze]
    exact Finding.isStableSort_sort _
  · intro others hperm
    have hproper : ∀ path ∈ others.map Path.ofString, path.IsProper := by
      intro path hpath
      obtain ⟨name, -, rfl⟩ := List.mem_map.1 hpath
      exact Path.isProper_ofString name
    have hvalue := workspace.value_analyze_eq_of_perm hrules hproper hperm
    refine ⟨hvalue, ?_⟩
    rw [value_whilePresentable, value_whilePresentable, hvalue, hperm.all_eq]

/-- A workspace with the guarded method in two files. -/
def twinWorkspace : Workspace where
  files := { root := [("a.rb", .file guardedSource), ("b.rb", .file guardedSource)] }
  directory := Path.rootDirectory
  parse _ := { root := inlineNode "program" 0 45 none [guardedMethod], hasErrors := false }

theorem read_twinWorkspace :
    twinWorkspace.read ⟨.relative, ["a.rb"]⟩ = .ok guardedSource ∧
      twinWorkspace.read ⟨.relative, ["b.rb"]⟩ = .ok guardedSource ∧
      twinWorkspace.read ⟨.relative, ["c.rb"]⟩ = .error .notFound := by
  refine ⟨?_, ?_, ?_⟩ <;> cbv

/-- A rule about names that fails on one of the two files. -/
def delicateRule : Rule where
  id := "delicate"
  name := "Delicate"
  readsProgram := true
  run file :=
    if file.path.name = "a.rb" then pure (.error (.failed "boom"))
    else (namingRule .required).run file

theorem keepsPath_delicateRule : delicateRule.KeepsPath := by
  intro file findings hrun
  by_cases hname : file.path.name = "a.rb"
  · simp [delicateRule, hname] at hrun
  · simp only [delicateRule, hname, ↓reduceIte] at hrun
    exact keepsPath_namingRule .required file findings hrun

/-- Both rules complain about the same three places, in a file that is listed twice, and one of them
fails on the other file. -/
theorem analyze_twinWorkspace :
    (∀ rule ∈ [delicateRule, namingRule .disallowed], rule.KeepsPath) ∧
      (["a.rb", "./b.rb", "c.rb", "b.rb"].map Path.ofString).Perm
        (["b.rb", "c.rb", "b.rb", "a.rb"].map Path.ofString) ∧
      (twinWorkspace.analyze [delicateRule, namingRule .disallowed]
        (["b.rb", "c.rb", "b.rb", "a.rb"].map Path.ofString)).value.length = 15 ∧
      (twinWorkspace.analyze [delicateRule, namingRule .disallowed]
          (["a.rb", "./b.rb", "c.rb", "b.rb"].map Path.ofString)).value =
        (twinWorkspace.analyze [delicateRule, namingRule .disallowed]
          (["b.rb", "c.rb", "b.rb", "a.rb"].map Path.ofString)).value := by
  have hrules : ∀ rule ∈ [delicateRule, namingRule .disallowed], rule.KeepsPath := by
    intro rule hrule
    rcases List.mem_pair.1 hrule with rfl | rfl
    · exact keepsPath_delicateRule
    · exact keepsPath_namingRule .disallowed
  have hperm : (["a.rb", "./b.rb", "c.rb", "b.rb"].map Path.ofString).Perm
      (["b.rb", "c.rb", "b.rb", "a.rb"].map Path.ofString) := by
    decide +kernel
  have hreads : twinWorkspace.read (Path.ofString "a.rb") = .ok guardedSource ∧
      twinWorkspace.read (Path.ofString "b.rb") = .ok guardedSource ∧
      twinWorkspace.read (Path.ofString "c.rb") = .error .notFound := read_twinWorkspace
  obtain ⟨-, hsorted, hsame⟩ :=
    analyze_isStableSort twinWorkspace _ hrules ["b.rb", "c.rb", "b.rb", "a.rb"]
  refine ⟨hrules, hperm, ?_, (hsame _ hperm).1⟩
  rw [hsorted.perm.length_eq]
  simp only [Workspace.contributions, Workspace.contributionsAt, Workspace.contribution,
    Workspace.fileAt?, List.map_cons, List.map_nil, List.flatMap_cons, List.flatMap_nil, hreads]
  decide +kernel

end MemoAudit
