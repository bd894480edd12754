import MemoAudit.Proofs.Complaints
import MemoAudit.Proofs.Origins
import MemoAudit.Proofs.Recognition

/-!
# Findings quote the variable

The name of a variable is read from the source when its node is lowered; the location of a finding
is made much later, from a span that has travelled through the expression, the match and the
complaint, and its snippet is read from the source a second time.  A guard makes it worse: there the
message names the variable of the check, while the spans are those of three different nodes.

All the same, each finding stands on one instance variable in the tree, and everything about the
finding can be read off that node and the node of a method above it.  `Finding.IsJustifiedBy` says
what, and `namingRule_justified` that every finding has two such nodes.  Nothing is asked of the
source or of the offsets in the tree: text that is cut short or is not well formed is cut short and
mended in the same way both times.
-/

namespace MemoAudit

/-! ## Locations of tokens -/

/-- The location is that of a token: it starts and ends where the token does, counted from one, and
quotes the text of the token. -/
structure Location.IsOf (location : Location) (path : Path) (source : Bytes) (token : Token) :
    Prop where
  path : location.path = path
  line : (location.line.val : Int) = token.start.row + 1
  column : (location.column.val : Int) = token.start.column + 1
  endLine : location.endLine.map (fun line => (line.val : Int)) = some (token.stop.row + 1)
  endColumn : location.endColumn.map (fun column => (column.val : Int)) =
    some (token.stop.column + 1)
  snippet : location.snippet = some (token.text source)

theorem Raw.val_of_ordinalOf {n : Int} {ordinal : Ordinal} (h : Raw.ordinalOf n = .ok ordinal) :
    (ordinal.val : Int) = n := by
  unfold Raw.ordinalOf Ordinal.ofInt? at h
  by_cases hn : 1 ≤ n
  · simp only [hn, ↓reduceDIte, Except.ok.injEq] at h
    rw [← h]
    exact Int.toNat_of_nonneg (by omega)
  · simp [hn] at h

/-- The location of the span of a token is the location of the token. -/
theorem Location.isOf_of_ofSpan {path : Path} {source : Bytes} {token : Token}
    {location : Location} (h : Location.ofSpan path source token.span = .good location) :
    location.IsOf path source token := by
  simp only [Location.ofSpan, Checked.seq_eq_good_iff, Checked.map_eq_good_iff,
    Checked.ofField_eq_good_iff] at h
  obtain ⟨_, endColumn, ⟨_, endLine, ⟨_, column, ⟨line, hline, rfl⟩, hcolumn, rfl⟩, hendLine, rfl⟩,
    hendColumn, rfl⟩ := h
  exact {
    path := rfl
    line := Raw.val_of_ordinalOf hline
    column := Raw.val_of_ordinalOf hcolumn
    endLine := congrArg some (Raw.val_of_ordinalOf hendLine)
    endColumn := congrArg some (Raw.val_of_ordinalOf hendColumn)
    snippet := rfl }

/-- A complaint about the span of a token becomes a finding at the token. -/
theorem Complaint.isOf_of_finding {excerpt : Excerpt} {complaint : Complaint} {token : Token}
    {finding : Finding} (hspan : complaint.span = token.span)
    (h : complaint.finding excerpt = .ok finding) :
    finding.location.IsOf excerpt.path excerpt.source token ∧
      finding.message = complaint.message := by
  obtain ⟨location, hlocation, rfl⟩ := Complaint.finding_eq_ok_iff.1 h
  rw [hspan] at hlocation
  exact ⟨Location.isOf_of_ofSpan hlocation, rfl⟩

/-! ## The variable of a candidate -/

namespace ParseTree

variable {source : Bytes} {tree : ParseTree} {mention : Mention}

/-- Below the node there is an instance variable that the mention was made from. -/
def Mentions (source : Bytes) (tree : ParseTree) (mention : Mention) : Prop :=
  ∃ ivar ∈ tree.descendants, ivar.IsIvar source mention

theorem Mentions.above {part : ParseTree} (h : part.Mentions source mention)
    (hpart : part ∈ tree.descendants) : tree.Mentions source mention := by
  obtain ⟨ivar, hbelow, hivar⟩ := h
  exact ⟨ivar, mem_descendants_trans hpart hbelow, hivar⟩

theorem OrAssigns.mentions (h : tree.OrAssigns source mention) : tree.Mentions source mention := by
  obtain ⟨-, -, left, hleft, hivar⟩ := h
  exact ⟨left, mem_descendants_of_field? hleft, hivar⟩

theorem Assigns.mentions (h : tree.Assigns source mention) : tree.Mentions source mention := by
  obtain ⟨-, left, hleft, hivar⟩ := h
  exact ⟨left, mem_descendants_of_field? hleft, hivar⟩

theorem Returns.mentions (h : tree.Returns source mention) : tree.Mentions source mention := by
  obtain ⟨-, value, hvalues, hivar⟩ := h
  have hvalue : value ∈ tree.returnValues := by rw [hvalues]; exact List.mem_singleton_self _
  exact ⟨value, mem_descendants_of_mem_returnValues hvalue, hivar⟩

theorem Checks.mentions (h : tree.Checks source mention) : tree.Mentions source mention := by
  obtain ⟨-, -, hoperand⟩ := h
  obtain ⟨operand, hoperand, hivar⟩ := definedOperand_iff.2 hoperand
  exact ⟨operand, mem_descendants_of_definedOperand hoperand, hivar⟩

theorem HoldsOnly.mem_descendants {field : String} {statement : ParseTree}
    (h : tree.HoldsOnly field statement) : statement ∈ tree.descendants := by
  obtain ⟨clause, hclause, -, hcontent⟩ := h
  have hstatement : statement ∈ clause.content := by
    rw [hcontent]
    exact List.mem_singleton_self _
  exact mem_descendants_trans (mem_descendants_of_field? hclause)
    (mem_descendants_of_mem_content hstatement)

theorem Guards.mem_descendants {condition exit : ParseTree} (h : tree.Guards condition exit) :
    condition ∈ tree.descendants ∧ exit ∈ tree.descendants := by
  cases h with
  | ifModifier _ hbody hcondition =>
    exact ⟨mem_descendants_of_field? hcondition, mem_descendants_of_field? hbody⟩
  | ifBlock _ hcondition hexit | unlessBlock _ hcondition hexit =>
    exact ⟨mem_descendants_of_field? hcondition, hexit.mem_descendants⟩

/-- The spans of what a method memoizes are those of instance variables in the method, and all of
them have the name of the candidate. -/
theorem mentions_of_memoizes {candidate : Candidate} {span : Span}
    (h : Memoizes (Expr.collapse (tree.methodStatements.map (lower source))) candidate)
    (hspan : span ∈ candidate.spans) : tree.Mentions source ⟨candidate.ivar, span⟩ := by
  have hbelow {statement : ParseTree} (hmem : statement ∈ tree.methodStatements) :
      statement ∈ tree.descendants := mem_descendants_of_mem_methodStatements hmem
  cases candidate with
  | orAssign ivar =>
    obtain rfl : span = ivar.span := by simpa [Candidate.spans] using hspan
    obtain ⟨last, hlast, hassigns⟩ := memoizes_orAssign_iff.1 h
    exact hassigns.mentions.above (hbelow (List.mem_of_getLast? hlast))
  | definedGuard ivar checked returned assigned =>
    obtain ⟨first, middle, last, condition, exit, hstatements, hguards, hchecks, hreturns, hassigns,
      hchecked, hreturned, hassigned, -⟩ := memoizes_definedGuard_iff.1 h
    have hfirst : first ∈ tree.descendants := hbelow (by rw [hstatements]; simp)
    have hlast : last ∈ tree.descendants := hbelow (by rw [hstatements]; simp)
    obtain ⟨hcondition, hexit⟩ := hguards.mem_descendants
    have hmentions : tree.Mentions source checked ∧ tree.Mentions source returned ∧
        tree.Mentions source assigned :=
      ⟨(hchecks.mentions.above hcondition).above hfirst,
        (hreturns.mentions.above hexit).above hfirst, hassigns.mentions.above hlast⟩
    obtain ⟨_, checkedSpan⟩ := checked
    obtain ⟨_, returnedSpan⟩ := returned
    obtain ⟨_, assignedSpan⟩ := assigned
    dsimp only at hchecked hreturned hassigned
    subst hchecked hreturned hassigned
    have hspans : span = checkedSpan ∨ span = returnedSpan ∨ span = assignedSpan := by
      simpa [Candidate.spans] using hspan
    rcases hspans with rfl | rfl | rfl
    · exact hmentions.1
    · exact hmentions.2.1
    · exact hmentions.2.2

/-- The name of a method, which is empty if there is none. -/
def methodName (source : Bytes) (tree : ParseTree) : String :=
  (tree.field? "name").elim "" (·.token.text source)

end ParseTree

/-- A prescribed complaint in the program of a file comes from two nodes of the file: it is at an
instance variable in a method that does not accept its name. -/
theorem exists_nodes_of_prescribed {source : Bytes} {root : ParseTree} {style : Style}
    {complaint : Complaint} (h : complaint ∈ (lowerFile source root).prescribed style) :
    ∃ method ∈ root.descendants, method.isMethod = true ∧
      ∃ ivar ∈ method.descendants, ivar.kind = "instance_variable" ∧
        complaint.span = ivar.token.span ∧
        complaint.message =
          style.message (ivar.token.text source) (method.methodName source) ∧
        style.accepts (method.methodName source) (ivar.token.text source) = false := by
  obtain ⟨_, _, _, _, _, candidate, hdefined, hmemoizes, hrejected, hspan, hmessage⟩ :=
    Expr.exists_method_of_prescribed h
  obtain ⟨method, hmem, hlower⟩ := exists_node_of_method hdefined
  obtain ⟨hmethod, rfl, rfl, -, -, -⟩ := lower_eq_method_iff.1 hlower
  obtain ⟨ivar, hbelow, hkind, hmention⟩ := ParseTree.mentions_of_memoizes hmemoizes hspan
  obtain ⟨hname, hplace⟩ := Mention.mk.inj hmention
  rw [hname] at hrejected hmessage
  exact ⟨method, hmem, hmethod, ivar, hbelow, hkind, hplace, hmessage, hrejected⟩

/-! ## Findings and nodes -/

/-- A method of a file and an instance variable below it are what a finding is about. -/
structure Finding.IsJustifiedBy (finding : Finding) (style : Style) (file : SourceFile)
    (method ivar : ParseTree) : Prop where
  method_mem : method ∈ file.tree.descendants
  isMethod : method.isMethod = true
  ivar_mem : ivar ∈ method.descendants
  isIvar : ivar.kind = "instance_variable"
  location : finding.location.IsOf file.path file.source ivar.token
  message : finding.message =
    style.message (ivar.token.text file.source) (method.methodName file.source)
  rejected : style.accepts (method.methodName file.source) (ivar.token.text file.source) = false

/-- **Every finding is at a variable, and quotes it.**  Whatever the source and the tree are, a
finding of a run belongs to an instance variable in a method of the tree: it has the position and
the text of that very node, it says what is to be said about this text in a method of that name, and
the name is one that the method does not accept.  In particular the snippet is the variable that the
message names, for each finding of a guard as well. -/
theorem namingRule_justified (style : Style) (file : SourceFile) (findings : List Finding)
    (h : ((namingRule style).run file).value = .ok findings) :
    ∀ finding ∈ findings,
      (∃ method ivar, finding.IsJustifiedBy style file method ivar) ∧
        ∃ snippet method, finding.location.snippet = some snippet ∧
          finding.message = style.message snippet method := by
  intro finding hfinding
  obtain ⟨complaint, hprescribed, hmade⟩ := exists_complaint_of_finding h hfinding
  obtain ⟨method, hmem, hmethod, ivar, hbelow, hkind, hspan, hmessage, hrejected⟩ :=
    exists_nodes_of_prescribed hprescribed
  obtain ⟨hlocation, hsays⟩ := Complaint.isOf_of_finding hspan hmade
  have hjustified : finding.IsJustifiedBy style file method ivar := {
    method_mem := hmem
    isMethod := hmethod
    ivar_mem := hbelow
    isIvar := hkind
    location := hlocation
    message := hsays.trans hmessage
    rejected := hrejected }
  exact ⟨⟨method, ivar, hjustified⟩, _, _, hlocation.snippet, hjustified.message⟩

/-- A source that breaks off inside the guarded method, with a byte that is no text in the name of
the variable. -/
def brokenSource : Bytes :=
  Text.Utf8.encode "def a; return @" ++ [0xFF] ++ Text.Utf8.encode " if defined?(@" ++ [0xFF] ++
    Text.Utf8.encode "); @" ++ [0xFF]

/-- The guarded method with `brokenSource` as its source, which the end of its tree lies beyond. -/
def brokenFile : SourceFile :=
  { path := Path.ofString "lib/a.rb", source := brokenSource, tree := guardedMethod }

/-- The finding about the two bytes that start in a column of the only line of `brokenFile`. -/
def brokenFinding (column : Ordinal) : Finding where
  ruleId := namingRuleId
  message := "Memoized variable `@\uFFFD` does not match method name `a`. Use `@a` instead."
  location :=
    { path := brokenFile.path, line := default, column, endLine := some default
      endColumn := some ⟨column.val + 2, Nat.le_add_left 1 (column.val + 1)⟩
      snippet := some "@\uFFFD" }
  severity := defaultSeverity

theorem namingRule_brokenFile_justified :
    ((namingRule .disallowed).run brokenFile).value =
        .ok [brokenFinding ⟨30, by decide⟩, brokenFinding ⟨15, by decide⟩,
          brokenFinding ⟨35, by decide⟩] ∧
      ∃ method ivar,
        (brokenFinding ⟨35, by decide⟩).IsJustifiedBy .disallowed brokenFile method ivar := by
  have hrun : ((namingRule .disallowed).run brokenFile).value =
      .ok [brokenFinding ⟨30, by decide⟩, brokenFinding ⟨15, by decide⟩,
        brokenFinding ⟨35, by decide⟩] := by
    decide +kernel
  exact ⟨hrun, (namingRule_justified .disallowed brokenFile _ hrun _ (by simp)).1⟩

end MemoAudit
