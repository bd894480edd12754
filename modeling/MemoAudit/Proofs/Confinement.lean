import MemoAudit.Proofs.Relocation

/-!
# What a source is read for

A run has the source at hand from beginning to end, and reads it twice: the names of variables and
methods are read when the tree is lowered, and the quotes of findings when complaints become
findings, at spans that have travelled through the program in between.  This file shows that both
readings are confined to the same few tokens, the instance variables and the names of methods
(`ParseTree.Reads`).  Two sources that agree there cannot be told apart by a run
(`namingRule_confined`): strings, comments, all other names and bytes that are no text at all have
no influence on what is found, said or logged.

For the first reading nothing new is needed.  A tree with two sources is a case of relocation in
which nothing moves (`lowerFile_eq_of_agree`).  For the second it has to be known that complaints
are at instance variables, which is where findings are justified (`reads_of_complaint`).
-/

namespace MemoAudit

/-- The two sources have the same bytes at the token. -/
def SameBytes (source source' : Bytes) (token : Token) : Prop :=
  source'.slice token.start.byte token.stop.byte = source.slice token.start.byte token.stop.byte

instance (source source' : Bytes) (token : Token) : Decidable (SameBytes source source' token) :=
  inferInstanceAs (Decidable (_ = _))

/-- The two sources have the same bytes wherever the tree is read for text. -/
def ParseTree.Agree (tree : ParseTree) (source source' : Bytes) : Prop :=
  ∀ token, tree.Reads token → SameBytes source source' token

theorem ParseTree.Agree.text_eq {tree : ParseTree} {source source' : Bytes} {token : Token}
    (h : tree.Agree source source') (htoken : tree.Reads token) :
    token.text source' = token.text source :=
  congrArg Text.Utf8.decodeLossy (h token htoken)

/-- Whether two sources agree can be found out by going through the nodes of the tree. -/
theorem ParseTree.agree_iff {tree : ParseTree} {source source' : Bytes} :
    tree.Agree source source' ↔ ∀ node ∈ tree.descendants,
      (node.kind = "instance_variable" → SameBytes source source' node.token) ∧
        (node.isMethod = true →
          ∀ name ∈ node.field? "name", SameBytes source source' name.token) := by
  constructor
  · intro h node hnode
    exact ⟨fun hkind => h _ (.ivar hnode hkind),
      fun hmethod name hname => h _ (.methodName hnode hmethod hname)⟩
  · intro h token htoken
    cases htoken with
    | ivar hnode hkind => exact (h _ hnode).1 hkind
    | methodName hnode hmethod hname => exact (h _ hnode).2 hmethod _ hname

instance (tree : ParseTree) (source source' : Bytes) : Decidable (tree.Agree source source') :=
  decidable_of_iff _ ParseTree.agree_iff.symm

/-! ## Programs -/

/-- An expression that is moved nowhere stays as it is. -/
theorem Expr.relocate_id (e : Expr) : e.relocate id = e := by
  induction e using childInduction with
  | step e ih =>
    have hlist {es : List Expr} (h : ∀ child ∈ es, child.relocate id = child) :
        es.map (relocate id) = es := by
      rw [List.map_congr_left h, List.map_id']
    have hoption {o : Option Expr} (h : ∀ child ∈ o.toList, child.relocate id = child) :
        o.map (relocate id) = o := by
      cases o with
      | none => rfl
      | some child => rw [Option.map_some, h child (List.mem_singleton_self child)]
    cases e with
    | program statements | sequence statements | other _ statements =>
      have hstatements : statements.map (relocate id) = statements := hlist ih
      simp [relocate, hstatements]
    | ivar => rfl
    | method | ivarAssign | definedCheck | returns => simp [relocate, hoption ih]
    | orAssign target value =>
      rw [children, List.forall_mem_append] at ih
      simp [relocate, hoption ih.1, hoption ih.2]
    | conditional condition thenBranch elseBranch =>
      rw [children, List.forall_mem_append, List.forall_mem_append] at ih
      simp [relocate, hoption ih.1.1, hoption ih.1.2, hoption ih.2]

theorem ParseTree.isMorphism_id : IsMorphism id id where
  token_eq _ := rfl
  kind_eq _ := rfl
  sameAs_eq _ _ := rfl
  field?_eq _ _ := Option.map_id_apply.symm
  operator?_eq _ := Option.map_id_apply.symm
  content_eq _ := (List.map_id _).symm

theorem lowerFile_eq_of_agree {tree : ParseTree} {source source' : Bytes}
    (h : tree.Agree source source') : lowerFile source' tree = lowerFile source tree := by
  have hprogram : lowerFile source' tree = (lowerFile source tree).relocate id :=
    lowerFile_relocate ParseTree.isMorphism_id (fun _ _ => rfl) (fun _ => rfl)
      fun _ htoken => h.text_eq htoken
  rw [hprogram, Expr.relocate_id]

/-! ## Findings -/

theorem Location.ofSpan_congr {path : Path} {source source' : Bytes} {span : Span}
    (h : span.text source' = span.text source) :
    ofSpan path source' span = ofSpan path source span := by
  unfold ofSpan
  rw [h]

theorem mapM_congr {α β ε : Type} {f g : α → Except ε β} {as : List α}
    (h : ∀ a ∈ as, f a = g a) : as.mapM f = as.mapM g := by
  induction as with
  | nil => rfl
  | cons a as ih =>
    rw [List.forall_mem_cons] at h
    rw [List.mapM_cons, List.mapM_cons, h.1, ih h.2]

/-- What a computation is followed by depends on its value alone. -/
theorem Logged.bind_congr_value {α β : Type} {action : Logged α} {next next' : α → Logged β}
    (h : next action.value = next' action.value) : action >>= next = action >>= next' := by
  ext1
  · rw [value_bind, value_bind, h]
  · rw [log_bind, log_bind, h]

section

variable {style : Style} {path : Path} {source source' : Bytes}

/-- A candidate is emitted alike if its places are quoted alike, which matters only if there is
something to complain about. -/
theorem emit_congr {candidate : Candidate} {method : String}
    (h : ∀ complaint ∈ complaintsAbout style method candidate,
      complaint.span.text source' = complaint.span.text source) :
    emit candidate method style ⟨path, source'⟩ namingRuleId =
      emit candidate method style ⟨path, source⟩ namingRuleId := by
  unfold complaintsAbout at h
  unfold emit
  split at h
  · rename_i haccepts
    rw [if_pos haccepts, if_pos haccepts]
  · rename_i hrejects
    rw [List.forall_mem_map] at h
    rw [if_neg hrejects, if_neg hrejects]
    dsimp only
    have hquoted (span : Span) (hspan : span ∈ candidate.spans) :
        Excerpt.finding ⟨path, source'⟩ namingRuleId (style.message candidate.ivar method)
            defaultSeverity span =
          Excerpt.finding ⟨path, source⟩ namingRuleId (style.message candidate.ivar method)
            defaultSeverity span := by
      simp only [Excerpt.finding, Location.ofSpan_congr (h span hspan)]
    rw [mapM_congr hquoted]

theorem checkVisit_congr {visit : Visit}
    (h : ∀ complaint ∈ visit.complaints style,
      complaint.span.text source' = complaint.span.text source) :
    checkVisit style ⟨path, source'⟩ visit = checkVisit style ⟨path, source⟩ visit := by
  unfold checkVisit
  refine Logged.bind_congr_value ?_
  cases hmatch : (matchIdiom visit).value with
  | error fault => rfl
  | ok found? =>
    cases found? with
    | none => rfl
    | some found =>
      rw [Visit.complaints, Visit.found?_eq_some_iff.2 hmatch, Option.toList_some,
        List.flatMap_singleton] at h
      dsimp only
      rw [emit_congr h]

theorem checkVisits_congr {visits : List Visit}
    (h : ∀ complaint ∈ visits.flatMap (Visit.complaints style),
      complaint.span.text source' = complaint.span.text source) :
    checkVisits style ⟨path, source'⟩ visits = checkVisits style ⟨path, source⟩ visits := by
  induction visits with
  | nil => rfl
  | cons visit visits ih =>
    rw [List.flatMap_cons, List.forall_mem_append] at h
    rw [checkVisits, checkVisits, checkVisit_congr h.1, ih h.2]

end

/-- **A run reads instance variables and the names of methods, and nothing else.**  Let a file keep
its tree and its path, and replace its source by any other that has the same bytes at these tokens.
Then the program is the same, and so is all that a run gives: its findings with their messages,
quotes and locations, in the same order, or its failure, and what it reports in the log. -/
theorem namingRule_confined (style : Style) (file : SourceFile) (source : Bytes)
    (h : file.tree.Agree file.source source) :
    { file with source }.program = file.program ∧
      (namingRule style).run { file with source } = (namingRule style).run file := by
  have hprogram : { file with source }.program = file.program := lowerFile_eq_of_agree h
  have hvisits : checkVisits style ⟨file.path, source⟩ file.program.walk =
      checkVisits style ⟨file.path, file.source⟩ file.program.walk := by
    refine checkVisits_congr fun complaint hcomplaint => ?_
    obtain ⟨token, hread, hspan⟩ := reads_of_complaint hcomplaint
    rw [hspan]
    exact h.text_eq hread
  refine ⟨hprogram, ?_⟩
  show checkNames style ⟨file.path, source⟩ { file with source }.program = _
  rw [hprogram, checkNames, hvisits]
  rfl

/-- A source with nothing but the tokens that `brokenFile` is read for, between null bytes and bytes
that are no text, and with more text at its end. -/
def scatteredSource : Bytes :=
  List.replicate 4 0x00 ++ Text.Utf8.encode "a" ++ List.replicate 9 0xC0 ++
    Text.Utf8.encode "@" ++ [0xFF] ++ List.replicate 13 0x00 ++
    Text.Utf8.encode "@" ++ [0xFF] ++ List.replicate 3 0xED ++
    Text.Utf8.encode "@" ++ [0xFF] ++ Text.Utf8.encode "\n# @other ||= 1\n"

/-- Hardly a byte of the two sources is the same, and the variable itself is not text. -/
theorem namingRule_brokenFile_confined :
    brokenFile.tree.Agree brokenFile.source scatteredSource ∧
      { brokenFile with source := scatteredSource }.program = brokenFile.program ∧
      ((namingRule .disallowed).run { brokenFile with source := scatteredSource }).value =
        .ok [brokenFinding ⟨30, by decide⟩, brokenFinding ⟨15, by decide⟩,
          brokenFinding ⟨35, by decide⟩] := by
  have hagree : brokenFile.tree.Agree brokenFile.source scatteredSource := by decide +kernel
  have hrun : ((namingRule .disallowed).run brokenFile).value =
      .ok [brokenFinding ⟨30, by decide⟩, brokenFinding ⟨15, by decide⟩,
        brokenFinding ⟨35, by decide⟩] := by
    decide +kernel
  obtain ⟨hprogram, hsame⟩ :=
    namingRule_confined .disallowed brokenFile scatteredSource hagree
  exact ⟨hagree, hprogram, hsame ▸ hrun⟩

end MemoAudit
