import MemoAudit.Proofs.Relocation
import MemoAudit.Proofs.Totality

/-!
# Findings move with the text

If text is put in front of a source, everything in the source comes to stand further down: by as
many bytes as the text has, and by as many rows as it has line feeds.  Columns stay, provided that
the text ends a line.  A `Displacement` is that distance, and what is shown here is that a run of
the rule knows no other place than relative to it: the findings in the longer source are the same
ones in the same order, at the displaced lines (`namingRule_displaced`).

Nearly all of it is an instance of relocation.  Displacing a tree is a morphism, since two nodes
that cover the same bytes go on doing so (`ParseTree.isMorphism_displaced`).  What is left is that
places are read in the source in two ways, as the names of variables and methods and again for the
quotes of findings, and that both readings cut the same bytes out of the longer source
(`Bytes.slice_displaced`).  There offsets have to be counted from the front: a negative offset is
counted from the end, which does not move.  Offsets beyond the end do no harm, since both cuts are
clamped alike.
-/

namespace MemoAudit

/-! ## Distances -/

/-- How far places move down. -/
structure Displacement where
  bytes : Nat
  rows : Nat
  deriving DecidableEq, Repr, Inhabited

/-- The byte that ends a line. -/
def lineFeed : UInt8 := 0x0A

/-- How far places move if the text is put in front of them. -/
def Displacement.of (inserted : Bytes) : Displacement :=
  ⟨inserted.length, inserted.count lineFeed⟩

section

variable (d : Displacement)

def Point.displaced (point : Point) : Point :=
  { point with byte := point.byte + d.bytes, row := point.row + d.rows }

def Token.displaced (token : Token) : Token :=
  { token with start := token.start.displaced d, stop := token.stop.displaced d }

/-- The tree with every node displaced. -/
def ParseTree.displaced : ParseTree → ParseTree
  | .node token children => .node (token.displaced d) (children.map ParseTree.displaced)

def Position.displaced (position : Position) : Position :=
  { position with line := position.line + d.rows }

def Span.displaced (span : Span) : Span where
  startByte := span.startByte + d.bytes
  endByte := span.endByte + d.bytes
  first := span.first.displaced d
  last := span.last.displaced d

/-- A line so many rows further down. -/
def Ordinal.below (line : Ordinal) (rows : Nat) : Ordinal :=
  ⟨line.val + rows, Nat.le_add_right_of_le line.pos⟩

def Location.displaced (location : Location) : Location :=
  { location with
    line := location.line.below d.rows
    endLine := location.endLine.map (·.below d.rows) }

def Finding.displaced (finding : Finding) : Finding :=
  { finding with location := finding.location.displaced d }

end

/-- The file with a text put in front of its source, and its tree displaced accordingly. -/
def SourceFile.displaced (file : SourceFile) (inserted : Bytes) : SourceFile :=
  { file with
    source := inserted ++ file.source
    tree := file.tree.displaced (.of inserted) }

/-! ## Trees -/

section

variable (d : Displacement)

theorem Token.span_displaced (token : Token) :
    (token.displaced d).span = token.span.displaced d := by
  simp only [span, Token.displaced, Point.displaced, Span.displaced, Position.displaced]
  congr 2 <;> omega

theorem Span.through_displaced (a b : Span) :
    (a.through b).displaced d = (a.displaced d).through (b.displaced d) := rfl

theorem Token.sameAs_displaced (a b : Token) :
    (a.displaced d).sameAs (b.displaced d) = a.sameAs b := by
  have hbyte (x y : Int) : (x + d.bytes == y + d.bytes) = (x == y) := by
    rw [Bool.eq_iff_iff, beq_iff_eq, beq_iff_eq]
    omega
  simp only [sameAs, Token.displaced, Point.displaced, hbyte]

namespace ParseTree

@[simp] theorem token_displaced (tree : ParseTree) :
    (tree.displaced d).token = tree.token.displaced d := by
  cases tree
  rw [displaced]
  rfl

theorem children_displaced (tree : ParseTree) :
    (tree.displaced d).children = tree.children.map (displaced d) := by
  cases tree
  rw [displaced]
  rfl

/-- A search that does not look at places finds the same in the displaced tree. -/
theorem find?_children_displaced (tree : ParseTree) (p : Token → Bool)
    (hp : ∀ token, p (token.displaced d) = p token) :
    (tree.displaced d).children.find? (fun child => p child.token) =
      (tree.children.find? fun child => p child.token).map (displaced d) := by
  rw [children_displaced, List.find?_map]
  congr 2
  funext child
  show p (child.displaced d).token = p child.token
  rw [token_displaced, hp]

theorem field?_displaced (tree : ParseTree) (name : String) :
    (tree.displaced d).field? name = (tree.field? name).map (displaced d) :=
  tree.find?_children_displaced d (·.field == some name) fun _ => rfl

theorem operator?_displaced (tree : ParseTree) :
    (tree.displaced d).operator? = tree.operator?.map (displaced d) := by
  have hunnamed := tree.find?_children_displaced d (!·.named) fun _ => rfl
  rw [operator?, operator?, field?_displaced, hunnamed]
  cases tree.field? "operator" <;> rfl

theorem content_displaced (tree : ParseTree) :
    (tree.displaced d).content = tree.content.map (displaced d) := by
  rw [content, content, children_displaced, List.filter_map]
  congr 1
  refine List.filter_congr fun child _ => ?_
  show (child.displaced d).isContent = child.isContent
  rw [isContent, isContent, token_displaced]
  rfl

/-- Whatever shapes are read from is displaced along. -/
theorem isMorphism_displaced : IsMorphism (Token.displaced d) (displaced d) where
  token_eq := token_displaced d
  kind_eq _ := rfl
  sameAs_eq := Token.sameAs_displaced d
  field?_eq := field?_displaced d
  operator?_eq := operator?_displaced d
  content_eq := content_displaced d

end ParseTree

end

/-! ## Texts -/

namespace Bytes

theorem clamp_displaced {length distance : Nat} {offset : Int} (h : 0 ≤ offset) :
    clamp (distance + length) (offset + distance) = distance + clamp length offset := by
  unfold clamp
  rw [if_neg (by omega), if_neg (by omega)]
  omega

/-- The same bytes are cut out of the longer sequence at the displaced offsets. -/
theorem slice_displaced (inserted bytes : Bytes) {start stop : Int} (hstart : 0 ≤ start)
    (hstop : 0 ≤ stop) :
    slice (inserted ++ bytes) (start + inserted.length) (stop + inserted.length) =
      slice bytes start stop := by
  simp only [slice, List.length_append, clamp_displaced hstart, clamp_displaced hstop,
    List.drop_length_add_append, Nat.add_sub_add_left]

end Bytes

/-- The offsets of the span are counted from the front. -/
def Span.IsFromFront (span : Span) : Prop := 0 ≤ span.startByte ∧ 0 ≤ span.endByte

instance (span : Span) : Decidable span.IsFromFront := inferInstanceAs (Decidable (_ ∧ _))

theorem Span.text_displaced (inserted source : Bytes) {span : Span} (h : span.IsFromFront) :
    (span.displaced (.of inserted)).text (inserted ++ source) = span.text source :=
  congrArg Text.Utf8.decodeLossy (Bytes.slice_displaced inserted source h.1 h.2)

theorem Token.text_displaced (inserted source : Bytes) {token : Token}
    (h : token.span.IsFromFront) :
    (token.displaced (.of inserted)).text (inserted ++ source) = token.text source := by
  rw [text, text, span_displaced, Span.text_displaced inserted source h]

/-- The program of the displaced file is the program of the file, displaced. -/
theorem program_displaced (inserted : Bytes) {file : SourceFile}
    (h : ∀ node ∈ file.tree.descendants, node.token.span.IsFromFront) :
    (file.displaced inserted).program =
      file.program.relocate (Span.displaced (.of inserted)) := by
  refine lowerFile_relocate (ParseTree.isMorphism_displaced _) (Span.through_displaced _)
    (Token.span_displaced _) fun token hread => ?_
  obtain ⟨node, hnode, rfl⟩ := hread.exists_node
  exact Token.text_displaced inserted file.source (h node hnode)

/-! ## Findings -/

theorem Raw.ordinalOf_add {n : Int} {line : Ordinal} (h : Raw.ordinalOf n = .ok line)
    (rows : Nat) : Raw.ordinalOf (n + rows) = .ok (line.below rows) := by
  have hval := Raw.val_of_ordinalOf h
  have hpos := line.pos
  unfold ordinalOf Ordinal.ofInt? Ordinal.below
  rw [dif_pos (by omega)]
  simp only [Except.ok.injEq, Ordinal.mk.injEq]
  omega

theorem Location.ofSpan_displaced (inserted source : Bytes) {path : Path} {span : Span}
    {location : Location} (hspan : span.IsFromFront)
    (h : Location.ofSpan path source span = .good location) :
    Location.ofSpan path (inserted ++ source) (span.displaced (.of inserted)) =
      .good (location.displaced (.of inserted)) := by
  simp only [Location.ofSpan, Checked.seq_eq_good_iff, Checked.map_eq_good_iff,
    Checked.ofField_eq_good_iff] at h ⊢
  obtain ⟨_, endColumn, ⟨_, endLine, ⟨_, column, ⟨line, hline, rfl⟩, hcolumn, rfl⟩, hendLine, rfl⟩,
    hendColumn, rfl⟩ := h
  refine ⟨_, endColumn, ⟨_, endLine.below _, ⟨_, column, ⟨line.below _,
    Raw.ordinalOf_add hline _, rfl⟩, hcolumn, rfl⟩, Raw.ordinalOf_add hendLine _, rfl⟩,
    hendColumn, ?_⟩
  rw [Span.text_displaced inserted source hspan]
  rfl

theorem Complaint.finding_displaced (inserted source : Bytes) {path : Path} {complaint : Complaint}
    {finding : Finding} (hspan : complaint.span.IsFromFront)
    (h : complaint.finding ⟨path, source⟩ = .ok finding) :
    (complaint.relocate (Span.displaced (.of inserted))).finding ⟨path, inserted ++ source⟩ =
      .ok (finding.displaced (.of inserted)) := by
  obtain ⟨location, hlocation, rfl⟩ := Complaint.finding_eq_ok_iff.1 h
  exact Complaint.finding_eq_ok_iff.2
    ⟨_, Location.ofSpan_displaced inserted source hspan hlocation, rfl⟩

/-- The complaints about a file are at nodes of its tree. -/
theorem exists_node_of_complaint {style : Style} {file : SourceFile} {complaint : Complaint}
    (h : complaint ∈ file.program.walk.flatMap (Visit.complaints style)) :
    ∃ node ∈ file.tree.descendants, complaint.span = node.token.span := by
  obtain ⟨token, hread, hspan⟩ := reads_of_complaint h
  obtain ⟨node, hnode, rfl⟩ := hread.exists_node
  exact ⟨node, hnode, hspan⟩

/-- A run through a list goes along with a change of its elements that goes along with each step. -/
theorem mapM_map_eq_ok {α β ε : Type} {f f' : α → Except ε β} {m : α → α} {n : β → β} {as : List α}
    {bs : List β} (hstep : ∀ a ∈ as, ∀ b, f a = .ok b → f' (m a) = .ok (n b))
    (h : as.mapM f = .ok bs) : (as.map m).mapM f' = .ok (bs.map n) := by
  rw [mapM_eq_ok_iff] at h ⊢
  induction as generalizing bs with
  | nil =>
    obtain rfl : bs = [] := by simpa using h.symm
    rfl
  | cons a as ih =>
    cases bs with
    | nil => simp at h
    | cons b bs =>
      obtain ⟨hfirst, hrest⟩ := List.cons.inj h
      rw [List.forall_mem_cons] at hstep
      simp only [List.map_cons, hstep.1 b hfirst, ih hstep.2 hrest]

/-- **Findings move with the text.**  A file whose tree has no negative offsets, rows or columns,
though it may reach beyond the source, is compared with the file that has a text in front of its
source and its tree displaced.  The programs of the two differ by the displacement and in nothing
else, and the run on the longer source gives the findings of the run on the shorter one, in the same
order, with nothing changed but their lines.  Columns are taken from the tree and never counted, so
that it does not matter here whether the text ends with a line feed. -/
theorem namingRule_displaced (style : Style) (file : SourceFile) (inserted : Bytes)
    (hfile : ∀ node ∈ file.tree.descendants,
      node.token.span.IsFromFront ∧ node.token.IsZeroBased) :
    (file.displaced inserted).program =
        file.program.relocate (Span.displaced (.of inserted)) ∧
      ∃ findings, ((namingRule style).run file).value = .ok findings ∧
        ((namingRule style).run (file.displaced inserted)).value =
          .ok (findings.map (Finding.displaced (.of inserted))) := by
  have hprogram := program_displaced inserted fun node hnode => (hfile node hnode).1
  have hplaces : ∀ complaint ∈ file.program.walk.flatMap (Visit.complaints style),
      complaint.span.IsFromFront ∧ complaint.span.IsOneBased := by
    intro complaint hcomplaint
    obtain ⟨node, hnode, hspan⟩ := exists_node_of_complaint hcomplaint
    rw [hspan]
    exact (hfile node hnode).imp_right Token.isOneBased_span
  obtain ⟨findings, hfindings⟩ := exists_mapM_eq_ok_iff.2 fun complaint hcomplaint =>
    (@Complaint.exists_finding_iff ⟨file.path, file.source⟩ complaint).2
      (hplaces complaint hcomplaint).2
  have hmoved := mapM_map_eq_ok (fun complaint hcomplaint _ hfinding =>
    Complaint.finding_displaced inserted file.source (hplaces complaint hcomplaint).1 hfinding)
    hfindings
  refine ⟨hprogram, findings, ?_, ?_⟩
  · show (checkNames style ⟨file.path, file.source⟩ file.program).value = _
    rw [value_checkNames, hfindings]
    rfl
  · show (checkNames style ⟨file.path, inserted ++ file.source⟩
      (file.displaced inserted).program).value = _
    rw [value_checkNames, hprogram, Expr.complaints_walk_relocate, hmoved]
    rfl

/-- Two lines to put in front of a file, one of them a comment. -/
def openingLines : Bytes := Text.Utf8.encode "# frozen\n\n"

/-- The tree of `brokenFile` reaches beyond its source, and three places of it are quoted. -/
theorem namingRule_brokenFile_displaced :
    (∀ node ∈ brokenFile.tree.descendants,
        node.token.span.IsFromFront ∧ node.token.IsZeroBased) ∧
      Displacement.of openingLines = ⟨10, 2⟩ ∧
      ((namingRule .disallowed).run (brokenFile.displaced openingLines)).value =
        .ok (([brokenFinding ⟨30, by decide⟩, brokenFinding ⟨15, by decide⟩,
          brokenFinding ⟨35, by decide⟩]).map (Finding.displaced ⟨10, 2⟩)) := by
  have hfile : ∀ node ∈ brokenFile.tree.descendants,
      node.token.span.IsFromFront ∧ node.token.IsZeroBased := by
    decide +kernel
  have hdistance : Displacement.of openingLines = ⟨10, 2⟩ := by decide
  obtain ⟨-, findings, hfindings, hdisplaced⟩ :=
    namingRule_displaced .disallowed brokenFile openingLines hfile
  have hrun : ((namingRule .disallowed).run brokenFile).value =
      .ok [brokenFinding ⟨30, by decide⟩, brokenFinding ⟨15, by decide⟩,
        brokenFinding ⟨35, by decide⟩] := by
    decide +kernel
  obtain rfl := Except.ok.inj (hrun.symm.trans hfindings)
  exact ⟨hfile, hdistance, hdistance ▸ hdisplaced⟩

end MemoAudit
