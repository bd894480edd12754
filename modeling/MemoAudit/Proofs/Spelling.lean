import MemoAudit.Path

/-!
# Paths and their spelling

A path is shown, logged and sorted as text.  Different paths may only be told apart by their texts
if no two paths share one, and for an arbitrary list of parts they do: a part may hold a slash, or
be empty, or be a single dot.  Reading a path from text never gives such a part
(`isProper_ofString`), and the text of a path without such parts is read as that path again
(`ofString_text`).  So among the paths that are read from text, the text of a path determines the
path (`text_injective`), the three anchors included.
-/

namespace MemoAudit.Path

/-- No part of the path is empty or a single dot, and none holds a slash. -/
def IsProper (path : Path) : Prop :=
  ∀ part ∈ path.parts, isPart part.toList = true ∧ '/' ∉ part.toList

/-! ## Pieces between slashes -/

theorem splitSlashes_eq_splitOn (cs : List Char) : splitSlashes cs = cs.splitOn '/' := by
  induction cs with
  | nil => simp [splitSlashes]
  | cons c cs ih =>
    rw [splitSlashes, List.splitOn_cons_eq_if_modifyHead, ← ih]
    by_cases hc : c = '/'
    · simp [hc]
    · simp only [hc, ↓reduceIte, beq_iff_eq]
      cases hcs : splitSlashes cs with
      | nil => exact absurd (ih.symm.trans hcs) (List.splitOn_ne_nil _ _)
      | cons piece pieces => simp

theorem slash_not_mem_of_mem_splitSlashes {cs piece : List Char} (h : piece ∈ splitSlashes cs) :
    '/' ∉ piece := by
  induction cs generalizing piece with
  | nil => simp_all [splitSlashes]
  | cons c cs ih =>
    simp only [splitSlashes] at h
    by_cases hc : c = '/'
    · simp only [hc, ↓reduceIte, List.mem_cons] at h
      rcases h with rfl | h
      · simp
      · exact ih h
    · simp only [hc, ↓reduceIte] at h
      cases hcs : splitSlashes cs with
      | nil =>
        rw [splitSlashes_eq_splitOn] at hcs
        exact absurd hcs (List.splitOn_ne_nil _ _)
      | cons first rest =>
        rw [hcs] at h ih
        rcases List.mem_cons.1 h with rfl | h
        · have hfirst : '/' ∉ first := ih List.mem_cons_self
          simpa [Ne.symm hc] using hfirst
        · exact ih (List.mem_cons_of_mem _ h)

/-- Every path that is read from text is proper. -/
theorem isProper_ofString (s : String) : (ofString s).IsProper := by
  intro part hpart
  obtain ⟨piece, hpiece, rfl⟩ := List.mem_map.1 (show part ∈ partsOf s.toList from hpart)
  obtain ⟨hmem, hisPart⟩ := List.mem_filter.1 hpiece
  rw [String.toList_ofList]
  exact ⟨hisPart, slash_not_mem_of_mem_splitSlashes hmem⟩

/-! ## Reading the text of a path -/

theorem partsOf_slash_cons (cs : List Char) : partsOf ('/' :: cs) = partsOf cs := by
  simp [partsOf, splitSlashes, isPart]

variable {path : Path}

/-- The parts are read back from their text. -/
theorem partsOf_intercalate (h : path.IsProper) :
    partsOf ("/".intercalate path.parts).toList = path.parts := by
  have hpieces : (path.parts.map String.toList).filter isPart = path.parts.map String.toList := by
    refine List.filter_eq_self.2 fun piece hpiece => ?_
    obtain ⟨part, hpart, rfl⟩ := List.mem_map.1 hpiece
    exact (h part hpart).1
  have hslash : ∀ piece ∈ path.parts.map String.toList, '/' ∉ piece := by
    intro piece hpiece
    obtain ⟨part, hpart, rfl⟩ := List.mem_map.1 hpiece
    exact (h part hpart).2
  by_cases hnil : path.parts = []
  · simp [hnil, partsOf, splitSlashes, isPart]
  · have hsplit : splitSlashes ("/".intercalate path.parts).toList =
        path.parts.map String.toList := by
      rw [splitSlashes_eq_splitOn, String.toList_intercalate]
      exact List.splitOn_intercalate '/' hslash (by simpa using hnil)
    rw [partsOf, hsplit, hpieces, List.map_map]
    simp [Function.comp_def]

/-- The text of the parts does not start with a slash. -/
theorem takeWhile_slash_intercalate (h : path.IsProper) :
    ("/".intercalate path.parts).toList.takeWhile (· == '/') = [] := by
  cases hparts : path.parts with
  | nil => simp
  | cons part rest =>
    obtain ⟨hisPart, hslash⟩ := h part (by simp [hparts])
    rw [String.toList_intercalate]
    cases hpart : part.toList with
    | nil => simp [hpart, isPart] at hisPart
    | cons c cs =>
      have hc : c ≠ '/' := by
        rintro rfl
        exact hslash (by simp [hpart])
      cases rest <;> simp [hpart, hc]

/-- The text of a proper path is read as that path. -/
theorem ofString_text (h : path.IsProper) : ofString path.text = path := by
  have hparts := partsOf_intercalate h
  have hslashes := takeWhile_slash_intercalate h
  obtain ⟨anchor, parts⟩ := path
  cases anchor with
  | relative =>
    cases parts with
    | nil => decide
    | cons part rest =>
      simp only [text, Anchor.text, ofString, String.empty_append, hparts, hslashes]
      rfl
  | root | doubleRoot =>
    simp only [text, Anchor.text, ofString, String.toList_append]
    generalize ("/".intercalate parts).toList = cs at hparts hslashes ⊢
    simp [partsOf_slash_cons, hparts, hslashes, anchorOf]

/-- Proper paths with the same text are the same. -/
theorem text_injective {other : Path} (h : path.IsProper) (hother : other.IsProper)
    (htext : path.text = other.text) : path = other := by
  rw [← ofString_text h, htext, ofString_text hother]

end MemoAudit.Path
