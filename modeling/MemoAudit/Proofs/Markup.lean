import Mathlib
import MemoAudit.Report.Markup

/-!
# Reading markup

A text is read as markup in two steps: it is cut into pieces, and the pieces are shown, with tags
opened and closed on the way.  This file describes both, so that one can tell from a text what is
shown of it.

The cut is a matter of brackets.  What counts as one is a relation (`bracket?_eq_some_iff`), and
what is cut does not depend on what stands around it, unless a text ends inside of a bracket
(`scan_append`).  That can only happen among backslashes or behind an opening bracket, so that
closed texts can be read one by one (`scan_append_of_isClosed`).

For the second step, what is shown and what happens to the tags are taken apart (`renderPieces_eq`):
the tags only decide whether there is a fault.  What is shown is never longer than the text, and as
long only if there was nothing to be read.  So exactly the inert texts are shown as they are
(`render_eq_self_iff`), and between two tags exactly those that do not end in a backslash either
(`render_enclosed_iff`).  What is escaped, on the other hand, leaves the tags alone, whatever it was
(`applyTags_escape`).
-/

namespace MemoAudit.Markup

/-! ## Brackets of the form of a tag -/

/-- One of the two square brackets. -/
def isSquare (c : Char) : Bool := c == '[' || c == ']'

/-- What stands in a tag: a text without square brackets, which starts as a tag does. -/
def IsTagInner (inner : List Char) : Prop :=
  inner.head?.any startsTag = true ∧ ∀ c ∈ inner, isSquare c = false

instance (inner : List Char) : Decidable (IsTagInner inner) :=
  decidable_of_iff (inner.head?.any startsTag = true ∧ inner.all (!isSquare ·) = true)
    (by simp [IsTagInner])

/-- A piece as it is written. -/
def Piece.text : Piece → List Char
  | .plain c => [c]
  | .bracket backslashes inner => List.replicate backslashes '\\' ++ '[' :: inner ++ [']']

theorem isSquare_of_startsTag {c : Char} (h : startsTag c = true) : isSquare c = false := by
  by_contra hsquare
  have hc : c = '[' ∨ c = ']' := by simpa [isSquare, or_iff_not_imp_left] using hsquare
  rcases hc with rfl | rfl
  · exact absurd h (by decide)
  · exact absurd h (by decide)

theorem not_isSquare_iff {c : Char} : isSquare c = false ↔ (c != '[' && c != ']') = true := by
  simp [isSquare]

theorem tagInner?_eq_some_iff {cs inner after : List Char} :
    tagInner? cs = some (inner, after) ↔ IsTagInner inner ∧ cs = inner ++ ']' :: after := by
  constructor
  · intro h
    cases cs with
    | nil => simp [tagInner?] at h
    | cons c rest =>
      simp only [tagInner?] at h
      split at h
      · rename_i hc
        split at h
        · rename_i rest' hrest
          obtain ⟨rfl, rfl⟩ : c :: _ = inner ∧ rest' = after := by simpa using h
          refine ⟨⟨by simpa using hc, ?_⟩, ?_⟩
          · intro d hd
            rcases List.mem_cons.1 hd with rfl | hd
            · exact isSquare_of_startsTag hc
            · have hplain := List.mem_takeWhile_imp hd
              exact not_isSquare_iff.2 hplain
          · rw [List.cons_append, ← hrest]
            conv_lhs => rw [← List.take_append_drop
              (rest.takeWhile fun d => d != '[' && d != ']').length rest]
            rw [← List.prefix_iff_eq_take.1 (List.takeWhile_prefix _)]
        · cases h
      · cases h
  · rintro ⟨⟨hstarts, hsquare⟩, rfl⟩
    cases inner with
    | nil => cases hstarts
    | cons c rest =>
      have hrest : ∀ d ∈ rest, (d != '[' && d != ']') = true := fun d hd =>
        not_isSquare_iff.1 (hsquare d (List.mem_cons_of_mem c hd))
      have htake : (rest ++ ']' :: after).takeWhile (fun d => d != '[' && d != ']') = rest := by
        rw [List.takeWhile_append_of_pos hrest]
        simp
      have hstarts : startsTag c = true := by simpa using hstarts
      simp [tagInner?, hstarts, htake]

theorem bracket?_eq_some_iff {cs inner after : List Char} {k : Nat} :
    bracket? cs = some (k, inner, after) ↔
      IsTagInner inner ∧ cs = (Piece.bracket k inner).text ++ after := by
  constructor
  · intro h
    fun_induction bracket? cs generalizing k with
    | case1 rest ih =>
      obtain ⟨⟨count, found⟩, hfound, heq⟩ := Option.map_eq_some_iff.1 h
      obtain ⟨rfl, rfl⟩ : count + 1 = k ∧ found = (inner, after) := by simpa using heq
      obtain ⟨hinner, rfl⟩ := ih hfound
      exact ⟨hinner, by simp [Piece.text, List.replicate_succ]⟩
    | case2 rest =>
      obtain ⟨found, hfound, heq⟩ := Option.map_eq_some_iff.1 h
      obtain ⟨rfl, rfl⟩ : 0 = k ∧ found = (inner, after) := by simpa using heq
      obtain ⟨hinner, rfl⟩ := tagInner?_eq_some_iff.1 hfound
      exact ⟨hinner, by simp [Piece.text]⟩
    | case3 => cases h
  · rintro ⟨hinner, rfl⟩
    induction k with
    | zero => simp [Piece.text, bracket?, tagInner?_eq_some_iff.2 ⟨hinner, rfl⟩]
    | succ k ih =>
      have hcons : (Piece.bracket (k + 1) inner).text ++ after =
          '\\' :: ((Piece.bracket k inner).text ++ after) := by
        simp [Piece.text, List.replicate_succ]
      rw [hcons, bracket?, ih]
      rfl

/-! ## Scanning -/

@[simp] theorem scan_nil : scan [] = [] := by rw [scan]

theorem scan_of_bracket?_eq_none {c : Char} {rest : List Char} (h : bracket? (c :: rest) = none) :
    scan (c :: rest) = .plain c :: scan rest := by
  rw [scan]
  split
  · rename_i hsome
    rw [h] at hsome
    cases hsome
  · rfl

/-- A bracket of the form of a tag is found with all backslashes in front of it. -/
theorem scan_bracket_append {inner : List Char} (hinner : IsTagInner inner) (k : Nat)
    (after : List Char) :
    scan ((Piece.bracket k inner).text ++ after) = .bracket k inner :: scan after := by
  have hfound := bracket?_eq_some_iff.2 ⟨hinner, @rfl _ ((Piece.bracket k inner).text ++ after)⟩
  cases htext : (Piece.bracket k inner).text ++ after with
  | nil => simp [Piece.text] at htext
  | cons c rest =>
    rw [htext] at hfound
    rw [scan]
    split
    · rename_i hsome
      rw [hfound] at hsome
      cases hsome
      rfl
    · rename_i hnone
      rw [hfound] at hnone
      cases hnone

/-- The pieces of a text, one after the other, are the text. -/
theorem flatMap_text_scan (cs : List Char) : (scan cs).flatMap Piece.text = cs := by
  fun_induction scan cs with
  | case1 => rfl
  | case2 c rest k inner after h _ ih =>
    rw [List.flatMap_cons, ih, (bracket?_eq_some_iff.1 h).2]
  | case3 c rest h ih => simp [ih, Piece.text]

theorem getLast?_of_prefix_replicate {k : Nat} {start : List Char} (hstart : start ≠ [])
    (hfront : start <+: List.replicate k '\\') :
    start.getLast? = some '\\' := by
  have hall := List.eq_replicate_of_mem fun c hc => List.eq_of_mem_replicate (hfront.subset hc)
  rw [hall, List.getLast?_replicate, if_neg (by simpa using hstart)]

/-- If a bracket is found at the start of a text only when more follows, then the text ends inside
of it: among the backslashes, or behind the opening bracket. -/
theorem ends_inside {start ys inner after : List Char} {k : Nat} (hstart : start ≠ [])
    (hnone : bracket? start = none) (hsome : bracket? (start ++ ys) = some (k, inner, after)) :
    ']' ∈ ys ∧ (start.getLast? = some '\\' ∨
      ∃ before opened rest, start = before ++ '[' :: opened ∧ ys = rest ++ ']' :: after ∧
        ∀ c ∈ opened ++ rest, isSquare c = false) := by
  obtain ⟨hinner, htext⟩ := bracket?_eq_some_iff.1 hsome
  have hshort (more : List Char) : start ≠ (Piece.bracket k inner).text ++ more := by
    rintro rfl
    rw [bracket?_eq_some_iff.2 ⟨hinner, rfl⟩] at hnone
    cases hnone
  obtain ⟨rest, hbracket, rfl⟩ | ⟨more, hlong, -⟩ := List.append_eq_append_iff.1 htext
  · obtain rfl | ⟨rest, c, rfl⟩ := List.eq_nil_or_concat rest
    · exact absurd (by rw [hbracket, List.append_nil, List.append_nil]) (hshort [])
    · have hends : List.replicate k '\\' ++ '[' :: inner = start ++ rest ∧ ']' = c := by
        simpa [Piece.text, ← List.append_assoc] using hbracket
      obtain ⟨hends, rfl⟩ := hends
      refine ⟨by simp, ?_⟩
      obtain ⟨more, hreplicate, -⟩ | ⟨opened, rfl, hopened⟩ :=
        List.append_eq_append_iff.1 hends.symm
      · exact .inl (getLast?_of_prefix_replicate hstart ⟨more, hreplicate.symm⟩)
      · cases opened with
        | nil =>
          rw [List.append_nil] at hstart ⊢
          exact .inl (getLast?_of_prefix_replicate hstart (List.prefix_refl _))
        | cons d opened =>
          obtain ⟨rfl, rfl⟩ : '[' = d ∧ inner = opened ++ rest := by simpa using hopened
          exact .inr ⟨List.replicate k '\\', opened, rest, rfl, by simp, hinner.2⟩
  · exact absurd hlong (hshort more)

/-- The pieces of two texts are those of both together, unless the first text ends inside of a
bracket. -/
theorem scan_append {xs ys : List Char}
    (h : ∀ start, start <:+ xs → start ≠ [] → bracket? start = none →
      bracket? (start ++ ys) = none) :
    scan (xs ++ ys) = scan xs ++ scan ys := by
  fun_induction scan xs with
  | case1 => rfl
  | case2 c rest k inner after hsome _ ih =>
    obtain ⟨hinner, htext⟩ := bracket?_eq_some_iff.1 hsome
    have hafter : after <:+ c :: rest := ⟨_, htext.symm⟩
    rw [htext, List.append_assoc, scan_bracket_append hinner,
      ih fun start hstart => h start (hstart.trans hafter)]
    rfl
  | case3 c rest hnone ih =>
    have hwhole := h (c :: rest) (List.suffix_refl _) (List.cons_ne_nil c rest) hnone
    rw [List.cons_append] at hwhole ⊢
    rw [scan_of_bracket?_eq_none hwhole, ih fun start hstart =>
      h start (hstart.trans (List.suffix_cons c rest))]
    rfl

/-- A text does not end among backslashes or behind a bracket that is still open. -/
def IsClosed (xs : List Char) : Prop :=
  xs.getLast? ≠ some '\\' ∧ (xs.filter isSquare).getLast? ≠ some '['

instance (xs : List Char) : Decidable (IsClosed xs) := inferInstanceAs (Decidable (_ ∧ _))

theorem isClosed_append_bracket (xs : List Char) (k : Nat) (inner : List Char) :
    IsClosed (xs ++ (Piece.bracket k inner).text) := by
  have htext : xs ++ (Piece.bracket k inner).text =
      xs ++ (List.replicate k '\\' ++ '[' :: inner) ++ [']'] := by
    simp [Piece.text]
  have hsquare : [']'].filter isSquare = [']'] := rfl
  rw [htext, IsClosed, List.filter_append, hsquare, List.getLast?_concat, List.getLast?_concat]
  decide

theorem getLast?_of_suffix {start xs : List Char} (h : start <:+ xs) (hstart : start ≠ []) :
    xs.getLast? = start.getLast? := by
  obtain ⟨before, rfl⟩ := h
  rw [List.getLast?_append_of_ne_nil _ hstart]

theorem scan_append_of_isClosed {xs : List Char} (h : IsClosed xs) (ys : List Char) :
    scan (xs ++ ys) = scan xs ++ scan ys := by
  refine scan_append fun start hsuffix hstart hnone => ?_
  by_contra hsome
  obtain ⟨⟨k, inner, after⟩, hsome⟩ := Option.ne_none_iff_exists'.1 hsome
  obtain ⟨-, hlast | ⟨before, opened, rest, rfl, -, hsquare⟩⟩ := ends_inside hstart hnone hsome
  · exact h.1 ((getLast?_of_suffix hsuffix hstart).trans hlast)
  · obtain ⟨more, rfl⟩ := hsuffix
    have hopened : opened.filter isSquare = [] := by
      simp only [List.filter_eq_nil_iff]
      intro c hc
      simp [hsquare c (List.mem_append_left rest hc)]
    refine h.2 ?_
    simp [hopened, isSquare]

/-- Characters without a closing bracket do not complete anything. -/
theorem scan_append_of_not_mem (xs : List Char) {ys : List Char} (h : ']' ∉ ys) :
    scan (xs ++ ys) = scan xs ++ scan ys := by
  refine scan_append fun start _ hstart hnone => ?_
  by_contra hsome
  obtain ⟨⟨k, inner, after⟩, hsome⟩ := Option.ne_none_iff_exists'.1 hsome
  exact h (ends_inside hstart hnone hsome).1

theorem find?_isSquare_append {xs : List Char} (h : ∀ c ∈ xs, isSquare c = false) (ys : List Char) :
    (xs ++ ys).find? isSquare = ys.find? isSquare := by
  have hnone : xs.find? isSquare = none := List.find?_eq_none.2 fun c hc => by simp [h c hc]
  rw [List.find?_append, hnone, Option.none_or]

theorem find?_isSquare_bracket (k : Nat) (inner after : List Char) :
    ((Piece.bracket k inner).text ++ after).find? isSquare = some '[' := by
  have hbackslashes : ∀ c ∈ List.replicate k '\\', isSquare c = false := by
    intro c hc
    rw [List.eq_of_mem_replicate hc]
    rfl
  rw [Piece.text, List.append_assoc, List.append_assoc, find?_isSquare_append hbackslashes]
  rfl

/-- A bracket of the form of a tag is found behind any text, with the backslashes that the text ends
with. -/
theorem scan_append_bracket {xs inner : List Char} (hxs : xs.getLast? ≠ some '\\')
    (hinner : IsTagInner inner) (k : Nat) (after : List Char) :
    scan (xs ++ ((Piece.bracket k inner).text ++ after)) =
      scan xs ++ .bracket k inner :: scan after := by
  rw [← scan_bracket_append hinner]
  refine scan_append fun start hsuffix hstart hnone => ?_
  by_contra hsome
  obtain ⟨⟨k', inner', after'⟩, hsome⟩ := Option.ne_none_iff_exists'.1 hsome
  obtain ⟨-, hlast | ⟨before, opened, rest, -, hrest, hsquare⟩⟩ := ends_inside hstart hnone hsome
  · exact hxs ((getLast?_of_suffix hsuffix hstart).trans hlast)
  · -- The first bracket in what follows would have to be a closing one.
    have hfirst := congrArg (List.find? isSquare) hrest
    rw [find?_isSquare_append fun c hc => hsquare c (List.mem_append_right opened hc),
      find?_isSquare_bracket] at hfirst
    cases hfirst

/-- Every text is one that does not end in a backslash, followed by backslashes. -/
theorem exists_backslashes (cs : List Char) :
    ∃ xs k, cs = xs ++ List.replicate k '\\' ∧ xs.getLast? ≠ some '\\' := by
  induction cs using List.reverseRecOn with
  | nil => exact ⟨[], 0, rfl, by simp⟩
  | append_singleton cs c ih =>
    by_cases hc : c = '\\'
    · obtain ⟨xs, k, rfl, hxs⟩ := ih
      exact ⟨xs, k + 1, by rw [hc, List.append_assoc, ← List.replicate_succ'], hxs⟩
    · exact ⟨cs ++ [c], 0, by simp, by simpa using hc⟩

/-! ## Texts that say what they show -/

/-- Nothing in the text is read as anything but itself: it has no bracket of the form of a tag, no
backslash in front of an opening bracket, and nothing that moves on a terminal. -/
structure IsInert (cs : List Char) : Prop where
  noTag : ∀ inner, IsTagInner inner → ¬ (Piece.bracket 0 inner).text <:+: cs
  noEscape : ¬ ['\\', '['] <:+: cs
  noMovement : ∀ c ∈ cs, isMovement c = false

theorem scan_eq_map_plain_iff {cs : List Char} :
    scan cs = cs.map .plain ↔
      ∀ inner, IsTagInner inner → ¬ (Piece.bracket 0 inner).text <:+: cs := by
  constructor
  · rintro hscan inner hinner ⟨before, after, rfl⟩
    obtain ⟨xs, k, rfl, hxs⟩ := exists_backslashes before
    have htext : xs ++ List.replicate k '\\' ++ (Piece.bracket 0 inner).text ++ after =
        xs ++ ((Piece.bracket k inner).text ++ after) := by
      simp [Piece.text]
    rw [htext, scan_append_bracket hxs hinner] at hscan
    have hmem : Piece.bracket k inner ∈
        (xs ++ ((Piece.bracket k inner).text ++ after)).map Piece.plain := by
      rw [← hscan]
      simp
    obtain ⟨c, -, hc⟩ := List.mem_map.1 hmem
    cases hc
  · intro hnone
    fun_induction scan cs with
    | case1 => rfl
    | case2 c rest k inner after hsome _ ih =>
      obtain ⟨hinner, htext⟩ := bracket?_eq_some_iff.1 hsome
      refine absurd ?_ (hnone inner hinner)
      rw [htext]
      exact ⟨List.replicate k '\\', after, by simp [Piece.text]⟩
    | case3 c rest _ ih =>
      rw [List.map_cons, ih fun inner hinner hpart =>
        hnone inner hinner (hpart.trans (List.suffix_cons c rest).isInfix)]

/-! ## What is shown, and what the tags do -/

/-- What pieces show, if their tags are in order. -/
def shown : List Piece → List Char
  | [] => []
  | .plain '\\' :: .plain '[' :: rest => '[' :: shown rest
  | .plain c :: rest => c :: shown rest
  | .bracket backslashes inner :: rest =>
    List.replicate (backslashes / 2) '\\' ++
      (if backslashes % 2 = 1 then '[' :: inner ++ [']'] else []) ++ shown rest

/-- The tags that are open behind a piece, given those that are open in front of it. -/
def Piece.apply (position : Nat) (openTags : List OpenTag) : Piece → Except Fault (List OpenTag)
  | .plain _ => .ok openTags
  | .bracket backslashes inner =>
    if backslashes % 2 = 1 then .ok openTags else applyTag (position + backslashes) openTags inner

/-- The tags that are open behind pieces. -/
def applyTags (position : Nat) (openTags : List OpenTag) : List Piece → Except Fault (List OpenTag)
  | [] => .ok openTags
  | piece :: rest => do
    applyTags (position + piece.text.length) (← piece.apply position openTags) rest

theorem Piece.length_text_bracket (k : Nat) (inner : List Char) (position : Nat) :
    position + (Piece.bracket k inner).text.length = position + k + inner.length + 2 := by
  simp only [Piece.text, List.length_append, List.length_replicate, List.length_cons,
    List.length_nil]
  omega

/-- What is shown does not depend on the tags, which only decide whether there is a fault. -/
theorem renderPieces_eq (position : Nat) (openTags : List OpenTag) (pieces : List Piece) :
    renderPieces position openTags pieces =
      (applyTags position openTags pieces).map fun _ => shown pieces := by
  fun_induction renderPieces position openTags pieces with
  | case1 => rfl
  | case2 position openTags rest ih =>
    have htags : applyTags position openTags (.plain '\\' :: .plain '[' :: rest) =
        applyTags (position + 2) openTags rest := rfl
    rw [ih, shown, htags]
    cases applyTags (position + 2) openTags rest <;> rfl
  | case3 position openTags c rest hplain ih =>
    have htags : applyTags position openTags (.plain c :: rest) =
        applyTags (position + 1) openTags rest := rfl
    rw [ih, shown.eq_3 _ _ hplain, htags]
    cases applyTags (position + 1) openTags rest <;> rfl
  | case4 position openTags k inner rest next kept hk ih =>
    have htags : applyTags position openTags (.bracket k inner :: rest) =
        applyTags next openTags rest := by
      rw [applyTags, Piece.length_text_bracket, Piece.apply, if_pos hk]
      rfl
    rw [ih, shown, htags, if_pos hk]
    cases applyTags next openTags rest with
    | error fault => rfl
    | ok openTags => simp [bind, Except.bind, pure, Except.pure, Except.map, kept]
  | case5 position openTags k inner rest next kept hk ih =>
    rw [shown, applyTags, Piece.length_text_bracket, Piece.apply, if_neg hk, if_neg hk]
    cases applyTag (position + k) openTags inner with
    | error fault => rfl
    | ok openTags =>
      simp only [bind, Except.bind, ih]
      cases applyTags next openTags rest with
      | error fault => rfl
      | ok openTags => simp [pure, Except.pure, Except.map, kept]

theorem render_eq_ok_iff {s : String} {out : List Char} : render s = .ok out ↔
    (∃ openTags, applyTags 0 [] (scan s.toList) = .ok openTags) ∧
      sanitize (shown (scan s.toList)) = out := by
  rw [render, renderPieces_eq]
  cases applyTags 0 [] (scan s.toList) <;> simp [Except.map]

theorem render_eq_error {s : String} {fault : Fault}
    (h : applyTags 0 [] (scan s.toList) = .error fault) : render s = .error fault := by
  rw [render, renderPieces_eq, h]
  rfl

theorem applyTags_append (position : Nat) (openTags : List OpenTag) (xs ys : List Piece) :
    applyTags position openTags (xs ++ ys) =
      applyTags position openTags xs >>= fun openTags =>
        applyTags (position + (xs.flatMap Piece.text).length) openTags ys := by
  induction xs generalizing position openTags with
  | nil => rfl
  | cons piece rest ih =>
    rw [List.cons_append, applyTags, applyTags, bind_assoc]
    refine bind_congr fun openTags => ?_
    rw [ih, List.flatMap_cons, List.length_append, Nat.add_assoc]

theorem shown_append_bracket (xs : List Piece) (k : Nat) (inner : List Char) (rest : List Piece) :
    shown (xs ++ .bracket k inner :: rest) = shown xs ++ shown (.bracket k inner :: rest) := by
  fun_induction shown xs with
  | case1 => rfl
  | case2 more ih => simp [shown, ih]
  | case3 c more hplain ih =>
    rw [List.cons_append, shown, ih, List.cons_append]
    intro others hothers hc
    cases more with
    | nil => cases hothers
    | cons piece more =>
      obtain ⟨rfl, -⟩ := List.cons.inj hothers
      exact hplain more rfl hc
  | case4 k' inner' more ih => simp [shown, ih]

theorem length_shown_le (pieces : List Piece) :
    (shown pieces).length ≤ (pieces.flatMap Piece.text).length := by
  fun_induction shown pieces with
  | case1 => simp
  | case2 rest ih =>
    simp only [List.flatMap_cons, Piece.text, List.length_append, List.length_cons,
      List.length_nil]
    omega
  | case3 c rest _ ih =>
    simp only [List.flatMap_cons, Piece.text, List.length_append, List.length_cons,
      List.length_nil]
    omega
  | case4 k inner rest ih =>
    simp only [List.flatMap_cons, Piece.text, List.length_append, List.length_cons,
      List.length_nil, List.length_replicate]
    split
    · simp only [List.length_append, List.length_cons, List.length_nil]
      omega
    · simp only [List.length_nil]
      omega

/-- Pieces that show as much as is written are all plain, and none is an escaped bracket. -/
theorem eq_map_plain_of_length {pieces : List Piece}
    (h : (pieces.flatMap Piece.text).length ≤ (shown pieces).length) :
    pieces = (shown pieces).map .plain ∧ ¬ ['\\', '['] <:+: shown pieces := by
  fun_induction shown pieces with
  | case1 => simp
  | case2 rest ih =>
    have hrest := length_shown_le rest
    simp only [List.flatMap_cons, Piece.text, List.length_append, List.length_cons,
      List.length_nil] at h
    omega
  | case3 c rest hplain ih =>
    simp only [List.flatMap_cons, Piece.text, List.length_append, List.length_cons,
      List.length_nil] at h
    obtain ⟨hrest, hescape⟩ := ih (by omega)
    refine ⟨by rw [List.map_cons, ← hrest], fun hpart => ?_⟩
    rcases List.infix_cons_iff.1 hpart with hfront | hpart
    · obtain ⟨more, hmore⟩ := hfront
      obtain ⟨rfl, hshown⟩ := List.cons.inj hmore
      rw [← hshown] at hrest
      exact hplain _ hrest rfl
    · exact hescape hpart
  | case4 k inner rest ih =>
    have hrest := length_shown_le rest
    simp only [List.flatMap_cons, Piece.text, List.length_append, List.length_cons,
      List.length_nil, List.length_replicate] at h
    split at h
    · simp only [List.length_append, List.length_cons, List.length_nil] at h
      omega
    · simp only [List.length_nil] at h
      omega

theorem shown_map_plain {cs : List Char} (h : ¬ ['\\', '['] <:+: cs) :
    shown (cs.map .plain) = cs := by
  induction cs with
  | nil => rfl
  | cons c cs ih =>
    rw [List.map_cons, shown, ih fun hpart => h (hpart.trans (List.suffix_cons c cs).isInfix)]
    rintro more hmore rfl
    cases cs with
    | nil => cases hmore
    | cons d cs =>
      obtain rfl : d = '[' := by simpa using (List.cons.inj hmore).1
      exact h ⟨[], cs, rfl⟩

theorem applyTags_map_plain (position : Nat) (openTags : List OpenTag) (cs : List Char) :
    applyTags position openTags (cs.map .plain) = .ok openTags := by
  induction cs generalizing position with
  | nil => rfl
  | cons c cs ih => exact ih (position + 1)

/-! ## Texts that are shown as they are -/

theorem sanitize_append (xs ys : List Char) :
    sanitize (xs ++ ys) = sanitize xs ++ sanitize ys := List.filter_append xs ys

theorem length_sanitize_shown_scan_le (cs : List Char) :
    (sanitize (shown (scan cs))).length ≤ cs.length := by
  have hshown := length_shown_le (scan cs)
  rw [flatMap_text_scan] at hshown
  exact (List.length_filter_le _ _).trans hshown

/-- A text of which nothing gets lost is inert. -/
theorem isInert_of_length {cs : List Char}
    (h : cs.length ≤ (sanitize (shown (scan cs))).length) : IsInert cs := by
  have hsanitize : (sanitize (shown (scan cs))).length ≤ (shown (scan cs)).length :=
    List.length_filter_le _ _
  have hshown := length_shown_le (scan cs)
  rw [flatMap_text_scan] at hshown
  obtain ⟨hplain, hescape⟩ := eq_map_plain_of_length (show
    ((scan cs).flatMap Piece.text).length ≤ _ by rw [flatMap_text_scan]; omega)
  have hcs : shown (scan cs) = cs := by
    have htext := flatMap_text_scan cs
    rw [hplain] at htext
    simpa [List.flatMap_map, Piece.text] using htext
  rw [hcs] at hplain hescape hsanitize
  refine ⟨scan_eq_map_plain_iff.1 hplain, hescape, fun c hc => ?_⟩
  rw [hcs] at h
  have hall := List.length_filter_eq_length_iff.1 (le_antisymm hsanitize h) c hc
  simpa using hall

theorem IsInert.scan_eq {cs : List Char} (h : IsInert cs) : scan cs = cs.map .plain :=
  scan_eq_map_plain_iff.2 h.noTag

theorem isInert_iff {cs : List Char} : IsInert cs ↔
    scan cs = cs.map .plain ∧ ¬ ['\\', '['] <:+: cs ∧ cs.all (!isMovement ·) = true := by
  constructor
  · intro h
    exact ⟨h.scan_eq, h.noEscape, by simpa using h.noMovement⟩
  · rintro ⟨hscan, hescape, hmovement⟩
    exact ⟨scan_eq_map_plain_iff.1 hscan, hescape, by simpa using hmovement⟩

instance (cs : List Char) : Decidable (IsInert cs) := decidable_of_iff _ isInert_iff.symm

/-- A text without opening brackets. -/
theorem isInert_of_all {cs : List Char} (h : cs.all (fun c => c != '[' && !isMovement c) = true) :
    IsInert cs := by
  simp only [List.all_eq_true, Bool.and_eq_true, bne_iff_ne, Bool.not_eq_true'] at h
  have hbracket : '[' ∉ cs := fun hmem => (h '[' hmem).1 rfl
  exact ⟨fun _ _ hpart => hbracket (hpart.subset (by simp [Piece.text])),
    fun hpart => hbracket (hpart.subset (by simp)), fun c hc => (h c hc).2⟩

theorem IsInert.sanitize_eq {cs : List Char} (h : IsInert cs) : sanitize cs = cs := by
  refine List.filter_eq_self.2 fun c hc => ?_
  simp [h.noMovement c hc]

/-- Exactly the inert texts are shown as they are. -/
theorem render_eq_self_iff {s : String} : render s = .ok s.toList ↔ IsInert s.toList := by
  rw [render_eq_ok_iff]
  constructor
  · rintro ⟨-, hshown⟩
    exact isInert_of_length (by rw [hshown])
  · intro h
    rw [h.scan_eq, shown_map_plain h.noEscape]
    exact ⟨⟨[], applyTags_map_plain _ _ _⟩, h.sanitize_eq⟩

/-! ## Tags in pairs -/

/-- The name describes a style, with nothing around it, and is compared by the given name. -/
structure Names (name : List Char) (canonical : String) : Prop where
  inner : IsTagInner name
  opens : name.head? ≠ some '/'
  noParameters : '=' ∉ name
  trimmed : Text.trimEnd (Text.trimStart name) = name
  canonical : Report.canonicalName name = some canonical

instance (name : List Char) (canonical : String) : Decidable (Names name canonical) :=
  decidable_of_iff (IsTagInner name ∧ name.head? ≠ some '/' ∧ '=' ∉ name ∧
      Text.trimEnd (Text.trimStart name) = name ∧ Report.canonicalName name = some canonical)
    ⟨fun ⟨h₁, h₂, h₃, h₄, h₅⟩ => ⟨h₁, h₂, h₃, h₄, h₅⟩,
      fun ⟨h₁, h₂, h₃, h₄, h₅⟩ => ⟨h₁, h₂, h₃, h₄, h₅⟩⟩

theorem splitTag_of_not_mem {inner : List Char} (h : '=' ∉ inner) :
    splitTag inner = (inner, none) := by
  have htake : inner.takeWhile (· != '=') = inner := by
    refine List.takeWhile_eq_self_iff.2 fun c hc => ?_
    simpa using fun heq : c = '=' => h (heq ▸ hc)
  simp [splitTag, htake]

namespace Names

variable {name : List Char} {canonical : String}

theorem applyTag_eq (h : Names name canonical) (position : Nat) (openTags : List OpenTag) :
    applyTag position openTags name = .ok (⟨canonical, none⟩ :: openTags) := by
  unfold applyTag
  rw [splitTag_of_not_mem h.noParameters]
  split
  · rename_i heq
    obtain ⟨rfl, -⟩ := Prod.mk.inj heq
    exact absurd rfl h.opens
  · rename_i heq
    obtain ⟨rfl, rfl⟩ := Prod.mk.inj heq
    simp [compareName, h.canonical, bind, Except.bind, pure, Except.pure]

theorem closing (h : Names name canonical) : IsTagInner ('/' :: name) := by
  refine ⟨rfl, List.forall_mem_cons.2 ⟨by decide, h.inner.2⟩⟩

/-- What a tag closes is found by its name. -/
theorem applyTag_slash (h : Names name canonical) (position : Nat) (openTags : List OpenTag) :
    applyTag position openTags ('/' :: name) =
      match openTags.find? (·.name == canonical) with
      | none => .error (.unmatched (String.ofList ('/' :: name)) position)
      | some tag => (close tag).map fun _ => openTags.eraseP (·.name == canonical) := by
  have hname : '=' ∉ '/' :: name := by simpa using h.noParameters
  have hsome : Text.trimStart name ≠ [] := by
    intro hnil
    have hempty := h.trimmed
    rw [hnil] at hempty
    have hstarts := h.inner.1
    rw [← hempty] at hstarts
    cases hstarts
  unfold applyTag
  rw [splitTag_of_not_mem hname]
  simp only [hsome, h.trimmed, compareName, h.canonical]
  rfl

/-- A tag of the same name closes the last one. -/
theorem applyTag_closing (h : Names name canonical) (position : Nat) (openTags : List OpenTag) :
    applyTag position (⟨canonical, none⟩ :: openTags) ('/' :: name) = .ok openTags := by
  rw [h.applyTag_slash]
  simp [close, Except.map]

/-- A tag that closes a name under which nothing is open. -/
theorem applyTag_unopened (h : Names name canonical) {openTags : List OpenTag}
    (hopen : ∀ tag ∈ openTags, tag.name ≠ canonical) (position : Nat) :
    applyTag position openTags ('/' :: name) =
      .error (.unmatched (String.ofList ('/' :: name)) position) := by
  have hnone : openTags.find? (·.name == canonical) = none := by
    simpa [List.find?_eq_none] using hopen
  rw [h.applyTag_slash, hnone]

end Names

/-- A tag without a name closes the last one. -/
theorem applyTag_close (position : Nat) (openTags : List OpenTag) (canonical : String) :
    applyTag position (⟨canonical, none⟩ :: openTags) ['/'] = .ok openTags := rfl

/-- The text can stand in front of any other: it does not end inside of a bracket, and it closes the
tags that it opens. -/
structure IsBalanced (cs : List Char) : Prop where
  closed : IsClosed cs
  applyTags : ∀ position openTags, applyTags position openTags (scan cs) = .ok openTags

theorem IsBalanced.applyTags_append {cs : List Char} (h : IsBalanced cs) (position : Nat)
    (openTags : List OpenTag) (rest : List Char) :
    Markup.applyTags position openTags (scan (cs ++ rest)) =
      Markup.applyTags (position + cs.length) openTags (scan rest) := by
  rw [scan_append_of_isClosed h.closed, Markup.applyTags_append, h.applyTags, flatMap_text_scan]
  rfl

theorem IsBalanced.append {xs ys : List Char} (hxs : IsBalanced xs) (hys : IsBalanced ys) :
    IsBalanced (xs ++ ys) := by
  refine ⟨⟨?_, ?_⟩, fun position openTags => ?_⟩
  · rw [List.getLast?_append]
    cases hlast : ys.getLast? with
    | none => simpa using hxs.closed.1
    | some c => simpa [hlast] using hys.closed.1
  · rw [List.filter_append, List.getLast?_append]
    cases hlast : (ys.filter isSquare).getLast? with
    | none => simpa using hxs.closed.2
    | some c => simpa [hlast] using hys.closed.2
  · rw [hxs.applyTags_append, hys.applyTags]

/-- A text without square brackets. -/
theorem scan_of_forall_not_isSquare {cs : List Char} (h : ∀ c ∈ cs, isSquare c = false) :
    scan cs = cs.map .plain := by
  refine scan_eq_map_plain_iff.2 fun inner _ hpart => ?_
  have hmem : ']' ∈ cs := hpart.subset (by simp [Piece.text])
  exact absurd (h _ hmem) (by decide)

theorem isBalanced_of_forall {cs : List Char} (h : ∀ c ∈ cs, isSquare c = false)
    (hlast : cs.getLast? ≠ some '\\') : IsBalanced cs := by
  have hfilter : cs.filter isSquare = [] := List.filter_eq_nil_iff.2 fun c hc => by simp [h c hc]
  refine ⟨⟨hlast, by simp [hfilter]⟩, fun position openTags => ?_⟩
  rw [scan_of_forall_not_isSquare h]
  exact applyTags_map_plain _ _ _

/-- A text that starts by closing what is not open cannot be shown, whatever it goes on with. -/
theorem applyTags_unopened {name : List Char} {canonical : String} (hname : Names name canonical)
    {openTags : List OpenTag} (hopen : ∀ tag ∈ openTags, tag.name ≠ canonical) (position : Nat)
    (rest : List Char) :
    applyTags position openTags (scan ((Piece.bracket 0 ('/' :: name)).text ++ rest)) =
      .error (.unmatched (String.ofList ('/' :: name)) position) := by
  have happly : (Piece.bracket 0 ('/' :: name)).apply position openTags =
      .error (.unmatched (String.ofList ('/' :: name)) position) :=
    hname.applyTag_unopened hopen position
  rw [scan_bracket_append hname.closing, applyTags, happly]
  rfl

/-- Pieces that leave the open tags as they are, between a tag and one that closes it. -/
theorem applyTags_enclosed {name closing : List Char} {canonical : String}
    (hname : Names name canonical)
    (hclosing : ∀ position openTags,
      applyTag position (⟨canonical, none⟩ :: openTags) closing = .ok openTags)
    {pieces : List Piece}
    (hpieces : ∀ position openTags, applyTags position openTags pieces = .ok openTags)
    (position : Nat) (openTags : List OpenTag) :
    applyTags position openTags (.bracket 0 name :: (pieces ++ [.bracket 0 closing])) =
      .ok openTags := by
  have hopen : (Piece.bracket 0 name).apply position openTags =
      .ok (⟨canonical, none⟩ :: openTags) := hname.applyTag_eq _ _
  have hclose (position : Nat) :
      (Piece.bracket 0 closing).apply position (⟨canonical, none⟩ :: openTags) = .ok openTags :=
    hclosing _ _
  rw [applyTags, hopen]
  show applyTags _ _ (pieces ++ _) = _
  rw [applyTags_append, hpieces]
  show applyTags _ _ [_] = _
  rw [applyTags, hclose]
  rfl

theorem isBalanced_enclosed {name closing body : List Char} {canonical : String}
    (hname : Names name canonical) (hinner : IsTagInner closing)
    (hclosing : ∀ position openTags,
      applyTag position (⟨canonical, none⟩ :: openTags) closing = .ok openTags)
    (hbody : IsBalanced body) :
    IsBalanced ((Piece.bracket 0 name).text ++ (body ++ (Piece.bracket 0 closing).text)) := by
  refine ⟨?_, fun position openTags => ?_⟩
  · rw [← List.append_assoc]
    exact isClosed_append_bracket _ _ _
  · have hend := scan_bracket_append hinner 0 []
    rw [List.append_nil, scan_nil] at hend
    rw [scan_bracket_append hname.inner, scan_append_of_isClosed hbody.closed, hend]
    exact applyTags_enclosed hname hclosing hbody.applyTags _ _

/-! ## What balanced texts show -/

theorem shown_append {xs : List Piece} (h : xs.getLast? ≠ some (.plain '\\')) (ys : List Piece) :
    shown (xs ++ ys) = shown xs ++ shown ys := by
  have htail {piece : Piece} {more : List Piece}
      (h : (piece :: more).getLast? ≠ some (.plain '\\')) :
      more.getLast? ≠ some (.plain '\\') :=
    fun hmore => h (by rw [List.getLast?_cons, hmore]; rfl)
  fun_induction shown xs with
  | case1 => rfl
  | case2 more ih => simp [shown, ih (htail (htail h))]
  | case3 c more hplain ih =>
    rw [List.cons_append, shown, ih (htail h), List.cons_append]
    rintro others hothers rfl
    cases more with
    | nil => exact h rfl
    | cons piece more =>
      obtain ⟨rfl, -⟩ := List.cons.inj hothers
      exact hplain more rfl rfl
  | case4 k inner more ih => simp [shown, ih (htail h)]

/-- The text can stand in front of any other and shows the given characters. -/
structure Shows (cs out : List Char) : Prop where
  balanced : IsBalanced cs
  shown : sanitize (shown (scan cs)) = out

theorem Shows.render_eq {s : String} {out : List Char} (h : Shows s.toList out) :
    render s = .ok out :=
  render_eq_ok_iff.2 ⟨⟨[], h.balanced.applyTags 0 []⟩, h.shown⟩

theorem Shows.append {xs ys outs outs' : List Char} (hxs : Shows xs outs) (hys : Shows ys outs') :
    Shows (xs ++ ys) (outs ++ outs') := by
  refine ⟨hxs.balanced.append hys.balanced, ?_⟩
  have hlast : (scan xs).getLast? ≠ some (.plain '\\') := by
    intro hlast
    obtain ⟨front, hfront⟩ := List.getLast?_eq_some_iff.1 hlast
    have hxs' := flatMap_text_scan xs
    rw [hfront, List.flatMap_append] at hxs'
    refine hxs.balanced.closed.1 ?_
    rw [← hxs']
    exact List.getLast?_concat
  rw [scan_append_of_isClosed hxs.balanced.closed, shown_append hlast, sanitize_append, hxs.shown,
    hys.shown]

/-- A text without square brackets shows itself. -/
theorem shows_of_forall {cs : List Char} (h : ∀ c ∈ cs, isSquare c = false)
    (hlast : cs.getLast? ≠ some '\\') (hmovement : ∀ c ∈ cs, isMovement c = false) :
    Shows cs cs := by
  refine ⟨isBalanced_of_forall h hlast, ?_⟩
  have hescape : ¬ ['\\', '['] <:+: cs := fun hpart =>
    absurd (h '[' (hpart.subset (by simp))) (by decide)
  rw [scan_of_forall_not_isSquare h, shown_map_plain hescape]
  exact List.filter_eq_self.2 fun c hc => by simp [hmovement c hc]

/-- The tags around a text are not shown. -/
theorem shows_enclosed {name closing body out : List Char} {canonical : String}
    (hname : Names name canonical) (hinner : IsTagInner closing)
    (hclosing : ∀ position openTags,
      applyTag position (⟨canonical, none⟩ :: openTags) closing = .ok openTags)
    (hbody : Shows body out) :
    Shows ((Piece.bracket 0 name).text ++ (body ++ (Piece.bracket 0 closing).text)) out := by
  refine ⟨isBalanced_enclosed hname hinner hclosing hbody.balanced, ?_⟩
  have hend := scan_bracket_append hinner 0 []
  rw [List.append_nil, scan_nil] at hend
  rw [scan_bracket_append hname.inner, scan_append_of_isClosed hbody.balanced.closed, hend, shown,
    shown_append_bracket]
  simpa [shown] using hbody.shown

/-! ## Text between tags -/

section

variable {name xs : List Char} {canonical : String}

theorem scan_enclosed (hname : Names name canonical) (hxs : xs.getLast? ≠ some '\\') (k : Nat) :
    scan ((Piece.bracket 0 name).text ++
        (xs ++ List.replicate k '\\' ++ (Piece.bracket 0 ('/' :: name)).text)) =
      .bracket 0 name :: (scan xs ++ [.bracket k ('/' :: name)]) := by
  have htext : xs ++ List.replicate k '\\' ++ (Piece.bracket 0 ('/' :: name)).text =
      xs ++ ((Piece.bracket k ('/' :: name)).text ++ []) := by
    simp [Piece.text]
  rw [scan_bracket_append hname.inner, htext, scan_append_bracket hxs hname.closing, scan_nil]

theorem shown_enclosed (pieces : List Piece) (k : Nat) :
    shown (.bracket 0 name :: (pieces ++ [.bracket k ('/' :: name)])) =
      shown pieces ++ (List.replicate (k / 2) '\\' ++
        if k % 2 = 1 then '[' :: '/' :: name ++ [']'] else []) := by
  rw [shown, shown_append_bracket, shown]
  simp [shown]

/-- If a text that ends in backslashes is shown as it is in front of a closing tag, then there are
no backslashes. -/
theorem eq_zero_of_sanitize {k : Nat}
    (h : sanitize (shown (scan xs) ++ (List.replicate (k / 2) '\\' ++
        if k % 2 = 1 then '[' :: '/' :: name ++ [']'] else [])) = xs ++ List.replicate k '\\') :
    k = 0 := by
  by_cases hk : k % 2 = 1
  · -- The closing tag is shown at the end, where the text has a backslash.
    have hleft : sanitize (shown (scan xs) ++ (List.replicate (k / 2) '\\' ++
        ('[' :: '/' :: name ++ [']']))) =
          sanitize (shown (scan xs) ++ (List.replicate (k / 2) '\\' ++ '[' :: '/' :: name)) ++
            [']'] := by
      simp [sanitize, isMovement]
    have hright : xs ++ List.replicate k '\\' = xs ++ List.replicate (k - 1) '\\' ++ ['\\'] := by
      rw [List.append_assoc, ← List.replicate_succ', Nat.sub_add_cancel (by omega)]
    rw [if_pos hk, hleft, hright] at h
    have hlast := congrArg List.getLast? h
    rw [List.getLast?_concat, List.getLast?_concat] at hlast
    cases hlast
  · -- Only half of the backslashes are shown.
    have hlength := congrArg List.length h
    have hxs := length_sanitize_shown_scan_le xs
    have hhalf : (sanitize (List.replicate (k / 2) '\\')).length ≤ k / 2 :=
      (List.length_filter_le _ _).trans_eq List.length_replicate
    rw [if_neg hk, List.append_nil, sanitize_append, List.length_append, List.length_append,
      List.length_replicate] at hlength
    omega

/-- A text between tags is shown as it is exactly if it is inert and does not end in a backslash,
which would act on the closing tag. -/
theorem render_enclosed_iff {s : String} {label : List Char} (hname : Names name canonical)
    (hs : s.toList =
      (Piece.bracket 0 name).text ++ (label ++ (Piece.bracket 0 ('/' :: name)).text)) :
    render s = .ok label ↔ IsInert label ∧ label.getLast? ≠ some '\\' := by
  rw [render_eq_ok_iff, hs]
  constructor
  · obtain ⟨xs, k, rfl, hxs⟩ := exists_backslashes label
    rw [scan_enclosed hname hxs, shown_enclosed]
    rintro ⟨-, hshown⟩
    obtain rfl := eq_zero_of_sanitize hshown
    simp only [List.replicate_zero, List.append_nil] at hshown ⊢
    exact ⟨isInert_of_length (by rw [← congrArg List.length hshown]; simp), hxs⟩
  · rintro ⟨hinert, hlast⟩
    have hscan := scan_enclosed hname hlast 0
    rw [List.replicate_zero, List.append_nil, hinert.scan_eq] at hscan
    rw [hscan, shown_enclosed, shown_map_plain hinert.noEscape]
    refine ⟨⟨[], applyTags_enclosed hname hname.applyTag_closing ?_ _ _⟩, ?_⟩
    · exact fun position openTags => applyTags_map_plain position openTags label
    · simpa using hinert.sanitize_eq

end

/-! ## Escaping -/

/-- A piece behind an odd number of backslashes if it is a bracket. -/
def Piece.guarded : Piece → Piece
  | .plain c => .plain c
  | .bracket backslashes inner => .bracket (2 * backslashes + 1) inner

theorem escapePiece_eq (piece : Piece) : escapePiece piece = piece.guarded.text := by
  cases piece <;> simp [escapePiece, Piece.guarded, Piece.text]

/-- The text with each bracket of the form of a tag guarded. -/
def guardedText (cs : List Char) : List Char := (scan cs).flatMap escapePiece

@[simp] theorem guardedText_nil : guardedText [] = [] := by rw [guardedText, scan_nil]; rfl

theorem guardedText_cons {c : Char} {rest : List Char} (h : bracket? (c :: rest) = none) :
    guardedText (c :: rest) = c :: guardedText rest := by
  rw [guardedText, scan_of_bracket?_eq_none h]
  rfl

/-- What stands in front of the first bracket is not changed, if that is a closing one. -/
theorem exists_of_guardedText {cs inner after : List Char}
    (hinner : ∀ c ∈ inner, isSquare c = false)
    (h : guardedText cs = inner ++ ']' :: after) : ∃ more, cs = inner ++ ']' :: more := by
  induction cs generalizing inner with
  | nil => simp at h
  | cons c rest ih =>
    cases hbracket : bracket? (c :: rest) with
    | some found =>
      -- The first bracket is an opening one.
      obtain ⟨k, found, more⟩ := found
      obtain ⟨hfound, htext⟩ := bracket?_eq_some_iff.1 hbracket
      rw [htext, guardedText, scan_bracket_append hfound, List.flatMap_cons, escapePiece_eq] at h
      have hfirst := congrArg (List.find? isSquare) h
      rw [find?_isSquare_append hinner, Piece.guarded, find?_isSquare_bracket] at hfirst
      cases hfirst
    | none =>
      rw [guardedText_cons hbracket] at h
      cases inner with
      | nil =>
        obtain ⟨rfl, -⟩ := List.cons.inj h
        exact ⟨rest, rfl⟩
      | cons d inner =>
        obtain ⟨rfl, hrest⟩ := List.cons.inj h
        obtain ⟨more, rfl⟩ := ih (fun e he => hinner e (List.mem_cons_of_mem c he)) hrest
        exact ⟨more, rfl⟩

/-- Guarding makes no new brackets of the form of a tag. -/
theorem bracket?_guardedText {cs : List Char} (h : bracket? cs = none) :
    bracket? (guardedText cs) = none := by
  induction cs with
  | nil => simp [bracket?]
  | cons c rest ih =>
    rw [guardedText_cons h]
    by_cases hbackslash : c = '\\'
    · subst hbackslash
      rw [bracket?, Option.map_eq_none_iff] at h ⊢
      exact ih h
    · by_cases hopening : c = '['
      · subst hopening
        rw [bracket?, Option.map_eq_none_iff] at h ⊢
        by_contra hsome
        obtain ⟨⟨inner, after⟩, hsome⟩ := Option.ne_none_iff_exists'.1 hsome
        obtain ⟨hinner, htext⟩ := tagInner?_eq_some_iff.1 hsome
        obtain ⟨more, hmore⟩ := exists_of_guardedText hinner.2 htext
        rw [tagInner?_eq_some_iff.2 ⟨hinner, hmore⟩] at h
        cases h
      · rw [bracket?]
        · simpa using hbackslash
        · simpa using hopening

theorem scan_guardedText (cs : List Char) :
    scan (guardedText cs) = (scan cs).map Piece.guarded := by
  fun_induction scan cs with
  | case1 => simp
  | case2 c rest k inner after hsome _ ih =>
    obtain ⟨hinner, htext⟩ := bracket?_eq_some_iff.1 hsome
    have hguarded : guardedText (c :: rest) =
        (Piece.bracket (2 * k + 1) inner).text ++ guardedText after := by
      rw [htext, guardedText, scan_bracket_append hinner, List.flatMap_cons, escapePiece_eq]
      rfl
    rw [hguarded, scan_bracket_append hinner, ih]
    rfl
  | case3 c rest hnone ih =>
    have hguarded := bracket?_guardedText hnone
    rw [guardedText_cons hnone] at hguarded ⊢
    rw [scan_of_bracket?_eq_none hguarded, ih]
    rfl

theorem applyTags_map_guarded (position : Nat) (openTags : List OpenTag) (pieces : List Piece) :
    applyTags position openTags (pieces.map Piece.guarded) = .ok openTags := by
  induction pieces generalizing position with
  | nil => rfl
  | cons piece rest ih =>
    have happly : piece.guarded.apply position openTags = .ok openTags := by
      cases piece with
      | plain c => rfl
      | bracket k inner => exact if_pos (by omega)
    rw [List.map_cons, applyTags, happly]
    exact ih _

/-- What is escaped has no tags, so that it leaves those that are open as they are. -/
theorem applyTags_escape (position : Nat) (openTags : List OpenTag) (s : String) :
    applyTags position openTags (scan (escape s).toList) = .ok openTags := by
  have hguarded := applyTags_map_guarded position openTags (scan s.toList)
  rw [← scan_guardedText] at hguarded
  have hclose : closeBackslash (guardedText s.toList) = guardedText s.toList ∨
      closeBackslash (guardedText s.toList) = guardedText s.toList ++ ['\\'] := by
    unfold closeBackslash
    split
    · exact .inl rfl
    · exact .inr rfl
    · exact .inl rfl
  rw [escape, String.toList_ofList, ← guardedText]
  rcases hclose with hclose | hclose
  · rw [hclose, hguarded]
  · have hscan : scan ['\\'] = [.plain '\\'] := by rw [scan_of_bracket?_eq_none rfl, scan_nil]
    rw [hclose, scan_append_of_not_mem _ (by decide), applyTags_append, hguarded, hscan]
    rfl

/-- A bracket of the form of a tag is escaped by one backslash. -/
theorem toList_escape_bracket {inner : List Char} (hinner : IsTagInner inner) {s : String}
    (hs : s.toList = (Piece.bracket 0 inner).text) :
    (escape s).toList = (Piece.bracket 1 inner).text := by
  have hscan := scan_bracket_append hinner 0 []
  rw [List.append_nil, scan_nil, ← hs] at hscan
  rw [escape, String.toList_ofList, hscan]
  simp [escapePiece, closeBackslash, Piece.text]

theorem isBalanced_escape_bracket {inner : List Char} (hinner : IsTagInner inner) {s : String}
    (hs : s.toList = (Piece.bracket 0 inner).text) : IsBalanced (escape s).toList := by
  refine ⟨?_, fun position openTags => applyTags_escape position openTags s⟩
  rw [toList_escape_bracket hinner hs]
  exact isClosed_append_bracket [] 1 inner

end MemoAudit.Markup
