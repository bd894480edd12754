import Mathlib
import MemoAudit.Text.Lowercase

/-!
# Words in lower case

Texts are compared with words of small letters in any case.  Lower case is defined by a table of
Unicode, but for such a comparison only the capitals of ASCII matter: nothing else has a plain small
letter as its lower case (`Text.lowerChar_eq_iff`), the sign for kelvin apart, whose lower case is
`k`.  So the lower case of a text is a word without `k` exactly if the text is the word in any case
of ASCII letters (`Text.lower_eq_iff`).
-/

namespace MemoAudit

namespace Text

/-- A small letter of ASCII, but not the `k`, which is also the lower case of the sign for
kelvin. -/
def IsPlainSmall (c : Char) : Prop := 97 ≤ c.toNat ∧ c.toNat ≤ 122 ∧ c.toNat ≠ 107

instance (c : Char) : Decidable (IsPlainSmall c) := inferInstanceAs (Decidable (_ ∧ _ ∧ _))

/-- Beyond ASCII no letter has a plain small letter as its lower case. -/
theorem lowerShifts_tail : lowerShifts.tail.all fun run =>
    128 ≤ run.first && (128 ≤ (run.first : Int) + run.distance ||
      (run.first == 0x212A && run.last == 0x212A && run.distance == -8383)) := by
  decide

theorem toNat_toLower (c : Char) :
    c.toLower.toNat = if 65 ≤ c.toNat ∧ c.toNat ≤ 90 then c.toNat + 32 else c.toNat := by
  have hcapital : c.val ≥ 'A'.val ∧ c.val ≤ 'Z'.val ↔ 65 ≤ c.toNat ∧ c.toNat ≤ 90 := by
    rw [ge_iff_le, UInt32.le_iff_toNat_le, UInt32.le_iff_toNat_le]
    rfl
  unfold Char.toLower
  split
  · rename_i h
    rw [if_pos (hcapital.1 h)]
    have hbound := hcapital.1 h
    show (c.val + 32).toNat = c.val.toNat + 32
    change 65 ≤ c.val.toNat ∧ c.val.toNat ≤ 90 at hbound
    rw [UInt32.toNat_add]
    exact Nat.mod_eq_of_lt (show c.val.toNat + 32 < 2 ^ 32 by omega)
  · rename_i h
    rw [if_neg (mt hcapital.2 h)]

/-- The lower case of a character is a plain small letter only in ASCII. -/
theorem lowerChar_eq_iff {c d : Char} (hd : IsPlainSmall d) :
    (CaseShift.find? lowerShifts c).getD c = d ↔ c.toLower = d := by
  obtain ⟨hlow, hhigh, hk⟩ := hd
  rw [← Char.toNat_inj, ← Char.toNat_inj (c := c.toLower), toNat_toLower]
  have htable : lowerShifts = ⟨0x41, 0x5A, 1, 32⟩ :: lowerShifts.tail := rfl
  rw [CaseShift.find?, htable, List.find?_cons]
  by_cases hcapital : 65 ≤ c.toNat ∧ c.toNat ≤ 90
  · have hcovers : CaseShift.covers ⟨0x41, 0x5A, 1, 32⟩ c.toNat = true := by
      simp [CaseShift.covers, hcapital, Nat.mod_one]
    have hvalid : (c.toNat + 32).isValidChar := .inl (by omega)
    have hcode : ((c.toNat : Int) + 32).toNat = c.toNat + 32 := by omega
    rw [hcovers, if_pos hcapital]
    simp only [Option.map_some, Option.getD_some]
    rw [hcode, Char.toNat_ofNat, if_pos hvalid]
  · have hcovers : CaseShift.covers ⟨0x41, 0x5A, 1, 32⟩ c.toNat = false := by
      simp only [CaseShift.covers, Bool.and_eq_false_iff, decide_eq_false_iff_not]
      omega
    rw [hcovers, if_neg hcapital]
    dsimp only
    cases hrun : lowerShifts.tail.find? (·.covers c.toNat) with
    | none => rfl
    | some run =>
      have hmem := List.mem_of_find?_eq_some hrun
      have hcovered := List.find?_some hrun
      have hresult := List.all_eq_true.1 lowerShifts_tail run hmem
      simp only [CaseShift.covers, Bool.and_eq_true, decide_eq_true_eq] at hcovered
      simp only [Bool.and_eq_true, Bool.or_eq_true, decide_eq_true_eq, beq_iff_eq] at hresult
      simp only [Option.map_some, Option.getD_some, Char.toNat_ofNat]
      split <;> omega

/-- Apart from the dotted I, a character has one character for its lower case, which is a plain
small letter only in ASCII. -/
theorem exists_lowerFrom_cons {c : Char} (hc : c ≠ '\u0130') (before rest : List Char) :
    ∃ e, lowerFrom before (c :: rest) = e :: lowerFrom (c :: before) rest ∧
      ∀ d, IsPlainSmall d → (e = d ↔ c.toLower = d) := by
  by_cases hsigma : c = 'Σ'
  · subst hsigma
    have hnot {e d : Char} (he : ¬ IsPlainSmall e) (hd : IsPlainSmall d) : e ≠ d :=
      fun heq => he (heq ▸ hd)
    have hsmall : ¬ IsPlainSmall (Char.toLower 'Σ') := by decide
    by_cases hends : besideLetter before && !besideLetter rest
    · refine ⟨'ς', by simp [lowerFrom, hends], fun d hd => ?_⟩
      exact iff_of_false (hnot (by decide) hd) (hnot hsmall hd)
    · refine ⟨'σ', by simp [lowerFrom, hends], fun d hd => ?_⟩
      exact iff_of_false (hnot (by decide) hd) (hnot hsmall hd)
  · refine ⟨_, ?_, fun d hd => lowerChar_eq_iff hd⟩
    simp [lowerFrom, lowerChar, hsigma, hc]

/-- A text in lower case is a word of plain small letters only if it was one of ASCII letters. -/
theorem lower_eq_iff {word : List Char} (hword : ∀ c ∈ word, IsPlainSmall c) (cs : List Char) :
    lower cs = word ↔ cs.map Char.toLower = word := by
  suffices h : ∀ before, lowerFrom before cs = word ↔ cs.map Char.toLower = word from h []
  induction cs generalizing word with
  | nil => simp [lowerFrom]
  | cons c rest ih =>
    intro before
    by_cases hc : c = '\u0130'
    · -- The dot above stands by itself in lower case, and no word has it.
      subst hc
      have hdot : ¬ IsPlainSmall '\u0307' := by decide
      have hcapital : ¬ IsPlainSmall (Char.toLower '\u0130') := by decide
      constructor
      · rintro rfl
        exact absurd (hword '\u0307' (by simp [lowerFrom, lowerChar])) hdot
      · rintro rfl
        exact absurd (hword _ (by simp)) hcapital
    · obtain ⟨e, hcons, he⟩ := exists_lowerFrom_cons hc before rest
      rw [hcons, List.map_cons]
      cases word with
      | nil => simp
      | cons d word =>
        obtain ⟨hd, hrest⟩ := List.forall_mem_cons.1 hword
        rw [List.cons.injEq, List.cons.injEq, he d hd, ih hrest]

end Text

end MemoAudit
