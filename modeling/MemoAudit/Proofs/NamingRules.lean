import MemoAudit.Proofs.Correction

/-!
# The naming rules, declaratively

A style is defined by the list of names that it offers for a method, from which repetitions are then
dropped.  To say which variables it accepts one would rather not go through that list, in which the
name of the method, the name with one more underscore and the name with one less stand side by side
and may coincide.  `Style.Admits` says it by equations between the bare name of the variable and the
base name of the method, and `Style.accepts_iff_admits` that this is what the list amounts to, for
all names whatsoever.

The list without its repetitions is written out in `Style.candidates_eq`.  A name never equals
itself with underscores put in front, so the only entry that can be a repetition is the name with
one underscore less, and it is one exactly if there is no underscore to be dropped.
-/

namespace MemoAudit

/-! ## Underscores in front -/

/-- The name starts with an underscore. -/
def HasUnderscore (name : String) : Prop := ∃ rest, name = "_" ++ rest

theorem underscored_eq (name : String) : underscored name = "_" ++ name := by
  simp [underscored]

/-- Something in front makes another name of it. -/
theorem ne_append_self {front : String} (h : front ≠ "") (name : String) :
    name ≠ front ++ name := by
  rw [Ne, ← String.toList_inj, String.toList_append, List.self_eq_append_left]
  simpa using h

theorem ne_underscore_append (name : String) : name ≠ "_" ++ name :=
  ne_append_self (by decide) name

theorem ne_underscore_append_append (name : String) : name ≠ "_" ++ ("_" ++ name) := by
  rw [← String.append_assoc]
  exact ne_append_self (by decide) name

theorem withoutUnderscore_append (rest : String) : withoutUnderscore ("_" ++ rest) = rest := by
  simp [withoutUnderscore]

theorem isUnderscored_iff {name : String} : isUnderscored name = true ↔ HasUnderscore name := by
  constructor
  · intro h
    obtain ⟨tail, htail⟩ : ∃ tail, name.toList = '_' :: tail := by
      cases hname : name.toList with
      | nil => simp [isUnderscored, hname] at h
      | cons c tail =>
        obtain rfl : c = '_' := by simpa [isUnderscored, hname] using h
        exact ⟨tail, rfl⟩
    exact ⟨String.ofList tail, by simp [← String.toList_inj, htail]⟩
  · rintro ⟨rest, rfl⟩
    simp [isUnderscored]

theorem withoutUnderscore_eq_self {name : String} (h : ¬ HasUnderscore name) :
    withoutUnderscore name = name := by
  rw [← isUnderscored_iff] at h
  unfold withoutUnderscore
  split
  · rename_i rest hname
    simp [isUnderscored, hname] at h
  · rfl

namespace Style

/-! ## The names that are offered -/

/-- The names that a method accepts, with no repetitions left to be dropped: one more than usual if
the base name of the method starts with an underscore. -/
theorem candidates_eq (style : Style) (method : String) :
    style.candidates method =
      match style, isUnderscored (baseName method) with
      | .disallowed, false => [baseName method]
      | .disallowed, true => [baseName method, withoutUnderscore (baseName method)]
      | .required, false => ["_" ++ baseName method]
      | .required, true => ["_" ++ baseName method, baseName method]
      | .optional, false => [baseName method, "_" ++ baseName method]
      | .optional, true =>
        [baseName method, "_" ++ baseName method, withoutUnderscore (baseName method)] := by
  unfold candidates
  simp only [underscored_eq]
  generalize baseName method = base
  by_cases hbase : HasUnderscore base
  · obtain ⟨rest, rfl⟩ := hbase
    have hmore := ne_underscore_append ("_" ++ rest)
    have hless := ne_underscore_append rest
    have hboth := ne_underscore_append_append rest
    rw [isUnderscored_iff.2 ⟨rest, rfl⟩, withoutUnderscore_append]
    cases style with
    | disallowed => simp [List.eraseDups_cons, hless]
    | required => simp [List.eraseDups_cons, hmore]
    | optional => simp [List.eraseDups_cons, hmore.symm, hless, hboth]
  · have hmore := ne_underscore_append base
    rw [Bool.eq_false_iff.2 (mt isUnderscored_iff.1 hbase), withoutUnderscore_eq_self hbase]
    cases style with
    | disallowed => simp [List.eraseDups_cons]
    | required => rfl
    | optional => simp [List.eraseDups_cons, hmore.symm]

theorem nodup_candidates (style : Style) (method : String) : (style.candidates method).Nodup := by
  rw [candidates_eq]
  generalize baseName method = base
  cases hbase : isUnderscored base with
  | false =>
    have hmore := ne_underscore_append base
    cases style <;> simp [hmore]
  | true =>
    obtain ⟨rest, rfl⟩ := isUnderscored_iff.1 hbase
    have hmore := ne_underscore_append ("_" ++ rest)
    have hless := ne_underscore_append rest
    have hboth := ne_underscore_append_append rest
    rw [withoutUnderscore_append]
    cases style with
    | disallowed => simp [hless.symm]
    | required => simp [hmore.symm]
    | optional => simp [hmore, hless.symm, hboth.symm]

theorem head?_candidates (style : Style) (method : String) :
    (style.candidates method).head? = some (style.suggested method) := by
  rw [candidates_eq]
  cases isUnderscored (baseName method) <;> cases style <;> simp [suggested, underscored_eq]

/-! ## Acceptance -/

/-- The variables that a style allows, given the base name of the method and the bare name of the
variable. -/
def Admits (style : Style) (base bare : String) : Prop :=
  match style with
  | .disallowed => bare = base ∨ "_" ++ bare = base
  | .required => bare = "_" ++ base ∨ bare = base ∧ HasUnderscore bare
  | .optional => bare = base ∨ bare = "_" ++ base ∨ "_" ++ bare = base

theorem mem_candidates_iff_admits {style : Style} {method bare : String} :
    bare ∈ style.candidates method ↔ style.Admits (baseName method) bare := by
  rw [candidates_eq]
  generalize baseName method = base
  cases hbase : isUnderscored base with
  | false =>
    -- Nothing in front of which an underscore is put gives the base name.
    have hnone : ¬ HasUnderscore base := by
      rw [← isUnderscored_iff, hbase]
      exact Bool.false_ne_true
    have hshorter : "_" ++ bare ≠ base := fun h => hnone ⟨bare, h.symm⟩
    cases style with
    | disallowed => simp [Admits, hshorter]
    | required =>
      have hself : ¬ (bare = base ∧ HasUnderscore bare) := by
        rintro ⟨rfl, hbare⟩
        exact hnone hbare
      simp [Admits, hself]
    | optional => simp [Admits, hshorter]
  | true =>
    have hsome := isUnderscored_iff.1 hbase
    have hself : bare = base ∧ HasUnderscore bare ↔ bare = base :=
      and_iff_left_of_imp (· ▸ hsome)
    obtain ⟨rest, rfl⟩ := hsome
    have hshorter : "_" ++ bare = "_" ++ rest ↔ bare = rest := String.append_right_inj "_"
    rw [withoutUnderscore_append]
    cases style with
    | disallowed => simp [Admits, hshorter]
    | required => simp [Admits, hself]
    | optional => simp [Admits, hshorter]

/-- Under `required` every name has an underscore in front. -/
theorem Admits.hasUnderscore {base bare : String} (h : Style.required.Admits base bare) :
    HasUnderscore bare := by
  rcases h with rfl | ⟨-, hbare⟩
  · exact ⟨base, rfl⟩
  · exact hbare

/-! ## Complaints -/

/-- The complaint that the underscore in front is missing. -/
def underscoreText (ivar suggestion : String) : String :=
  "Memoized variable `" ++ ivar ++ "` does not start with `_`. Use `@" ++ suggestion ++ "` instead."

/-- The complaint that the variable is not named after its method. -/
def mismatchText (ivar method suggestion : String) : String :=
  "Memoized variable `" ++ ivar ++ "` does not match method name `" ++ method ++ "`. " ++
    ("Use `@" ++ suggestion ++ "` instead.")

theorem underscoreText_ne_mismatchText (ivar method suggestion : String) :
    underscoreText ivar suggestion ≠ mismatchText ivar method suggestion := by
  intro h
  unfold underscoreText mismatchText at h
  simp only [String.append_assoc] at h
  -- The texts begin alike, and after the variable they go on with different words.
  have hrest := (String.append_right_inj _).1 ((String.append_right_inj _).1 h)
  have hletter := congrArg (·.toList[11]?) hrest
  simp at hletter

theorem lacksUnderscore_iff {style : Style} {ivar : String} :
    style.lacksUnderscore ivar = true ↔ style = .required ∧ ¬ HasUnderscore (bareName ivar) := by
  rw [lacksUnderscore, Bool.and_eq_true, beq_iff_eq, Bool.not_eq_true', Bool.eq_false_iff, Ne,
    isUnderscored_iff]

theorem message_eq_underscoreText_iff {style : Style} {ivar method : String} :
    style.message ivar method = underscoreText ivar (style.suggested method) ↔
      style = .required ∧ ¬ HasUnderscore (bareName ivar) := by
  rw [← lacksUnderscore_iff, message]
  have hne := underscoreText_ne_mismatchText ivar method (style.suggested method)
  by_cases hlacks : style.lacksUnderscore ivar = true
  · rw [if_pos hlacks]
    exact iff_of_true rfl hlacks
  · rw [if_neg hlacks]
    exact iff_of_false hne.symm hlacks

theorem message_eq_mismatchText_iff {style : Style} {ivar method : String} :
    style.message ivar method = mismatchText ivar method (style.suggested method) ↔
      ¬ (style = .required ∧ ¬ HasUnderscore (bareName ivar)) := by
  rw [← lacksUnderscore_iff, message]
  have hne := underscoreText_ne_mismatchText ivar method (style.suggested method)
  by_cases hlacks : style.lacksUnderscore ivar = true
  · rw [if_pos hlacks]
    exact iff_of_false hne (not_not.2 hlacks)
  · rw [if_neg hlacks]
    exact iff_of_true rfl hlacks

/-- **What the naming rules mean.**  Except for `initialize`, which may use any variable, a method
accepts a variable exactly if the style admits its bare name for the base name of the method.  The
names on offer are all different and the suggested one comes first, so that the suggestion is always
accepted.  The complaint names the variable and the suggestion; it is about a missing underscore
exactly if the style is `required` and the variable has none in front, which `required` never
accepts, and otherwise it names the method as it is written. -/
theorem accepts_iff_admits (style : Style) (method ivar : String) :
    (method ≠ "initialize" →
      (style.accepts method ivar = true ↔ style.Admits (baseName method) (bareName ivar))) ∧
    (style.candidates method).Nodup ∧
    (style.candidates method).head? = some (style.suggested method) ∧
    style.accepts method ("@" ++ style.suggested method) = true ∧
    (style.message ivar method = underscoreText ivar (style.suggested method) ↔
      style = .required ∧ ¬ HasUnderscore (bareName ivar)) ∧
    (style.message ivar method = mismatchText ivar method (style.suggested method) ↔
      ¬ (style = .required ∧ ¬ HasUnderscore (bareName ivar))) ∧
    (method ≠ "initialize" → ¬ HasUnderscore (bareName ivar) →
      Style.required.accepts method ivar = false) := by
  have haccepts (style : Style) (hmethod : method ≠ "initialize") :
      style.accepts method ivar = true ↔ style.Admits (baseName method) (bareName ivar) := by
    have hordinary : (method == initializerName) = false := beq_eq_false_iff_ne.2 hmethod
    rw [accepts, hordinary, Bool.false_or, List.contains_iff_mem, mem_candidates_iff_admits]
  refine ⟨haccepts style, style.nodup_candidates method, style.head?_candidates method,
    style.accepts_suggested method, message_eq_underscoreText_iff, message_eq_mismatchText_iff,
    fun hmethod hbare => ?_⟩
  rw [Bool.eq_false_iff, Ne, haccepts .required hmethod]
  exact fun hadmits => hbare hadmits.hasUnderscore

/-- A method with an underscore in front and a question mark at the end, and a variable with
neither: one strict style takes it, and the other one complains that the underscore is missing. -/
theorem accepts_privateQuery :
    "_ready?" ≠ "initialize" ∧ ¬ HasUnderscore (bareName "@ready") ∧
      Style.disallowed.accepts "_ready?" "@ready" = true ∧
      Style.required.accepts "_ready?" "@ready" = false ∧
      Style.required.message "@ready" "_ready?" =
        underscoreText "@ready" (Style.required.suggested "_ready?") := by
  have hmethod : "_ready?" ≠ "initialize" := by decide
  have hbare : ¬ HasUnderscore (bareName "@ready") := by
    rw [← isUnderscored_iff]
    decide
  have hdisallowed := accepts_iff_admits .disallowed "_ready?" "@ready"
  have hrequired := accepts_iff_admits .required "_ready?" "@ready"
  refine ⟨hmethod, hbare, (hdisallowed.1 hmethod).2 (.inr ?_), ?_, ?_⟩
  · decide
  · exact hrequired.2.2.2.2.2.2 hmethod hbare
  · exact hrequired.2.2.2.2.1.2 ⟨rfl, hbare⟩

end Style

end MemoAudit
