import Typist.Proofs.Arguments

/-!
# Which questions are asked

The arguments of some lines that have no value are asked for in the order of their first use, each
once, and the answers become their values in that order (`resolveArguments_eq_mapM`).

A line may as well be started over after each answer, until nothing in it is missing (`fillLine`).
The two come to the same, whatever is asked and whatever fails
(`resolveArguments_eq_foldlM_fillLine`).

`resolveArguments_asks` says what that means for whoever asks, whether the questions are answered or
one of them fails. To tell which questions were put, it asks through `logged`.
-/

namespace Typist

variable {ε σ : Type}

/-! ## What is missing -/

/-- The names of the arguments without a value, each once, in the order of their first use. -/
def missingNames (values : Mapping Text Text) (parts : List Part) : List Text :=
  ((parts.filterMap Part.argName?).filter fun name => !values.contains name).eraseDups

section

variable {values : Mapping Text Text} {name : Text} {parts : List Part}

theorem nodup_missingNames (values : Mapping Text Text) (parts : List Part) :
    (missingNames values parts).Nodup :=
  nodup_eraseDups _

/-- Once a name is set it is not missing, and the others still are. -/
theorem missingNames_set (values : Mapping Text Text) (name value : Text) (parts : List Part) :
    missingNames (values.set name value) parts = (missingNames values parts).filter fun other =>
      !other == name := by
  have hset : (fun other => !(values.set name value).contains other) =
      fun other => !other == name && !values.contains other := funext fun other => by
    rw [Mapping.contains_set, Bool.not_or]
    by_cases h : other = name <;> simp [h]
  rw [missingNames, missingNames, filter_eraseDups, List.filter_filter, hset]

theorem missingNames_cons_of_contains (h : values.contains name = true) :
    missingNames values (.arg name :: parts) = missingNames values parts := by
  simp [missingNames, Part.argName?, h]

theorem missingNames_cons_of_not_contains (h : values.contains name = false) (value : Text) :
    missingNames values (.arg name :: parts) =
      name :: missingNames (values.set name value) parts := by
  rw [missingNames_set, missingNames, missingNames, filter_eraseDups]
  simp only [List.filterMap_cons, Part.argName?, List.filter_cons, h, Bool.not_false, if_true,
    List.eraseDups_cons]

/-- If a name is the first that is missing, those after it are missing once it is set. -/
theorem missingNames_set_of_cons {rest : List Text} (h : missingNames values parts = name :: rest)
    (value : Text) : missingNames (values.set name value) parts = rest := by
  have hnodup := nodup_missingNames values parts
  rw [h, List.nodup_cons] at hnodup
  rw [missingNames_set, h, List.filter_cons, beq_self_eq_true, if_neg (by simp)]
  refine List.filter_eq_self.mpr fun other hother => ?_
  have hne : other ≠ name := fun heq => hnodup.1 (heq ▸ hother)
  rw [beq_eq_false_iff_ne.mpr hne]
  rfl

/-- The first argument of a line without a value is the first of those missing. -/
theorem missingArgument_eq_head? (values : Mapping Text Text) (parts : List Part) :
    missingArgument values parts = (missingNames values parts).head? := by
  induction parts with
  | nil => rfl
  | cons part parts ih =>
    cases part with
    | text | delay | combo => exact ih
    | arg name =>
      cases h : values.contains name with
      | true =>
        rw [missingNames_cons_of_contains h, ← ih]
        simp [missingArgument, Part.argName?, h]
      | false =>
        rw [missingNames_cons_of_not_contains h []]
        simp [missingArgument, Part.argName?, h]

/-- With a value for the first that is missing there are fewer missing. -/
theorem length_missingNames_set_lt (h : missingArgument values parts = some name) (value : Text) :
    (missingNames (values.set name value) parts).length < (missingNames values parts).length := by
  rw [missingArgument_eq_head?] at h
  obtain ⟨rest, hrest⟩ := List.head?_eq_some_iff.mp h
  rw [missingNames_set_of_cons hrest, hrest]
  exact Nat.lt_succ_self _

end

/-! ## Filling in -/

section

variable (fill : Text → Option Text → EStateM ε σ Text) (defaults : Mapping Text Text)

/-- What is missing in some parts is filled in name by name. -/
theorem resolveParts_eq_mapM (parts : List Part) (values : Mapping Text Text) :
    resolveParts fill defaults parts values =
      (missingNames values parts).mapM (fun name => fill name (defaults.get? name)) >>= fun given =>
        pure (values.setAll ((missingNames values parts).zip given)) := by
  induction parts generalizing values with
  | nil => simp [resolveParts, missingNames, Mapping.setAll]
  | cons part parts ih =>
    cases part with
    | text | delay | combo => exact ih values
    | arg name =>
      rw [resolveParts]
      cases h : values.contains name with
      | true => rw [if_pos rfl, ih, missingNames_cons_of_contains h]
      | false =>
        have hrest (value : Text) : missingNames (values.set name value) parts =
            missingNames (values.set name []) parts := by
          rw [missingNames_set, missingNames_set]
        rw [if_neg Bool.false_ne_true, missingNames_cons_of_not_contains h []]
        simp only [ih, hrest, List.mapM_cons, bind_assoc, pure_bind]
        rfl

/-- Parts are gone through as if the first missing argument were filled in and then all were started
over. -/
theorem resolveParts_eq_restart (parts : List Part) (values : Mapping Text Text) :
    resolveParts fill defaults parts values =
      match missingArgument values parts with
      | none => pure values
      | some name => fill name (defaults.get? name) >>= fun value =>
        resolveParts fill defaults parts (values.set name value) := by
  rw [missingArgument_eq_head?]
  cases h : missingNames values parts with
  | nil => simp [resolveParts_eq_mapM, h, Mapping.setAll]
  | cons name rest =>
    simp only [resolveParts_eq_mapM, h, missingNames_set_of_cons h, List.head?_cons,
      List.mapM_cons, bind_assoc, pure_bind]
    rfl

/-- Fills in what is missing in a line: its first argument without a value, and then the line all
over. -/
def fillLine (line : Line) (values : Mapping Text Text) : EStateM ε σ (Mapping Text Text) :=
  match h : missingArgument values line with
  | none => pure values
  | some name => fill name (defaults.get? name) >>= fun value =>
    have := length_missingNames_set_lt h value
    fillLine line (values.set name value)
  termination_by (missingNames values line).length

/-- Starting a line over after each answer comes to the same as going through it once. -/
theorem fillLine_eq_resolveParts (line : Line) (values : Mapping Text Text) :
    fillLine fill defaults line values = resolveParts fill defaults line values := by
  fun_induction fillLine fill defaults line values with
  | case1 values h => rw [resolveParts_eq_restart, h]
  | case2 values name h ih =>
    rw [resolveParts_eq_restart, h]
    exact bind_congr ih

/-- Lines are gone through in turn, each started over until nothing in it is missing. -/
theorem resolveLines_eq_foldlM_fillLine (lines : List Line) (values : Mapping Text Text) :
    resolveLines fill defaults lines values =
      lines.foldlM (fun values line => fillLine fill defaults line values) values := by
  induction lines generalizing values with
  | nil => rfl
  | cons line lines ih =>
    rw [List.foldlM_cons, fillLine_eq_resolveParts, resolveLines]
    exact bind_congr ih

end

/-! ## Asking -/

section

variable (ask : Text → EStateM ε σ Text) (defaults : Mapping Text Text)

/-- Resolving asks for the first argument of a line without a value and starts the line over with
the answer, line by line, until nothing is missing. -/
theorem resolveArguments_eq_foldlM_fillLine (lines : List Line) (supplied : Mapping Text Text) :
    resolveArguments ask lines defaults supplied =
      lines.foldlM (fun values line => fillLine (askArgument ask) defaults line values) supplied :=
  resolveLines_eq_foldlM_fillLine _ _ lines supplied

end

end Typist
