import Typist.Arguments
import Typist.Proofs.Basic
import Typist.Proofs.Mapping

/-!
# Every argument gets a value

What is missing is filled in part by part and line by line, and a value that is there stays. So once
values are resolved, every argument in the lines has one (`contains_of_resolveArguments`), whatever
was supplied and answered.
-/

namespace Typist

/-- The second mapping has values for the names that have one in the first, and for the arguments of
the parts. -/
structure Mapping.Completes (values' values : Mapping Text Text) (parts : List Part) : Prop where
  keeps : ∀ name, values.contains name = true → values'.contains name = true
  covers : ∀ name, Part.arg name ∈ parts → values'.contains name = true

variable {ε σ : Type} {defaults values values' : Mapping Text Text} {s s' : σ}

theorem Mapping.Completes.append {values'' : Mapping Text Text} {parts parts' : List Part}
    (h : values'.Completes values parts) (h' : values''.Completes values' parts') :
    values''.Completes values (parts ++ parts') where
  keeps name hname := h'.keeps name (h.keeps name hname)
  covers name hname := by
    rcases List.mem_append.mp hname with hfirst | hrest
    · exact h'.keeps name (h.covers name hfirst)
    · exact h'.covers name hrest

theorem completes_of_resolveParts {fill : Text → Option Text → EStateM ε σ Text} {parts : List Part}
    (h : (resolveParts fill defaults parts values).run s = .ok values' s') :
    values'.Completes values parts := by
  induction parts generalizing values s with
  | nil =>
    obtain ⟨rfl, -⟩ := EStateM.Result.ok.inj h
    exact ⟨fun _ hname => hname, by simp⟩
  | cons part parts ih =>
    cases part with
    | text | delay | combo =>
      exact ⟨(ih h).keeps, fun name hname => (ih h).covers name (by simpa using hname)⟩
    | arg name =>
      rw [resolveParts] at h
      by_cases hcontains : values.contains name = true
      · rw [if_pos hcontains] at h
        refine ⟨(ih h).keeps, fun other hother => ?_⟩
        rcases List.mem_cons.mp hother with hsame | hrest
        · obtain rfl := Part.arg.inj hsame
          exact (ih h).keeps _ hcontains
        · exact (ih h).covers other hrest
      · rw [if_neg hcontains] at h
        obtain ⟨value, s₁, -, hrest⟩ := run_bind_eq_ok.mp h
        refine ⟨fun other hother =>
          (ih hrest).keeps other (Mapping.contains_set_of_contains hother name value),
          fun other hother => ?_⟩
        rcases List.mem_cons.mp hother with hsame | hlater
        · obtain rfl := Part.arg.inj hsame
          exact (ih hrest).keeps _ (by simp [Mapping.contains_set])
        · exact (ih hrest).covers other hlater

theorem completes_of_resolveLines {fill : Text → Option Text → EStateM ε σ Text} {lines : List Line}
    (h : (resolveLines fill defaults lines values).run s = .ok values' s') :
    values'.Completes values lines.flatten := by
  induction lines generalizing values s with
  | nil =>
    obtain ⟨rfl, -⟩ := EStateM.Result.ok.inj h
    exact ⟨fun _ hname => hname, by simp⟩
  | cons line lines ih =>
    obtain ⟨values₁, s₁, hline, hrest⟩ := run_bind_eq_ok.mp h
    exact (completes_of_resolveParts hline).append (ih hrest)

/-- Once values are resolved, every argument of the lines has one. -/
theorem contains_of_resolveArguments {ask : Text → EStateM ε σ Text} {lines : List Line}
    (h : (resolveArguments ask lines defaults values).run s = .ok values' s') {line : Line}
    (hline : line ∈ lines) {name : Text} (hname : Part.arg name ∈ line) :
    values'.contains name = true :=
  (completes_of_resolveLines h).covers name (List.mem_flatten.mpr ⟨line, hline, hname⟩)

end Typist
