import Mathlib.Data.List.TakeDrop
import Typist.Json.Reader
import Typist.Proofs.Text.Pieces

/-!
# Strings, numbers and words

Reading a string, a number or a word uses up characters, and if it fails it does not fail for depth
(`Advances`). No string, array or object is read as a number or word, nor is what ends an array
(`not_mem_of_scalar`).
-/

namespace Typist.Json

/-- Does reading use up some of the text, or fail otherwise than for depth? -/
def Advances {α : Type} (t : Text) (r : Except ReadError (α × Text)) : Prop :=
  match r with
  | .ok (_, rest) => rest.length < t.length
  | .error e => e ≠ .tooDeep

section

variable {α β : Type} {t u : Text} {r : Except ReadError (α × Text)}

theorem Advances.length_lt {a : α} {rest : Text} (h : Advances t r) (hr : r = .ok (a, rest)) :
    rest.length < t.length := by
  rw [hr] at h
  exact h

theorem Advances.ne_tooDeep (h : Advances t r) : r ≠ .error .tooDeep := by
  rintro rfl
  exact h rfl

theorem Advances.mono (h : Advances t r) (hle : t.length ≤ u.length) : Advances u r := by
  unfold Advances at h ⊢
  split
  · exact Nat.lt_of_lt_of_le h hle
  · exact h

theorem Advances.map (h : Advances t r) (f : α → β) :
    Advances t (r.map fun (a, rest) => (f a, rest)) := by
  cases r with
  | ok found => exact h
  | error e => exact h

theorem advances_malformed (t : Text) (flaw : Flaw) (left : Nat) :
    Advances t (.error (.malformed flaw left) : Except ReadError (α × Text)) := fun h =>
  ReadError.noConfusion h

end

/-! ## Strings -/

theorem stringCodes_advances (opened t : Text) : Advances t (stringCodes opened t) := by
  have hrest :
      ∀ {c : Char} {rest : Text} {r : Except ReadError (List Nat × Text)}, Advances rest r →
      Advances (c :: rest) r := fun h => h.mono (Nat.le_succ _)
  fun_induction stringCodes opened t with
  | case1 | case3 | case4 | case6 | case7 | case9 => exact advances_malformed _ _ _
  | case2 rest => exact Nat.lt_succ_self _
  | case5 a b c d after rest code _ ih =>
    exact hrest (hrest (hrest (hrest (hrest (hrest (ih.map _))))))
  | case8 c rest _ _ _ _ ih => exact hrest (hrest (ih.map _))
  | case10 c rest _ _ _ _ _ _ ih => exact hrest (ih.map _)

theorem stringAfterQuote_advances (t : Text) : Advances t (stringAfterQuote t) :=
  (stringCodes_advances t t).map _

/-! ## Numbers and words -/

theorem length_digitsOf {t digits rest : Text} (h : digitsOf t = (digits, rest)) :
    digits.length + rest.length = t.length := by
  rw [digitsOf, List.span_eq_takeWhile_dropWhile] at h
  obtain ⟨rfl, rfl⟩ := Prod.mk.inj h
  rw [← List.length_append, List.takeWhile_append_dropWhile]

theorem length_fractionOf {t digits rest : Text} (h : fractionOf t = some (digits, rest)) :
    rest.length < t.length := by
  unfold fractionOf at h
  split at h
  · next u =>
    split at h
    · cases h
    · have hlength := length_digitsOf (Option.some.inj h)
      rw [List.length_cons]
      omega
  · cases h

theorem length_exponentOf {t rest : Text} {power : Int} (h : exponentOf t = some (power, rest)) :
    rest.length < t.length := by
  unfold exponentOf at h
  split at h
  · next c u =>
    split at h
    · split at h
      next negative signed hsign =>
      have hsigned : signed.length ≤ u.length := by
        split at hsign <;> cases hsign <;> simp
      split at h
      · cases h
      · next digits rest' _ hdigits =>
        obtain ⟨-, rfl⟩ := Prod.mk.inj (Option.some.inj h)
        have hlength := length_digitsOf hdigits
        rw [List.length_cons]
        omega
    · cases h
  · cases h

theorem number_advances (t : Text) : Advances t (number t) := by
  have hunsigned :
      ∀ (negative : Bool) (start t : Text), Advances t (unsignedNumber negative start t) := by
    intro negative start t
    unfold unsignedNumber
    split
    next whole rest hstart =>
    have hlength : whole.length + rest.length = t.length := by
      split at hstart
      · obtain ⟨rfl, rfl⟩ := Prod.mk.inj hstart
        exact Nat.add_comm ..
      · exact length_digitsOf hstart
    split
    · exact advances_malformed _ _ _
    · next hne =>
      have hwhole : 0 < whole.length := List.length_pos_iff.mpr hne
      have hfraction : ((fractionOf rest).getD ([], rest)).2.length ≤ rest.length := by
        cases hfound : fractionOf rest with
        | none => exact Nat.le_refl _
        | some found => exact Nat.le_of_lt (length_fractionOf hfound)
      have hexponent : ∀ u, ((exponentOf u).getD (0, u)).2.length ≤ u.length := by
        intro u
        cases hfound : exponentOf u with
        | none => exact Nat.le_refl _
        | some found => exact Nat.le_of_lt (length_exponentOf hfound)
      have hsame :
          ((fractionOf rest).map Prod.snd).getD rest = ((fractionOf rest).getD ([], rest)).2 := by
        cases fractionOf rest <;> rfl
      have hlast := hexponent ((fractionOf rest).getD ([], rest)).2
      rw [hsame]
      split
      · split
        · exact ReadError.noConfusion
        · exact Nat.lt_of_lt_of_le (Nat.lt_add_of_pos_left hwhole) (Nat.le_of_eq hlength)
      · show ((exponentOf ((fractionOf rest).getD ([], rest)).2).getD
          (0, ((fractionOf rest).getD ([], rest)).2)).2.length < t.length
        omega
  unfold number
  split
  · next rest => exact (hunsigned true _ rest).mono (Nat.le_succ _)
  · exact hunsigned false _ _

/-- Reads a value that is no string, array or object. -/
def scalar (t : Text) : Except ReadError (Json × Text) :=
  match word? t with
  | some found => .ok found
  | none => number t

theorem scalar_advances (t : Text) : Advances t (scalar t) := by
  unfold scalar
  split
  · next found hword =>
    obtain ⟨⟨word, v⟩, hmem, hfound⟩ := List.exists_of_findSome?_eq_some hword
    obtain ⟨rest, hrest, rfl⟩ := Option.map_eq_some_iff.mp hfound
    have hne : ∀ entry ∈ words, 0 < entry.1.toList.length := by decide
    have hlength : 0 < word.toList.length := hne _ hmem
    rw [Text.after?_eq_some_iff.mp hrest]
    show rest.length < (word.toList ++ rest).length
    rw [List.length_append]
    omega
  · exact number_advances t

/-- Nothing else that a value starts with, and nothing that ends an array, starts a number or a
word. -/
theorem not_mem_of_scalar {c : Char} {t rest : Text} {v : Json}
    (h : scalar (c :: t) = .ok (v, rest)) : c ∉ ['"', '[', '\x7b', ']'] := by
  intro hc
  have hnone : scalar (c :: t) = .error (.malformed .noValue (t.length + 1)) := by
    obtain rfl | rfl | rfl | rfl : c = '"' ∨ c = '[' ∨ c = '\x7b' ∨ c = ']' := by simpa using hc
    all_goals rfl
  rw [hnone] at h
  cases h

end Typist.Json
