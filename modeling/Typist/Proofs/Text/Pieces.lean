import Typist.Text.Basic

/-!
# The pieces of a text

A text without the mark is one piece, and where the mark stands the pieces of what is before it are
followed by those of what is after it (`pieces_append_cons`). Whatever comes after a text goes on
with the last of its pieces, and as many pieces come before that as the text has marks
(`exists_pieces_append`). What comes after a piece that is looked for at the start of a text is the
rest of the text (`after?_eq_some_iff`).
-/

namespace Typist.Text

/-- What comes after a piece is what the text goes on with. -/
theorem after?_eq_some_iff {piece t rest : Text} :
    after? piece t = some rest ↔ t = piece ++ rest := by
  induction piece generalizing t with
  | nil => simp [after?, eq_comm]
  | cons p piece ih =>
    cases t with
    | nil => simp [after?]
    | cons c t =>
      rw [after?]
      split
      · next hp => rw [ih, hp, List.cons_append, List.cons_inj_right]
      · next hp =>
        rw [List.cons_append, List.cons.injEq]
        simp [Ne.symm hp]

variable {mark : Char}

theorem pieces_ne_nil (t : Text) : t.pieces mark ≠ [] := by
  cases t with
  | nil => simp [pieces]
  | cons c t =>
    rw [pieces]
    split
    · simp
    · split <;> simp

theorem pieces_eq_singleton {t : Text} (h : mark ∉ t) : t.pieces mark = [t] := by
  induction t with
  | nil => rfl
  | cons c t ih =>
    rw [List.mem_cons, not_or] at h
    rw [pieces, if_neg (Ne.symm h.1), ih h.2]

/-- The mark stands in none of the pieces. -/
theorem not_mem_of_mem_pieces {t p : Text} (h : p ∈ t.pieces mark) : mark ∉ p := by
  induction t generalizing p with
  | nil => simp [List.mem_singleton.mp h]
  | cons c t ih =>
    rw [pieces] at h
    split at h
    · rcases List.mem_cons.mp h with rfl | h
      · exact List.not_mem_nil
      · exact ih h
    · next hc =>
      split at h
      · next hnil => exact absurd hnil (pieces_ne_nil t)
      · next first rest hpieces =>
        rcases List.mem_cons.mp h with rfl | h
        · rw [List.mem_cons, not_or]
          exact ⟨Ne.symm hc, ih (hpieces ▸ List.mem_cons_self ..)⟩
        · exact ih (hpieces ▸ List.mem_cons_of_mem _ h)

theorem pieces_append_of_not_mem {t u q : Text} {qs : List Text} (h : mark ∉ t)
    (hu : u.pieces mark = q :: qs) : pieces mark (t ++ u) = (t ++ q) :: qs := by
  induction t with
  | nil => exact hu
  | cons c t ih =>
    rw [List.mem_cons, not_or] at h
    rw [List.cons_append, pieces, if_neg (Ne.symm h.1), ih h.2]
    rfl

theorem pieces_append_cons (t u : Text) :
    pieces mark (t ++ mark :: u) = t.pieces mark ++ u.pieces mark := by
  induction t with
  | nil =>
    show pieces mark (mark :: u) = [] :: pieces mark u
    rw [pieces, if_pos rfl]
  | cons c t ih =>
    rw [List.cons_append, pieces, pieces, ih]
    split
    · rfl
    · cases hpieces : pieces mark t with
      | nil => exact absurd hpieces (pieces_ne_nil t)
      | cons p ps => rfl

theorem exists_pieces_append (mark : Char) (t : Text) :
    ∃ ps p, ps.length = t.count mark ∧
      ∀ u q qs, u.pieces mark = q :: qs → pieces mark (t ++ u) = ps ++ (p ++ q) :: qs := by
  induction t with
  | nil => exact ⟨[], [], rfl, fun u q qs hu => hu⟩
  | cons c t ih =>
    obtain ⟨ps, p, hlength, hpieces⟩ := ih
    by_cases hmark : c = mark
    · refine ⟨[] :: ps, p, by simp [hlength, hmark], fun u q qs hu => ?_⟩
      rw [List.cons_append, pieces, if_pos hmark, hpieces u q qs hu, List.cons_append]
    · have hcount : (c :: t).count mark = t.count mark :=
        List.count_cons_of_ne (by simpa using hmark)
      cases ps with
      | nil =>
        refine ⟨[], c :: p, by rw [hcount, ← hlength], fun u q qs hu => ?_⟩
        rw [List.cons_append, pieces, if_neg hmark, hpieces u q qs hu]
        rfl
      | cons first ps =>
        refine ⟨(c :: first) :: ps, p, by rw [hcount, ← hlength]; rfl, fun u q qs hu => ?_⟩
        rw [List.cons_append, pieces, if_neg hmark, hpieces u q qs hu]
        rfl

/-- A text has one piece more than marks. -/
theorem length_pieces (mark : Char) (t : Text) : (t.pieces mark).length = t.count mark + 1 := by
  obtain ⟨ps, p, hlength, hpieces⟩ := exists_pieces_append mark t
  have hall := hpieces [] [] [] rfl
  rw [List.append_nil, List.append_nil] at hall
  rw [hall, List.length_append, List.length_singleton, hlength]

end Typist.Text
