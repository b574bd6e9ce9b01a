import Typist.Proofs.Snippet.Lines

/-!
# Lines and their endings

A row of lines is written as a text by giving each line an ending (`IsWrittenAs`), a line feed or a
carriage return and a line feed. The physical lines of the text are the lines again
(`physicalLines_of_isWrittenAs`), and any text that does not end in a carriage return is written so
(`isWrittenAs_physicalLines`). A carriage return at its end would belong to a line ending that never
comes.
-/

namespace Typist

/-- Is the text the lines, each with a line ending? -/
inductive IsWrittenAs : List Text → Text → Prop
  /-- Without lines there is no text. -/
  | nil : IsWrittenAs [] []
  /-- A line may end in a line feed, unless it has a carriage return at its end. -/
  | feed {line : Text} {lines : List Text} {t : Text} :
      '\n' ∉ line → line.getLast? ≠ some '\r' → IsWrittenAs lines t →
        IsWrittenAs (line :: lines) (line ++ '\n' :: t)
  /-- A line may end in a carriage return and a line feed. -/
  | returnFeed {line : Text} {lines : List Text} {t : Text} :
      '\n' ∉ line → IsWrittenAs lines t → IsWrittenAs (line :: lines) (line ++ '\r' :: '\n' :: t)
  /-- The last line may go without an ending, unless it is empty or has a carriage return at its
  end. -/
  | last {line : Text} : '\n' ∉ line → line ≠ [] → line.getLast? ≠ some '\r' →
      IsWrittenAs [line] line

section

variable {line t : Text} {lines : List Text}

theorem physicalLines_cons_feed (h : '\n' ∉ line) (t : Text) :
    physicalLines (line ++ '\n' :: t) = line.withoutReturn :: physicalLines t := by
  rw [physicalLines_append_cons, Text.pieces_eq_singleton h]
  rfl

theorem Text.withoutReturn_eq_self (h : line.getLast? ≠ some '\r') : line.withoutReturn = line :=
  if_neg h

theorem Text.withoutReturn_concat (line : Text) : Text.withoutReturn (line ++ ['\r']) = line := by
  rw [Text.withoutReturn, if_pos (List.getLast?_concat ..), List.dropLast_concat]

theorem physicalLines_of_isWrittenAs (h : IsWrittenAs lines t) : physicalLines t = lines := by
  induction h with
  | nil => rfl
  | feed hline hreturn _ ih =>
    rw [physicalLines_cons_feed hline, Text.withoutReturn_eq_self hreturn, ih]
  | @returnFeed line lines t hline _ ih =>
    have hmark : '\n' ∉ line ++ ['\r'] := List.not_mem_append hline (by decide)
    rw [List.append_cons, physicalLines_cons_feed hmark, Text.withoutReturn_concat, ih]
  | last hline hne hreturn =>
    rw [physicalLines_of_not_mem hne hline, Text.withoutReturn_eq_self hreturn]

/-- A text ends in a carriage return if what follows its first line does. -/
theorem getLast?_append_feed (line t : Text) :
    (line ++ '\n' :: t).getLast? = some '\r' ↔ t.getLast? = some '\r' := by
  rw [List.getLast?_append_of_ne_nil _ (List.cons_ne_nil '\n' t), List.getLast?_cons]
  cases t.getLast? <;> simp

theorem getLast?_of_isWrittenAs (h : IsWrittenAs lines t) : t.getLast? ≠ some '\r' := by
  induction h with
  | nil => simp
  | @feed line _ t _ _ _ ih => exact mt (getLast?_append_feed line t).mp ih
  | @returnFeed line _ t _ _ ih =>
    rw [List.append_cons]
    exact mt (getLast?_append_feed _ t).mp ih
  | last _ _ hreturn => exact hreturn

/-- A text that does not end in a carriage return is written as its physical lines. -/
theorem isWrittenAs_physicalLines (t : Text) (h : t.getLast? ≠ some '\r') :
    IsWrittenAs (physicalLines t) t := by
  by_cases hfeed : '\n' ∈ t
  · obtain ⟨line, rest, ht, hline⟩ := List.eq_append_cons_of_mem hfeed
    have hshorter : rest.length < t.length := by
      rw [ht, List.length_append, List.length_cons]
      omega
    rw [ht] at h ⊢
    have hrest : IsWrittenAs (physicalLines rest) rest :=
      isWrittenAs_physicalLines rest (mt (getLast?_append_feed line rest).mpr h)
    rw [physicalLines_cons_feed hline]
    by_cases hreturn : line.getLast? = some '\r'
    · obtain ⟨line, rfl⟩ := List.getLast?_eq_some_iff.mp hreturn
      rw [Text.withoutReturn_concat, ← List.append_cons]
      exact .returnFeed (fun hmem => hline (List.mem_append_left _ hmem)) hrest
    · rw [Text.withoutReturn_eq_self hreturn]
      exact .feed hline hreturn hrest
  · by_cases hne : t = []
    · rw [hne]
      exact .nil
    · rw [physicalLines_of_not_mem hne hfeed, Text.withoutReturn_eq_self h]
      exact .last hfeed hne h
termination_by t.length
decreasing_by exact hshorter

end

/-- A text is some lines, each with an ending, exactly if they are its physical lines and no
carriage return is at its end. -/
theorem isWrittenAs_iff (lines : List Text) (t : Text) :
    IsWrittenAs lines t ↔ physicalLines t = lines ∧ t.getLast? ≠ some '\r' := by
  refine ⟨fun h => ⟨physicalLines_of_isWrittenAs h, getLast?_of_isWrittenAs h⟩, ?_⟩
  rintro ⟨rfl, h⟩
  exact isWrittenAs_physicalLines t h

/-- Both endings, an empty line, a carriage return that is a line of its own, and an end without an
ending. -/
example : physicalLines "a\r\n\n\r\r\nb".toList = [['a'], [], ['\r'], ['b']] := by
  decide

end Typist
