import Mathlib.Data.List.Basic
import Typist.Proofs.Text.Pieces
import Typist.Snippet.Reader

/-!
# Lines of texts put together

Where a text ends with its line, what follows it begins a line of its own, so the physical lines of
the two are put together (`physicalLines_append`). Whether a physical line asks to be continued is
judged on the line as it stands (`continues_trimStart`), and where none asks at the end of a text,
the logical lines are put together as well (`logicalLines_append`) : those of the second text only
start as many physical lines further down.
-/

namespace Typist

/-! ## Physical lines -/

/-- The lines of the pieces between the line feeds of a text. -/
def linesOfPieces (pieces : List Text) : List Text :=
  (if pieces.getLast? = some [] then pieces.dropLast else pieces).map Text.withoutReturn

theorem physicalLines_eq (t : Text) : physicalLines t = linesOfPieces (t.pieces '\n') :=
  rfl

theorem linesOfPieces_append (ps : List Text) {qs : List Text} (h : qs ≠ []) :
    linesOfPieces (ps ++ qs) = ps.map Text.withoutReturn ++ linesOfPieces qs := by
  rw [linesOfPieces, linesOfPieces, List.getLast?_append_of_ne_nil ps h]
  split
  · rw [List.dropLast_append_of_ne_nil h, List.map_append]
  · rw [List.map_append]

/-- Only an empty piece at the end is no line. -/
theorem linesOfPieces_cons {p : Text} (h : p ≠ []) (qs : List Text) :
    linesOfPieces (p :: qs) = p.withoutReturn :: linesOfPieces qs := by
  cases qs with
  | nil => simp [linesOfPieces, h]
  | cons q qs => exact linesOfPieces_append [p] (List.cons_ne_nil q qs)

theorem physicalLines_append_cons (t u : Text) :
    physicalLines (t ++ '\n' :: u) = (t.pieces '\n').map Text.withoutReturn ++ physicalLines u := by
  rw [physicalLines_eq, physicalLines_eq, Text.pieces_append_cons,
    linesOfPieces_append _ (Text.pieces_ne_nil u)]

/-- The physical lines of a text that ends with its line are followed by those of what comes after
it. -/
theorem physicalLines_append {a : Text} (hend : a = [] ∨ a.getLast? = some '\n') (b : Text) :
    physicalLines (a ++ b) = physicalLines a ++ physicalLines b := by
  rcases hend with rfl | hend
  · rfl
  · obtain ⟨t, rfl⟩ := List.getLast?_eq_some_iff.mp hend
    have hempty : physicalLines [] = [] := rfl
    rw [List.append_assoc, List.singleton_append, physicalLines_append_cons,
      physicalLines_append_cons, hempty, List.append_nil]

/-- A text without a line feed is one line. -/
theorem physicalLines_of_not_mem {t : Text} (hnil : t ≠ []) (h : '\n' ∉ t) :
    physicalLines t = [t.withoutReturn] := by
  rw [physicalLines_eq, Text.pieces_eq_singleton h, linesOfPieces_cons hnil]
  rfl

theorem mem_of_mem_withoutReturn {c : Char} {line : Text} (h : c ∈ line.withoutReturn) :
    c ∈ line := by
  rw [Text.withoutReturn] at h
  split at h
  · exact (List.dropLast_sublist _).mem h
  · exact h

theorem not_mem_of_mem_physicalLines {t line : Text} (h : line ∈ physicalLines t) :
    '\n' ∉ line := by
  obtain ⟨piece, hpiece, rfl⟩ := List.mem_map.mp h
  have hmem : piece ∈ t.pieces '\n' := by
    split at hpiece
    · exact (List.dropLast_sublist _).mem hpiece
    · exact hpiece
  exact fun hfeed => Text.not_mem_of_mem_pieces hmem (mem_of_mem_withoutReturn hfeed)

/-! ## Logical lines -/

/-- The text without the mark at its end, if it has it there. -/
def Text.withoutMark (mark : Char) (t : Text) : Text :=
  if t.getLast? = some mark then t.dropLast else t

theorem Text.withoutMark_eq_self {mark : Char} {t : Text} (h : t.getLast? ≠ some mark) :
    t.withoutMark mark = t :=
  if_neg h

/-- The logical line of a single physical line. -/
theorem logicalLines_singleton (line : Text) :
    logicalLines [line] = [⟨1, if continues line then line.dropLast else line,
      continues line⟩] := by
  rw [logicalLines, assemble]
  cases continues line <;> rfl

/-- What holds of all characters of the physical lines holds of those of the logical lines. -/
theorem forall_mem_assemble {P : Char → Prop} {xs : List Text} (hxs : ∀ line ∈ xs, ∀ c ∈ line, P c)
    (number : Nat) (begun : Option (Nat × Text)) (hbegun : ∀ b ∈ begun, ∀ c ∈ b.2, P c) :
    ∀ l ∈ assemble number begun xs, ∀ c ∈ l.text, P c := by
  induction xs generalizing number begun with
  | nil =>
    cases begun with
    | none => exact fun l hl => absurd hl List.not_mem_nil
    | some b =>
      intro l hl
      obtain rfl := List.mem_singleton.mp hl
      exact hbegun b rfl
  | cons line xs ih =>
    obtain ⟨hline, hxs⟩ := List.forall_mem_cons.mp hxs
    have hjoined : ∀ before line' : Text, (∀ c ∈ before, P c) → (∀ c ∈ line', c ∈ line) →
        ∀ c ∈ before ++ line', P c := by
      intro before line' hbefore hsub c hc
      rcases List.mem_append.mp hc with hc | hc
      · exact hbefore c hc
      · exact hline c (hsub c hc)
    have htrim : ∀ c ∈ Text.trimStart line, c ∈ line := fun c hc =>
      (List.dropWhile_sublist _).mem hc
    have hdrop : ∀ c ∈ (Text.trimStart line).dropLast, c ∈ line :=
      fun c hc => htrim c ((List.dropLast_sublist _).mem hc)
    cases begun with
    | none =>
      rw [assemble]
      split
      · exact ih hxs (number + 1) _ (by
          simpa using hjoined [] line.dropLast (by simp) fun _ hc =>
            (List.dropLast_sublist _).mem hc)
      · exact List.forall_mem_cons.mpr ⟨hjoined [] line (by simp) (fun _ hc => hc),
          ih hxs (number + 1) none (by simp)⟩
    | some b =>
      have hb := hbegun b rfl
      rw [assemble]
      split
      · exact ih hxs (number + 1) _ (by simpa using hjoined b.2 _ hb hdrop)
      · exact List.forall_mem_cons.mpr ⟨hjoined b.2 _ hb htrim, ih hxs (number + 1) none (by simp)⟩

/-- No logical line holds a line feed. -/
theorem not_mem_of_mem_logicalLines {t : Text} {l : LogicalLine}
    (h : l ∈ logicalLines (physicalLines t)) : '\n' ∉ l.text := by
  have hphysical : ∀ line ∈ physicalLines t, ∀ c ∈ line, c ≠ '\n' := by
    rintro line hline c hc rfl
    exact not_mem_of_mem_physicalLines hline hc
  exact fun hfeed => forall_mem_assemble hphysical 1 none (by simp) l h _ hfeed rfl

/-- A backslash is not blank, so trimming a line at its start does not change what it asks. -/
theorem continues_trimStart (line : Text) : continues (Text.trimStart line) = continues line := by
  rw [continues, continues, Text.trimStart]
  refine decide_eq_decide.mpr ⟨fun h => ?_, fun h => ?_⟩
  · obtain ⟨rest, hrest⟩ := List.getLast?_eq_some_iff.mp h
    rw [← List.takeWhile_append_dropWhile (p := isBlank) (l := line), hrest, ← List.append_assoc,
      List.getLast?_concat]
  · obtain ⟨rest, rfl⟩ := List.getLast?_eq_some_iff.mp h
    have hmark : List.dropWhile isBlank ['\\'] = ['\\'] := by decide
    rw [List.dropWhile_append, hmark]
    split
    · rfl
    · rw [List.getLast?_concat]

/-- The logical line, if `above` more physical lines come before it. -/
def LogicalLine.movedDown (line : LogicalLine) (above : Nat) : LogicalLine :=
  { line with start := line.start + above }

/-- Assembling begins anew after a line that does not ask to be continued. -/
theorem assemble_append (number : Nat) (begun : Option (Nat × Text)) (xs ys : List Text)
    (hbegun : xs = [] → begun = none) (hend : ∀ line ∈ xs.getLast?, continues line = false) :
    assemble number begun (xs ++ ys) =
      assemble number begun xs ++ assemble (number + xs.length) none ys := by
  induction xs generalizing number begun with
  | nil =>
    rw [hbegun rfl]
    rfl
  | cons line xs ih =>
    have hlater : ∀ later ∈ xs.getLast?, continues later = false := by
      intro later h
      exact hend later (by rw [List.getLast?_cons, Option.mem_def.mp h]; rfl)
    have hnumber : number + (line :: xs).length = number + 1 + xs.length := by
      rw [List.length_cons]
      omega
    -- a line that asks is not the last
    have hgoes {b : Nat × Text} (hline : continues line = true) : xs = [] → some b = none := by
      rintro rfl
      rw [hend line rfl] at hline
      cases hline
    rw [List.cons_append, hnumber]
    cases begun with
    | none =>
      rw [assemble, assemble]
      split
      · next h => exact ih (number + 1) _ (hgoes h) hlater
      · rw [ih (number + 1) none (fun _ => rfl) hlater]
        rfl
    | some b =>
      rw [assemble, assemble]
      split
      · next h => exact ih (number + 1) _ (hgoes ((continues_trimStart line).symm.trans h)) hlater
      · rw [ih (number + 1) none (fun _ => rfl) hlater]
        rfl

/-- The logical line, its number being replaced by the one that `place` gives for it. -/
def LogicalLine.renumbered (line : LogicalLine) (place : Nat → Nat) : LogicalLine :=
  { line with start := place line.start }

/-- Where the numbers begin is all that the numbers of the lines depend on. -/
theorem assemble_renumbered {place : Nat → Nat} {number number' : Nat}
    (h : ∀ k, place (number + k) = number' + k) (begun : Option (Nat × Text)) (xs : List Text) :
    assemble number' (begun.map fun b => (place b.1, b.2)) xs =
      (assemble number begun xs).map (·.renumbered place) := by
  induction xs generalizing number number' begun with
  | nil => cases begun <;> rfl
  | cons line xs ih =>
    have hnow : place number = number' := h 0
    have hnext : ∀ k, place (number + 1 + k) = number' + 1 + k := by
      intro k
      rw [Nat.add_assoc, h, Nat.add_assoc]
    cases begun with
    | none =>
      simp only [Option.map_none, assemble]
      split
      · rw [← hnow]
        exact ih (hnow ▸ hnext) (some (number, [] ++ line.dropLast))
      · rw [List.map_cons, ← ih hnext none, LogicalLine.renumbered, hnow]
        rfl
    | some b =>
      simp only [Option.map_some, assemble]
      split
      · exact ih hnext (some (b.1, b.2 ++ (Text.trimStart line).dropLast))
      · exact congrArg (_ :: ·) (ih hnext none)

/-- The logical lines of physical lines are followed by those of what comes after them, unless the
last of them asks to be continued. -/
theorem logicalLines_append {xs : List Text} (hend : ∀ line ∈ xs.getLast?, continues line = false)
    (ys : List Text) :
    logicalLines (xs ++ ys) = logicalLines xs ++ (logicalLines ys).map (·.movedDown xs.length) := by
  have hrest :
      assemble (1 + xs.length) none ys = (logicalLines ys).map (·.renumbered (· + xs.length)) :=
    assemble_renumbered (fun k => Nat.add_right_comm 1 k xs.length) none ys
  rw [logicalLines, assemble_append 1 none xs ys (fun _ => rfl) hend, hrest]
  rfl

end Typist
