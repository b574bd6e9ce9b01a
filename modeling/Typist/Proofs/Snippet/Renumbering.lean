import Typist.Proofs.Snippet.Lines
import Typist.Proofs.Snippet.Parsing

/-!
# Lines under other numbers

The number of a logical line is told by what is noted of the line and by the error it may raise. It
counts for nothing else, so lines under other numbers make the same snippet, but for the numbers in
its diagnostics (`Snippet.ofLines_renumbered`), or fail with the same error, but for its number
(`mapM_reading_renumbered`).
-/

namespace Typist

/-- The diagnostic, the number of its line being replaced by the one that `place` gives for it. -/
def Diagnostic.renumbered (d : Diagnostic) (place : Int → Int) : Diagnostic :=
  { d with line := place d.line }

/-- The error, the number of its line being replaced by the one that `place` gives for it. -/
def ReadError.renumbered (e : ReadError) (place : Int → Int) : ReadError :=
  match e with
  | .snippet error => .snippet { error with line := error.line.map place }
  | .numberTooLong => .numberTooLong

/-- The snippet, the numbers in its diagnostics being replaced. -/
def Snippet.renumbered (s : Snippet) (place : Int → Int) : Snippet :=
  { s with diagnostics := s.diagnostics.map (·.renumbered place) }

/-! ## What is noted -/

section

variable (place : Int → Int) (number : Int)

theorem incomplete_renumbered (segment : Segment) :
    segment.incomplete (place number) = (segment.incomplete number).map (·.renumbered place) := by
  unfold Segment.incomplete
  split <;> rfl

theorem redeclared_renumbered (defaults : Mapping Text Text) (segment : Segment) :
    segment.redeclared (place number) defaults =
      (segment.redeclared number defaults).map (·.renumbered place) := by
  rw [Segment.redeclared, Segment.redeclared, List.map_flatMap]
  congr 1
  funext declaration
  rw [redeclaration, redeclaration, List.map_map]
  rfl

theorem Segment.notes_renumbered (defaults : Mapping Text Text) (segment : Segment) :
    segment.notes (place number) defaults =
      (segment.notes number defaults).map (·.renumbered place) := by
  rw [Segment.notes, Segment.notes, List.map_append, incomplete_renumbered, redeclared_renumbered]

theorem lineNotes_renumbered (lookup : KeyLookup) (defaults : Mapping Text Text) (t : Text) :
    lineNotes ⟨lookup, place number⟩ defaults t =
      (lineNotes ⟨lookup, number⟩ defaults t).map (·.renumbered place) := by
  rw [lineNotes, lineNotes,
    ← notedInOrder_map (fun _ => rfl) (Segment.notes_renumbered place number), List.map_id']

end

/-! ## Logical lines -/

section

variable (placeNat : Nat → Nat) (place : Int → Int)
  (h : ∀ number : Nat, (placeNat number : Int) = place number) (lookup : KeyLookup)

include h

/-- A line gives the same under another number, and an error tells that number. -/
theorem LogicalLine.reading_renumbered (line : LogicalLine) :
    (line.renumbered placeNat).reading lookup =
      (line.reading lookup).mapError (·.renumbered place) := by
  have htext : (line.renumbered placeNat).text = line.text := rfl
  have hstart : ((line.renumbered placeNat).start : Int) = place line.start := h line.start
  rw [LogicalLine.reading, LogicalLine.reading, htext, hstart]
  cases Typist.reading lookup line.text with
  | ok parts => rfl
  | error fault =>
    refine congrArg Except.error ?_
    rw [LineContext.raised, LineContext.raised]
    split <;> rfl

theorem LogicalLine.notes_renumbered (defaults : Mapping Text Text) (line : LogicalLine) :
    (line.renumbered placeNat).notes lookup defaults =
      (line.notes lookup defaults).map (·.renumbered place) := by
  have htext : (line.renumbered placeNat).text = line.text := rfl
  have hstart : ((line.renumbered placeNat).start : Int) = place line.start := h line.start
  have hunfinished :
      (line.renumbered placeNat).diagnostics = line.diagnostics.map (·.renumbered place) := by
    rw [LogicalLine.diagnostics, LogicalLine.diagnostics, hstart]
    show (if line.unfinished then _ else _) = _
    split <;> rfl
  rw [LogicalLine.notes, LogicalLine.notes, htext, hstart, hunfinished, lineNotes_renumbered,
    List.map_append]

/-- Lines fail with the same error under other numbers, but for its number. -/
theorem mapM_reading_renumbered (ls : List LogicalLine) :
    (ls.map (·.renumbered placeNat)).mapM (LogicalLine.reading lookup) =
      (ls.mapM (LogicalLine.reading lookup)).mapError (·.renumbered place) := by
  have hreading :
      LogicalLine.reading lookup ∘ (fun line : LogicalLine => line.renumbered placeNat) =
        fun line => (line.reading lookup).mapError (·.renumbered place) :=
    funext fun line => line.reading_renumbered placeNat place h lookup
  rw [List.mapM_map, hreading, mapM_mapError]

/-- Lines make the same snippet under other numbers, but for the numbers in its diagnostics. -/
theorem Snippet.ofLines_renumbered (ls : List LogicalLine) (lines : List Line) :
    Snippet.ofLines lookup (ls.map (·.renumbered placeNat)) lines =
      (Snippet.ofLines lookup ls lines).renumbered place := by
  rw [Snippet.ofLines, List.flatMap_map,
    notedInOrder_map (fun _ => rfl) (fun defaults line =>
      line.notes_renumbered placeNat place h lookup defaults)]
  rfl

end

end Typist
