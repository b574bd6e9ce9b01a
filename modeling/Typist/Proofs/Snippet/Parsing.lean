import Typist.Proofs.Snippet.Reading
import Typist.Snippet.Reader

/-!
# Reading a snippet line by line

A line is read onto the snippet read so far. Whatever that snippet is, the line adds its `reading`,
the defaults it declares and what is noted of it (`readLine_run`). So what a logical line gives
depends on the line alone (`LogicalLine.reading`); of the snippet only the defaults matter, and only
to what is noted.

`readLines_run` puts the lines together, and `parse_eq` says what the snippet of a text is made of :
the lines that its logical lines give (`parse_lines`), unless the first that gives none fails it,
the defaults that they declare, in order (`parse_defaults`), and what is noted of them.
-/

namespace Typist

open LineContext

/-! ## One line onto a snippet -/

/-- The parts of a line, or what is raised for its first fault from the left. -/
def LogicalLine.reading (lookup : KeyLookup) (line : LogicalLine) : Except ReadError Line :=
  (Typist.reading lookup line.text).mapError (LineContext.raised ⟨lookup, line.start⟩)

theorem LogicalLine.reading_eq_ok {lookup : KeyLookup} {l : LogicalLine} {line : Line} :
    l.reading lookup = .ok line ↔ Typist.reading lookup l.text = .ok line := by
  rw [LogicalLine.reading]
  cases Typist.reading lookup l.text <;> simp [Except.mapError]

/-- The defaults that a logical line declares. -/
def LogicalLine.declared (lookup : KeyLookup) (line : LogicalLine) : List (Text × Text) :=
  Typist.declared lookup line.text

/-- What is noted of a logical line, after the defaults declared before it. -/
def LogicalLine.notes (lookup : KeyLookup) (defaults : Mapping Text Text) (line : LogicalLine) :
    Diagnostics :=
  line.diagnostics ++ lineNotes ⟨lookup, line.start⟩ defaults line.text

/-- What is noted of a logical line beside the defaults that it redeclares. -/
def LogicalLine.corrections (lookup : KeyLookup) (line : LogicalLine) : Diagnostics :=
  line.diagnostics ++ (reached lookup (segments line.text)).flatMap (Segment.incomplete line.start)

section

variable (lookup : KeyLookup) (defaults : Mapping Text Text) (line : LogicalLine)

theorem LogicalLine.kind_of_mem_diagnostics :
    ∀ d ∈ line.diagnostics, d.kind ≠ .duplicateDefault := by
  intro d hd
  rw [LogicalLine.diagnostics] at hd
  split at hd
  · rw [List.mem_singleton.mp hd]
    exact DiagnosticKind.noConfusion
  · cases hd

theorem LogicalLine.besides_notes :
    (line.notes lookup defaults).besides .duplicateDefault = line.corrections lookup := by
  rw [LogicalLine.notes, Diagnostics.besides_append,
    Diagnostics.besides_eq_self line.kind_of_mem_diagnostics, besides_lineNotes,
    LogicalLine.corrections]

/-- Each declaration of a logical line is noted or makes the defaults more. -/
theorem LogicalLine.length_ofKind_notes :
    ((line.notes lookup defaults).ofKind .duplicateDefault).length +
        (defaults.setAll (line.declared lookup)).size =
      defaults.size + (line.declared lookup).length := by
  rw [LogicalLine.notes, Diagnostics.ofKind_append,
    Diagnostics.ofKind_eq_nil line.kind_of_mem_diagnostics, List.nil_append]
  exact length_ofKind_lineNotes ⟨lookup, line.start⟩ defaults line.text

end

/-- The snippet with one more line. -/
def Snippet.withLine (σ : Snippet) (line : Line) : Snippet :=
  { σ with lines := σ.lines ++ [line] }

/-- A line adds its parts to the snippet read so far, or its fault is raised. Either way it declares
its defaults and is noted. -/
theorem readLine_run (ctx : LineContext) (t : Text) (σ : Snippet) :
    (ctx.readLine t).run σ =
      match reading ctx.lookup t with
      | .ok line =>
        .ok line ((σ.grown (declared ctx.lookup t) (lineNotes ctx σ.defaults t)).withLine line)
      | .error fault =>
        .error (ctx.raised fault)
          (σ.grown (declared ctx.lookup t) (lineNotes ctx σ.defaults t)) := by
  have hrun := readSegments_run ctx {} (segments t) σ
  have hcompleted : Scan.completed {} = Line.merged := funext fun parts => by
    simp [Scan.completed, consText_nil]
  rw [← scan_eq_readSegments ctx {} rfl, hcompleted] at hrun
  rw [readLine, EStateM.run_bind, hrun, reading, declared, lineNotes]
  cases (segments t).mapM (Segment.meaning ctx.lookup) <;> rfl

/-- What comes of a line does not depend on the snippet it is read onto. -/
theorem outcome_readLine (ctx : LineContext) (t : Text) (σ : Snippet) :
    outcome (ctx.readLine t) σ = (reading ctx.lookup t).mapError ctx.raised := by
  rw [outcome, readLine_run]
  cases reading ctx.lookup t <;> rfl

theorem stateAfter_readLine (ctx : LineContext) (t : Text) (σ : Snippet) :
    stateAfter (ctx.readLine t) σ =
      { lines := σ.lines ++ (reading ctx.lookup t).toOption.toList
        defaults := σ.defaults.setAll (declared ctx.lookup t)
        diagnostics := σ.diagnostics ++ lineNotes ctx σ.defaults t } := by
  rw [stateAfter, readLine_run]
  cases reading ctx.lookup t with
  | ok line => rfl
  | error fault =>
    simp only [Except.toOption, Option.toList_none, List.append_nil]
    rfl

/-! ## All lines -/

/-- Reading logical lines adds their parts, the defaults they declare and what is noted of them, or
stops at the first line that does not read. -/
theorem readLines_run (lookup : KeyLookup) (ls : List LogicalLine) (σ : Snippet) :
    match ls.mapM (LogicalLine.reading lookup) with
    | .ok lines =>
      (Snippet.readLines lookup ls).run σ =
        .ok () ⟨σ.lines ++ lines, σ.defaults.setAll (ls.flatMap (LogicalLine.declared lookup)),
          σ.diagnostics ++
            notedInOrder (LogicalLine.declared lookup) (LogicalLine.notes lookup) σ.defaults ls⟩
    | .error e => ∃ σ', (Snippet.readLines lookup ls).run σ = .error e σ' := by
  induction ls generalizing σ with
  | nil =>
    show (Snippet.readLines lookup []).run σ =
      .ok () ⟨σ.lines ++ [], σ.defaults, σ.diagnostics ++ []⟩
    rw [List.append_nil, List.append_nil]
    rfl
  | cons l ls ih =>
    let noted : Snippet := { σ with diagnostics := σ.diagnostics ++ l.diagnostics }
    have hrun : (Snippet.readLines lookup (l :: ls)).run σ =
        (LineContext.readLine ⟨lookup, l.start⟩ l.text >>= fun _ =>
          Snippet.readLines lookup ls).run noted :=
      rfl
    rw [List.mapM_cons, LogicalLine.reading, hrun, EStateM.run_bind, readLine_run ⟨lookup, l.start⟩]
    cases hreading : Typist.reading lookup l.text with
    | error fault => exact ⟨_, rfl⟩
    | ok line =>
      have ih := ih ((noted.grown (Typist.declared lookup l.text)
        (lineNotes ⟨lookup, l.start⟩ σ.defaults l.text)).withLine line)
      simp only [Except.mapError, bind, Except.bind]
      cases hlines : ls.mapM (LogicalLine.reading lookup) with
      | error e =>
        rw [hlines] at ih
        obtain ⟨σ', hrest⟩ := ih
        exact ⟨σ', hrest⟩
      | ok lines =>
        rw [hlines] at ih
        refine ih.trans ?_
        simp [noted, Snippet.grown, Snippet.withLine, LogicalLine.declared, LogicalLine.notes,
          Mapping.setAll, notedInOrder]

/-! ## The snippet of a text -/

variable {lookup : KeyLookup} {t : Text}

/-- What logical lines make of a snippet, if they all read. -/
def Snippet.ofLines (lookup : KeyLookup) (ls : List LogicalLine) (lines : List Line) : Snippet where
  lines := lines
  defaults := .ofList (ls.flatMap (LogicalLine.declared lookup))
  diagnostics := notedInOrder (LogicalLine.declared lookup) (LogicalLine.notes lookup) {} ls

/-- What is noted of lines, beside redeclarations, is noted of each by itself. -/
theorem Snippet.besides_ofLines (lookup : KeyLookup) (ls : List LogicalLine) (lines : List Line) :
    (ofLines lookup ls lines).diagnostics.besides .duplicateDefault =
      ls.flatMap (LogicalLine.corrections lookup) :=
  besides_notedInOrder (LogicalLine.besides_notes lookup) {} ls

/-- Every declaration is a redeclaration, which is noted, or the first of its name. -/
theorem Snippet.length_ofKind_ofLines (lookup : KeyLookup) (ls : List LogicalLine)
    (lines : List Line) :
    ((ofLines lookup ls lines).diagnostics.ofKind .duplicateDefault).length +
        (ofLines lookup ls lines).defaults.size =
      (ls.flatMap (LogicalLine.declared lookup)).length :=
  (length_ofKind_notedInOrder (LogicalLine.length_ofKind_notes lookup) {} ls).trans (Nat.zero_add _)

/-- The snippet of a text is made of what its logical lines give, of the defaults they declare and
of what is noted of them; the first line that does not read fails it. -/
theorem parse_eq (lookup : KeyLookup) (t : Text) :
    Snippet.parse lookup t =
      ((logicalLines (physicalLines t)).mapM (LogicalLine.reading lookup)).map
        (Snippet.ofLines lookup (logicalLines (physicalLines t))) := by
  have h := readLines_run lookup (logicalLines (physicalLines t)) {}
  rw [Snippet.parse, Snippet.readText]
  cases hlines : (logicalLines (physicalLines t)).mapM (LogicalLine.reading lookup) with
  | ok lines =>
    rw [hlines, EStateM.run] at h
    rw [h]
    rfl
  | error e =>
    rw [hlines] at h
    obtain ⟨σ, hrun⟩ := h
    rw [EStateM.run] at hrun
    rw [hrun]
    rfl

/-- The lines of a snippet are those that its logical lines give; the first that gives none fails
the snippet. -/
theorem parse_lines (lookup : KeyLookup) (t : Text) :
    (Snippet.parse lookup t).map Snippet.lines =
      (logicalLines (physicalLines t)).mapM (LogicalLine.reading lookup) := by
  rw [parse_eq]
  cases (logicalLines (physicalLines t)).mapM (LogicalLine.reading lookup) <;> rfl

/-- The defaults of a snippet are those that its logical lines declare, in order. -/
theorem parse_defaults {s : Snippet} (h : Snippet.parse lookup t = .ok s) :
    s.defaults =
      .ofList ((logicalLines (physicalLines t)).flatMap (LogicalLine.declared lookup)) := by
  rw [parse_eq] at h
  obtain ⟨lines, -, rfl⟩ := map_eq_ok_iff.mp h
  rfl

end Typist
