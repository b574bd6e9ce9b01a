import Mathlib.Data.List.SplitBy
import Typist.Proofs.Snippet.Lines

/-!
# Runs of physical lines

The physical lines fall into runs (`runs`) : within a run each line asks to be continued but the
last, and where another run follows, the last does not. Lines go on with a line that was begun as
long as a run does (`assemble_begun`), so each run is joined to one logical line (`assemble_run`),
and joining the physical lines is joining their runs one after the other
(`logicalLines_eq_joinedRuns`). So no two logical lines start on the same physical line
(`pairwise_start_logicalLines`), and only the last of them can be left unfinished
(`exists_logicalLines_concat`).

`AreJoined` says what that comes to : which run each logical line is, where it starts, what its text
is, and when it is noted that the last one is left unfinished.
-/

namespace Typist

/-! ## The statement -/

/-- The longest runs of physical lines of which all but the last ask to be continued. -/
def runs (lines : List Text) : List (List Text) :=
  lines.splitBy fun line _ => continues line

/-- The text of a run : its lines without the backslashes they end in, all but the first trimmed at
their start. -/
def joinedRun : List Text → Text
  | [] => []
  | first :: rest =>
    first.withoutMark '\\' ++ rest.flatMap fun line => (Text.trimStart line).withoutMark '\\'

/-- The note that a logical line is left unfinished. -/
def unfinishedNote (l : LogicalLine) : Diagnostic :=
  ⟨.trailingContinuation, l.start, trailingContinuationMessage⟩

/-- The logical lines are what the physical lines are joined to, run by run. -/
structure AreJoined (lines : List Text) (logical : List LogicalLine) : Prop where
  /-- Each physical line is in exactly one run, and the runs stand in order. -/
  partition : (runs lines).flatten = lines
  /-- A run is not empty, and all its lines but the last ask to be continued. -/
  continued : ∀ run ∈ runs lines, run ≠ [] ∧ ∀ line ∈ run.dropLast, continues line = true
  /-- A run could not be longer : where another one follows, its last line does not ask to be
  continued. -/
  longest : ∀ run ∈ (runs lines).dropLast, ∀ line ∈ run.getLast?, continues line = false
  /-- There is one logical line for each run. -/
  length : logical.length = (runs lines).length
  /-- The logical line of a run starts where the run does, holds its lines joined, and is unfinished
  if the last of them asks to be continued. -/
  joined : ∀ i run, (runs lines)[i]? = some run →
    logical[i]? =
      some (⟨((runs lines).take i).flatten.length + 1, joinedRun run,
        run.getLast?.any continues⟩ : LogicalLine)
  /-- The first logical line starts on line 1. -/
  first : ∀ l ∈ logical.head?, l.start = 1
  /-- The logical lines start further and further down. -/
  ascending : logical.Pairwise fun l l' => l.start < l'.start
  /-- If the last physical line asks to be continued, that is noted once, where the last logical
  line starts; otherwise nothing is noted. -/
  noted : logical.flatMap LogicalLine.diagnostics =
    if lines.getLast?.any continues then logical.getLast?.toList.map unfinishedNote else []

/-! ## Runs -/

/-- Does each line of the row that another one follows ask to be continued? -/
def IsRun (row : List Text) : Prop :=
  row.IsChain fun line _ => continues line = true

/-- What holds of all that something follows in a chain holds of all but its last. -/
theorem forall_mem_dropLast_of_isChain {α : Type} {P : α → Prop} {l : List α}
    (h : l.IsChain fun a _ => P a) : ∀ a ∈ l.dropLast, P a := by
  induction l with
  | nil => simp
  | cons a l ih =>
    cases l with
    | nil => simp
    | cons b l =>
      obtain ⟨ha, hl⟩ := List.isChain_cons_cons.mp h
      exact List.forall_mem_cons.mpr ⟨ha, ih hl⟩

section

variable {line : Text} {lines rest run : List Text} {rows : List (List Text)}

/-- Nothing goes on with a line that does not ask to be continued. -/
theorem IsRun.eq_nil (h : IsRun (line :: rest)) (hline : ¬continues line = true) : rest = [] := by
  cases rest with
  | nil => rfl
  | cons next rest => exact absurd (List.isChain_cons_cons.mp h).1 hline

@[simp]
theorem flatten_runs (lines : List Text) : (runs lines).flatten = lines :=
  List.flatten_splitBy _ lines

theorem nil_not_mem_runs (lines : List Text) : [] ∉ runs lines :=
  List.nil_notMem_splitBy _ lines

theorem ne_nil_of_mem_runs (h : run ∈ runs lines) : run ≠ [] :=
  List.ne_nil_of_mem_splitBy h

theorem isRun_of_mem_runs (h : run ∈ runs lines) : IsRun run :=
  List.isChain_of_mem_splitBy h

/-- Where a run is followed by another one, its last line does not ask to be continued. -/
theorem isChain_runs (lines : List Text) :
    (runs lines).IsChain fun run _ => ∀ line ∈ run.getLast?, continues line = false := by
  refine (List.isChain_getLast_head_splitBy _ lines).imp fun run next h line hline => ?_
  obtain ⟨hrun, -, hends⟩ := h
  rwa [List.getLast_of_mem_getLast? hline] at hends

/-! ## Joining -/

theorem withoutMark_of_continues (h : continues line = true) :
    line.withoutMark '\\' = line.dropLast :=
  if_pos (of_decide_eq_true h)

theorem withoutMark_of_not_continues (h : ¬continues line = true) : line.withoutMark '\\' = line :=
  Text.withoutMark_eq_self fun hmark => h (decide_eq_true hmark)

/-- The lines of a run that go on with a line end it, or leave it unfinished. -/
theorem assemble_begun (h : IsRun rest) (number start : Nat) (text : Text) :
    assemble number (some (start, text)) rest =
      [⟨start, text ++ rest.flatMap fun line => (Text.trimStart line).withoutMark '\\',
        rest.getLast?.all continues⟩] := by
  induction rest generalizing number text with
  | nil => simp [assemble]
  | cons line rest ih =>
    have hcontinues := continues_trimStart line
    rw [assemble, List.flatMap_cons, List.getLast?_cons]
    split
    · next hline =>
      rw [ih h.tail, withoutMark_of_continues hline, List.append_assoc]
      cases rest.getLast? <;> simp [← hcontinues, hline]
    · next hline =>
      obtain rfl := h.eq_nil (hcontinues ▸ hline)
      rw [withoutMark_of_not_continues hline]
      simp [assemble, ← hcontinues, hline]

/-- A run is one logical line. -/
theorem assemble_run (hne : run ≠ []) (h : IsRun run) (number : Nat) :
    assemble number none run = [⟨number, joinedRun run, run.getLast?.any continues⟩] := by
  cases run with
  | nil => exact absurd rfl hne
  | cons line rest =>
    have hrest : IsRun rest := h.tail
    rw [assemble, joinedRun, List.getLast?_cons]
    split
    · next hline =>
      rw [assemble_begun hrest, withoutMark_of_continues hline]
      cases rest.getLast? <;> simp [hline]
    · next hline =>
      obtain rfl := h.eq_nil hline
      rw [withoutMark_of_not_continues hline]
      simp [assemble, hline]

/-- The logical lines of rows of physical lines, of which the first starts on line `number`. -/
def joinedRuns (number : Nat) : List (List Text) → List LogicalLine
  | [] => []
  | run :: later =>
    ⟨number, joinedRun run, run.getLast?.any continues⟩ :: joinedRuns (number + run.length) later

theorem assemble_flatten (hne : [] ∉ rows) (hruns : ∀ row ∈ rows, IsRun row)
    (hends : rows.IsChain fun row _ => ∀ line ∈ row.getLast?, continues line = false)
    (number : Nat) : assemble number none rows.flatten = joinedRuns number rows := by
  induction rows generalizing number with
  | nil => rfl
  | cons run rows ih =>
    obtain ⟨hrun, hrows⟩ := List.forall_mem_cons.mp hruns
    obtain ⟨hnil, hnils⟩ : [] ≠ run ∧ [] ∉ rows := by rwa [List.mem_cons, not_or] at hne
    rw [List.flatten_cons, joinedRuns]
    cases rows with
    | nil =>
      rw [List.flatten_nil, List.append_nil, assemble_run hnil.symm hrun]
      rfl
    | cons next rows =>
      obtain ⟨hlast, hends⟩ := List.isChain_cons_cons.mp hends
      rw [assemble_append number none run _ (fun _ => rfl) hlast, assemble_run hnil.symm hrun,
        ih hnils hrows hends]
      rfl

/-- Joining the physical lines is joining their runs. -/
theorem logicalLines_eq_joinedRuns (lines : List Text) :
    logicalLines lines = joinedRuns 1 (runs lines) := by
  rw [← assemble_flatten (nil_not_mem_runs lines) (fun _ => isRun_of_mem_runs) (isChain_runs lines),
    flatten_runs, logicalLines]

theorem length_joinedRuns (number : Nat) (rows : List (List Text)) :
    (joinedRuns number rows).length = rows.length := by
  induction rows generalizing number with
  | nil => rfl
  | cons run rows ih => rw [joinedRuns, List.length_cons, List.length_cons, ih]

theorem getElem?_joinedRuns {i : Nat} (number : Nat) (h : rows[i]? = some run) :
    (joinedRuns number rows)[i]? =
      some ⟨number + (rows.take i).flatten.length, joinedRun run, run.getLast?.any continues⟩ := by
  induction rows generalizing i number with
  | nil => simp at h
  | cons first rows ih =>
    cases i with
    | zero =>
      obtain rfl : first = run := Option.some.inj h
      rfl
    | succ i =>
      have hrest : rows[i]? = some run := h
      rw [joinedRuns, List.getElem?_cons_succ, ih _ hrest, List.take_succ_cons, List.flatten_cons,
        List.length_append, Nat.add_assoc]

/-! ## Where logical lines start and end -/

theorem pairwise_start_joinedRuns (hne : [] ∉ rows) (number : Nat) :
    (joinedRuns number rows).Pairwise (fun l l' => l.start < l'.start) ∧
      ∀ l ∈ joinedRuns number rows, number ≤ l.start := by
  induction rows generalizing number with
  | nil => simp [joinedRuns]
  | cons run rows ih =>
    obtain ⟨hnil, hnils⟩ : [] ≠ run ∧ [] ∉ rows := by rwa [List.mem_cons, not_or] at hne
    obtain ⟨hpairwise, hlater⟩ := ih hnils (number + run.length)
    have hbelow : ∀ l ∈ joinedRuns (number + run.length) rows, number < l.start := fun l hl =>
      Nat.lt_of_lt_of_le (Nat.lt_add_of_pos_right (List.length_pos_iff.mpr hnil.symm)) (hlater l hl)
    exact ⟨List.pairwise_cons.mpr ⟨hbelow, hpairwise⟩,
      List.forall_mem_cons.mpr ⟨Nat.le_refl number, fun l hl => Nat.le_of_lt (hbelow l hl)⟩⟩

/-- The logical lines start in order, each on a physical line of its own. -/
theorem pairwise_start_logicalLines (lines : List Text) :
    (logicalLines lines).Pairwise fun l l' => l.start < l'.start := by
  rw [logicalLines_eq_joinedRuns]
  exact (pairwise_start_joinedRuns (nil_not_mem_runs lines) 1).1

theorem map_unfinished_joinedRuns (number : Nat) (rows : List (List Text)) :
    (joinedRuns number rows).map LogicalLine.unfinished = rows.map fun run =>
      run.getLast?.any continues := by
  induction rows generalizing number with
  | nil => rfl
  | cons run rows ih => rw [joinedRuns, List.map_cons, List.map_cons, ih]

/-- The last run ends with the last physical line, and the others end where nothing is asked for. -/
theorem exists_runs_concat (h : lines.getLast? = some line) :
    ∃ earlier run, runs lines = earlier ++ [run] ∧ run.getLast? = some line ∧
      ∀ row ∈ earlier, row.getLast?.any continues = false := by
  have hflatten := flatten_runs lines
  rcases List.eq_nil_or_concat (runs lines) with hnil | ⟨earlier, run, hruns⟩
  · rw [← hflatten, hnil] at h
    cases h
  · rw [List.concat_eq_append] at hruns
    have hmem : run ∈ runs lines := hruns ▸ List.mem_append_right _ (List.mem_singleton_self run)
    rw [← hflatten, hruns, List.flatten_append, List.flatten_singleton,
      List.getLast?_append_of_ne_nil _ (ne_nil_of_mem_runs hmem)] at h
    refine ⟨earlier, run, hruns, h, fun row hrow => ?_⟩
    have hends :=
      forall_mem_dropLast_of_isChain (isChain_runs lines) row (by rwa [hruns, List.dropLast_concat])
    cases hlast : row.getLast? with
    | none => rfl
    | some last => exact hends last hlast

/-- No logical line is left unfinished but the last, and that one is if the last physical line asks
to be continued. -/
theorem exists_logicalLines_concat (h : lines.getLast? = some line) :
    ∃ before l, logicalLines lines = before ++ [l] ∧ l.unfinished = continues line ∧
      ∀ l ∈ before, l.unfinished = false := by
  obtain ⟨earlier, run, hruns, hrun, hearlier⟩ := exists_runs_concat h
  have hmap := map_unfinished_joinedRuns 1 (runs lines)
  rw [← logicalLines_eq_joinedRuns, hruns, List.map_append] at hmap
  obtain ⟨before, rest, hlines, hbefore, hrest⟩ := List.map_eq_append_iff.mp hmap
  obtain ⟨l, rfl, hl⟩ := List.map_eq_singleton_iff.mp hrest
  refine ⟨before, l, hlines, hl.trans (congrArg (Option.any continues) hrun), fun l hl => ?_⟩
  obtain ⟨row, hrow, hsame⟩ := List.mem_map.mp (hbefore ▸ List.mem_map_of_mem hl)
  rw [← hsame, hearlier row hrow]

theorem unfinished_of_mem_logicalLines
    (h : ∀ line, lines.getLast? = some line → continues line = false) :
    ∀ l ∈ logicalLines lines, l.unfinished = false := by
  cases hlast : lines.getLast? with
  | none =>
    rw [List.getLast?_eq_none_iff.mp hlast]
    exact fun l hl => absurd hl List.not_mem_nil
  | some line =>
    obtain ⟨before, last, hlines, hunfinished, hbefore⟩ := exists_logicalLines_concat hlast
    rw [hlines]
    exact List.forall_mem_append.mpr ⟨hbefore,
      List.forall_mem_singleton.mpr (hunfinished.trans (h line hlast))⟩

theorem logicalLines_of_continues (hlast : lines.getLast? = some line) (h : continues line = true) :
    ∃ before l, logicalLines lines = before ++ [l] ∧ l.unfinished = true ∧
      ∀ l ∈ before, l.unfinished = false := by
  obtain ⟨before, l, hlines, hunfinished, hbefore⟩ := exists_logicalLines_concat hlast
  exact ⟨before, l, hlines, hunfinished.trans h, hbefore⟩

theorem diagnostics_logicalLines (lines : List Text) :
    (logicalLines lines).flatMap LogicalLine.diagnostics =
      if lines.getLast?.any continues then (logicalLines lines).getLast?.toList.map unfinishedNote
      else [] := by
  cases hlast : lines.getLast? with
  | none =>
    rw [List.getLast?_eq_none_iff.mp hlast]
    rfl
  | some line =>
    obtain ⟨before, l, hlines, hunfinished, hbefore⟩ := exists_logicalLines_concat hlast
    have hnone : before.flatMap LogicalLine.diagnostics = [] := by
      refine List.flatMap_eq_nil_iff.mpr fun l hl => ?_
      rw [LogicalLine.diagnostics, hbefore l hl, if_neg Bool.false_ne_true]
    rw [hlines, List.flatMap_append, hnone, List.getLast?_concat, List.flatMap_singleton,
      LogicalLine.diagnostics, hunfinished]
    rfl

end

/-- The logical lines are the runs of the physical lines, joined. -/
theorem logicalLines_areJoined (lines : List Text) : AreJoined lines (logicalLines lines) := by
  have hjoined := logicalLines_eq_joinedRuns lines
  refine ⟨flatten_runs lines, fun run hrun => ⟨ne_nil_of_mem_runs hrun, ?_⟩, ?_, ?_,
    fun i run hrun => ?_, ?_, pairwise_start_logicalLines lines, diagnostics_logicalLines lines⟩
  · exact forall_mem_dropLast_of_isChain (isRun_of_mem_runs hrun)
  · exact forall_mem_dropLast_of_isChain (isChain_runs lines)
  · rw [hjoined, length_joinedRuns]
  · rw [hjoined, getElem?_joinedRuns 1 hrun, Nat.add_comm]
  · rw [hjoined]
    cases runs lines with
    | nil => simp [joinedRuns]
    | cons run later => simp [joinedRuns]

end Typist
