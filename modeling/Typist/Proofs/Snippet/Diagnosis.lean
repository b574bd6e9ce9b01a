import Typist.Proofs.Key.Names
import Typist.Proofs.Snippet.EndOfLine
import Typist.Proofs.Snippet.Runs

/-!
# The diagnostics of a snippet

What is noted of a logical line carries the number of the physical line it starts on, and no two
logical lines start on the same. So the diagnostics of a snippet are those of its logical lines one
after the other, and those that carry the number of a logical line are what is noted of it
(`onLine_ofLines`).

`Snippet.IsDiagnosed` says what that comes to for a text : the numbers never decrease, a logical
line has a diagnostic for the argument or the combo that its end leaves open (`leftOpen`) and no
other of these kinds, and a last physical line that asks to be continued has one that comes before
all else that is noted of its logical line. It holds of every snippet that a text gives
(`parse_isDiagnosed`).
-/

namespace Typist

/-! ## The statement -/

/-- The opener of the part that the segment leaves open. -/
def Segment.unclosed? : Segment → Option Opening
  | part opening _ false => some opening
  | _ => none

/-- The opener of the part that the end of the line leaves open. -/
def leftOpen (t : Text) : Option Opening :=
  (segments t).findSome? Segment.unclosed?

/-- Is a diagnostic of the kind about a part that the end of the line leaves open? -/
def DiagnosticKind.isIncomplete : DiagnosticKind → Bool
  | incompleteArg | incompleteCombo => true
  | duplicateDefault | trailingContinuation => false

/-- The diagnostics with the number of a line. -/
def Diagnostics.onLine (ds : Diagnostics) (number : Int) : Diagnostics :=
  ds.filter fun d => d.line = number

/-- The diagnostics of a snippet are complete for the text, stand where they belong and come in
order. -/
structure Snippet.IsDiagnosed (s : Snippet) (t : Text) : Prop where
  /-- Line numbers never decrease. -/
  ascending : s.diagnostics.Pairwise fun d d' => d.line ≤ d'.line
  /-- Each diagnostic is on the line that a logical line starts on. -/
  located : ∀ d ∈ s.diagnostics, ∃ l ∈ logicalLines (physicalLines t), d.line = l.start
  /-- A logical line has one diagnostic for the argument or the combo that it leaves open, and else
  none of these kinds. -/
  incomplete : ∀ l ∈ logicalLines (physicalLines t),
    ((s.diagnostics.onLine l.start).filter fun d => d.kind.isIncomplete).map Diagnostic.kind =
      ((leftOpen l.text).bind Opening.incompleteKind?).toList
  /-- A last physical line that asks to be continued has one diagnostic, which is the first of the
  last logical line. -/
  unfinished : ∀ line, (physicalLines t).getLast? = some line → continues line = true →
    ∃ l earlier later, (logicalLines (physicalLines t)).getLast? = some l ∧
      s.diagnostics = earlier ++ ⟨.trailingContinuation, l.start,
        trailingContinuationMessage⟩ :: later ∧
      (∀ d ∈ earlier, d.line < (l.start : Int) ∧ d.kind ≠ .trailingContinuation) ∧
      ∀ d ∈ later, d.line = (l.start : Int) ∧ d.kind ≠ .trailingContinuation
  /-- Without such a line there is none. -/
  finished : (∀ line, (physicalLines t).getLast? = some line → continues line = false) →
    s.diagnostics.ofKind .trailingContinuation = []

/-! ## Rows -/

section

variable {α : Type} {declares : α → List (Text × Text)}
  {notes : Mapping Text Text → α → Diagnostics} {defaults : Mapping Text Text} {as : List α}

/-- What is noted in a row is noted of one of the things in it. -/
theorem exists_of_mem_notedInOrder {d : Diagnostic}
    (h : d ∈ notedInOrder declares notes defaults as) :
    ∃ a ∈ as, ∃ defaults', d ∈ notes defaults' a := by
  induction as generalizing defaults with
  | nil => cases h
  | cons a as ih =>
    rcases List.mem_append.mp h with h | h
    · exact ⟨a, List.mem_cons_self .., defaults, h⟩
    · obtain ⟨b, hb, hnotes⟩ := ih h
      exact ⟨b, List.mem_cons_of_mem _ hb, hnotes⟩

variable {place : α → Int} (hplace : ∀ defaults a, ∀ d ∈ notes defaults a, d.line = place a)

include hplace

theorem exists_line_of_mem_notedInOrder :
    ∀ d ∈ notedInOrder declares notes defaults as, ∃ a ∈ as, d.line = place a := by
  intro d hd
  obtain ⟨a, ha, defaults', hnotes⟩ := exists_of_mem_notedInOrder hd
  exact ⟨a, ha, hplace defaults' a d hnotes⟩

/-- What is noted of a row in ascending places is in ascending places. -/
theorem pairwise_line_notedInOrder (h : as.Pairwise fun a b => place a ≤ place b) :
    (notedInOrder declares notes defaults as).Pairwise fun d d' => d.line ≤ d'.line := by
  induction as generalizing defaults with
  | nil => exact List.Pairwise.nil
  | cons a as ih =>
    obtain ⟨hfirst, hrest⟩ := List.pairwise_cons.mp h
    refine List.pairwise_append.mpr ⟨List.pairwise_of_forall_mem_list ?_, ih hrest, ?_⟩
    · intro d hd d' hd'
      exact Int.le_of_eq ((hplace _ _ d hd).trans (hplace _ _ d' hd').symm)
    · intro d hd d' hd'
      obtain ⟨b, hb, hline⟩ := exists_line_of_mem_notedInOrder hplace d' hd'
      rw [hplace _ _ d hd, hline]
      exact hfirst b hb

/-- Where no place comes twice, what is noted in one of the places is noted of what stands there. -/
theorem onLine_notedInOrder {before after : List α} {a : α}
    (h : (before ++ a :: after).Pairwise fun a b => place a ≠ place b) :
    (notedInOrder declares notes defaults (before ++ a :: after)).onLine (place a) =
      notes (defaults.setAll (before.flatMap declares)) a := by
  obtain ⟨-, hafter, hbefore⟩ := List.pairwise_append.mp h
  rw [notedInOrder_append, notedInOrder, Diagnostics.onLine, List.filter_append, List.filter_append,
    List.filter_eq_nil_iff.mpr, List.filter_eq_self.mpr, List.filter_eq_nil_iff.mpr,
    List.nil_append, List.append_nil]
  · intro d hd
    obtain ⟨b, hb, hline⟩ := exists_line_of_mem_notedInOrder hplace d hd
    simpa [hline] using ((List.pairwise_cons.mp hafter).1 b hb).symm
  · intro d hd
    simpa using hplace _ _ d hd
  · intro d hd
    obtain ⟨b, hb, hline⟩ := exists_line_of_mem_notedInOrder hplace d hd
    simpa [hline] using hbefore b hb a (List.mem_cons_self ..)

end

/-! ## A logical line -/

section

variable {number : Int} {defaults : Mapping Text Text} {d : Diagnostic}

theorem of_mem_incomplete {segment : Segment} (h : d ∈ segment.incomplete number) :
    d.line = number ∧ d.kind.isIncomplete = true := by
  unfold Segment.incomplete at h
  split at h
  · rw [List.mem_singleton.mp h]
    exact ⟨rfl, rfl⟩
  · rw [List.mem_singleton.mp h]
    exact ⟨rfl, rfl⟩
  · cases h

theorem of_mem_notes {segment : Segment} (h : d ∈ segment.notes number defaults) :
    d.line = number ∧ d.kind ≠ .trailingContinuation := by
  rcases List.mem_append.mp h with h | h
  · obtain ⟨hline, hkind⟩ := of_mem_incomplete h
    refine ⟨hline, fun htrailing => ?_⟩
    rw [htrailing] at hkind
    cases hkind
  · obtain ⟨declaration, -, h⟩ := List.mem_flatMap.mp h
    obtain ⟨previous, -, rfl⟩ := List.mem_map.mp h
    exact ⟨rfl, DiagnosticKind.noConfusion⟩

theorem of_mem_lineNotes {ctx : LineContext} {t : Text} (h : d ∈ lineNotes ctx defaults t) :
    d.line = ctx.number ∧ d.kind ≠ .trailingContinuation := by
  obtain ⟨segment, -, defaults', hnotes⟩ := exists_of_mem_notedInOrder h
  exact of_mem_notes hnotes

/-- The parts that a line leaves open are noted by their kinds. -/
theorem incomplete_segments (number : Int) (t : Text) :
    ((segments t).flatMap (Segment.incomplete number)).map Diagnostic.kind =
      ((leftOpen t).bind Opening.incompleteKind?).toList := by
  rw [leftOpen]
  fun_induction segments t with
  | case1 t hnone => rfl
  | case2 t opening rest hsome ih =>
    by_cases h : '$' ∈ rest
    · have hclosed : rest.contains '$' = true := by simpa using h
      simp only [hclosed, List.flatMap_cons, List.findSome?_cons, incomplete_closed]
      exact ih
    · have hopen : rest.contains '$' = false := by simpa using h
      have hend : segments [] = [.text []] := by rw [segments]; rfl
      rw [hopen, afterBody_eq_nil h, hend]
      cases opening <;> rfl

end

namespace LogicalLine

variable {lookup : KeyLookup} {defaults : Mapping Text Text} {l : LogicalLine} {d : Diagnostic}

theorem line_of_mem_diagnostics (h : d ∈ l.diagnostics) : d.line = l.start := by
  rw [diagnostics] at h
  split at h
  · rw [List.mem_singleton.mp h]
  · cases h

/-- What is noted of a logical line is noted where it starts. -/
theorem line_of_mem_notes (h : d ∈ l.notes lookup defaults) : d.line = l.start := by
  rcases List.mem_append.mp h with h | h
  · exact line_of_mem_diagnostics h
  · exact (of_mem_lineNotes h).1

theorem kind_of_mem_notes (hfinished : l.unfinished = false) (h : d ∈ l.notes lookup defaults) :
    d.kind ≠ .trailingContinuation := by
  rcases List.mem_append.mp h with h | h
  · simp [diagnostics, hfinished] at h
  · exact (of_mem_lineNotes h).2

/-- A line that reads is noted for what its end leaves open. -/
theorem incomplete_notes {line : Line} (hreads : l.reading lookup = .ok line) :
    ((l.notes lookup defaults).filter fun d => d.kind.isIncomplete).map Diagnostic.kind =
      ((leftOpen l.text).bind Opening.incompleteKind?).toList := by
  have hreached : reached lookup (segments l.text) = segments l.text := by
    obtain ⟨parts, hparts, -⟩ := map_eq_ok_iff.mp (reading_eq_ok.mp hreads)
    have hok : ∀ g ∈ segments l.text, (g.meaning lookup).isOk := by
      intro g hg
      obtain ⟨part, -, hmeaning⟩ := exists_mem_of_mapM hparts hg
      rw [hmeaning]
      rfl
    simpa [reached] using reached_append hok []
  have hbesides : (l.notes lookup defaults).filter (fun d => d.kind.isIncomplete) =
      (l.corrections lookup).filter fun d => d.kind.isIncomplete := by
    rw [← besides_notes lookup defaults, Diagnostics.besides, List.filter_filter]
    refine List.filter_congr fun d _ => ?_
    cases d.kind <;> rfl
  have hunfinished : l.diagnostics.filter (fun d => d.kind.isIncomplete) = [] := by
    rw [diagnostics]
    split <;> rfl
  rw [hbesides, corrections, hreached, List.filter_append, hunfinished, List.nil_append,
    List.filter_eq_self.mpr, incomplete_segments]
  intro d hd
  obtain ⟨segment, -, hincomplete⟩ := List.mem_flatMap.mp hd
  exact (of_mem_incomplete hincomplete).2

end LogicalLine

/-! ## A text -/

variable {lookup : KeyLookup} {t : Text} {s : Snippet}

/-- What carries the number of a logical line is what is noted of it. -/
theorem onLine_ofLines {before after : List LogicalLine} {l : LogicalLine} (lines : List Line)
    (hstarts : (before ++ l :: after).Pairwise fun l l' => l.start < l'.start) :
    (Snippet.ofLines lookup (before ++ l :: after) lines).diagnostics.onLine l.start =
      l.notes lookup (.ofList (before.flatMap (LogicalLine.declared lookup))) := by
  have hplaces : (before ++ l :: after).Pairwise fun l l' => (l.start : Int) ≠ l'.start :=
    hstarts.imp fun hlt heq => Nat.ne_of_lt hlt (Int.ofNat.inj heq)
  have hplace : ∀ (defaults : Mapping Text Text) (l : LogicalLine),
      ∀ d ∈ l.notes lookup defaults, d.line = l.start :=
    fun _ _ _ => LogicalLine.line_of_mem_notes
  exact onLine_notedInOrder hplace hplaces

/-- That a line is left unfinished is noted before all else of it. -/
theorem diagnostics_of_unfinished (before : List LogicalLine) {l : LogicalLine} (lines : List Line)
    (h : l.unfinished = true) :
    (Snippet.ofLines lookup (before ++ [l]) lines).diagnostics =
      (Snippet.ofLines lookup before lines).diagnostics ++
        ⟨.trailingContinuation, l.start, trailingContinuationMessage⟩ ::
          lineNotes ⟨lookup, l.start⟩ (.ofList (before.flatMap (LogicalLine.declared lookup)))
            l.text := by
  rw [Snippet.ofLines, notedInOrder_append, notedInOrder, notedInOrder, LogicalLine.notes,
    LogicalLine.diagnostics, if_pos h, List.append_nil]
  rfl

/-- The diagnostics of a snippet are complete for its text, stand where they belong and come in
order. -/
theorem parse_isDiagnosed (h : Snippet.parse lookup t = .ok s) : s.IsDiagnosed t := by
  rw [parse_eq] at h
  obtain ⟨lines, hlines, rfl⟩ := map_eq_ok_iff.mp h
  have hstarts := pairwise_start_logicalLines (physicalLines t)
  have hline : ∀ defaults (l : LogicalLine), ∀ d ∈ l.notes lookup defaults, d.line =
      (l.start : Int) :=
    fun _ _ _ => LogicalLine.line_of_mem_notes
  refine ⟨?_, ?_, fun l hl => ?_, fun line hlast hcontinues => ?_, fun hfinished => ?_⟩
  · exact pairwise_line_notedInOrder hline (hstarts.imp fun hlt =>
      Int.ofNat_le.mpr (Nat.le_of_lt hlt))
  · exact exists_line_of_mem_notedInOrder hline
  · obtain ⟨line, -, hreads⟩ := exists_mem_of_mapM hlines hl
    obtain ⟨before, after, hsplit⟩ := List.append_of_mem hl
    rw [hsplit] at hstarts ⊢
    rw [onLine_ofLines lines hstarts]
    exact LogicalLine.incomplete_notes hreads
  · obtain ⟨before, l, hsplit, hunfinished, hbefore⟩ := logicalLines_of_continues hlast hcontinues
    rw [hsplit] at hstarts ⊢
    obtain ⟨-, -, hearlier⟩ := List.pairwise_append.mp hstarts
    refine ⟨l, _, _, List.getLast?_concat .., diagnostics_of_unfinished before lines hunfinished,
      fun d hd => ?_, fun d hd => of_mem_lineNotes hd⟩
    obtain ⟨l', hl', defaults', hnotes⟩ := exists_of_mem_notedInOrder hd
    refine ⟨?_, LogicalLine.kind_of_mem_notes (hbefore l' hl') hnotes⟩
    rw [hline _ _ d hnotes]
    exact Int.ofNat_lt.mpr (hearlier l' hl' l (List.mem_singleton_self l))
  · refine List.filter_eq_nil_iff.mpr fun d hd hkind => ?_
    obtain ⟨l, hl, defaults', hnotes⟩ := exists_of_mem_notedInOrder hd
    exact LogicalLine.kind_of_mem_notes (unfinished_of_mem_logicalLines hfinished l hl) hnotes
      (of_decide_eq_true hkind)

/-- A text whose first logical line goes on and leaves an argument open, with a combo left open
below an empty line and a comment at its end that leaves an argument open, redeclares a default and
asks to be continued. -/
def unfinishedText : Text :=
  "$@a\\\n  ::x\n\n$!\n##$@b$ $@a::y\\".toList

theorem parse_isDiagnosed_unfinishedText :
    ∃ s, Snippet.parse Key.standardLookup unfinishedText = .ok s ∧ s.IsDiagnosed unfinishedText ∧
      s.diagnostics.map (fun d => (d.kind, d.line)) =
        [(.incompleteArg, 1), (.incompleteCombo, 4), (.trailingContinuation, 5),
          (.incompleteArg, 5), (.duplicateDefault, 5)] := by
  have hnotes : (Snippet.parse Key.standardLookup unfinishedText).map
      (fun s => s.diagnostics.map fun d => (d.kind, d.line)) =
        .ok [(.incompleteArg, 1), (.incompleteCombo, 4), (.trailingContinuation, 5),
          (.incompleteArg, 5), (.duplicateDefault, 5)] := by
    decide +kernel
  obtain ⟨s, hs, hkinds⟩ := map_eq_ok_iff.mp hnotes
  exact ⟨s, hs, parse_isDiagnosed hs, hkinds⟩

end Typist
