import Typist.Proofs.Snippet.Renumbering

/-!
# Snippets put together

Of the lines before it, a logical line needs to know how many there are, to tell where it stands,
and which defaults they declare, to tell what it redeclares. So the snippet of two texts is made of
the snippets of either (`parse_append`), where the first ends with its line and asks for no
continuation. Its defaults are those of the first, updated with those of the second. What is noted
of the second is noted as many lines further down as the first has, and each name that both declare
is noted once more.
-/

namespace Typist

/-! ## Lines further down -/

/-- The diagnostic, if `above` more physical lines come before its line. -/
def Diagnostic.movedDown (d : Diagnostic) (above : Nat) : Diagnostic :=
  { d with line := d.line + above }

/-- The error, if `above` more physical lines come before its line. -/
def ReadError.movedDown (e : ReadError) (above : Nat) : ReadError :=
  match e with
  | .snippet error => .snippet { error with line := error.line.map (· + above) }
  | .numberTooLong => .numberTooLong

theorem ReadError.movedDown_eq_renumbered (e : ReadError) (above : Nat) :
    e.movedDown above = e.renumbered (· + above) := by
  cases e <;> rfl

/-- What is noted of a line beside redeclarations is noted of it further down. -/
theorem LogicalLine.corrections_movedDown (lookup : KeyLookup) (line : LogicalLine) (above : Nat) :
    (line.movedDown above).corrections lookup =
      (line.corrections lookup).map (·.movedDown above) := by
  have hnotes :
      (line.movedDown above).notes lookup {} = (line.notes lookup {}).map (·.movedDown above) :=
    line.notes_renumbered (· + above) (· + above) (fun number => Int.natCast_add number above)
      lookup {}
  rw [← LogicalLine.besides_notes lookup {}, ← LogicalLine.besides_notes lookup {}, hnotes,
    Diagnostics.besides, Diagnostics.besides, List.filter_map]
  rfl

/-! ## The snippets of two texts -/

/-- The snippet `s` is what `sa` and `sb` make together, where `above` physical lines come before
those of `sb`. -/
structure Snippet.IsJoined (s sa sb : Snippet) (above : Nat) : Prop where
  lines : s.lines = sa.lines ++ sb.lines
  /-- The names of `sa` stay where they are, and the values of `sb` win. -/
  defaults : s.defaults = sa.defaults.setAll sb.defaults.entries
  corrections : s.diagnostics.besides .duplicateDefault =
    sa.diagnostics.besides .duplicateDefault ++
      (sb.diagnostics.besides .duplicateDefault).map (·.movedDown above)
  /-- A name that both declare is redeclared once more. -/
  redeclarations : (s.diagnostics.ofKind .duplicateDefault).length =
    (sa.diagnostics.ofKind .duplicateDefault).length +
      (sb.diagnostics.ofKind .duplicateDefault).length +
      (sb.defaults.names.filter sa.defaults.contains).length

variable (lookup : KeyLookup)

/-- The logical lines further down read as they do by themselves, but for where an error stands. -/
theorem mapM_reading_movedDown (ls : List LogicalLine) (above : Nat) :
    (ls.map (·.movedDown above)).mapM (LogicalLine.reading lookup) =
      (ls.mapM (LogicalLine.reading lookup)).mapError (·.movedDown above) := by
  simp only [ReadError.movedDown_eq_renumbered]
  exact mapM_reading_renumbered (· + above) (· + above) (fun number => Int.natCast_add number above)
    lookup ls

theorem isJoined_ofLines (as bs : List LogicalLine) (above : Nat) (linesA linesB : List Line) :
    (Snippet.ofLines lookup (as ++ bs.map (·.movedDown above)) (linesA ++ linesB)).IsJoined
      (Snippet.ofLines lookup as linesA) (Snippet.ofLines lookup bs linesB) above := by
  have hdeclared : (as ++ bs.map (·.movedDown above)).flatMap (LogicalLine.declared lookup) =
      as.flatMap (LogicalLine.declared lookup) ++ bs.flatMap (LogicalLine.declared lookup) := by
    rw [List.flatMap_append, List.flatMap_map]
    rfl
  have hdefaults :
      (Snippet.ofLines lookup (as ++ bs.map (·.movedDown above)) (linesA ++ linesB)).defaults =
        (Snippet.ofLines lookup as linesA).defaults.setAll
          (Snippet.ofLines lookup bs linesB).defaults.entries := by
    rw [Snippet.ofLines, hdeclared, Mapping.ofList, Mapping.setAll_append]
    exact (Mapping.setAll_entries_ofList _ _).symm
  refine ⟨rfl, hdefaults, ?_, ?_⟩
  · rw [Snippet.besides_ofLines, Snippet.besides_ofLines, Snippet.besides_ofLines,
      List.flatMap_append, List.flatMap_map, List.map_flatMap]
    simp only [LogicalLine.corrections_movedDown]
  · have hjoined :=
      Snippet.length_ofKind_ofLines lookup (as ++ bs.map (·.movedDown above)) (linesA ++ linesB)
    have hfirst := Snippet.length_ofKind_ofLines lookup as linesA
    have hsecond := Snippet.length_ofKind_ofLines lookup bs linesB
    have hsize := Mapping.size_setAll_entries (Snippet.ofLines lookup as linesA).defaults
      (Snippet.ofLines lookup bs linesB).defaults
    rw [hdeclared, List.length_append, hdefaults] at hjoined
    omega

/-- Reading a text is reading the lines at its start, then the rest. Where both read, so does the
text, and gives the two snippets put together; otherwise it fails where the first of them does. The
lines at the start must be whole, and the last of them must not ask to be continued. -/
theorem parse_append {a : Text} (b : Text) (hend : a = [] ∨ a.getLast? = some '\n')
    (hlast : ∀ line ∈ (physicalLines a).getLast?, continues line = false) :
    (∀ sa sb, Snippet.parse lookup a = .ok sa → Snippet.parse lookup b = .ok sb →
      ∃ s, Snippet.parse lookup (a ++ b) = .ok s ∧ s.IsJoined sa sb (physicalLines a).length) ∧
    (∀ e, Snippet.parse lookup a = .error e → Snippet.parse lookup (a ++ b) = .error e) ∧
    ∀ sa e, Snippet.parse lookup a = .ok sa → Snippet.parse lookup b = .error e →
      Snippet.parse lookup (a ++ b) = .error (e.movedDown (physicalLines a).length) := by
  have hlines : logicalLines (physicalLines (a ++ b)) = logicalLines (physicalLines a) ++
      (logicalLines (physicalLines b)).map (·.movedDown (physicalLines a).length) := by
    rw [physicalLines_append hend, logicalLines_append hlast]
  rw [parse_eq, parse_eq, parse_eq, hlines, List.mapM_append, mapM_reading_movedDown]
  refine ⟨fun sa sb ha hb => ?_, fun e ha => ?_, fun sa e ha hb => ?_⟩
  · obtain ⟨linesA, hlinesA, rfl⟩ := map_eq_ok_iff.mp ha
    obtain ⟨linesB, hlinesB, rfl⟩ := map_eq_ok_iff.mp hb
    rw [hlinesA, hlinesB]
    exact ⟨_, rfl, isJoined_ofLines lookup _ _ _ linesA linesB⟩
  · rw [map_eq_error_iff.mp ha]
    rfl
  · obtain ⟨linesA, hlinesA, -⟩ := map_eq_ok_iff.mp ha
    rw [hlinesA, map_eq_error_iff.mp hb]
    rfl

/-- A name that both texts declare, and a combo that the second leaves open. -/
theorem parse_append_redeclared :
    let lookup : KeyLookup := fun _ => none
    let a := "$@n::a$\n".toList
    let b := "$@n::b$\n$!".toList
    ∃ s sa sb, Snippet.parse lookup a = .ok sa ∧ Snippet.parse lookup b = .ok sb ∧
      Snippet.parse lookup (a ++ b) = .ok s ∧ s.IsJoined sa sb 1 ∧
      s.diagnostics.map (fun d => (d.kind, d.line)) =
        [(.duplicateDefault, 2), (.incompleteCombo, 3)] := by
  intro lookup a b
  have hlinesA : (Snippet.parse lookup a).map Snippet.lines = .ok [[.arg ['n']]] := by
    decide +kernel
  have hlinesB :
      (Snippet.parse lookup b).map Snippet.lines = .ok [[.arg ['n']], [.text ['$', '!']]] := by
    decide +kernel
  have hnotes :
      (Snippet.parse lookup (a ++ b)).map (fun s => s.diagnostics.map fun d => (d.kind, d.line)) =
        .ok [(.duplicateDefault, 2), (.incompleteCombo, 3)] := by decide +kernel
  obtain ⟨sa, ha, -⟩ := map_eq_ok_iff.mp hlinesA
  obtain ⟨sb, hb, -⟩ := map_eq_ok_iff.mp hlinesB
  obtain ⟨s, hs, hkinds⟩ := map_eq_ok_iff.mp hnotes
  have hend : a.getLast? = some '\n' := by decide +kernel
  have hlast : ∀ line ∈ (physicalLines a).getLast?, continues line = false := by decide +kernel
  have hlength : (physicalLines a).length = 1 := by decide +kernel
  obtain ⟨s', hs', hjoined⟩ := (parse_append lookup b (.inr hend) hlast).1 sa sb ha hb
  rw [hlength] at hjoined
  obtain rfl : s' = s := Except.ok.inj (hs'.symm.trans hs)
  exact ⟨s', sa, sb, ha, hb, hs, hjoined, hkinds⟩

end Typist
