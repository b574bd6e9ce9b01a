import Typist.Proofs.Snippet.Parsing

/-!
# The end of the line as a closing `$`

A part that the end of the line leaves open is the last of the line, and writing the missing `$`
closes it and changes nothing before it (`segments_append_dollar`). What a segment means and what it
declares do not depend on what closes it, so the line and the line with the `$` read alike.

`readLine_append_dollar` says so for any line that leaves a part open, whatever the snippet it is
read onto. The two differ in what is noted only : for an argument or a combo left open there is one
diagnostic more, which comes before what the closing itself gives rise to.
-/

namespace Typist

open LineContext

/-! ## Segments -/

theorem opening?_cons_cons_append (c d : Char) (t u : Text) :
    opening? (c :: d :: (t ++ u)) = (opening? (c :: d :: t)).map fun found =>
      (found.1, found.2 ++ u) := by
  unfold opening?
  split <;> simp_all

/-- The first opener stays where it is, whatever is written at the end. -/
theorem textRun_append {opening : Opening} {rest : Text} (u : Text) :
    ∀ {t : Text}, (textRun t).2 = some (opening, rest) →
      textRun (t ++ u) = ((textRun t).1, some (opening, rest ++ u))
  | [], h => by simp [textRun] at h
  | [c], h => by simp [textRun, opening?] at h
  | c :: d :: t, h => by
    have hcons := opening?_cons_cons_append c d t u
    rw [textRun.eq_2 c (d :: t)] at h ⊢
    rw [List.cons_append, List.cons_append, textRun.eq_2 c (d :: (t ++ u)), hcons]
    cases hopen : opening? (c :: d :: t) with
    | some found =>
      rw [hopen] at h
      obtain rfl : found = (opening, rest) := Option.some.inj h
      rfl
    | none =>
      rw [hopen] at h
      exact congrArg (fun run => (c :: run.1, run.2)) (textRun_append u h)

theorem bodyOf_append_dollar (t : Text) : bodyOf (t ++ ['$']) = bodyOf t := by
  by_cases h : '$' ∈ t
  · conv => lhs; rw [← bodyOf_append_afterBody h, List.append_assoc]
    rw [List.cons_append, bodyOf_append_cons (not_mem_bodyOf t)]
  · rw [bodyOf_append_cons h, bodyOf_eq_self h]

theorem afterBody_append {t : Text} (h : '$' ∈ t) (u : Text) :
    afterBody (t ++ u) = afterBody t ++ u := by
  conv => lhs; rw [← bodyOf_append_afterBody h, List.append_assoc]
  rw [List.cons_append, afterBody_append_cons (not_mem_bodyOf t)]

theorem segments_of_textRun {t rest : Text} {opening : Opening}
    (h : (textRun t).2 = some (opening, rest)) :
    segments t =
      .text (textRun t).1 :: .part opening (bodyOf rest) (rest.contains '$') ::
        segments (afterBody rest) := by
  rw [segments]
  split
  · next hnone => simp [h] at hnone
  · next hsome => simp_all

/-- A part that is left open is the last of its line, and a `$` at the end of the line closes it. -/
theorem segments_append_dollar {t body : Text} {opening : Opening}
    (hopen : .part opening body false ∈ segments t) :
    ∃ before, segments t = before ++ [.part opening body false, .text []] ∧
      segments (t ++ ['$']) = before ++ [.part opening body true, .text []] := by
  fun_induction segments t with
  | case1 t hnone => simp at hopen
  | case2 t opening' rest hsome ih =>
    have happend := textRun_append ['$'] hsome
    rw [segments_of_textRun (t := t ++ ['$']) (by rw [happend]), happend, bodyOf_append_dollar]
    by_cases h : '$' ∈ rest
    · have hlater : .part opening body false ∈ segments (afterBody rest) := by simpa [h] using hopen
      obtain ⟨before, hopened, hclosed⟩ := ih hlater
      refine ⟨.text (textRun t).1 :: .part opening' (bodyOf rest) true :: before, ?_, ?_⟩
      · rw [hopened]
        simp [h]
      · rw [afterBody_append h, hclosed]
        simp
    · have hend : segments [] = [.text []] := by rw [segments]; rfl
      have hafter : afterBody (rest ++ ['$']) = [] := afterBody_append_cons h []
      rw [afterBody_eq_nil h, hend] at hopen ⊢
      obtain ⟨rfl, rfl⟩ : opening = opening' ∧ body = bodyOf rest := by simpa [h] using hopen
      refine ⟨[.text (textRun t).1], ?_, ?_⟩
      · simp [h]
      · rw [hafter, hend]
        simp

/-! ## What the line gives -/

/-- What closes a part makes no difference to what it means. -/
theorem meaning_closed (lookup : KeyLookup) (opening : Opening) (body : Text) (closed : Bool) :
    (Segment.part opening body closed).meaning lookup =
      (Segment.part opening body true).meaning lookup := by
  cases opening <;> rfl

theorem declared_closed (opening : Opening) (body : Text) (closed : Bool) :
    (Segment.part opening body closed).declared = (Segment.part opening body true).declared := by
  cases opening <;> rfl

variable {t u body : Text} {opening : Opening} {before : List Segment}

theorem reading_eq_of_closed (lookup : KeyLookup)
    (hopened : segments t = before ++ [.part opening body false, .text []])
    (hclosed : segments u = before ++ [.part opening body true, .text []]) :
    reading lookup t = reading lookup u := by
  simp only [reading, hopened, hclosed, List.mapM_append, List.mapM_cons,
    meaning_closed lookup opening body false]

theorem declared_eq_of_closed (lookup : KeyLookup)
    (hopened : segments t = before ++ [.part opening body false, .text []])
    (hclosed : segments u = before ++ [.part opening body true, .text []]) :
    declared lookup t = declared lookup u := by
  simp only [declared, hopened, hclosed, List.takeWhile_append, List.takeWhile_cons,
    meaning_closed lookup opening body false]
  split
  · split
    · rw [List.filterMap_append, List.filterMap_append, List.filterMap_cons, List.filterMap_cons,
        declared_closed opening body false]
    · rfl
  · rfl

/-- The kind of diagnostic for a part that the end of the line leaves open. -/
def Opening.incompleteKind? : Opening → Option DiagnosticKind
  | .arg => some .incompleteArg
  | .combo => some .incompleteCombo
  | .delay | .list => none

theorem incomplete_kinds (number : Int) (opening : Opening) (body : Text) :
    ((Segment.part opening body false).incomplete number).map (fun d => (d.kind, d.line)) =
      opening.incompleteKind?.toList.map fun kind => (kind, number) := by
  cases opening <;> rfl

/-- What is noted of a line comes of its last part after what comes of the segments before it. -/
theorem lineNotes_of_last (ctx : LineContext) (defaults : Mapping Text Text) {last : Segment}
    (hlast : segments t = before ++ [last, .text []])
    (hbefore : ∀ g ∈ before, (g.meaning ctx.lookup).isOk) :
    lineNotes ctx defaults t =
      notedInOrder (·.declared.toList) (Segment.notes ctx.number) defaults before ++
        last.notes ctx.number (defaults.setAll (before.flatMap (·.declared.toList))) := by
  rw [lineNotes, hlast, reached_append hbefore, notedInOrder_append, reached]
  split <;> simp [reached, notedInOrder, Segment.notes_text]

/-- Reading a line that leaves a part open is reading it with the `$` that closes the part. What
comes of it is the same, and so are the lines and the defaults of the snippet. If the end of the
line is reached at all, there is one diagnostic more for an argument or a combo left open, right
before that for the default that the closing may replace, and none for a delay; otherwise the
diagnostics are the same as well. -/
theorem readLine_append_dollar (ctx : LineContext) (σ : Snippet)
    (hopen : .part opening body false ∈ segments t) :
    let unclosed := stateAfter (ctx.readLine t) σ
    let closed := stateAfter (ctx.readLine (t ++ ['$'])) σ
    outcome (ctx.readLine t) σ = outcome (ctx.readLine (t ++ ['$'])) σ ∧
      unclosed.lines = closed.lines ∧
      unclosed.defaults = closed.defaults ∧
      ∃ before, segments t = before ++ [.part opening body false, .text []] ∧
        ((∀ g ∈ before, (g.meaning ctx.lookup).isOk) →
          ∃ earlier inserted replaced : Diagnostics,
            closed.diagnostics = σ.diagnostics ++ earlier ++ replaced ∧
            unclosed.diagnostics = σ.diagnostics ++ earlier ++ inserted ++ replaced ∧
            inserted.map (fun d => (d.kind, d.line)) =
              opening.incompleteKind?.toList.map (fun kind => (kind, ctx.number)) ∧
            replaced = (Segment.part opening body true).redeclared ctx.number
              (σ.defaults.setAll (before.flatMap (·.declared.toList)))) ∧
        ((¬ ∀ g ∈ before, (g.meaning ctx.lookup).isOk) →
          unclosed.diagnostics = closed.diagnostics) := by
  obtain ⟨before, hopened, hclosed⟩ := segments_append_dollar hopen
  have hreading := reading_eq_of_closed ctx.lookup hopened hclosed
  have hdeclared := declared_eq_of_closed ctx.lookup hopened hclosed
  rw [outcome_readLine, outcome_readLine, stateAfter_readLine, stateAfter_readLine,
    hreading, hdeclared]
  refine ⟨rfl, rfl, rfl, before, hopened, fun hreached => ?_, fun hfault => ?_⟩
  · refine ⟨notedInOrder (·.declared.toList) (Segment.notes ctx.number) σ.defaults before,
      (Segment.part opening body false).incomplete ctx.number, _, ?_, ?_,
      incomplete_kinds ctx.number opening body, rfl⟩
    · rw [lineNotes_of_last ctx σ.defaults hclosed hreached, Segment.notes, incomplete_closed,
        List.nil_append, List.append_assoc]
    · rw [lineNotes_of_last ctx σ.defaults hopened hreached, Segment.notes, Segment.redeclared,
        declared_closed opening body false, ← Segment.redeclared]
      simp only [List.append_assoc]
  · rw [lineNotes, lineNotes, hopened, hclosed, reached_append_of_fault hfault,
      reached_append_of_fault hfault]

/-- An argument left open whose default replaces that of the same name before it. -/
theorem readLine_append_dollar_redeclared :
    let ctx : LineContext := ⟨fun _ => none, 1⟩
    let t := "$@n::a$$@n::b".toList
    outcome (ctx.readLine t) {} = outcome (ctx.readLine (t ++ ['$'])) {} ∧
      (stateAfter (ctx.readLine t) {}).diagnostics.map Diagnostic.kind =
        [.incompleteArg, .duplicateDefault] ∧
      (stateAfter (ctx.readLine (t ++ ['$'])) {}).diagnostics.map Diagnostic.kind =
        [.duplicateDefault] := by
  have hopen : .part .arg "n::b".toList false ∈ segments "$@n::a$$@n::b".toList := by decide +kernel
  exact ⟨(readLine_append_dollar ⟨fun _ => none, 1⟩ {} hopen).1, by decide +kernel,
    by decide +kernel⟩

end Typist
