import Typist.Proofs.Snippet.EndOfLine
import Typist.Proofs.Snippet.Produced

/-!
# What a line at fault leaves behind

The text before a part is cut into the segments before that part (`exists_prefix_of_segments`),
though a scan of it ends where that of the whole line looks ahead. So if a line fails, the text
before the part at fault reads, and what the line leaves behind is what that text leaves, but for
the line itself (`readLine_leavesPrefix`). One diagnostic may come on top : that for a combo which
the end of the line leaves open before it turns out to name no key.
-/

namespace Typist

open LineContext

/-! ## Texts before a part -/

/-- What is written for a segment. -/
def Segment.source : Segment → Text
  | .text content => content
  | .part opening body closed => opening.opener ++ (body ++ if closed then ['$'] else [])

/-- The text before an opener holds none, and none comes about where a `$` follows it. -/
theorem textRun_textRun_append {u : Text} (hu : Follows u) (t : Text) :
    textRun ((textRun t).1 ++ u) = ((textRun t).1 ++ (textRun u).1, (textRun u).2) := by
  induction t with
  | nil => rfl
  | cons c t ih =>
    rw [textRun]
    cases hopen : opening? (c :: t) with
    | some found => rfl
    | none =>
      have hnone : opening? (c :: ((textRun t).1 ++ u)) = none := by
        refine opening?_cons_eq_none ?_
        rintro rfl d hd hhead
        rw [List.head?_append] at hhead
        cases hrun : (textRun t).1.head? with
        | none =>
          rw [hrun, Option.none_or] at hhead
          rw [hu d hhead] at hd
          simp at hd
        | some d' =>
          obtain rfl : d' = d := by simpa [hrun] using hhead
          obtain ⟨t', rfl⟩ := List.head?_eq_some_iff.mp (head?_textRun hrun)
          obtain rfl | rfl | rfl | rfl : d' = '\'' ∨ d' = '@' ∨ d' = '!' ∨ d' = '[' := by
            simpa using hd
          all_goals cases hopen
      simp only [List.cons_append]
      rw [textRun, hnone]
      simp only [ih]

theorem textRun_of_snd_eq_none : ∀ {t : Text}, (textRun t).2 = none → (textRun t).1 = t
  | [], _ => rfl
  | c :: t, h => by
    rw [textRun] at h ⊢
    split at h
    · cases h
    · exact congrArg (c :: ·) (textRun_of_snd_eq_none h)

/-- A text is what is before its first opener, that opener, and what follows it. -/
theorem textRun_append_opener {opening : Opening} {rest : Text} :
    ∀ {t : Text}, (textRun t).2 = some (opening, rest) →
      (textRun t).1 ++ (opening.opener ++ rest) = t
  | [], h => by cases h
  | c :: t, h => by
    rw [textRun] at h ⊢
    split at h
    · next found hfound =>
      obtain rfl : found = (opening, rest) := Option.some.inj h
      unfold opening? at hfound
      split at hfound <;> cases hfound
      all_goals exact Eq.symm ‹c :: t = _›
    · exact congrArg (c :: ·) (textRun_append_opener h)

/-- A text is its segments, one after the other. -/
theorem flatMap_source_segments (t : Text) : (segments t).flatMap Segment.source = t := by
  fun_induction segments t with
  | case1 t hnone =>
    simp only [List.flatMap_cons, List.flatMap_nil, Segment.source, List.append_nil]
    exact textRun_of_snd_eq_none hnone
  | case2 t opening rest hsome ih =>
    have hrest :
        bodyOf rest ++ ((if rest.contains '$' then ['$'] else []) ++ afterBody rest) = rest := by
      by_cases hmem : '$' ∈ rest
      · simpa [hmem] using bodyOf_append_afterBody hmem
      · simp [hmem, bodyOf_eq_self hmem, afterBody_eq_nil hmem]
    simp only [List.flatMap_cons, Segment.source, ih, List.append_assoc]
    rw [hrest]
    exact textRun_append_opener hsome

theorem segments_textRun (t : Text) : segments (textRun t).1 = [.text (textRun t).1] := by
  have hrun := textRun_textRun_append (u := []) (by simp [Follows]) t
  rw [List.append_nil] at hrun
  rw [segments]
  split
  · rw [hrun]
    simp [textRun]
  · next hsome =>
    rw [hrun] at hsome
    cases hsome

theorem segments_textRun_opener (t : Text) (opening : Opening) (rest : Text) :
    segments ((textRun t).1 ++ (opening.opener ++ rest)) =
      .text (textRun t).1 :: .part opening (bodyOf rest) (rest.contains '$') ::
        segments (afterBody rest) := by
  have hfollows : Follows (opening.opener ++ rest) := by
    cases opening <;> simp [Follows, Opening.opener]
  have hopener : textRun (opening.opener ++ rest) = ([], some (opening, rest)) := by
    cases opening <;> rfl
  have hrun := textRun_textRun_append hfollows t
  rw [hopener, List.append_nil] at hrun
  rw [segments_of_textRun (by rw [hrun]), hrun]

/-- The text before the opener of a part is cut into the segments before the part. -/
theorem exists_prefix_of_segments {t body : Text} {opening : Opening} {closed : Bool}
    {before after : List Segment} (h : segments t = before ++ .part opening body closed :: after) :
    ∃ p rest, t = p ++ (opening.opener ++ rest) ∧ segments p = before ∧ bodyOf rest = body ∧
      rest.contains '$' = closed := by
  fun_induction segments t generalizing before with
  | case1 t hnone =>
    cases before with
    | nil => cases h
    | cons g before => simp at h
  | case2 t opening' rest hsome ih =>
    cases before with
    | nil => cases h
    | cons g before =>
      obtain ⟨rfl, htail⟩ := List.cons.inj h
      cases before with
      | nil =>
        obtain ⟨hpart, -⟩ := List.cons.inj htail
        obtain ⟨rfl, rfl, rfl⟩ := Segment.part.inj hpart
        exact ⟨(textRun t).1, rest, (textRun_append_opener hsome).symm, segments_textRun t, rfl,
          rfl⟩
      | cons g before =>
        obtain ⟨rfl, hafter⟩ := List.cons.inj htail
        obtain ⟨p, rest', hsplit, hsegments, hbody, hclosed⟩ := ih hafter
        -- A part that is left open has nothing after it.
        have hmem : '$' ∈ rest := by
          by_contra hnot
          rw [afterBody_eq_nil hnot] at hsplit
          cases opening <;> simp [Opening.opener] at hsplit
        refine ⟨(textRun t).1 ++ (opening'.opener ++ (bodyOf rest ++ '$' :: p)), rest', ?_, ?_,
          hbody, hclosed⟩
        · have ht := textRun_append_opener hsome
          rw [← bodyOf_append_afterBody hmem, hsplit] at ht
          simpa using ht.symm
        · rw [segments_textRun_opener, bodyOf_append_cons (not_mem_bodyOf rest),
            afterBody_append_cons (not_mem_bodyOf rest), hsegments]
          simp [hmem]

/-! ## The part at fault -/

/-- Is the part that opens after `p`, and goes on with `rest`, the first of the line that is at
fault? -/
structure OffendsAfter (lookup : KeyLookup) (t p : Text) (opening : Opening) (rest : Text)
    (fault : SnippetFault) : Prop where
  split : t = p ++ (opening.opener ++ rest)
  /-- Up to its opener the line is cut as `p` is. -/
  segments : ∃ after, segments t =
    segments p ++ .part opening (bodyOf rest) (rest.contains '$') :: after
  /-- Nothing before it is at fault. -/
  before : ∃ line, reading lookup p = .ok line
  fault : (Segment.part opening (bodyOf rest) (rest.contains '$')).meaning lookup = .error fault

section

variable {lookup : KeyLookup} {t p rest : Text} {opening : Opening} {fault : SnippetFault}

/-- A line at fault has a first part at fault. -/
theorem exists_offendsAfter (h : reading lookup t = .error fault) :
    ∃ p opening rest, OffendsAfter lookup t p opening rest fault := by
  obtain ⟨before, g, after, hsegments, hbefore, hg⟩ := mapM_eq_error_iff.mp (map_eq_error_iff.mp h)
  cases g with
  | text content => cases hg
  | part opening body closed =>
    obtain ⟨p, rest, hsplit, rfl, rfl, rfl⟩ := exists_prefix_of_segments hsegments
    obtain ⟨parts, hparts⟩ := mapM_eq_ok_of_forall hbefore
    exact ⟨p, opening, rest, hsplit, ⟨after, hsegments⟩,
      ⟨Line.merged parts, map_eq_ok_iff.mpr ⟨parts, hparts, rfl⟩⟩, hg⟩

namespace OffendsAfter

/-- The line is read up to the part at fault. -/
theorem reached (h : OffendsAfter lookup t p opening rest fault) :
    Typist.reached lookup (Typist.segments p) = Typist.segments p ∧
      Typist.reached lookup (Typist.segments t) =
        Typist.segments p ++ [.part opening (bodyOf rest) (rest.contains '$')] := by
  obtain ⟨line, hline⟩ := h.before
  obtain ⟨parts, hparts, -⟩ := reading_eq_ok hline
  have hmeanings : ∀ g ∈ Typist.segments p, (g.meaning lookup).isOk := fun g hg => by
    obtain ⟨part, -, hpart⟩ := exists_mem_of_mapM hparts hg
    rw [hpart]
    rfl
  obtain ⟨after, hsegments⟩ := h.segments
  refine ⟨?_, ?_⟩
  · have hreached := reached_append hmeanings []
    rwa [List.append_nil, Typist.reached, List.append_nil] at hreached
  · rw [hsegments, reached_append hmeanings, Typist.reached, h.fault]
    rfl

/-- There is one such part only. -/
theorem unique (h : OffendsAfter lookup t p opening rest fault) {p' rest' : Text}
    {opening' : Opening} {fault' : SnippetFault}
    (h' : OffendsAfter lookup t p' opening' rest' fault') :
    p' = p ∧ opening' = opening ∧ rest' = rest ∧ fault' = fault := by
  obtain ⟨hsegments, hpart⟩ := List.append_inj' (h'.reached.2.symm.trans h.reached.2) rfl
  obtain rfl : p' = p := by rw [← flatMap_source_segments p', hsegments, flatMap_source_segments]
  obtain ⟨rfl, hbody, hclosed⟩ := Segment.part.inj (List.cons.inj hpart).1
  have hfault := h'.fault
  rw [hbody, hclosed, h.fault] at hfault
  exact ⟨rfl, rfl, List.append_cancel_left (List.append_cancel_left (h'.split.symm.trans h.split)),
    (Except.error.inj hfault).symm⟩

theorem declared (h : OffendsAfter lookup t p opening rest fault) :
    Typist.declared lookup t = Typist.declared lookup p := by
  obtain ⟨hp, ht⟩ := h.reached
  rw [declared_eq_reached, declared_eq_reached, hp, ht, List.flatMap_append, List.flatMap_singleton,
    declared_of_meaning_error h.fault]
  exact List.append_nil _

/-- What is noted of the part at fault : only a combo that is left open is. -/
theorem notes (h : OffendsAfter lookup t p opening rest fault) (number : Int)
    (defaults : Mapping Text Text) :
    (Segment.part opening (bodyOf rest) (rest.contains '$')).notes number defaults =
      if opening = .combo ∧ '$' ∉ rest then [⟨.incompleteCombo, number,
        incompleteComboMessage rest⟩] else [] := by
  rw [Segment.notes, Segment.redeclared, declared_of_meaning_error h.fault, Option.toList_none,
    List.flatMap_nil, List.append_nil]
  by_cases hmem : '$' ∈ rest
  · rw [show rest.contains '$' = true by simpa using hmem, incomplete_closed]
    simp [hmem]
  · rw [show rest.contains '$' = false by simpa using hmem, bodyOf_eq_self hmem]
    have hfault := h.fault
    cases opening with
    | combo => simp [hmem, Segment.incomplete]
    | delay | list => rfl
    | arg =>
      rw [Segment.meaning] at hfault
      split at hfault <;> cases hfault

theorem lineNotes (h : OffendsAfter lookup t p opening rest fault) (number : Int)
    (defaults : Mapping Text Text) :
    Typist.lineNotes ⟨lookup, number⟩ defaults t =
      Typist.lineNotes ⟨lookup, number⟩ defaults p ++
        if opening = .combo ∧ '$' ∉ rest then [⟨.incompleteCombo, number,
          incompleteComboMessage rest⟩] else [] := by
  obtain ⟨hp, ht⟩ := h.reached
  rw [Typist.lineNotes, Typist.lineNotes, hp, ht, notedInOrder_append, notedInOrder,
    notedInOrder, h.notes, List.append_nil]

end OffendsAfter

end

/-- A line that fails leaves the lines alone, and leaves behind what the text before the part at
fault leaves, which reads. If that part is a combo that is open at the end of the line, this has
been noted too. -/
theorem readLine_leavesPrefix (ctx : LineContext) {t : Text} {σ σ' : Snippet} {e : ReadError}
    (h : (ctx.readLine t).run σ = .error e σ') :
    ∃ p opening rest fault, OffendsAfter ctx.lookup t p opening rest fault ∧ e = ctx.raised fault ∧
      σ'.lines = σ.lines ∧
      ∃ line after, (ctx.readLine p).run σ = .ok line after ∧ σ'.defaults = after.defaults ∧
        σ'.diagnostics = after.diagnostics ++
          if opening = .combo ∧ '$' ∉ rest then
            [⟨.incompleteCombo, ctx.number, incompleteComboMessage rest⟩]
          else [] := by
  rw [readLine_run] at h
  cases hreading : reading ctx.lookup t with
  | ok line =>
    rw [hreading] at h
    cases h
  | error fault =>
    rw [hreading] at h
    obtain ⟨rfl, rfl⟩ := EStateM.Result.error.inj h
    obtain ⟨p, opening, rest, hoffends⟩ := exists_offendsAfter hreading
    obtain ⟨line, hline⟩ := hoffends.before
    refine ⟨p, opening, rest, fault, hoffends, rfl, rfl, line,
      (σ.grown (declared ctx.lookup p) (lineNotes ctx σ.defaults p)).withLine line, ?_, ?_, ?_⟩
    · rw [readLine_run, hline]
    · rw [hoffends.declared]
      rfl
    · rw [hoffends.lineNotes]
      exact (List.append_assoc ..).symm

/-- A line that declares a default anew, and ends in an open combo of which the last key is not
known. -/
def openCombo : Text :=
  "$@n::b$x$!ctrl+nosuch".toList

/-- A snippet with a line and a default. -/
def declaring : Snippet :=
  ⟨[[.text "old".toList]], ({} : Mapping Text Text).set "n".toList "a".toList, []⟩

theorem readLine_leavesPrefix_openCombo :
    ∃ e σ', (readLine ⟨Key.standardLookup, 2⟩ openCombo).run declaring = .error e σ' ∧
      σ'.lines = declaring.lines ∧
      ∃ line after, (readLine ⟨Key.standardLookup, 2⟩ "$@n::b$x".toList).run declaring =
        .ok line after ∧ σ'.defaults = after.defaults ∧
        σ'.diagnostics = after.diagnostics ++
          [⟨.incompleteCombo, 2, incompleteComboMessage "ctrl+nosuch".toList⟩] := by
  have hoffends :
      OffendsAfter Key.standardLookup openCombo "$@n::b$x".toList .combo "ctrl+nosuch".toList
      (.unknownKeyToken "nosuch".toList) :=
    ⟨rfl, ⟨[.text []], by decide +kernel⟩, ⟨[.arg "n".toList, .text "x".toList], by decide +kernel⟩,
      by decide +kernel⟩
  have hreading :
      reading Key.standardLookup openCombo = .error (.unknownKeyToken "nosuch".toList) := by
    decide +kernel
  have hrun := readLine_run ⟨Key.standardLookup, 2⟩ openCombo declaring
  rw [hreading] at hrun
  obtain ⟨p, opening, rest, fault, hfirst, -, hlines, hprefix⟩ := readLine_leavesPrefix _ hrun
  obtain ⟨rfl, rfl, rfl, -⟩ := hoffends.unique hfirst
  exact ⟨_, _, hrun, hlines, hprefix⟩

end Typist
