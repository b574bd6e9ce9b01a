import Typist.Proofs.Snippet.ValidPrefix

/-!
# Comments in the source

A line is told to be a comment by its first part, once the parts are put together : by then an
escape may have become text and have been joined to what is before it, and parts that stand for
nothing are gone. Still a line is a comment exactly if its source starts with two number signs
(`isComment_reading_iff`), since what an opener opens either is no text or starts with a dollar
sign. So the comments of a snippet can be told from its text (`findIdxs_isComment_parse`).
-/

namespace Typist

/-- What the source of a comment starts with. -/
def commentMark : Text :=
  ['#', '#']

/-- A text without the mark does not get it from what begins with a dollar sign. -/
theorem commentMark_isPrefix_append {t u : Text} (hu : u.head? = none ∨ u.head? = some '$') :
    commentMark <+: t ++ u ↔ commentMark <+: t := by
  refine ⟨fun ⟨rest, hrest⟩ => ?_, fun h => h.trans (List.prefix_append ..)⟩
  rcases List.append_eq_append_iff.mp hrest with ⟨mid, rfl, -⟩ | ⟨mid, hmark, rfl⟩
  · exact List.prefix_append ..
  · cases mid with
    | nil =>
      rw [List.append_nil] at hmark
      exact hmark ▸ List.prefix_rfl
    | cons c mid =>
      have hc : c ∈ commentMark := by rw [hmark]; simp
      obtain rfl : c = '$' := by simpa using hu
      exact absurd hc (by decide)

namespace Line

variable {line : Line} {part : Part}

theorem isComment_text_cons (content : Text) (line : Line) :
    isComment (.text content :: line) = true ↔ commentMark <+: content := by
  constructor
  · intro h
    unfold isComment at h
    split at h
    · next rest _ heq =>
      obtain rfl : content = '#' :: '#' :: rest := by simpa using (List.cons.inj heq).1
      exact ⟨rest, rfl⟩
    · cases h
  · rintro ⟨rest, rfl⟩
    rfl

/-- Does a text at the start of the line, if there is one, go on from an opener? -/
def StartsAtOpener (line : Line) : Prop :=
  ∀ content rest, line = .text content :: rest → content.head? = some '$'

/-- What an opener opened is at the start of the line, whatever it is joined to. -/
theorem startsAtOpener_merged_cons
    (hpart : ∀ content, part = .text content → content.head? = some '$') (parts : List Part) :
    StartsAtOpener (merged (part :: parts)) := by
  intro content rest h
  cases part with
  | text content' =>
    obtain ⟨later, rfl⟩ := List.head?_eq_some_iff.mp (hpart content' rfl)
    obtain ⟨joined, rest', hcons⟩ := consText_cons_eq '$' later (merged parts)
    rw [merged, hcons] at h
    obtain rfl : '$' :: joined = content := Part.text.inj (List.cons.inj h).1
    rfl
  | delay | arg | combo => cases (List.cons.inj h).1

/-- Only the text before the first opener makes a line a comment. -/
theorem isComment_consText (h : StartsAtOpener line) (t : Text) :
    (consText t line).isComment = true ↔ commentMark <+: t := by
  unfold consText
  split
  · next content rest =>
    rw [isComment_text_cons, commentMark_isPrefix_append (.inr (h content rest rfl))]
  · next hline =>
    split
    · next hnil =>
      have hnot : line.isComment = false := by
        unfold isComment
        split
        · next content rest => exact absurd rfl (hline _ rest)
        · rfl
      simp [hnil, hnot, commentMark]
    · exact isComment_text_cons t line

end Line

section

variable {lookup : KeyLookup} {t : Text} {line : Line}

theorem commentMark_isPrefix_textRun (t : Text) :
    commentMark <+: (textRun t).1 ↔ commentMark <+: t := by
  cases hrun : (textRun t).2 with
  | none => rw [textRun_of_snd_eq_none hrun]
  | some found =>
    have hhead : (found.1.opener ++ found.2).head? = some '$' := by cases found.1 <;> rfl
    rw [← textRun_append_opener hrun, commentMark_isPrefix_append (.inr hhead),
      textRun_append_opener hrun]

/-- A line that reads is a comment exactly if its source starts with the mark. -/
theorem isComment_reading_iff (h : reading lookup t = .ok line) :
    line.isComment = true ↔ commentMark <+: t := by
  obtain ⟨parts, hparts, rfl⟩ := reading_eq_ok h
  rw [← commentMark_isPrefix_textRun]
  rw [segments] at hparts
  split at hparts
  · obtain ⟨_, later, hrun, hlater, rfl⟩ := mapM_cons_eq_ok.mp hparts
    cases hrun
    cases hlater
    exact Line.isComment_consText (fun _ _ h => by cases h) _
  · next opening rest _ =>
    obtain ⟨_, later, hrun, hlater, rfl⟩ := mapM_cons_eq_ok.mp hparts
    cases hrun
    obtain ⟨part, later', hpart, -, rfl⟩ := mapM_cons_eq_ok.mp hlater
    refine Line.isComment_consText
      (Line.startsAtOpener_merged_cons (fun content hcontent => ?_) later') _
    rcases meaning_part (not_mem_bodyOf rest) hpart with ⟨htext, -⟩ | ⟨c, hescape, -⟩
    · subst hcontent
      cases htext
    · rw [hescape] at hcontent
      cases hcontent
      rfl

/-- Is a logical line written with the mark at its start? -/
def LogicalLine.isMarked (l : LogicalLine) : Bool :=
  commentMark.isPrefixOf l.text

theorem findIdxs_isComment_of_mapM {ls : List LogicalLine} {lines : List Line}
    (h : ls.mapM (LogicalLine.reading lookup) = .ok lines) (number : Nat) :
    lines.findIdxs Line.isComment number = ls.findIdxs LogicalLine.isMarked number := by
  induction ls generalizing lines number with
  | nil =>
    cases h
    rfl
  | cons l ls ih =>
    obtain ⟨line, lines, hline, hlines, rfl⟩ := mapM_cons_eq_ok.mp h
    have hmarked : line.isComment = l.isMarked := by
      rw [Bool.eq_iff_iff, isComment_reading_iff (LogicalLine.reading_eq_ok.mp hline),
        LogicalLine.isMarked, List.isPrefixOf_iff_prefix]
    rw [List.findIdxs_cons, List.findIdxs_cons, hmarked, ih hlines]

/-- The comments of a snippet are those of its text. -/
theorem findIdxs_isComment_parse {s : Snippet} (h : Snippet.parse lookup t = .ok s) :
    s.lines.findIdxs Line.isComment 1 =
      (logicalLines (physicalLines t)).findIdxs LogicalLine.isMarked 1 := by
  have hlines := parse_lines lookup t
  rw [h] at hlines
  exact findIdxs_isComment_of_mapM hlines.symm 1

end

end Typist
