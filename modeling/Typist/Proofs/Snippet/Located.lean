import Typist.Proofs.Snippet.Parsing
import Typist.Proofs.Text.Utf8

/-!
# Where parsing fails

Bytes fail to parse at one place. If they are no UTF-8 it is the first byte that does not decode,
and else it is the first of the logical lines that does not read as the first line of a snippet
either (`LogicalLine.fails`). `parseBytes_located` says so, for whatever lookup : what is raised is
a fault of that line with its number, but for a delay of digits only of which there are more than
`digitLimit`, for which what is raised tells no line.
-/

namespace Typist

/-! ## The faults of a line -/

/-- The faults that a line may have : a delay that is no number, a token that names no key and a
list of arguments. -/
def SnippetFault.IsOfLine : SnippetFault → Prop
  | .malformedDelay _ | .unknownKeyToken _ | .argumentList => True
  | .undecodable _ | .other _ => False

theorem namedKeysOf_isOfLine {lookup : KeyLookup} {tokens : List Text} {fault : SnippetFault}
    (h : namedKeysOf lookup tokens = .error fault) : fault.IsOfLine := by
  induction tokens with
  | nil => cases h
  | cons token tokens ih =>
    rw [namedKeysOf] at h
    cases hkey : lookup token with
    | none =>
      rw [hkey] at h
      obtain rfl := Except.error.inj h
      trivial
    | some key =>
      rw [hkey] at h
      exact ih (map_eq_error_iff.mp h)

theorem Segment.meaning_isOfLine {lookup : KeyLookup} {segment : Segment} {fault : SnippetFault}
    (h : segment.meaning lookup = .error fault) : fault.IsOfLine := by
  match segment with
  | .text content => cases h
  | .part .delay body closed =>
    rw [Segment.meaning] at h
    split_ifs at h
    obtain rfl := Except.error.inj h
    trivial
  | .part .arg body closed =>
    rw [Segment.meaning] at h
    split_ifs at h
  | .part .combo body closed =>
    rw [Segment.meaning] at h
    split_ifs at h
    exact namedKeysOf_isOfLine (map_eq_error_iff.mp h)
  | .part .list body closed =>
    obtain rfl := Except.error.inj h
    trivial

theorem reading_isOfLine {lookup : KeyLookup} {t : Text} {fault : SnippetFault}
    (h : reading lookup t = .error fault) : fault.IsOfLine := by
  obtain ⟨before, segment, after, -, -, hfault⟩ := mapM_eq_error_iff.mp (map_eq_error_iff.mp h)
  exact Segment.meaning_isOfLine hfault

/-! ## The line that fails -/

/-- Does the line fail as the first line of a snippet? -/
def LogicalLine.fails (lookup : KeyLookup) (l : LogicalLine) : Bool :=
  !(outcome (LineContext.readLine ⟨lookup, l.start⟩ l.text) {}).isOk

/-- What a line gives does not depend on the lines before it. -/
theorem LogicalLine.outcome_eq_reading (lookup : KeyLookup) (l : LogicalLine) (σ : Snippet) :
    outcome (LineContext.readLine ⟨lookup, l.start⟩ l.text) σ = l.reading lookup :=
  outcome_readLine ⟨lookup, l.start⟩ l.text σ

theorem LogicalLine.fails_eq_false_iff {lookup : KeyLookup} {l : LogicalLine} :
    l.fails lookup = false ↔ ∃ line, l.reading lookup = .ok line := by
  rw [LogicalLine.fails, LogicalLine.outcome_eq_reading]
  cases l.reading lookup <;> simp [Except.isOk, Except.toBool]

theorem LogicalLine.fails_eq_true_iff {lookup : KeyLookup} {l : LogicalLine} :
    l.fails lookup = true ↔ ∃ fault, Typist.reading lookup l.text = .error fault := by
  rw [LogicalLine.fails, LogicalLine.outcome_eq_reading, LogicalLine.reading]
  cases Typist.reading lookup l.text <;> simp [Except.mapError, Except.isOk, Except.toBool]

/-- Parsing a text fails at the first line that fails by itself, and else gives a snippet. -/
theorem parse_located (lookup : KeyLookup) (t : Text) :
    match (logicalLines (physicalLines t)).find? (LogicalLine.fails lookup) with
    | none => ∃ s, Snippet.parse lookup t = .ok s
    | some l => ∃ fault, reading lookup l.text = .error fault ∧
        Snippet.parse lookup t = .error (LineContext.raised ⟨lookup, l.start⟩ fault) := by
  have hlines := parse_lines lookup t
  cases hfind : (logicalLines (physicalLines t)).find? (LogicalLine.fails lookup) with
  | none =>
    have hall : ∀ l ∈ logicalLines (physicalLines t), ∃ line, l.reading lookup =
        .ok line := fun l hl =>
      LogicalLine.fails_eq_false_iff.mp (by simpa using List.find?_eq_none.mp hfind l hl)
    obtain ⟨lines, hok⟩ := mapM_eq_ok_of_forall hall
    rw [hok] at hlines
    obtain ⟨s, hparse, -⟩ := map_eq_ok_iff.mp hlines
    exact ⟨s, hparse⟩
  | some l =>
    obtain ⟨hfails, before, after, hsplit, hbefore⟩ := List.find?_eq_some_iff_append.mp hfind
    obtain ⟨fault, hfault⟩ := LogicalLine.fails_eq_true_iff.mp hfails
    have herror : (logicalLines (physicalLines t)).mapM (LogicalLine.reading lookup) =
        .error (LineContext.raised ⟨lookup, l.start⟩ fault) := by
      refine mapM_eq_error_iff.mpr ⟨before, l, after, hsplit, ?_, ?_⟩
      · exact fun l' hl' => LogicalLine.fails_eq_false_iff.mp (by simpa using hbefore l' hl')
      · rw [LogicalLine.reading, hfault]
        rfl
    rw [herror] at hlines
    exact ⟨fault, hfault, map_eq_error_iff.mp hlines⟩

/-! ## Bytes -/

theorem parseBytes_of_decode {lookup : KeyLookup} {bytes : List UInt8} {t : Text}
    (h : Utf8.decode bytes = .ok t) : Snippet.parseBytes lookup bytes = Snippet.parse lookup t := by
  rw [Snippet.parseBytes, Snippet.readBytes, h, Snippet.parse]

/-- The place at which bytes fail to parse, and what is raised for it. -/
structure ParsesLocated (lookup : KeyLookup) (bytes : List UInt8) : Prop where
  /-- The first logical line that fails by itself fails the snippet. What is raised for its fault
  tells the line, unless the fault is a delay that is too long a number. -/
  decodable : ∀ t, bytes = Utf8.encode t →
    match (logicalLines (physicalLines t)).find? (LogicalLine.fails lookup) with
    | none => ∃ s, Snippet.parseBytes lookup bytes = .ok s
    | some l => ∃ fault, reading lookup l.text = .error fault ∧ fault.IsOfLine ∧
        Snippet.parseBytes lookup bytes =
          .error (if fault.isLongNumeral then .numberTooLong else .snippet ⟨fault, some l.start⟩)
  /-- Bytes that encode no text fail on the line of the first byte after those that encode one. -/
  undecodable : (∀ t, bytes ≠ Utf8.encode t) →
    ∃ failure, Utf8.decode bytes = .error failure ∧ Utf8.EncodesUpTo bytes failure.offset ∧
      Snippet.parseBytes lookup bytes =
        .error (.snippet ⟨.undecodable failure.reason.message,
          some (Snippet.lineOfOffset bytes failure.offset)⟩)

/-- Whatever the bytes and the lookup, parsing gives a snippet or fails with a fault of the first
line at fault. -/
theorem parseBytes_located (lookup : KeyLookup) (bytes : List UInt8) :
    ParsesLocated lookup bytes where
  decodable t hbytes := by
    have hparse := parse_located lookup t
    rw [parseBytes_of_decode (Utf8.decode_eq_ok_iff.mpr hbytes)]
    cases hfind : (logicalLines (physicalLines t)).find? (LogicalLine.fails lookup) with
    | none =>
      rw [hfind] at hparse
      exact hparse
    | some l =>
      rw [hfind] at hparse
      obtain ⟨fault, hfault, hraised⟩ := hparse
      exact ⟨fault, hfault, reading_isOfLine hfault, hraised⟩
  undecodable hnone := by
    cases hdecode : Utf8.decode bytes with
    | ok t => exact absurd (Utf8.decode_eq_ok_iff.mp hdecode) (hnone t)
    | error failure =>
      refine ⟨failure, rfl, Utf8.encodesUpTo_of_decode hdecode, ?_⟩
      rw [Snippet.parseBytes, Snippet.readBytes, hdecode]
      rfl

end Typist
