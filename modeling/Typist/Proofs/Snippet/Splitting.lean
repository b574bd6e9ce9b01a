import Typist.Proofs.Snippet.Renumbering

/-!
# Lines split in two

A line may be split before any of its characters that is not blank : the first half ends in a
backslash, and the second may start with blanks. What the backslash joins is the line as it was,
wherever it is split and even if the line goes on with an earlier one or asks to be continued itself
(`logicalLines_split`). So the text means the same, and only the numbers of the lines after the
split are one more (`parse_split`).
-/

namespace Typist

variable {c : Char} {w : Text}

/-! ## Physical lines -/

theorem Text.withoutReturn_append {u : Text} (h : u ≠ []) (t : Text) :
    (t ++ u).withoutReturn = t ++ u.withoutReturn := by
  rw [withoutReturn, withoutReturn, List.getLast?_append_of_ne_nil t h]
  split
  · rw [List.dropLast_append_of_ne_nil h]
  · rfl

theorem Text.withoutReturn_cons (hc : c ≠ '\r') (t : Text) :
    ∃ u, Text.withoutReturn (c :: t) = c :: u := by
  cases t with
  | nil => exact ⟨[], if_neg (by simpa using hc)⟩
  | cons d t => exact ⟨_, withoutReturn_append (List.cons_ne_nil d t) [c]⟩

/-- The physical line in which a text is split becomes two. -/
theorem physicalLines_split (hc : isBlank c = false) (hw : ∀ x ∈ w, isBlank x = true ∧ x ≠ '\n')
    (a b : Text) :
    ∃ before p q after, before.length = a.count '\n' ∧
      physicalLines (a ++ c :: b) = before ++ (p ++ c :: q) :: after ∧
      physicalLines (a ++ '\\' :: '\n' :: (w ++ c :: b)) =
        before ++ (p ++ ['\\']) :: (w ++ c :: q) :: after := by
  have hfeed : c ≠ '\n' := by
    rintro rfl
    simp [isBlank, inRanges, blankRanges] at hc
  have hreturn : c ≠ '\r' := by
    rintro rfl
    simp [isBlank, inRanges, blankRanges] at hc
  obtain ⟨before, p, hlength, hbefore⟩ := Text.exists_pieces_append '\n' a
  obtain ⟨q, qs, hb⟩ : ∃ q qs, b.pieces '\n' = q :: qs :=
    List.exists_cons_of_ne_nil (Text.pieces_ne_nil b)
  have hcb : Text.pieces '\n' (c :: b) = (c :: q) :: qs := by
    have hmark : '\n' ∉ [c] := by simpa using hfeed.symm
    exact Text.pieces_append_of_not_mem hmark hb
  have hwcb : Text.pieces '\n' (w ++ c :: b) = (w ++ c :: q) :: qs :=
    Text.pieces_append_of_not_mem (fun hmem => (hw _ hmem).2 rfl) hcb
  have hsplit : Text.pieces '\n' ('\\' :: '\n' :: (w ++ c :: b)) =
      ['\\'] :: (w ++ c :: q) :: qs := by
    rw [← hwcb]
    exact Text.pieces_append_cons ['\\'] _
  obtain ⟨u, hu⟩ := Text.withoutReturn_cons hreturn q
  have hline (t : Text) : Text.withoutReturn (t ++ c :: q) = t ++ c :: u := by
    rw [Text.withoutReturn_append (List.cons_ne_nil c q), hu]
  refine ⟨before.map Text.withoutReturn, p, u, linesOfPieces qs, by rw [List.length_map, hlength],
    ?_, ?_⟩
  · rw [physicalLines_eq, hbefore _ _ _ hcb, linesOfPieces_append _ (by simp),
      linesOfPieces_cons (by simp), hline]
  · have hmark : Text.withoutReturn (p ++ ['\\']) = p ++ ['\\'] :=
      Text.withoutReturn_append (by simp) p
    rw [physicalLines_eq, hbefore _ _ _ hsplit, linesOfPieces_append _ (by simp),
      linesOfPieces_cons (by simp), linesOfPieces_cons (by simp), hline, hmark]

/-! ## Logical lines -/

theorem trimStart_append_cons (hc : isBlank c = false) (p q : Text) :
    Text.trimStart (p ++ c :: q) = Text.trimStart p ++ c :: q := by
  have hstays : List.dropWhile isBlank (c :: q) = c :: q :=
    List.dropWhile_cons_of_neg (by simp [hc])
  rw [Text.trimStart, Text.trimStart, List.dropWhile_append, hstays]
  split
  · next h => rw [List.isEmpty_iff.mp h, List.nil_append]
  · rfl

theorem continues_append {u : Text} (h : u ≠ []) (t : Text) : continues (t ++ u) = continues u := by
  rw [continues, continues, List.getLast?_append_of_ne_nil t h]

/-- From a character on that is not blank, a line is joined as it stands to what is begun. -/
theorem exists_assemble_cons (number : Nat) (begun : Option (Nat × Text)) (p : Text)
    (hbegun : ∀ b ∈ begun, b.1 ≤ number) :
    ∃ start t, start ≤ number ∧ ∀ c q rest, isBlank c = false →
      assemble number begun ((p ++ c :: q) :: rest) =
        if continues (c :: q) then assemble (number + 1) (some (start, t ++ (c :: q).dropLast)) rest
        else ⟨start, t ++ c :: q, false⟩ :: assemble (number + 1) none rest := by
  cases begun with
  | none =>
    refine ⟨number, p, Nat.le_refl number, fun c q rest hc => ?_⟩
    rw [assemble, continues_append (List.cons_ne_nil c q),
      List.dropLast_append_of_ne_nil (List.cons_ne_nil c q)]
    rfl
  | some b =>
    refine ⟨b.1, b.2 ++ Text.trimStart p, hbegun b rfl, fun c q rest hc => ?_⟩
    rw [assemble, trimStart_append_cons hc, continues_append (List.cons_ne_nil c q),
      List.dropLast_append_of_ne_nil (List.cons_ne_nil c q), List.append_assoc, List.append_assoc]

/-- The number of a physical line, if one more line comes after line `n`. -/
def numberAfterSplit (n number : Nat) : Nat :=
  if number ≤ n then number else number + 1

theorem numberAfterSplit_of_le {n number : Nat} (h : number ≤ n) :
    numberAfterSplit n number = number :=
  if_pos h

theorem numberAfterSplit_add (n k : Nat) : numberAfterSplit n (n + 1 + k) = n + 1 + 1 + k := by
  rw [numberAfterSplit, if_neg (by omega)]
  omega

/-- Joining undoes a split. -/
theorem assemble_split (hc : isBlank c = false) (hw : ∀ x ∈ w, isBlank x = true) (number : Nat)
    (begun : Option (Nat × Text)) (before : List Text) (p q : Text) (after : List Text)
    (hbegun : ∀ b ∈ begun, b.1 ≤ number) :
    assemble number begun (before ++ (p ++ ['\\']) :: (w ++ c :: q) :: after) =
      (assemble number begun (before ++ (p ++ c :: q) :: after)).map
        (·.renumbered (numberAfterSplit (number + before.length))) := by
  induction before generalizing number begun with
  | nil =>
    obtain ⟨start, t, hstart, hline⟩ := exists_assemble_cons number begun p hbegun
    have hfirst : assemble number begun ((p ++ ['\\']) :: (w ++ c :: q) :: after) =
        assemble (number + 1) (some (start, t)) ((w ++ c :: q) :: after) := by
      rw [hline '\\' [] _ (by decide)]
      simp [continues]
    have htrim : Text.trimStart (w ++ c :: q) = c :: q := by
      rw [trimStart_append_cons hc, Text.trimStart, List.dropWhile_eq_nil_iff.mpr hw,
        List.nil_append]
    have hsame := numberAfterSplit_of_le hstart
    rw [List.nil_append, List.nil_append, List.length_nil, Nat.add_zero, hfirst, hline c q after hc,
      assemble, htrim]
    split
    · rw [← assemble_renumbered (numberAfterSplit_add number), Option.map_some, hsame]
    · rw [List.map_cons, ← assemble_renumbered (numberAfterSplit_add number),
        LogicalLine.renumbered, hsame]
      rfl
  | cons line before ih =>
    have hlength : number + (line :: before).length = number + 1 + before.length := by
      rw [List.length_cons]
      omega
    have hearlier {start : Nat} (h : start ≤ number) :
        numberAfterSplit (number + 1 + before.length) start = start :=
      numberAfterSplit_of_le (by omega)
    rw [List.cons_append, List.cons_append, hlength]
    cases begun with
    | none =>
      rw [assemble, assemble]
      split
      · exact ih (number + 1) _ (by simp)
      · rw [List.map_cons, ih (number + 1) none (by simp), LogicalLine.renumbered,
          hearlier (Nat.le_refl number)]
    | some b =>
      have hb := hbegun b rfl
      rw [assemble, assemble]
      split
      · exact ih (number + 1) _ (by simpa using Nat.le_succ_of_le hb)
      · rw [List.map_cons, ih (number + 1) none (by simp), LogicalLine.renumbered, hearlier hb]

/-- The logical lines of a text that is split in one of its lines are those of the text as it was,
numbered on. -/
theorem logicalLines_split (hc : isBlank c = false) (hw : ∀ x ∈ w, isBlank x = true ∧ x ≠ '\n')
    (a b : Text) :
    logicalLines (physicalLines (a ++ '\\' :: '\n' :: (w ++ c :: b))) =
      (logicalLines (physicalLines (a ++ c :: b))).map
        (·.renumbered (numberAfterSplit (a.count '\n' + 1))) := by
  obtain ⟨before, p, q, after, hlength, hwhole, hsplit⟩ := physicalLines_split hc hw a b
  rw [hwhole, hsplit, ← hlength, Nat.add_comm]
  exact assemble_split hc (fun x hx => (hw x hx).1) 1 none before p q after (by simp)

/-! ## What the text means -/

/-- The number of a line in diagnostics and errors, if one more line comes after line `n`. -/
def placeAfterSplit (n : Nat) (number : Int) : Int :=
  if number ≤ n then number else number + 1

theorem natCast_numberAfterSplit (n number : Nat) :
    (numberAfterSplit n number : Int) = placeAfterSplit n number := by
  rw [numberAfterSplit, placeAfterSplit]
  split <;> split <;> omega

/-- A text that is split in one of its lines means the same. It reads if it did, with the same lines
and defaults and with the same diagnostics, or fails as it did. Only the numbers of lines after the
split are one more. -/
theorem parse_split (hc : isBlank c = false) (hw : ∀ x ∈ w, x = ' ' ∨ x = '\t') (lookup : KeyLookup)
    (a b : Text) :
    Snippet.parse lookup (a ++ '\\' :: '\n' :: (w ++ c :: b)) =
      ((Snippet.parse lookup (a ++ c :: b)).map
        (·.renumbered (placeAfterSplit (a.count '\n' + 1)))).mapError
          (·.renumbered (placeAfterSplit (a.count '\n' + 1))) := by
  have hblank : ∀ x ∈ w, isBlank x = true ∧ x ≠ '\n' := by
    intro x hx
    rcases hw x hx with rfl | rfl <;> decide
  rw [parse_eq, parse_eq, logicalLines_split hc hblank,
    mapM_reading_renumbered _ _ (natCast_numberAfterSplit (a.count '\n' + 1))]
  cases (logicalLines (physicalLines (a ++ c :: b))).mapM (LogicalLine.reading lookup) with
  | error e => rfl
  | ok lines =>
    exact congrArg Except.ok
      (Snippet.ofLines_renumbered _ _ (natCast_numberAfterSplit (a.count '\n' + 1)) lookup _ lines)

/-- A combo that is split in the name of its second key, in a line that goes on with the one before
it and asks to be continued itself. What is noted above the split stays where it is, and what is
noted below it moves down. -/
theorem parse_split_combo :
    let lookup : KeyLookup := fun token => some (.char (.ofText token))
    let a := "$@n::a$$@n\n  \\\n $!ctrl+shi".toList
    let b := "t+x$\\\n\n$@n::b".toList
    isBlank 'f' = false ∧ (∀ x ∈ [' ', '\t'], x = ' ' ∨ x = '\t') ∧
      ∃ s, Snippet.parse lookup (a ++ 'f' :: b) = .ok s ∧
        Snippet.parse lookup (a ++ '\\' :: '\n' :: ([' ', '\t'] ++ 'f' :: b)) =
          .ok (s.renumbered (placeAfterSplit 3)) ∧
        s.lines[1]? = some [.text [' ', ' '],
          .combo (["ctrl", "shift", "x"].map fun name => .char (.ofText name.toList))] ∧
        (s.renumbered (placeAfterSplit 3)).diagnostics.map (fun d => (d.kind, d.line)) =
          [(.incompleteArg, 1), (.incompleteArg, 6), (.duplicateDefault, 6)] := by
  intro lookup a b
  have hf : isBlank 'f' = false := by decide
  have hblanks : ∀ x ∈ [' ', '\t'], x = ' ' ∨ x = '\t' := by simp
  have hread : (Snippet.parse lookup (a ++ 'f' :: b)).map (fun s => (s.lines[1]?, s.diagnostics.map
      fun d => (d.kind, d.line))) =
        .ok (some [.text [' ', ' '],
            .combo (["ctrl", "shift", "x"].map fun name => .char (.ofText name.toList))],
          [(.incompleteArg, 1), (.incompleteArg, 5), (.duplicateDefault, 5)]) := by decide +kernel
  obtain ⟨s, hs, hread⟩ := map_eq_ok_iff.mp hread
  obtain ⟨hline, hnotes⟩ := Prod.mk.inj hread
  have hcount : a.count '\n' + 1 = 3 := by decide +kernel
  have hsplit := parse_split hf hblanks lookup a b
  rw [hs, hcount] at hsplit
  have hmoved : (s.renumbered (placeAfterSplit 3)).diagnostics.map (fun d => (d.kind, d.line)) =
      (s.diagnostics.map fun d => (d.kind, d.line)).map fun note =>
        (note.1, placeAfterSplit 3 note.2) := by
    rw [Snippet.renumbered, List.map_map, List.map_map]
    rfl
  exact ⟨hf, hblanks, s, hs, hsplit, hline, by rw [hmoved, hnotes]; rfl⟩

end Typist
