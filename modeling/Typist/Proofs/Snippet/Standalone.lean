import Typist.Proofs.Snippet.Lines
import Typist.Proofs.Snippet.Produced

/-!
# Lines as texts of their own

What is written for a line holds no line feed, so as a text it is one physical line. It is read as
the line again unless something at its end counts for the text : a carriage return belongs to the
line ending, and a backslash asks for a line to go on with. What is left without them (`soleLine`)
is what is written for a line that ends earlier (`exists_isWritten_soleLine`), since neither
character is part of anything that is not text. An empty line is written as an empty text, which has
no line at all.

`parse_of_render` puts this together : a line of a snippet is read back from its own text exactly if
the line is not empty and the text ends in neither of the two.
-/

namespace Typist

/-! ## Line feeds -/

theorem mem_of_mem_escaped {t : Text} {c : Char} (h : c ∈ escaped t) : c ∈ t ∨ c = '$' := by
  fun_induction escaped t <;> simp_all <;> tauto

theorem mem_of_mem_joined {mark : Text} {c : Char} {ts : List Text} (h : c ∈ Text.joined mark ts) :
    c ∈ mark ∨ ∃ t ∈ ts, c ∈ t := by
  fun_induction Text.joined mark ts with
  | case1 => cases h
  | case2 t => exact .inr ⟨t, List.mem_singleton_self t, h⟩
  | case3 t ts hne ih =>
    rcases List.mem_append.mp h with h | h
    · rcases List.mem_append.mp h with h | h
      · exact .inr ⟨t, List.mem_cons_self .., h⟩
      · exact .inl h
    · rcases ih h with h | ⟨u, hu, hc⟩
      · exact .inl h
      · exact .inr ⟨u, List.mem_cons_of_mem t hu, hc⟩

theorem not_mem_ofInt (n : Int) : '\n' ∉ Text.ofInt n := by
  have hdigits : ∀ n : Nat, '\n' ∉ Text.ofNat n := fun n h =>
    absurd (Text.isDigit_of_mem_ofNat h) (by decide)
  cases n with
  | ofNat n => exact hdigits n
  | negSucc n =>
    rw [Text.ofInt, List.mem_cons, not_or]
    exact ⟨by decide, hdigits (n + 1)⟩

/-- The names of keys that a combo can name hold no blanks. -/
theorem not_blank_of_mem_keyNames {keys : List Key} (htypable : ∀ key ∈ keys, key.IsTypable)
    {names : List Text} (h : keyNames keys = .ok names) :
    ∀ name ∈ names, ∀ c ∈ name, isBlank c = false := by
  induction keys generalizing names with
  | nil =>
    cases h
    simp
  | cons key keys ih =>
    obtain ⟨hkey, hkeys⟩ := List.forall_mem_cons.mp htypable
    rw [keyNames] at h
    cases hname : key.name? with
    | none => simp [hname] at h
    | some name =>
      rw [hname] at h
      obtain ⟨rest, hrest, rfl⟩ := map_eq_ok_iff.mp h
      refine List.forall_mem_cons.mpr ⟨?_, ih hkeys hrest⟩
      cases key with
      | code c => exact not_blank_of_mem_name_code c hname
      | char t =>
        obtain ⟨c, rfl, hblank⟩ := hkey
        exact not_blank_of_mem_name_char hblank hname

theorem not_mem_part_render {part : Part} (htypable : Line.IsTypable [part])
    (hchars : '\n' ∉ part.chars) {t : Text} (h : part.render ∅ = .ok t) : '\n' ∉ t := by
  cases part with
  | text content =>
    rw [Part.render] at h
    split at h
    · cases h
    · cases h
      intro hmem
      rcases mem_of_mem_escaped hmem with hmem | hmem
      · exact hchars hmem
      · exact absurd hmem (by decide)
  | delay milliseconds =>
    rw [Part.render] at h
    split at h
    · cases h
    · cases h
      simp [not_mem_ofInt]
  | arg name =>
    have hnone : (∅ : Mapping Text Text).get? name = none := rfl
    rw [Part.render, hnone, renderArg] at h
    split at h
    · cases h
    · cases h
      have hname : '\n' ∉ name := hchars
      simp [hname]
  | combo keys =>
    rw [Part.render] at h
    obtain ⟨names, hnames, rfl⟩ := map_eq_ok_iff.mp h
    have hblank := not_blank_of_mem_keyNames (htypable keys (by simp)) hnames
    have hjoined : '\n' ∉ Text.joined ['+'] names := by
      intro hmem
      rcases mem_of_mem_joined hmem with hmem | ⟨name, hname, hmem⟩
      · exact absurd hmem (by decide)
      · exact absurd (hblank name hname _ hmem) (by decide)
    simp [hjoined]

theorem not_mem_render {line : Line} (htypable : Line.IsTypable line)
    (hchars : ∀ part ∈ line, '\n' ∉ part.chars) {r : Text} (h : Line.render ∅ line = .ok r) :
    '\n' ∉ r := by
  induction line generalizing r with
  | nil =>
    cases h
    exact List.not_mem_nil
  | cons part line ih =>
    obtain ⟨hpart, hline⟩ := List.forall_mem_cons.mp hchars
    obtain ⟨t, u, ht, hu, rfl⟩ := render_cons.mp h
    obtain ⟨htypablePart, htypableLine⟩ := Line.isTypable_cons.mp htypable
    rw [List.mem_append, not_or]
    exact ⟨not_mem_part_render htypablePart hpart ht, ih htypableLine hline hu⟩

/-! ## Without the last character -/

theorem escaped_ne_nil {t : Text} (h : t ≠ []) : escaped t ≠ [] := by
  rw [Ne, ← List.head?_eq_none_iff, head?_escaped, List.head?_eq_none_iff]
  exact h

theorem escaped_concat {c : Char} (harg : c ≠ '@') (hcombo : c ≠ '!') (t : Text) :
    escaped (t ++ [c]) = escaped t ++ [c] := by
  fun_induction escaped t with
  | case1 t ih => simp [escaped, ih]
  | case2 t ih => simp [escaped, ih]
  | case3 d t hnotArg hnotCombo ih =>
    have hopener : ∀ e, c ≠ e → (∀ rest, d = '$' → t = e :: rest → False) →
        ∀ rest, d = '$' → t ++ [c] = e :: rest → False := by
      intro e hne hnot rest hd heq
      cases t with
      | nil => exact hne (List.cons.inj heq).1
      | cons first t => exact hnot t hd (by rw [(List.cons.inj heq).1])
    rw [List.cons_append,
      escaped.eq_3 d _ (hopener '@' harg hnotArg) (hopener '!' hcombo hnotCombo), ih]
    rfl
  | case4 => simp [escaped]

/-- Written text ends as the text does, or in the `$` of an escape. -/
theorem getLast?_escaped {t : Text} {c : Char} (h : (escaped t).getLast? = some c) :
    c = '$' ∨ t.getLast? = some c := by
  fun_induction escaped t with
  | case1 t ih | case2 t ih =>
    cases hlast : (escaped t).getLast? with
    | none => exact .inl (by simpa [List.getLast?_cons, hlast] using h.symm)
    | some d =>
      obtain rfl : d = c := by simpa [List.getLast?_cons, hlast] using h
      exact (ih hlast).imp_right fun hlast => by simp [List.getLast?_cons, hlast]
  | case3 d t hnotArg hnotCombo ih =>
    cases hlast : (escaped t).getLast? with
    | none =>
      obtain rfl : d = c := by simpa [List.getLast?_cons, hlast] using h
      have hnil : t = [] := by
        by_contra hnil
        exact escaped_ne_nil hnil (List.getLast?_eq_none_iff.mp hlast)
      exact .inr (by rw [hnil, List.getLast?_singleton])
    | some e =>
      obtain rfl : e = c := by simpa [List.getLast?_cons, hlast] using h
      exact (ih hlast).imp_right fun hlast => by simp [List.getLast?_cons, hlast]
  | case4 => cases h

/-- The line is in normal form, its combos can be named, and without defaults it is written so. -/
structure Line.IsWritten (line : Line) (r : Text) : Prop where
  normal : Line.IsNormal line
  typable : Line.IsTypable line
  render : Line.render ∅ line = .ok r

theorem Line.IsWritten.init {line : Line} {part : Part} {r : Text}
    (h : Line.IsWritten (line ++ [part]) r) :
    ∃ t u, Line.IsWritten line t ∧ part.render ∅ = .ok u ∧ r = t ++ u := by
  obtain ⟨t, u, ht, hu, rfl⟩ := render_append.mp h.render
  obtain ⟨v, w, hv, hw, rfl⟩ := render_cons.mp hu
  cases hw
  refine ⟨t, v, ⟨⟨fun p hp => h.normal.parts p (List.mem_append_left _ hp), ?_⟩,
    fun keys hkeys => h.typable keys (List.mem_append_left _ hkeys), ht⟩, hv,
    by rw [List.append_nil]⟩
  exact (List.isChain_append.mp h.normal.apart).1

/-- A text at the end of the line may be another. -/
theorem Line.IsWritten.endingIn {line : Line} {content rest t u : Text}
    (h : Line.IsWritten (line ++ [.text content]) u) (ht : Line.render ∅ line = .ok t)
    (hrest : (Part.text rest).IsNormal) :
    Line.IsWritten (line ++ [.text rest]) (t ++ escaped rest) := by
  refine ⟨⟨?_, ?_⟩, ?_, ?_⟩
  · intro part hpart
    rcases List.mem_append.mp hpart with hpart | hpart
    · exact h.normal.parts part (List.mem_append_left _ hpart)
    · obtain rfl := List.mem_singleton.mp hpart
      exact hrest
  · have hapart := List.isChain_append.mp h.normal.apart
    exact List.isChain_append.mpr ⟨hapart.1, List.isChain_singleton _, fun x hx y hy => by
      obtain rfl : _ = y := Option.some.inj hy
      exact hapart.2.2 x hx (.text content) rfl⟩
  · intro keys hkeys
    exact h.typable keys (by simpa using hkeys)
  · have hend : Line.render ∅ [.text rest] = .ok (escaped rest) :=
      render_cons.mpr ⟨escaped rest, [], render_text hrest ∅, rfl, (List.append_nil _).symm⟩
    exact render_append.mpr ⟨t, escaped rest, ht, hend, rfl⟩

/-- What is written for a line without its last character is written for a line that ends earlier,
unless that character closes a part. -/
theorem exists_isWritten_of_concat {line : Line} {r : Text} {c : Char}
    (h : Line.IsWritten line (r ++ [c])) (hc : c ∉ ['$', '@', '!']) :
    ∃ line', Line.IsWritten line' r := by
  obtain ⟨hdollar, harg, hcombo⟩ : c ≠ '$' ∧ c ≠ '@' ∧ c ≠ '!' := by simpa using hc
  rcases List.eq_nil_or_concat line with rfl | ⟨line, part, rfl⟩
  · exact absurd (Except.ok.inj h.render) (by simp)
  · rw [List.concat_eq_append] at h
    obtain ⟨t, u, hline, hu, heq⟩ := h.init
    have hpart : part.IsNormal := h.normal.parts part (by simp)
    cases part with
    | text content =>
      obtain ⟨hnil, hdelay, hlist⟩ := hpart
      have hu : escaped content = u :=
        Except.ok.inj ((render_text ⟨hnil, hdelay, hlist⟩ ∅).symm.trans hu)
      have hlast : (escaped content).getLast? = some c := by
        rw [← List.getLast?_append_of_ne_nil t (escaped_ne_nil hnil), hu, ← heq,
          List.getLast?_concat]
      obtain ⟨rest, rfl⟩ : ∃ rest, content = rest ++ [c] :=
        List.getLast?_eq_some_iff.mp ((getLast?_escaped hlast).resolve_left hdollar)
      rw [← hu, escaped_concat harg hcombo, ← List.append_assoc] at heq
      obtain ⟨rfl, -⟩ := List.append_inj' heq rfl
      by_cases hrest : rest = []
      · exact ⟨line, by rwa [hrest, escaped, List.append_nil]⟩
      · exact ⟨line ++ [.text rest], h.endingIn hline.render ⟨hrest, holds_of_append hdelay,
          holds_of_append hlist⟩⟩
    | delay | arg | combo =>
      obtain ⟨v, rfl⟩ := render_eq_dollars rfl hu
      rw [← List.cons_append, ← List.append_assoc] at heq
      obtain ⟨-, hlast⟩ := List.append_inj' heq rfl
      exact absurd (List.cons.inj hlast).1 hdollar

/-! ## The text of a line as a text -/

section

variable {mark : Char} {t : Text}

theorem Text.length_withoutMark_le (mark : Char) (t : Text) :
    (t.withoutMark mark).length ≤ t.length := by
  rw [Text.withoutMark]
  split
  · rw [List.length_dropLast]
    exact Nat.sub_le ..
  · exact Nat.le_refl _

theorem Text.length_withoutMark_lt (h : t.getLast? = some mark) :
    (t.withoutMark mark).length < t.length := by
  obtain ⟨u, rfl⟩ := List.getLast?_eq_some_iff.mp h
  rw [Text.withoutMark, if_pos h, List.dropLast_concat, List.length_append]
  exact Nat.lt_succ_self _

/-- What is written for a line is so without a mark that closes no part. -/
theorem exists_isWritten_withoutMark {line : Line} (h : Line.IsWritten line t) (mark : Char)
    (hmark : mark ∉ ['$', '@', '!']) : ∃ line', Line.IsWritten line' (t.withoutMark mark) := by
  rw [Text.withoutMark]
  split
  · next hlast =>
    obtain ⟨u, rfl⟩ := List.getLast?_eq_some_iff.mp hlast
    rw [List.dropLast_concat]
    exact exists_isWritten_of_concat h hmark
  · exact ⟨line, h⟩

end

/-- The logical line of a text that is one physical line. -/
def soleLine (t : Text) : LogicalLine :=
  ⟨1, (t.withoutMark '\r').withoutMark '\\', continues (t.withoutMark '\r')⟩

theorem logicalLines_of_not_mem {t : Text} (hnil : t ≠ []) (h : '\n' ∉ t) :
    logicalLines (physicalLines t) = [soleLine t] := by
  have hmark : ∀ line : Text, (if continues line then line.dropLast else line) =
      line.withoutMark '\\' := by
    intro line
    simp [continues, Text.withoutMark]
  rw [physicalLines_of_not_mem hnil h, logicalLines_singleton, hmark]
  rfl

theorem exists_isWritten_soleLine {line : Line} {r : Text} (h : Line.IsWritten line r) :
    ∃ line', Line.IsWritten line' (soleLine r).text := by
  obtain ⟨line', h'⟩ := exists_isWritten_withoutMark h '\r' (by decide)
  exact exists_isWritten_withoutMark h' '\\' (by decide)

/-- Does neither a carriage return nor a backslash end the text? -/
def Text.IsUnmarked (t : Text) : Prop :=
  t.getLast? ≠ some '\r' ∧ t.getLast? ≠ some '\\'

theorem soleLine_of_isUnmarked {t : Text} (h : t.IsUnmarked) : soleLine t = ⟨1, t, false⟩ := by
  rw [soleLine, Text.withoutMark_eq_self h.1, Text.withoutMark_eq_self h.2, continues,
    decide_eq_false h.2]

theorem soleLine_text_ne {t : Text} (h : ¬t.IsUnmarked) : (soleLine t).text ≠ t := by
  have hlength : (soleLine t).text.length < t.length := by
    by_cases hreturn : t.getLast? = some '\r'
    · exact Nat.lt_of_le_of_lt (Text.length_withoutMark_le _ _) (Text.length_withoutMark_lt hreturn)
    · have hbackslash : t.getLast? = some '\\' := by
        simpa [Text.IsUnmarked, hreturn] using h
      rw [soleLine, Text.withoutMark_eq_self hreturn]
      exact Text.length_withoutMark_lt hbackslash
  exact fun heq => Nat.lt_irrefl _ (heq ▸ hlength)

/-- A text that is one physical line is a snippet of one line, if something is written for a line
there. -/
theorem parse_of_isWritten {line : Line} {t : Text} (hnil : t ≠ []) (hfeed : '\n' ∉ t)
    (h : Line.IsWritten line (soleLine t).text) :
    Snippet.parse Key.standardLookup t =
      .ok { lines := [line], diagnostics := (soleLine t).diagnostics } := by
  have hread := readLine_rendered h.normal h.typable h.render 1
  rw [Mapping.entriesOf_empty] at hread
  have hlines : Snippet.readLines Key.standardLookup [soleLine t] {} =
      (LineContext.readLine ⟨Key.standardLookup, 1⟩ (soleLine t).text >>= fun _ =>
        Snippet.readLines Key.standardLookup []) { diagnostics := (soleLine t).diagnostics } :=
    rfl
  rw [Snippet.parse, Snippet.readText, logicalLines_of_not_mem hnil hfeed, hlines, hread]
  rfl

/-! ## Lines of a snippet -/

/-- A line of a snippet is in normal form, and if it is written at all its combos can be named. -/
theorem isWritten_of_reading {t : Text} {line : Line}
    (hread : reading Key.standardLookup t = .ok line) {r : Text} (hr : Line.render ∅ line = .ok r) :
    Line.IsWritten line r where
  normal := isNormal_reading hread
  render := hr
  typable := by
    refine isTypable_of_reading hread ?_
    rintro keys hcombo _ hkey ⟨c, rfl, hblank⟩
    obtain ⟨u, hu⟩ := part_render_of_mem hr hcombo
    obtain ⟨names, hnames, -⟩ := map_eq_ok_iff.mp hu
    exact name?_ne_none_of_keyNames hnames hkey (name?_blank hblank)

theorem Line.IsWritten.ne_nil {line : Line} {r : Text} (h : Line.IsWritten line r)
    (hline : line ≠ []) : r ≠ [] := by
  cases line with
  | nil => exact absurd rfl hline
  | cons part line =>
    obtain ⟨t, u, ht, -, rfl⟩ := render_cons.mp h.render
    have hnil : t ≠ [] := by
      cases part with
      | text content =>
        have hnormal := h.normal.parts (.text content) (by simp)
        obtain rfl := Except.ok.inj ((render_text hnormal ∅).symm.trans ht)
        exact escaped_ne_nil hnormal.1
      | delay | arg | combo =>
        obtain ⟨v, rfl⟩ := render_eq_dollars rfl ht
        exact List.cons_ne_nil _ _
    exact List.append_ne_nil_of_left_ne_nil hnil u

/-- What is written for a line of a snippet without defaults is a text that reads. It is a snippet
of just this line if the line is not empty and neither a backslash nor a carriage return ends the
text, and otherwise its lines are others. -/
theorem parse_of_render {t : Text} {s : Snippet} (h : Snippet.parse Key.standardLookup t = .ok s)
    {line : Line} (hline : line ∈ s.lines) {r : Text} (hr : Line.render ∅ line = .ok r) :
    (line ≠ [] ∧ r.IsUnmarked → Snippet.parse Key.standardLookup r = .ok { lines := [line] }) ∧
      (line = [] ∨ ¬r.IsUnmarked →
        ∃ s', Snippet.parse Key.standardLookup r = .ok s' ∧ s'.lines ≠ [line]) := by
  obtain ⟨l, hl, hread⟩ := exists_reading_of_mem_lines h hline
  have hwritten := isWritten_of_reading hread hr
  have hfeed : '\n' ∉ r := by
    refine not_mem_render hwritten.typable (fun part hpart hmem => ?_) hr
    rcases mem_chars_of_reading hread hpart hmem with hmem | hmem
    · exact not_mem_of_mem_logicalLines hl hmem
    · exact absurd hmem (by decide)
  constructor
  · rintro ⟨hnil, hunmarked⟩
    have hsole := soleLine_of_isUnmarked hunmarked
    rw [parse_of_isWritten (hwritten.ne_nil hnil) hfeed (by rwa [hsole]), hsole]
    rfl
  · intro hother
    by_cases hnil : line = []
    · subst hnil
      cases hr
      exact ⟨{}, rfl, List.cons_ne_nil _ _ ∘ Eq.symm⟩
    · obtain ⟨line', hwritten'⟩ := exists_isWritten_soleLine hwritten
      refine ⟨_, parse_of_isWritten (hwritten.ne_nil hnil) hfeed hwritten', ?_⟩
      intro heq
      obtain rfl : line' = line := (List.cons.inj heq).1
      exact soleLine_text_ne (hother.resolve_left hnil)
        (Except.ok.inj (hwritten'.render.symm.trans hr))

/-- A text of two lines, of which the second ends in a backslash and a carriage return. -/
def returningText : Text :=
  "a$!$\nx$@$\\\r\r\n".toList

/-- Its second line. -/
def returningLine : Line :=
  [.text "x$@\\\r".toList]

theorem parse_of_render_returningText :
    ∃ s, Snippet.parse Key.standardLookup returningText = .ok s ∧
      s.lines = [[.text "a$!".toList], returningLine] ∧
      Line.render ∅ [.text "a$!".toList] = .ok "a$!$".toList ∧
      Text.IsUnmarked "a$!$".toList ∧
      Snippet.parse Key.standardLookup "a$!$".toList = .ok { lines := [[.text "a$!".toList]] } ∧
      Line.render ∅ returningLine = .ok "x$@$\\\r".toList ∧ ¬Text.IsUnmarked "x$@$\\\r".toList ∧
      ∃ s', Snippet.parse Key.standardLookup "x$@$\\\r".toList = .ok s' ∧
        s'.lines ≠ [returningLine] := by
  have hlines : (Snippet.parse Key.standardLookup returningText).map Snippet.lines =
      .ok [[.text "a$!".toList], returningLine] := by
    decide +kernel
  obtain ⟨s, hs, hlines⟩ := map_eq_ok_iff.mp hlines
  have hfirst : Line.render ∅ [.text "a$!".toList] = .ok "a$!$".toList := by decide +kernel
  have hsecond : Line.render ∅ returningLine = .ok "x$@$\\\r".toList := by decide +kernel
  have hunmarked : Text.IsUnmarked "a$!$".toList := ⟨by decide, by decide⟩
  have hmarked : ¬Text.IsUnmarked "x$@$\\\r".toList := fun hunmarked => hunmarked.1 (by decide)
  exact ⟨s, hs, hlines, hfirst, hunmarked,
    (parse_of_render hs (by rw [hlines]; simp) hfirst).1 ⟨List.cons_ne_nil _ _, hunmarked⟩,
    hsecond, hmarked, (parse_of_render hs (by rw [hlines]; simp) hsecond).2 (.inr hmarked)⟩

end Typist
