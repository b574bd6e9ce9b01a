import Typist.Proofs.Snippet.Produced

/-!
# Lines written with their defaults

A default belongs to the snippet, whichever line declares it, and a line that is written with the
defaults of its snippet declares each of them wherever it uses the name. So what is read of it again
is the line and, of the defaults, those that it uses, in the order in which it first uses them
(`Line.ReadsBackWith`). A name that the line uses again is redeclared with the value it has, which
is noted and changes nothing.

Nothing that a snippet declares stands in the way (`readLine_of_render_defaults`) : a value holds no
`$`, and a name that has a default holds no `::` and does not end in `:`, so the first `::` is the
one before the value.
-/

namespace Typist

open LineContext

/-! ## Declaring many defaults -/

/-- Declaring defaults leaves the diagnostics for what they take the place of. -/
theorem declareAll_run (ctx : LineContext) (ds : List (Text × Text)) (σ : Snippet) :
    (ctx.declareAll ds).run σ =
      .ok ()
        (σ.grown ds (notedInOrder (fun d => [d]) (redeclaration ctx.number) σ.defaults ds)) := by
  induction ds generalizing σ with
  | nil =>
    rw [notedInOrder, Snippet.grown_nil]
    rfl
  | cons d ds ih =>
    rw [declareAll, EStateM.run_bind, declare_run]
    simp only [ih, Snippet.grown_grown]
    rfl

theorem kind_of_mem_redeclarations (number : Int) (defaults : Mapping Text Text)
    (ds : List (Text × Text)) :
    ∀ d ∈ notedInOrder (fun d => [d]) (redeclaration number) defaults ds, d.kind =
      .duplicateDefault := by
  induction ds generalizing defaults with
  | nil => exact fun d hd => absurd hd List.not_mem_nil
  | cons declaration ds ih =>
    intro d hd
    rcases List.mem_append.mp hd with hd | hd
    · exact kind_of_mem_redeclaration number defaults declaration d hd
    · exact ih _ d hd

/-- Each of many declarations is noted or makes the defaults more. -/
theorem length_redeclarations (number : Int) (ds : List (Text × Text)) :
    (notedInOrder (fun d => [d]) (redeclaration number) {} ds).length + (Mapping.ofList ds).size =
      ds.length := by
  have hone : ∀ (defaults : Mapping Text Text) (d : Text × Text),
      ((redeclaration number defaults d).ofKind .duplicateDefault).length +
        (defaults.setAll [d]).size = defaults.size + [d].length := by
    intro defaults d
    rw [Diagnostics.ofKind_eq_self (kind_of_mem_redeclaration number defaults d)]
    exact length_redeclaration number defaults d
  have hcount := length_ofKind_notedInOrder hone {} ds
  rw [Diagnostics.ofKind_eq_self (kind_of_mem_redeclarations number {} ds),
    List.flatMap_singleton'] at hcount
  exact hcount.trans (Nat.zero_add _)

/-! ## Lines of a snippet -/

/-- A line whose combos can be named is written with any defaults that can be written. -/
theorem exists_render {line : Line} (hnormal : Line.IsNormal line)
    (hshort : ∀ part ∈ line, part.IsShort) (htypable : Line.IsTypable line)
    {defaults : Mapping Text Text}
    (hdefaults : ∀ name value, defaults.get? name = some value → IsWritableDefault name value) :
    ∃ r, Line.render defaults line = .ok r := by
  cases hrender : Line.render defaults line with
  | ok r => exact ⟨r, rfl⟩
  | error e =>
    obtain ⟨part, hpart, he⟩ := render_eq_error hrender
    rcases part_render_eq_error (hnormal.parts part hpart)
      (fun name value _ => hdefaults name value) he with
      ⟨-, milliseconds, rfl, hlong⟩ | ⟨keys, key, rfl, hkey, hname, -⟩
    · have hshort : exceedsDigitLimit milliseconds = false := hshort _ hpart
      rw [hshort] at hlong
      cases hlong
    · exact absurd hname (name?_ne_none_of_isTypable (htypable keys hpart key hkey))

/-- What is left of an empty snippet when a line is read as it is written with the defaults. -/
structure Line.ReadsBackWith (line : Line) (defaults : Mapping Text Text) (σ : Snippet) : Prop where
  lines : σ.lines = [line]
  /-- The defaults of the names that the line uses, in the order in which it first uses them. -/
  declared : σ.defaults.entries = defaults.entriesOf (Line.argNames line).eraseDups
  redeclared : ∀ d ∈ σ.diagnostics, d.kind = .duplicateDefault
  /-- Each use of a name that has a default is noted, but for the first. -/
  count : σ.diagnostics.length + ((Line.argNames line).filter defaults.contains).eraseDups.length =
    ((Line.argNames line).filter defaults.contains).length

theorem readsBackWith_grown (line : Line) (defaults : Mapping Text Text) (number : Int) :
    Line.ReadsBackWith line defaults
      ((Snippet.grown {} (defaults.entriesOf (Line.argNames line))
        (notedInOrder (fun d => [d]) (redeclaration number) {}
          (defaults.entriesOf (Line.argNames line)))).withLine line) where
  lines := rfl
  declared := by
    rw [← eraseDups_decidable]
    exact defaults.entries_ofList_entriesOf (Line.argNames line)
  redeclared := kind_of_mem_redeclarations number {} _
  count := by
    have hcount := length_redeclarations number (defaults.entriesOf (Line.argNames line))
    have hlength : ∀ names : List Text, (defaults.entriesOf names).length =
        (names.filter defaults.contains).length :=
      fun names => by rw [← defaults.names_entriesOf names, List.length_map]
    rw [Mapping.size, defaults.entries_ofList_entriesOf, eraseDups_decidable, hlength, hlength,
      filter_eraseDups] at hcount
    exact hcount

/-- A line of a snippet in whose combos no key types a blank is written with the defaults of the
snippet, and what is written is read as the line again. It declares the defaults that the line uses,
and only redeclarations are noted. -/
theorem readLine_of_render_defaults {t : Text} {s : Snippet}
    (h : Snippet.parse Key.standardLookup t = .ok s) {line : Line} (hline : line ∈ s.lines)
    (hkeys : ∀ keys, Part.combo keys ∈ line → ∀ key ∈ keys, ¬key.IsBlank) :
    ∃ r, Line.render s.defaults line = .ok r ∧ ∀ number : Int, ∃ σ,
      (⟨Key.standardLookup, number⟩ : LineContext).readLine r {} = .ok line σ ∧
        Line.ReadsBackWith line s.defaults σ := by
  obtain ⟨l, -, hread⟩ := exists_reading_of_mem_lines h hline
  have hnormal := isNormal_reading hread
  have htypable := isTypable_of_reading hread hkeys
  have hwritable : ∀ name value, s.defaults.get? name = some value →
      IsWritableDefault name value := by
    intro name value hdefault
    obtain ⟨l, -, hdeclared⟩ := exists_declared_of_parse h (Mapping.mem_of_get? hdefault)
    exact isWritableDefault_of_mem_declared hdeclared
  obtain ⟨r, hr⟩ := exists_render hnormal (isShort_reading hread) htypable hwritable
  refine ⟨r, hr, fun number => ⟨_, ?_, readsBackWith_grown line s.defaults number⟩⟩
  have hrun :=
    declareAll_run ⟨Key.standardLookup, number⟩ (s.defaults.entriesOf (Line.argNames line)) {}
  show ((⟨Key.standardLookup, number⟩ : LineContext).readLine r).run {} = _
  rw [readLine_rendered hnormal htypable hr, EStateM.run_bind, hrun]
  rfl

/-- A text whose first line uses a name twice, another whose default the second line declares, and
one without a default. One value begins like what comes before it, one is empty, and one belongs to
no argument of the line. -/
def sharedText : Text :=
  "$@a:::x$$@b$$@a$$!ctrl$$@c$\n$@b::$$@d::1$".toList

/-- Its first line. -/
def sharedLine : Line :=
  [.arg ['a'], .arg ['b'], .arg ['a'], .combo [.code .leftCtrl], .arg ['c']]

theorem readLine_of_render_defaults_sharedText :
    ∃ s σ, Snippet.parse Key.standardLookup sharedText = .ok s ∧ sharedLine ∈ s.lines ∧
      (∀ keys, Part.combo keys ∈ sharedLine → ∀ key ∈ keys, ¬key.IsBlank) ∧
      Line.render s.defaults sharedLine = .ok "$@a:::x$$@b::$$@a:::x$$!ctrl$$@c$".toList ∧
      (⟨Key.standardLookup, 1⟩ : LineContext).readLine "$@a:::x$$@b::$$@a:::x$$!ctrl$$@c$".toList
        {} = .ok sharedLine σ ∧
      Line.ReadsBackWith sharedLine s.defaults σ ∧
      σ.defaults.entries = [(['a'], [':', 'x']), (['b'], [])] ∧ σ.diagnostics.length = 1 := by
  have hparts :
      (Snippet.parse Key.standardLookup sharedText).map (fun s => (s.lines.head?, s.defaults)) =
        .ok (some sharedLine, .ofList [(['a'], [':', 'x']), (['b'], []), (['d'], ['1'])]) := by
    decide +kernel
  obtain ⟨s, hs, hparts⟩ := map_eq_ok_iff.mp hparts
  obtain ⟨hhead, hdefaults⟩ := Prod.mk.inj hparts
  have hline : sharedLine ∈ s.lines := List.mem_of_head? hhead
  have hkeys : ∀ keys, Part.combo keys ∈ sharedLine → ∀ key ∈ keys, ¬key.IsBlank := by
    simp [sharedLine, Key.IsBlank]
  have hrender :
      Line.render s.defaults sharedLine = .ok "$@a:::x$$@b::$$@a:::x$$!ctrl$$@c$".toList := by
    rw [hdefaults]
    decide +kernel
  obtain ⟨r, hr, hread⟩ := readLine_of_render_defaults hs hline hkeys
  obtain rfl := Except.ok.inj (hr.symm.trans hrender)
  obtain ⟨σ, hσ, hback⟩ := hread 1
  have hdeclared := hback.declared
  have hcount := hback.count
  rw [hdefaults] at hdeclared hcount
  exact ⟨s, σ, hs, hline, hkeys, hrender, hσ, hback, hdeclared, Nat.add_right_cancel hcount⟩

end Typist
