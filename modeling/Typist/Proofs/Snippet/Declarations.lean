import Mathlib.Data.List.Induction
import Typist.Proofs.Key.Names
import Typist.Proofs.Mapping
import Typist.Proofs.Snippet.Parsing

/-!
# The declarations of a text

A text declares a default wherever it writes an argument that has a name and a `::`, in whatever
line that is and whether or not the argument is closed. `declarations` are all of them in the order
of the text, cut out by the grammar alone. What a snippet keeps of them (`Snippet.AccountsFor`) is
the last value of each name, and a note for each that came too late to be the first of its name,
with the value that it took the place of.

Notes are made segment by segment and line by line, and the redeclarations among them are those of
the row of all declarations (`LogicalLine.ofKind_notes`), since a text that reads is read to its end
(`declared_of_reading`).
-/

namespace Typist

/-! ## Declarations -/

/-- A default as a text declares it, with the number of the line that its logical line starts on. -/
structure Declaration where
  line : Nat
  name : Text
  value : Text
  deriving DecidableEq, Repr

/-- The declarations written in a logical line. -/
def LogicalLine.declarations (l : LogicalLine) : List Declaration :=
  ((segments l.text).filterMap Segment.declared).map fun d => ⟨l.start, d.1, d.2⟩

/-- The declarations of a text, in the order in which they are written. -/
def declarations (t : Text) : List Declaration :=
  (logicalLines (physicalLines t)).flatMap LogicalLine.declarations

/-- The value that the last of the declarations of the name gives it. -/
def valueAfter (ds : List Declaration) (name : Text) : Option Text :=
  (ds.filter fun d => d.name = name).getLast?.map Declaration.value

namespace Declaration

/-- The name with its value. -/
def entry (d : Declaration) : Text × Text :=
  (d.name, d.value)

/-- What is noted of a declaration that takes the place of a value. -/
def replacing (d : Declaration) (previous : Text) : Diagnostic :=
  ⟨.duplicateDefault, d.line,
    "Duplicate default value for argument `" ++ d.name.str ++ "`. Previous value `" ++
      previous.str ++ "` will be ignored."⟩

end Declaration

/-- What is noted of declarations after those `before` : each of a name that is declared already,
with the value that the name has there. -/
def replacements (before : List Declaration) : List Declaration → Diagnostics
  | [] => []
  | d :: ds => (valueAfter before d.name).toList.map d.replacing ++ replacements (before ++ [d]) ds

/-! ## Defaults after declarations -/

theorem valueAfter_concat (ds : List Declaration) (d : Declaration) (name : Text) :
    valueAfter (ds ++ [d]) name = if name = d.name then some d.value else valueAfter ds name := by
  rw [valueAfter, List.filter_append]
  split
  · next h => simp [h]
  · next h => simp [Ne.symm h, valueAfter]

/-- After declarations the value of a name is the one declared last. -/
theorem get?_ofList_entry (ds : List Declaration) (name : Text) :
    (Mapping.ofList (ds.map Declaration.entry)).get? name = valueAfter ds name := by
  induction ds using List.reverseRecOn with
  | nil => rfl
  | append_singleton ds d ih =>
    have hlast : Mapping.ofList ((ds ++ [d]).map Declaration.entry) =
        (Mapping.ofList (ds.map Declaration.entry)).set d.name d.value := by
      rw [List.map_append, Mapping.ofList, Mapping.setAll_append]
      rfl
    rw [hlast, Mapping.get?_set, valueAfter_concat, ih]

/-- A row of declarations is noted for what they replace. -/
theorem notedInOrder_entry (before ds : List Declaration) :
    notedInOrder (fun d => [d.entry]) (fun defaults d => redeclaration d.line defaults d.entry)
        (.ofList (before.map Declaration.entry)) ds =
      replacements before ds := by
  induction ds generalizing before with
  | nil => rfl
  | cons d ds ih =>
    have hnext : (Mapping.ofList (before.map Declaration.entry)).setAll [d.entry] =
        .ofList ((before ++ [d]).map Declaration.entry) := by
      rw [List.map_append, Mapping.ofList, Mapping.ofList, Mapping.setAll_append]
      rfl
    rw [notedInOrder, hnext, ih, redeclaration, Declaration.entry, get?_ofList_entry]
    rfl

/-! ## What is noted of lines -/

variable {lookup : KeyLookup}

/-- A line that reads declares all that is written in it. -/
theorem declared_of_reading {t : Text} {line : Line} (h : reading lookup t = .ok line) :
    declared lookup t = (segments t).filterMap Segment.declared := by
  obtain ⟨parts, hparts, -⟩ := map_eq_ok_iff.mp h
  rw [declared, List.takeWhile_eq_self_iff.mpr]
  intro segment hsegment
  obtain ⟨part, -, hmeaning⟩ := exists_mem_of_mapM hparts hsegment
  rw [hmeaning]
  rfl

/-- The declarations of a logical line that are read, those before its first fault. -/
def LogicalLine.declarationsRead (lookup : KeyLookup) (l : LogicalLine) : List Declaration :=
  (l.declared lookup).map fun d => ⟨l.start, d.1, d.2⟩

theorem LogicalLine.declarationsRead_of_reading {l : LogicalLine} {line : Line}
    (h : l.reading lookup = .ok line) : l.declarationsRead lookup = l.declarations := by
  rw [declarationsRead, LogicalLine.declared, declared_of_reading (reading_eq_ok.mp h),
    declarations]

theorem LogicalLine.map_entry_declarationsRead (l : LogicalLine) :
    (l.declarationsRead lookup).map Declaration.entry = l.declared lookup := by
  rw [declarationsRead, List.map_map]
  exact List.map_id _

/-- The redeclarations that are noted of a logical line are those among its declarations. -/
theorem LogicalLine.ofKind_notes (defaults : Mapping Text Text) (l : LogicalLine) :
    (l.notes lookup defaults).ofKind .duplicateDefault =
      notedInOrder (fun d => [d.entry]) (fun defaults d => redeclaration d.line defaults d.entry)
        defaults (l.declarationsRead lookup) := by
  let written (segment : Segment) : List Declaration :=
    segment.declared.toList.map fun d => ⟨l.start, d.1, d.2⟩
  have hrow : l.declarationsRead lookup = (reached lookup (segments l.text)).flatMap written := by
    rw [declarationsRead, LogicalLine.declared, declared_eq_reached, List.map_flatMap]
  rw [LogicalLine.notes, Diagnostics.ofKind_append,
    Diagnostics.ofKind_eq_nil l.kind_of_mem_diagnostics, List.nil_append, hrow, lineNotes]
  refine ofKind_notedInOrder (fun segment => ?_) (fun defaults segment => ?_) defaults _
  · cases hdeclared : segment.declared <;> simp [written, hdeclared, Declaration.entry]
  · rw [Segment.ofKind_notes, Segment.redeclared]
    cases hdeclared : segment.declared <;> simp [written, hdeclared, notedInOrder,
      Declaration.entry]

/-! ## What a snippet keeps -/

/-- Does the snippet keep the last value of each name, and a note for each value that was
replaced? -/
structure Snippet.AccountsFor (s : Snippet) (ds : List Declaration) : Prop where
  names : s.defaults.names = (ds.map Declaration.name).eraseDups
  values : ∀ name, s.defaults.get? name = valueAfter ds name
  replaced : s.diagnostics.ofKind .duplicateDefault = replacements [] ds
  count : ds.length = s.defaults.size + (s.diagnostics.ofKind .duplicateDefault).length

/-- A snippet accounts for all declarations of the text it was read from : each gives a name its
first value, or replaces its last one and is noted for it. -/
theorem parse_accountsFor {t : Text} {s : Snippet} (h : Snippet.parse lookup t = .ok s) :
    s.AccountsFor (declarations t) := by
  rw [parse_eq] at h
  obtain ⟨lines, hlines, rfl⟩ := map_eq_ok_iff.mp h
  let ls := logicalLines (physicalLines t)
  have hread : ls.flatMap (LogicalLine.declarationsRead lookup) = declarations t := by
    refine List.flatMap_congr fun l hl => ?_
    obtain ⟨line, -, hline⟩ := exists_mem_of_mapM hlines hl
    exact LogicalLine.declarationsRead_of_reading hline
  have hdeclared :
      ls.flatMap (LogicalLine.declared lookup) = (declarations t).map Declaration.entry := by
    rw [← hread, List.map_flatMap]
    exact List.flatMap_congr fun l _ => l.map_entry_declarationsRead.symm
  have hdefaults :
      (Snippet.ofLines lookup ls lines).defaults =
        .ofList ((declarations t).map Declaration.entry) :=
    congrArg Mapping.ofList hdeclared
  exact {
    names := by
      rw [hdefaults, Mapping.names_ofList, eraseDups_decidable, List.map_map]
      rfl
    values := fun name => by rw [hdefaults, get?_ofList_entry]
    replaced := by
      have hdeclares : ∀ l : LogicalLine,
          l.declared lookup = (l.declarationsRead lookup).flatMap fun d => [d.entry] := by
        intro l
        rw [← l.map_entry_declarationsRead, List.map_eq_flatMap]
      rw [← notedInOrder_entry [], ← hread]
      exact ofKind_notedInOrder hdeclares LogicalLine.ofKind_notes {} ls
    count := by
      have hcount := Snippet.length_ofKind_ofLines lookup ls lines
      rw [hdeclared, List.length_map] at hcount
      rw [← hcount, Nat.add_comm] }

/-- A text that declares a name in a comment, without a value, in an argument left open, and with
the value it has on a line that goes on with another. An argument without a name declares
nothing. -/
def repeatedText : Text :=
  "##$@a::x$\n$@a::$ $@::z$$@a::y\n$@b::1$\\\n  $@a::y$".toList

theorem parse_accountsFor_repeatedText :
    ∃ s, Snippet.parse Key.standardLookup repeatedText = .ok s ∧
      s.AccountsFor (declarations repeatedText) ∧ declarations repeatedText =
        [⟨1, ['a'], ['x']⟩, ⟨2, ['a'], []⟩, ⟨2, ['a'], ['y']⟩, ⟨3, ['b'], ['1']⟩,
          ⟨3, ['a'], ['y']⟩] ∧
      s.defaults.entries = [(['a'], ['y']), (['b'], ['1'])] ∧ s.diagnostics.length = 4 := by
  have hparts :
      (Snippet.parse Key.standardLookup repeatedText).map
          (fun s => (s.defaults, s.diagnostics.length)) =
        .ok (.ofList [(['a'], ['y']), (['b'], ['1'])], 4) := by
    decide +kernel
  obtain ⟨s, hs, hparts⟩ := map_eq_ok_iff.mp hparts
  obtain ⟨hdefaults, hlength⟩ := Prod.mk.inj hparts
  exact ⟨s, hs, parse_accountsFor hs, by decide +kernel, by rw [hdefaults]; rfl, hlength⟩

end Typist
