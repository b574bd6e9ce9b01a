import Typist.Proofs.Mapping
import Typist.Proofs.Snippet.Grammar

/-!
# What is noted of a line

Two things in a line are corrected, and a diagnostic notes each. A part that the end of the line
leaves open is closed there (`Segment.incomplete`), and a default takes the place of an earlier one
of the same name (`redeclaration`). Both may come of one segment, and then they come in this order
(`Segment.notes`).

Which default takes the place of another depends on what is declared before it, in the line or
before the line. `notedInOrder` goes along a row with the defaults declared so far. A line is read
up to its first fault (`reached`), so `lineNotes` are the notes of those segments.
-/

namespace Typist

/-! ## One segment -/

/-- What is said of an argument that the end of the line leaves open. It is quoted as it is written,
and without a name it is the text it stands for. -/
def incompleteArgMessage (body : Text) : String :=
  let escape := " is incomplete, you might've wanted to complete it or escape it with `$@$`. "
  if (splitDefault body).1 = [] then
    "Argument `$@`" ++ escape ++ "Autocompleting as `$@$` (text \"$@\")."
  else
    "Argument `$@" ++ body.str ++ "`" ++ escape ++ "Autocompleting as `$@" ++
      body.str ++ "$` (arg)."

/-- What is said of a combo that the end of the line leaves open. It is quoted by its tokens. -/
def incompleteComboMessage (body : Text) : String :=
  let combo := (Text.joined ['+'] ((comboTokens body).map fun token => '`' :: token ++ ['`'])).str
  let result := if comboTokens body = [] then "text \"$!\"" else "key combo"
  "Key combo `$!" ++ combo ++
    "` is incomplete, you might've wanted to complete it or escape it with " ++
    "`$!$`. Autocompleting as `$!" ++ combo ++ "$` (" ++ result ++ ")."

/-- The diagnostic for a part that the end of the line leaves open. An open delay gives none. -/
def Segment.incomplete (number : Int) : Segment → Diagnostics
  | part .arg body false => [⟨.incompleteArg, number, incompleteArgMessage body⟩]
  | part .combo body false => [⟨.incompleteCombo, number, incompleteComboMessage body⟩]
  | _ => []

/-- The diagnostic for a default that takes the place of an earlier one. -/
def redeclaration (number : Int) (defaults : Mapping Text Text) (declaration : Text × Text) :
    Diagnostics :=
  (defaults.get? declaration.1).toList.map fun previous =>
    ⟨.duplicateDefault, number,
      "Duplicate default value for argument `" ++ declaration.1.str ++ "`. Previous value `" ++
        previous.str ++ "` will be ignored."⟩

/-- The diagnostic for the default of a segment, if there is one already. -/
def Segment.redeclared (number : Int) (defaults : Mapping Text Text) (segment : Segment) :
    Diagnostics :=
  segment.declared.toList.flatMap (redeclaration number defaults)

/-- What is noted of a segment, after the defaults declared before it. -/
def Segment.notes (number : Int) (defaults : Mapping Text Text) (segment : Segment) : Diagnostics :=
  segment.incomplete number ++ segment.redeclared number defaults

/-- A part that a `$` closes is complete. -/
theorem incomplete_closed (number : Int) (opening : Opening) (body : Text) :
    (Segment.part opening body true).incomplete number = [] := by
  cases opening <;> rfl

theorem Segment.notes_text (number : Int) (defaults : Mapping Text Text) (content : Text) :
    (Segment.text content).notes number defaults = [] :=
  rfl

/-! ## Redeclarations among what is noted -/

/-- The diagnostics of all kinds but one. -/
def Diagnostics.besides (ds : Diagnostics) (kind : DiagnosticKind) : Diagnostics :=
  ds.filter fun d => d.kind ≠ kind

theorem Diagnostics.besides_append (ds ds' : Diagnostics) (kind : DiagnosticKind) :
    Diagnostics.besides (ds ++ ds') kind = ds.besides kind ++ ds'.besides kind :=
  List.filter_append ..

theorem Diagnostics.ofKind_append (ds ds' : Diagnostics) (kind : DiagnosticKind) :
    Diagnostics.ofKind (ds ++ ds') kind = ds.ofKind kind ++ ds'.ofKind kind :=
  List.filter_append ..

section

variable {ds : Diagnostics} {kind : DiagnosticKind}

theorem Diagnostics.ofKind_eq_self (h : ∀ d ∈ ds, d.kind = kind) : ds.ofKind kind = ds :=
  List.filter_eq_self.mpr fun d hd => decide_eq_true (h d hd)

theorem Diagnostics.besides_eq_nil (h : ∀ d ∈ ds, d.kind = kind) : ds.besides kind = [] :=
  List.filter_eq_nil_iff.mpr fun d hd hne => of_decide_eq_true hne (h d hd)

theorem Diagnostics.ofKind_eq_nil (h : ∀ d ∈ ds, d.kind ≠ kind) : ds.ofKind kind = [] :=
  List.filter_eq_nil_iff.mpr fun d hd heq => h d hd (of_decide_eq_true heq)

theorem Diagnostics.besides_eq_self (h : ∀ d ∈ ds, d.kind ≠ kind) : ds.besides kind = ds :=
  List.filter_eq_self.mpr fun d hd => decide_eq_true (h d hd)

end

section

variable (number : Int) (defaults : Mapping Text Text) (segment : Segment)

theorem kind_of_mem_redeclaration (declaration : Text × Text) :
    ∀ d ∈ redeclaration number defaults declaration, d.kind = .duplicateDefault := by
  intro d hd
  obtain ⟨previous, -, rfl⟩ := List.mem_map.mp hd
  rfl

/-- A declaration is noted or makes the defaults more. -/
theorem length_redeclaration (declaration : Text × Text) :
    (redeclaration number defaults declaration).length + (defaults.setAll [declaration]).size =
      defaults.size + [declaration].length := by
  show _ + (defaults.set declaration.1 declaration.2).size = _
  rw [redeclaration, Mapping.size_set, Mapping.contains]
  cases defaults.get? declaration.1 with
  | none => exact Nat.zero_add _
  | some previous => exact Nat.add_comm ..

theorem kind_of_mem_redeclared :
    ∀ d ∈ segment.redeclared number defaults, d.kind = .duplicateDefault := by
  intro d hd
  obtain ⟨declaration, -, hd⟩ := List.mem_flatMap.mp hd
  exact kind_of_mem_redeclaration number defaults declaration d hd

theorem kind_of_mem_incomplete : ∀ d ∈ segment.incomplete number, d.kind ≠ .duplicateDefault := by
  intro d hd
  unfold Segment.incomplete at hd
  split at hd
  · rw [List.mem_singleton.mp hd]
    exact DiagnosticKind.noConfusion
  · rw [List.mem_singleton.mp hd]
    exact DiagnosticKind.noConfusion
  · cases hd

/-- Beside the default that a segment redeclares, only an incomplete part is noted, whatever the
defaults. -/
theorem Segment.besides_notes :
    (segment.notes number defaults).besides .duplicateDefault = segment.incomplete number := by
  rw [Segment.notes, Diagnostics.besides_append,
    Diagnostics.besides_eq_self (kind_of_mem_incomplete number segment),
    Diagnostics.besides_eq_nil (kind_of_mem_redeclared number defaults segment), List.append_nil]

theorem Segment.ofKind_notes :
    (segment.notes number defaults).ofKind .duplicateDefault =
      segment.redeclared number defaults := by
  rw [Segment.notes, Diagnostics.ofKind_append,
    Diagnostics.ofKind_eq_nil (kind_of_mem_incomplete number segment),
    Diagnostics.ofKind_eq_self (kind_of_mem_redeclared number defaults segment), List.nil_append]

/-- A declaration of a segment is noted or makes the defaults more. -/
theorem Segment.length_ofKind_notes :
    ((segment.notes number defaults).ofKind .duplicateDefault).length +
        (defaults.setAll segment.declared.toList).size =
      defaults.size + segment.declared.toList.length := by
  rw [Segment.ofKind_notes, Segment.redeclared]
  cases segment.declared with
  | none => exact Nat.add_comm ..
  | some declaration =>
    rw [Option.toList_some, List.flatMap_singleton]
    exact length_redeclaration number defaults declaration

end

/-! ## Rows -/

/-- What is noted of a row of things that may declare defaults. Each is noted after the defaults
declared before it. -/
def notedInOrder {α : Type} (declares : α → List (Text × Text))
    (notes : Mapping Text Text → α → Diagnostics) :
    Mapping Text Text → List α → Diagnostics
  | _, [] => []
  | defaults, a :: as =>
    notes defaults a ++ notedInOrder declares notes (defaults.setAll (declares a)) as

section

variable {α : Type} {declares : α → List (Text × Text)}
  {notes : Mapping Text Text → α → Diagnostics}

theorem notedInOrder_append (defaults : Mapping Text Text) (as bs : List α) :
    notedInOrder declares notes defaults (as ++ bs) =
      notedInOrder declares notes defaults as ++
        notedInOrder declares notes (defaults.setAll (as.flatMap declares)) bs := by
  induction as generalizing defaults with
  | nil => rfl
  | cons a as ih =>
    rw [List.cons_append, notedInOrder, ih, notedInOrder, List.flatMap_cons, Mapping.setAll_append,
      List.append_assoc]

/-- If each of a row is noted as `g` has it and declares the same, the row is noted so. -/
theorem notedInOrder_map {β : Type} {declares' : β → List (Text × Text)}
    {notes' : Mapping Text Text → β → Diagnostics} {f : α → β} {g : Diagnostic → Diagnostic}
    (hdeclares : ∀ a, declares' (f a) = declares a)
    (hnotes : ∀ defaults a, notes' defaults (f a) = (notes defaults a).map g)
    (defaults : Mapping Text Text) (as : List α) :
    notedInOrder declares' notes' defaults (as.map f) =
      (notedInOrder declares notes defaults as).map g := by
  induction as generalizing defaults with
  | nil => rfl
  | cons a as ih =>
    rw [List.map_cons, notedInOrder, ih, hnotes, hdeclares, notedInOrder, List.map_append]

/-- What is noted beside redeclarations comes of each by itself, if it does so of one. -/
theorem besides_notedInOrder {others : α → Diagnostics}
    (h : ∀ defaults a, (notes defaults a).besides .duplicateDefault = others a)
    (defaults : Mapping Text Text) (as : List α) :
    (notedInOrder declares notes defaults as).besides .duplicateDefault = as.flatMap others := by
  induction as generalizing defaults with
  | nil => rfl
  | cons a as ih => rw [notedInOrder, Diagnostics.besides_append, h, ih, List.flatMap_cons]

/-- The redeclarations that are noted of a row are those of what it is made of, if it is so for
one. -/
theorem ofKind_notedInOrder {β : Type} {declares' : β → List (Text × Text)}
    {notes' : Mapping Text Text → β → Diagnostics} {f : α → List β}
    (hdeclares : ∀ a, declares a = (f a).flatMap declares')
    (hnotes : ∀ defaults a, (notes defaults a).ofKind .duplicateDefault =
      notedInOrder declares' notes' defaults (f a)) (defaults : Mapping Text Text) (as : List α) :
    (notedInOrder declares notes defaults as).ofKind .duplicateDefault =
      notedInOrder declares' notes' defaults (as.flatMap f) := by
  induction as generalizing defaults with
  | nil => rfl
  | cons a as ih =>
    rw [notedInOrder, Diagnostics.ofKind_append, ih, hnotes, List.flatMap_cons,
      notedInOrder_append, hdeclares]

/-- Each declaration of a row is noted or makes the defaults more, if it is so for one. -/
theorem length_ofKind_notedInOrder
    (h : ∀ defaults a,
      ((notes defaults a).ofKind .duplicateDefault).length + (defaults.setAll (declares a)).size =
        defaults.size + (declares a).length)
    (defaults : Mapping Text Text) (as : List α) :
    ((notedInOrder declares notes defaults as).ofKind .duplicateDefault).length +
        (defaults.setAll (as.flatMap declares)).size =
      defaults.size + (as.flatMap declares).length := by
  induction as generalizing defaults with
  | nil => exact Nat.add_comm ..
  | cons a as ih =>
    have hfirst := h defaults a
    have hrest := ih (defaults.setAll (declares a))
    rw [notedInOrder, Diagnostics.ofKind_append, List.flatMap_cons, Mapping.setAll_append,
      List.length_append, List.length_append]
    omega

end

/-! ## The line -/

/-- The segments that are read : those up to the first fault, with the one that is at fault. -/
def reached (lookup : KeyLookup) : List Segment → List Segment
  | [] => []
  | g :: gs => if (g.meaning lookup).isOk then g :: reached lookup gs else [g]

/-- What is noted of a line, after the defaults declared before it. -/
def lineNotes (ctx : LineContext) (defaults : Mapping Text Text) (t : Text) : Diagnostics :=
  notedInOrder (·.declared.toList) (Segment.notes ctx.number) defaults
    (reached ctx.lookup (segments t))

variable {lookup : KeyLookup} {before : List Segment}

/-- Segments without a fault are read, and so is what comes after them. -/
theorem reached_append (h : ∀ g ∈ before, (g.meaning lookup).isOk) (after : List Segment) :
    reached lookup (before ++ after) = before ++ reached lookup after := by
  induction before with
  | nil => rfl
  | cons g before ih =>
    obtain ⟨hg, hbefore⟩ := List.forall_mem_cons.mp h
    rw [List.cons_append, reached, if_pos hg, ih hbefore, List.cons_append]

/-- Nothing is read after a fault. -/
theorem reached_append_of_fault (h : ¬ ∀ g ∈ before, (g.meaning lookup).isOk)
    (after : List Segment) : reached lookup (before ++ after) = reached lookup before := by
  induction before with
  | nil => exact absurd (List.forall_mem_nil _) h
  | cons g before ih =>
    rw [List.cons_append, reached, reached]
    split
    · next hg => rw [ih fun hbefore => h (List.forall_mem_cons.mpr ⟨hg, hbefore⟩)]
    · rfl

theorem declared_eq_reached (lookup : KeyLookup) (t : Text) :
    declared lookup t = (reached lookup (segments t)).flatMap (·.declared.toList) := by
  rw [declared]
  induction segments t with
  | nil => rfl
  | cons g gs ih =>
    rw [List.takeWhile_cons, reached]
    cases hmean : g.meaning lookup with
    | error fault => simp [Except.isOk, Except.toBool, declared_of_meaning_error hmean]
    | ok part =>
      simp only [Except.isOk, Except.toBool, if_true]
      rw [List.filterMap_cons, List.flatMap_cons, ← ih]
      cases g.declared <;> rfl

variable (ctx : LineContext) (defaults : Mapping Text Text) (t : Text)

/-- Beside the defaults that a line redeclares, only its incomplete parts are noted, whatever the
defaults. -/
theorem besides_lineNotes :
    (lineNotes ctx defaults t).besides .duplicateDefault =
      (reached ctx.lookup (segments t)).flatMap (Segment.incomplete ctx.number) :=
  besides_notedInOrder (Segment.besides_notes ctx.number) defaults _

/-- Each declaration of a line is noted or makes the defaults more. -/
theorem length_ofKind_lineNotes :
    ((lineNotes ctx defaults t).ofKind .duplicateDefault).length +
        (defaults.setAll (declared ctx.lookup t)).size =
      defaults.size + (declared ctx.lookup t).length := by
  rw [declared_eq_reached]
  exact length_ofKind_notedInOrder (Segment.length_ofKind_notes ctx.number) defaults _

end Typist
