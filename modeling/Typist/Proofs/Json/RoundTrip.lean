import Typist.Proofs.Json.Strings
import Typist.Proofs.Mapping

/-!
# Documents are read back

`ReadsBack` says of a value that reading takes it off the text that it is written as, at any level
and whatever follows, if the budget of steps is the length of that text or more. It holds of strings
that are texts, of true and false, and of an object if its names are distinct texts and it holds of
the values (`readsBack_obj`). So a document that is built of these is what reading makes of its text
(`parse_indented`).
-/

namespace Typist.Json

/-- The value is read back from its text. -/
structure ReadsBack (levels : Nat) (v : Json) : Prop where
  /-- Its text starts with no white space. -/
  starts : ∀ level rest, skipSpace (indentedAt level v ++ rest) = indentedAt level v ++ rest
  /-- Its text is ASCII. -/
  plain : ∀ level, (indentedAt level v).all isPlain = true
  /-- Reading takes its text off. -/
  reads : ∀ level rest budget, (indentedAt level v).length ≤ budget →
    value budget levels (indentedAt level v ++ rest) = .ok (v, rest)

section

variable {levels : Nat}

/-! ## Strings and words -/

theorem writtenString_append (p : CodePoints) (rest : Text) :
    writtenString true p ++ rest = '"' :: (p.flatMap (writtenPoint true) ++ '"' :: rest) := by
  rw [writtenString, List.cons_append, List.cons_append, List.append_assoc]
  rfl

theorem readsBack_str {p : CodePoints} (h : p.IsText) : ReadsBack levels (.str p) where
  starts _ _ := rfl
  plain _ := isPlain_writtenString h
  reads _ rest budget hbudget := by
    cases budget with
    | zero => cases hbudget
    | succ budget =>
      refine (congrArg (value (budget + 1) levels) (writtenString_append p rest)).trans ?_
      rw [value, stringAfterQuote_written h]
      rfl

theorem readsBack_bool (b : Bool) : ReadsBack levels (.bool b) where
  starts _ _ := by cases b <;> rfl
  plain _ := by cases b <;> rfl
  reads _ rest budget hbudget := by
    cases budget with
    | zero => cases b <;> cases hbudget
    | succ budget => cases b <;> rfl

/-! ## Fields -/

theorem mem_lineBreak {level : Nat} {c : Char} (h : c ∈ lineBreak level) : c = '\n' ∨ c = ' ' :=
  (List.mem_cons.mp h).imp_right List.eq_of_mem_replicate

theorem skipSpace_lineBreak (level : Nat) (t : Text) :
    skipSpace (lineBreak level ++ t) = skipSpace t := by
  refine List.dropWhile_append_of_pos fun c hc => ?_
  rcases mem_lineBreak hc with rfl | rfl <;> rfl

theorem isPlain_lineBreak (level : Nat) : (lineBreak level).all isPlain = true := by
  refine List.all_eq_true.mpr fun c hc => ?_
  rcases mem_lineBreak hc with rfl | rfl <;> rfl

/-- The text of a field. -/
def fieldText (level : Nat) (field : CodePoints × Json) : Text :=
  writtenString true field.1 ++ ": ".toList ++ indentedAt level field.2

/-- The text of the fields after the first. -/
def laterFields (level : Nat) : List (CodePoints × Json) → Text
  | [] => []
  | field :: fields => ',' :: indentedFields level (field :: fields)

theorem indentedFields_cons (level : Nat) (field : CodePoints × Json)
    (fields : List (CodePoints × Json)) :
    indentedFields level (field :: fields) =
      lineBreak level ++ (fieldText level field ++ laterFields level fields) := by
  cases fields with
  | nil => simp [indentedFields, fieldText, laterFields]
  | cons next fields => simp [indentedFields, fieldText, laterFields]

/-- What is read after a field : the fields after a comma, or the end of the object. -/
def afterField (budget levels : Nat) (found : List (CodePoints × Json)) (after : Text) :
    Except ReadError (List (CodePoints × Json) × Text) :=
  match skipSpace after with
  | ',' :: rest => fields budget levels found (skipSpace rest)
  | '\x7d' :: rest => .ok (found, rest)
  | rest => .error (.malformed .noComma rest.length)

variable {level : Nat} {field : CodePoints × Json} {before : List (CodePoints × Json)}
  {after rest : Text} {budget : Nat}

/-- The text of a field starts with the quote of its name. -/
theorem skipSpace_fieldText (after : Text) :
    skipSpace (lineBreak level ++ (fieldText level field ++ after)) =
      fieldText level field ++ after := by
  rw [skipSpace_lineBreak]
  rfl

/-- Reading takes the text of a field off, and goes on with what follows it. -/
theorem fields_fieldText (hname : field.1.IsText) (hvalue : ReadsBack levels field.2)
    (hbudget : (fieldText level field).length ≤ budget + 1) :
    fields (budget + 1) levels before (fieldText level field ++ after) =
      afterField budget levels (putEntry field.1 field.2 before) after := by
  have htext : fieldText level field ++ after =
      '"' ::
        (field.1.flatMap (writtenPoint true) ++ '"' :: ':' :: ' ' ::
          (indentedAt level field.2 ++ after)) := by
    rw [fieldText, List.append_assoc, List.append_assoc, writtenString_append]
    rfl
  have hcolon : skipSpace (':' :: ' ' :: (indentedAt level field.2 ++ after)) =
      ':' :: ' ' :: (indentedAt level field.2 ++ after) := rfl
  have hspace : skipSpace (' ' :: (indentedAt level field.2 ++ after)) =
      indentedAt level field.2 ++ after :=
    hvalue.starts level after
  have hlength : (indentedAt level field.2).length ≤ budget := by
    rw [fieldText, List.length_append, List.length_append] at hbudget
    have hname : 0 < (writtenString true field.1).length := Nat.succ_pos _
    omega
  rw [htext, fields, stringAfterQuote_written hname]
  simp only [hcolon, hspace, hvalue.reads level after budget hlength]
  rfl

/-- Reading takes the text of fields off, up to the end of the object. -/
theorem fields_indentedFields (before : List (CodePoints × Json)) {found : List (CodePoints × Json)}
    (hne : found ≠ []) (hnames : ((before ++ found).map Prod.fst).Nodup)
    (hfields : ∀ field ∈ found, field.1.IsText ∧ ReadsBack levels field.2) (outer : Nat)
    (hbudget : (indentedFields level found).length ≤ budget) :
    fields budget levels before
      (skipSpace (indentedFields level found ++ (lineBreak outer ++ '\x7d' :: rest))) =
        .ok (before ++ found, rest) := by
  induction found generalizing before budget with
  | nil => exact absurd rfl hne
  | cons field found ih =>
    obtain ⟨⟨hname, hvalue⟩, hfields⟩ := List.forall_mem_cons.mp hfields
    have hput : putEntry field.1 field.2 before = before ++ [field] := by
      refine putEntry_of_not_mem _ fun hmem => ?_
      rw [List.map_append, List.nodup_append] at hnames
      exact hnames.2.2 field.1 hmem field.1 (List.mem_cons_self ..) rfl
    rw [indentedFields_cons] at hbudget ⊢
    rw [List.length_append, List.length_append, lineBreak, List.length_cons] at hbudget
    obtain ⟨budget, rfl⟩ : ∃ steps, budget = steps + 1 := ⟨budget - 1, by omega⟩
    rw [List.append_assoc, List.append_assoc, skipSpace_fieldText,
      fields_fieldText hname hvalue (by omega), hput, afterField]
    cases found with
    | nil =>
      rw [laterFields, List.nil_append, skipSpace_lineBreak]
      rfl
    | cons next found =>
      rw [laterFields, List.length_cons] at hbudget
      refine (ih _ (List.cons_ne_nil _ _) ?_ hfields (by omega)).trans ?_
      · rwa [List.append_assoc]
      · rw [List.append_assoc]
        rfl

theorem isPlain_indentedFields {found : List (CodePoints × Json)}
    (hfields : ∀ field ∈ found, field.1.IsText ∧ ReadsBack levels field.2) (level : Nat) :
    (indentedFields level found).all isPlain = true := by
  induction found with
  | nil => rfl
  | cons field found ih =>
    obtain ⟨⟨hname, hvalue⟩, hfields⟩ := List.forall_mem_cons.mp hfields
    have hlater : (laterFields level found).all isPlain = true := by
      cases found with
      | nil => rfl
      | cons next found => exact ih hfields
    rw [indentedFields_cons, fieldText, List.all_append, List.all_append, List.all_append,
      List.all_append, isPlain_lineBreak, isPlain_writtenString hname, hvalue.plain, hlater]
    decide

/-! ## Objects and documents -/

theorem skipSpace_indentedFields (level : Nat) {found : List (CodePoints × Json)} (hne : found ≠ [])
    (after : Text) : ∃ rest, skipSpace (indentedFields level found ++ after) = '"' :: rest := by
  cases found with
  | nil => exact absurd rfl hne
  | cons field found =>
    rw [indentedFields_cons, List.append_assoc, List.append_assoc, skipSpace_fieldText]
    exact ⟨_, rfl⟩

theorem indentedAt_obj (level : Nat) {found : List (CodePoints × Json)} (hne : found ≠ []) :
    indentedAt level (.obj found) =
      '\x7b' :: (indentedFields (level + 1) found ++ (lineBreak level ++ ['\x7d'])) := by
  cases found with
  | nil => exact absurd rfl hne
  | cons field found =>
    rw [indentedAt, List.append_assoc]
    · rfl
    · exact hne

/-- An object is read back if its names are distinct texts and its values are read back. -/
theorem readsBack_obj {found : List (CodePoints × Json)} (hnames : (found.map Prod.fst).Nodup)
    (hfields : ∀ field ∈ found, field.1.IsText ∧ ReadsBack levels field.2) :
    ReadsBack (levels + 1) (.obj found) := by
  by_cases hne : found = []
  · subst hne
    refine ⟨fun _ _ => rfl, fun _ => rfl, fun level rest budget hbudget => ?_⟩
    cases budget with
    | zero => cases hbudget
    | succ budget => rfl
  · refine ⟨fun level rest => ?_, fun level => ?_, fun level rest budget hbudget => ?_⟩
    · rw [indentedAt_obj level hne]
      rfl
    · rw [indentedAt_obj level hne, List.all_cons, List.all_append, List.all_append,
        isPlain_indentedFields hfields, isPlain_lineBreak]
      decide
    · rw [indentedAt_obj level hne] at hbudget ⊢
      rw [List.length_cons, List.length_append] at hbudget
      obtain ⟨budget, rfl⟩ : ∃ steps, budget = steps + 1 := ⟨budget - 1, by omega⟩
      have hinner :
          '\x7b' :: (indentedFields (level + 1) found ++ (lineBreak level ++ ['\x7d'])) ++ rest =
            '\x7b' ::
              (indentedFields (level + 1) found ++ (lineBreak level ++ '\x7d' :: rest)) := by
        simp
      have hread : fields budget levels []
          (skipSpace (indentedFields (level + 1) found ++ (lineBreak level ++ '\x7d' :: rest))) =
            .ok (found, rest) :=
        fields_indentedFields [] hne hnames hfields level (by omega)
      obtain ⟨tail, htail⟩ :=
        skipSpace_indentedFields (level + 1) hne (lineBreak level ++ '\x7d' :: rest)
      rw [htail] at hread
      rw [hinner, value.eq_def]
      simp only [htail]
      exact congrArg (Except.map fun found => (obj found.1, found.2)) hread

/-- A record is read back if its names are distinct and its values are read back. -/
theorem readsBack_record {found : List (String × Json)} (hnames : (found.map Prod.fst).Nodup)
    (hvalues : ∀ field ∈ found, ReadsBack levels field.2) :
    ReadsBack (levels + 1) (.record found) := by
  refine readsBack_obj ?_ fun field hfield => ?_
  · have hmap : (found.map fun field => (CodePoints.ofText field.1.toList, field.2)).map Prod.fst =
        (found.map Prod.fst).map fun name => CodePoints.ofText name.toList := by
      rw [List.map_map, List.map_map]
      rfl
    rw [hmap]
    exact List.Pairwise.map _
      (fun _ _ hne heq => hne (String.toList_inj.mp (CodePoints.ofText_inj.mp heq))) hnames
  · obtain ⟨named, hnamed, rfl⟩ := List.mem_map.mp hfield
    exact ⟨CodePoints.isText_ofText _, hvalues named hnamed⟩

/-- A document that is read back is what reading makes of its text. -/
theorem parse_indented {document : Json} (h : ReadsBack levels document) :
    parse document.indented levels = .ok document := by
  have hmark : document.indented.head? ≠ some '\ufeff' := by
    intro hhead
    have hplain := List.all_eq_true.mp (h.plain 0) _ (List.mem_of_mem_head? hhead)
    exact absurd hplain (by decide)
  have hstart := h.starts 0 []
  have hread := h.reads 0 [] (2 * document.indented.length + 1) (by rw [indented]; omega)
  rw [List.append_nil, ← indented] at hstart hread
  rw [parse, if_neg hmark, hstart]
  simp only [hread]
  rfl

end

end Typist.Json
