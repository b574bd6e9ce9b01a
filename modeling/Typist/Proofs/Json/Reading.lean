import Typist.Proofs.Json.Grammar

/-!
# Reading agrees with the grammar

Each step of reading is one rule of the grammar. So what the grammar says of a text is read off it,
if the budget of steps is enough (`Reads.isReadIn`, `Exceeds.isTooDeepIn`), and what is read within
however many steps the grammar says (`isSound`). Of whole texts : reading succeeds exactly on
documents that keep to the levels there are (`parse_eq_ok_iff`), and ends for their depth exactly on
texts that exceed them (`parse_eq_tooDeep_iff`).
-/

namespace Typist.Json

/-! ## Reading, one step at a time -/

section

variable {n budget : Nat} {t rest : Text}

theorem value_quote (n budget : Nat) (t : Text) :
    value (budget + 1) n ('"' :: t) = (stringAfterQuote t).map fun (p, rest) => (.str p, rest) := by
  rw [value]

theorem value_array (n budget : Nat) (t : Text) :
    value (budget + 1) (n + 1) ('[' :: t) =
      match skipSpace t with
      | ']' :: rest => .ok (.arr [], rest)
      | rest => (items budget n rest).map fun (vs, rest) => (.arr vs, rest) := by
  rw [value.eq_def]
  simp only
  generalize skipSpace t = u
  split <;> simp_all

theorem value_object (n budget : Nat) (t : Text) :
    value (budget + 1) (n + 1) ('\x7b' :: t) =
      match skipSpace t with
      | '\x7d' :: rest => .ok (.obj [], rest)
      | rest => (fields budget n [] rest).map fun (found, rest) => (.obj found, rest) := by
  rw [value.eq_def]
  simp only
  generalize skipSpace t = u
  split <;> simp_all

theorem value_scalar (h : ∀ c ∈ t.head?, c ∉ ['"', '[', '\x7b']) :
    value (budget + 1) n t = scalar t := by
  unfold value scalar
  split
  · simp at h
  · simp at h
  · simp at h
  · rfl

theorem items_succ (n budget : Nat) (t : Text) :
    items (budget + 1) n t =
      match value budget n t with
      | .error e => .error e
      | .ok (item, rest) =>
        match skipSpace rest with
        | ',' :: rest =>
          (items budget n (skipSpace rest)).map fun (items, rest) => (item :: items, rest)
        | ']' :: rest => .ok ([item], rest)
        | rest => .error (.malformed .noComma rest.length) :=
  (items.eq_def (budget + 1) n t).trans rfl

theorem memberName_quote (t : Text) :
    memberName ('"' :: t) =
      match stringAfterQuote t with
      | .error e => .error e
      | .ok (name, rest) =>
        match skipSpace rest with
        | ':' :: rest => .ok (name, skipSpace rest)
        | rest => .error (.malformed .noColon rest.length) := rfl

theorem memberName_of_ne_quote (h : ∀ u, t ≠ '"' :: u) :
    memberName t = .error (.malformed .noName t.length) := by
  unfold memberName
  split
  · next u => exact absurd rfl (h u)
  · rfl

theorem fields_succ (n budget : Nat) (before : List (CodePoints × Json)) (t : Text) :
    fields (budget + 1) n before t =
      match memberName t with
      | .error e => .error e
      | .ok (name, t) =>
        match value budget n t with
        | .error e => .error e
        | .ok (value, rest) =>
          match skipSpace rest with
          | ',' :: rest => fields budget n (putEntry name value before) (skipSpace rest)
          | '\x7d' :: rest => .ok (putEntry name value before, rest)
          | rest => .error (.malformed .noComma rest.length) := by
  rw [fields.eq_def]
  simp only
  split
  · next u =>
    rw [memberName_quote]
    cases stringAfterQuote u with
    | error e => rfl
    | ok named =>
      obtain ⟨name, after⟩ := named
      simp only
      cases skipSpace after with
      | nil => rfl
      | cons c rest =>
        by_cases hc : c = ':'
        · rw [hc]
          rfl
        · simp [hc]
  · next hquote => rw [memberName_of_ne_quote hquote]

end

/-! ## What the grammar says is read -/

/-- The fields of an object, onto those before, when the members are set one after the other. -/
def putMembers (before ms : List (CodePoints × Json)) : List (CodePoints × Json) :=
  ms.foldl (fun found member => putEntry member.1 member.2 found) before

theorem ofMembers_eq (ms : List (CodePoints × Json)) : ofMembers ms = .obj (putMembers [] ms) := by
  have hset : ∀ m : Mapping CodePoints Json, (m.setAll ms).entries = putMembers m.entries ms := by
    induction ms with
    | nil => exact fun _ => rfl
    | cons member ms ih => exact fun m => ih (m.set member.1 member.2)
  exact congrArg obj (hset Mapping.empty)

/-- A budget of steps that is enough. -/
def Kind.steps (t : Text) : Kind → Nat
  | value | members => 2 * t.length + 1
  | items => 2 * t.length + 2

theorem Kind.exists_succ {kind : Kind} {t : Text} {budget : Nat} (h : kind.steps t ≤ budget) :
    ∃ fewer, budget = fewer + 1 := by
  cases budget with
  | zero => cases kind <;> cases h
  | succ fewer => exact ⟨fewer, rfl⟩

/-- What is enough for a text is enough for one step and a shorter text. -/
theorem Kind.steps_le_of_lt {kind kind' : Kind} {t u : Text} {budget : Nat}
    (h : kind.steps t ≤ budget + 1) (hlt : u.length < t.length) : kind'.steps u ≤ budget := by
  have hle : 2 * t.length ≤ budget := by cases kind <;> (simp only [steps] at h; omega)
  cases kind' <;> (simp only [steps]; omega)

/-- Does reading take the form off the text within so many steps? -/
def Form.IsReadIn (budget n : Nat) (t : Text) : Form → Text → Prop
  | value v, rest => Json.value budget n t = .ok (v, rest)
  | items vs, rest => Json.items budget n t = .ok (vs, rest)
  | members ms, rest => ∀ before, fields budget n before t = .ok (putMembers before ms, rest)
  | object ms, rest => Json.value budget n t = .ok (ofMembers ms, rest)

/-- What the grammar says is read, if the budget is enough. -/
theorem Reads.isReadIn {n budget : Nat} {t rest : Text} {form : Form} (h : Reads n t form rest)
    (hbudget : form.kind.steps t ≤ budget) : form.IsReadIn budget n t rest := by
  induction h generalizing budget with
  | str h =>
    obtain ⟨budget, rfl⟩ := Kind.exists_succ hbudget
    rw [Form.IsReadIn, value_quote, h]
    rfl
  | @scalar n t rest v h =>
    obtain ⟨budget, rfl⟩ := Kind.exists_succ hbudget
    rw [Form.IsReadIn, value_scalar, h]
    intro c hc
    obtain ⟨u, rfl⟩ := List.head?_eq_some_iff.mp hc
    have hnot := not_mem_of_scalar h
    simp only [List.mem_cons, not_or] at hnot ⊢
    exact ⟨hnot.1, hnot.2.1, hnot.2.2.1, hnot.2.2.2.2⟩
  | emptyArray h =>
    obtain ⟨budget, rfl⟩ := Kind.exists_succ hbudget
    rw [Form.IsReadIn, value_array, h]
    rfl
  | @array n t rest vs h ih =>
    obtain ⟨budget, rfl⟩ := Kind.exists_succ hbudget
    have hitems : items budget n (skipSpace t) = .ok (vs, rest) :=
      ih (Kind.steps_le_of_lt hbudget (Nat.lt_succ_of_le (length_skipSpace_le t)))
    rw [Form.IsReadIn, value_array]
    split
    · next hclose =>
      rw [hclose] at h
      cases h with
      | lastItem h | item h => exact absurd rfl h.value_ne_close
    · rw [hitems]
      rfl
  | lastItem h hclose ih =>
    obtain ⟨budget, rfl⟩ := Kind.exists_succ hbudget
    have hvalue := ih (Nat.le_of_succ_le_succ hbudget)
    rw [Form.IsReadIn] at hvalue
    rw [Form.IsReadIn, items_succ, hvalue]
    simp only [hclose]
  | @item n t rest rest' rest'' v vs h hcomma h' ih ih' =>
    obtain ⟨budget, rfl⟩ := Kind.exists_succ hbudget
    have hvalue : value budget n t = .ok (v, rest) := ih (Nat.le_of_succ_le_succ hbudget)
    have hitems : items budget n (skipSpace rest') = .ok (vs, rest'') :=
      ih' (Kind.steps_le_of_lt hbudget (h.length_after hcomma))
    rw [Form.IsReadIn, items_succ, hvalue]
    simp only [hcomma, hitems]
    rfl
  | emptyObject h =>
    obtain ⟨budget, rfl⟩ := Kind.exists_succ hbudget
    rw [Form.IsReadIn, value_object, h]
    rfl
  | @object n t rest ms h ih =>
    obtain ⟨budget, rfl⟩ := Kind.exists_succ hbudget
    have hfields : fields budget n [] (skipSpace t) = .ok (putMembers [] ms, rest) :=
      ih (Kind.steps_le_of_lt hbudget (Nat.lt_succ_of_le (length_skipSpace_le t))) []
    rw [Form.IsReadIn, value_object]
    split
    · next hclose =>
      rw [hclose] at h
      cases h with
      | lastMember hname | member hname => cases hname
    · rw [hfields, ofMembers_eq]
      rfl
  | ofObject h ih => exact ih hbudget
  | @lastMember n t t' rest rest' name v hname h hclose ih =>
    obtain ⟨budget, rfl⟩ := Kind.exists_succ hbudget
    have hvalue : value budget n t' = .ok (v, rest) :=
      ih (Kind.steps_le_of_lt hbudget ((memberName_advances t).length_lt hname))
    intro before
    rw [fields_succ, hname]
    simp only [hvalue, hclose]
    rfl
  | @member n t t' rest rest' rest'' name v ms hname h hcomma h' ih ih' =>
    obtain ⟨budget, rfl⟩ := Kind.exists_succ hbudget
    have hless := (memberName_advances t).length_lt hname
    have hvalue : value budget n t' = .ok (v, rest) := ih (Kind.steps_le_of_lt hbudget hless)
    have hfields : ∀ before, fields budget n before (skipSpace rest') =
        .ok (putMembers before ms, rest'') :=
      ih' (Kind.steps_le_of_lt hbudget (Nat.lt_trans (h.length_after hcomma) hless))
    intro before
    rw [fields_succ, hname]
    simp only [hvalue, hcomma, hfields]
    rfl

/-- Does reading end for depth within so many steps? -/
def Kind.IsTooDeepIn (budget n : Nat) (t : Text) : Kind → Prop
  | value => Json.value budget n t = .error .tooDeep
  | items => Json.items budget n t = .error .tooDeep
  | members => ∀ before, fields budget n before t = .error .tooDeep

/-- What exceeds the levels there are ends the reading, if the budget is enough. -/
theorem Exceeds.isTooDeepIn {n budget : Nat} {t : Text} {kind : Kind} (h : Exceeds n t kind)
    (hbudget : kind.steps t ≤ budget) : kind.IsTooDeepIn budget n t := by
  induction h generalizing budget with
  | array | object =>
    obtain ⟨budget, rfl⟩ := Kind.exists_succ hbudget
    rfl
  | @inArray n t h ih =>
    obtain ⟨budget, rfl⟩ := Kind.exists_succ hbudget
    have hitems : items budget n (skipSpace t) = .error .tooDeep :=
      ih (Kind.steps_le_of_lt hbudget (Nat.lt_succ_of_le (length_skipSpace_le t)))
    rw [Kind.IsTooDeepIn, value_array]
    split
    · next hclose =>
      rw [hclose] at h
      cases h with
      | inItem h => cases h
      | afterItem h => exact absurd rfl h.value_ne_close
    · rw [hitems]
      rfl
  | @inObject n t h ih =>
    obtain ⟨budget, rfl⟩ := Kind.exists_succ hbudget
    have hfields : fields budget n [] (skipSpace t) = .error .tooDeep :=
      ih (Kind.steps_le_of_lt hbudget (Nat.lt_succ_of_le (length_skipSpace_le t))) []
    rw [Kind.IsTooDeepIn, value_object]
    split
    · next hclose =>
      rw [hclose] at h
      cases h with
      | inMember hname | afterMember hname => cases hname
    · rw [hfields]
      rfl
  | inItem h ih =>
    obtain ⟨budget, rfl⟩ := Kind.exists_succ hbudget
    have hvalue : value budget _ _ = .error .tooDeep := ih (Nat.le_of_succ_le_succ hbudget)
    rw [Kind.IsTooDeepIn, items_succ, hvalue]
  | @afterItem n t rest rest' v h hcomma h' ih =>
    obtain ⟨budget, rfl⟩ := Kind.exists_succ hbudget
    have hvalue : value budget n t = .ok (v, rest) := h.isReadIn (Nat.le_of_succ_le_succ hbudget)
    have hitems : items budget n (skipSpace rest') = .error .tooDeep :=
      ih (Kind.steps_le_of_lt hbudget (h.length_after hcomma))
    rw [Kind.IsTooDeepIn, items_succ, hvalue]
    simp only [hcomma, hitems]
    rfl
  | @inMember n t t' name hname h ih =>
    obtain ⟨budget, rfl⟩ := Kind.exists_succ hbudget
    have hvalue : value budget n t' = .error .tooDeep :=
      ih (Kind.steps_le_of_lt hbudget ((memberName_advances t).length_lt hname))
    intro before
    rw [fields_succ, hname]
    simp only [hvalue]
  | @afterMember n t t' rest rest' name v hname h hcomma h' ih =>
    obtain ⟨budget, rfl⟩ := Kind.exists_succ hbudget
    have hless := (memberName_advances t).length_lt hname
    have hvalue : value budget n t' = .ok (v, rest) :=
      h.isReadIn (Kind.steps_le_of_lt hbudget hless)
    have hfields : ∀ before, fields budget n before (skipSpace rest') = .error .tooDeep :=
      ih (Kind.steps_le_of_lt hbudget (Nat.lt_trans (h.length_after hcomma) hless))
    intro before
    rw [fields_succ, hname]
    simp only [hvalue, hcomma, hfields]

/-! ## What is read the grammar says -/

/-- Does the grammar say what comes of reading? It gives what is read, and exceeds the levels there
are if reading ends for depth. -/
def IsTold {α : Type} (n : Nat) (t : Text) (kind : Kind) (reads : α → Text → Prop)
    (r : Except ReadError (α × Text)) : Prop :=
  match r with
  | .ok (a, rest) => reads a rest
  | .error e => e = .tooDeep → Exceeds n t kind

/-- Does the grammar say what is read within so many steps? -/
structure IsSound (budget : Nat) : Prop where
  value : ∀ n t, IsTold n t .value (fun v rest => Reads n t (.value v) rest) (Json.value budget n t)
  items : ∀ n t, IsTold n t .items (fun vs rest => Reads n t (.items vs) rest)
    (Json.items budget n t)
  fields : ∀ n t before, IsTold n t .members
    (fun found rest => ∃ ms, found = putMembers before ms ∧ Reads n t (.members ms) rest)
    (Json.fields budget n before t)

section

variable {n n' budget : Nat} {t t' rest : Text}

theorem IsTold.imp {α : Type} {kind kind' : Kind} {reads reads' : α → Text → Prop}
    {r : Except ReadError (α × Text)} (h : IsTold n t kind reads r)
    (hreads : ∀ a rest, reads a rest → reads' a rest)
    (hexceeds : Exceeds n t kind → Exceeds n' t' kind') : IsTold n' t' kind' reads' r := by
  cases r with
  | ok found => exact hreads found.1 found.2 h
  | error e => exact fun heq => hexceeds (h heq)

theorem IsTold.map {α β : Type} {kind kind' : Kind} {reads : α → Text → Prop}
    {reads' : β → Text → Prop} {r : Except ReadError (α × Text)}
    (h : IsTold n t kind reads r) {f : α → β} (hreads : ∀ a rest, reads a rest → reads' (f a) rest)
    (hexceeds : Exceeds n t kind → Exceeds n' t' kind') :
    IsTold n' t' kind' reads' (r.map fun (a, rest) => (f a, rest)) := by
  cases r with
  | ok found => exact hreads found.1 found.2 h
  | error e => exact fun heq => hexceeds (h heq)

/-- Reading that does not fail for depth is told if what it gives is. -/
theorem Advances.isTold {α : Type} {kind : Kind} {reads : α → Text → Prop}
    {r : Except ReadError (α × Text)} (h : Advances t' r)
    (hreads : ∀ a rest, r = .ok (a, rest) → reads a rest) : IsTold n t kind reads r := by
  cases r with
  | ok found => exact hreads found.1 found.2 rfl
  | error e => exact fun heq => absurd heq h

/-- A value starts in one of these ways. -/
theorem start_cases (t : Text) :
    (∃ u, t = '"' :: u) ∨ (∃ u, t = '[' :: u) ∨ (∃ u, t = '\x7b' :: u) ∨
      ∀ c ∈ t.head?, c ∉ ['"', '[', '\x7b'] := by
  cases t with
  | nil => simp
  | cons c u => by_cases c = '"' <;> by_cases c = '[' <;> by_cases c = '\x7b' <;> simp_all

theorem IsSound.value_succ (h : IsSound budget) (n : Nat) (t : Text) :
    IsTold n t .value (fun v rest => Reads n t (.value v) rest) (Json.value (budget + 1) n t) := by
  obtain ⟨u, rfl⟩ | ⟨u, rfl⟩ | ⟨u, rfl⟩ | hscalar := start_cases t
  · rw [value_quote]
    refine ((stringAfterQuote_advances u).map _).isTold fun v rest hv => ?_
    obtain ⟨⟨p, rest'⟩, hp, heq⟩ := map_eq_ok_iff.mp hv
    obtain ⟨rfl, rfl⟩ := Prod.mk.inj heq
    exact .str hp
  · cases n with
    | zero => exact fun _ => .array
    | succ n =>
      rw [value_array]
      split
      · next hclose => exact Reads.emptyArray hclose
      · exact (h.items n (skipSpace u)).map (fun _ _ => .array) .inArray
  · cases n with
    | zero => exact fun _ => .object
    | succ n =>
      rw [value_object]
      split
      · next hclose => exact Reads.ofObject (.emptyObject hclose)
      · refine (h.fields n (skipSpace u) []).map ?_ .inObject
        rintro _ rest ⟨ms, rfl, hms⟩
        rw [← ofMembers_eq]
        exact .ofObject (.object hms)
  · rw [value_scalar hscalar]
    exact (scalar_advances t).isTold fun _ _ => .scalar

theorem IsSound.items_succ (h : IsSound budget) (n : Nat) (t : Text) :
    IsTold n t .items (fun vs rest => Reads n t (.items vs) rest)
      (Json.items (budget + 1) n t) := by
  have hvalue := h.value n t
  rw [Json.items_succ]
  cases hv : Json.value budget n t with
  | error e =>
    rw [hv] at hvalue
    exact fun heq => .inItem (hvalue heq)
  | ok found =>
    rw [hv] at hvalue
    simp only
    split
    · next hcomma =>
        exact (h.items n _).map (fun _ _ => .item hvalue hcomma) (.afterItem hvalue hcomma)
    · next hclose => exact Reads.lastItem hvalue hclose
    · exact ReadError.noConfusion

theorem IsSound.fields_succ (h : IsSound budget) (n : Nat) (t : Text)
    (before : List (CodePoints × Json)) :
    IsTold n t .members (fun found rest => ∃ ms, found = putMembers before ms ∧
      Reads n t (.members ms) rest) (Json.fields (budget + 1) n before t) := by
  rw [Json.fields_succ]
  cases hname : memberName t with
  | error e => exact fun heq => absurd (heq ▸ hname) (memberName_advances t).ne_tooDeep
  | ok named =>
    obtain ⟨name, u⟩ := named
    have hvalue := h.value n u
    simp only
    cases hv : Json.value budget n u with
    | error e =>
      rw [hv] at hvalue
      exact fun heq => .inMember hname (hvalue heq)
    | ok found =>
      rw [hv] at hvalue
      simp only
      split
      · next rest hcomma =>
        refine (h.fields n (skipSpace rest) _).imp ?_ (.afterMember hname hvalue hcomma)
        rintro _ rest' ⟨ms, rfl, hms⟩
        exact ⟨(name, found.1) :: ms, rfl, .member hname hvalue hcomma hms⟩
      · next hclose => exact ⟨[(name, found.1)], rfl, .lastMember hname hvalue hclose⟩
      · exact ReadError.noConfusion

end

/-- The grammar says what is read, within however many steps. -/
theorem isSound (budget : Nat) : IsSound budget := by
  induction budget with
  | zero =>
    exact ⟨fun _ _ => ReadError.noConfusion, fun _ _ => ReadError.noConfusion,
      fun _ _ _ => ReadError.noConfusion⟩
  | succ budget ih => exact ⟨ih.value_succ, ih.items_succ, ih.fields_succ⟩

/-! ## Documents -/

section

variable {n levels : Nat} {t : Text} {v : Json} {ms : List (CodePoints × Json)}

theorem steps_skipSpace_le (t : Text) : Kind.value.steps (skipSpace t) ≤ 2 * t.length + 1 := by
  have hle := length_skipSpace_le t
  simp only [Kind.steps]
  omega

/-- A text reads exactly if it is a document that keeps to the levels there are. -/
theorem parse_eq_ok_iff : parse t levels = .ok v ↔ IsDocument levels t (.value v) := by
  rw [parse, IsDocument]
  by_cases hmark : t.head? = some '\ufeff'
  · simp [hmark]
  rw [if_neg hmark]
  have htold := (isSound (2 * t.length + 1)).value levels (skipSpace t)
  constructor
  · intro h
    split at h
    · cases h
    · next v' rest hv =>
      rw [hv] at htold
      split at h
      · next hend =>
        obtain rfl := Except.ok.inj h
        exact ⟨hmark, rest, htold, hend⟩
      · cases h
  · rintro ⟨-, rest, hreads, hend⟩
    have hv : value (2 * t.length + 1) levels (skipSpace t) = .ok (v, rest) :=
      hreads.isReadIn (steps_skipSpace_le t)
    simp only [hv, hend]
    rfl

/-- Reading ends for the depth of a text exactly if it begins as a document does that exceeds the
levels there are. -/
theorem parse_eq_tooDeep_iff : parse t levels = .error .tooDeep ↔ NestsBeyond levels t := by
  rw [parse, NestsBeyond]
  by_cases hmark : t.head? = some '\ufeff'
  · simp [hmark]
  rw [if_neg hmark]
  have htold := (isSound (2 * t.length + 1)).value levels (skipSpace t)
  constructor
  · intro h
    split at h
    · next e hv =>
      rw [hv] at htold
      exact ⟨hmark, htold (Except.error.inj h)⟩
    · split at h <;> cases h
  · rintro ⟨-, hexceeds⟩
    have hv : value (2 * t.length + 1) levels (skipSpace t) = .error .tooDeep :=
      hexceeds.isTooDeepIn (steps_skipSpace_le t)
    simp only [hv]

theorem not_nestsBeyond (h : IsDocument levels t (.object ms)) : ¬ NestsBeyond levels t := by
  obtain ⟨hmark, rest, hreads, hend⟩ := h
  rw [← parse_eq_tooDeep_iff, parse_eq_ok_iff.mpr ⟨hmark, rest, .ofObject hreads, hend⟩]
  exact nofun

/-- An object reads as its fields, unless it exceeds the levels there are. -/
theorem parse_of_isDocument_object (h : IsDocument n t (.object ms)) :
    parse t levels = .error .tooDeep ∨ parse t levels = .ok (ofMembers ms) := by
  obtain ⟨hmark, rest, hreads, hend⟩ := h
  rcases hreads.keeps_or_exceeds levels with hkeeps | hexceeds
  · exact .inr (parse_eq_ok_iff.mpr ⟨hmark, rest, .ofObject hkeeps, hend⟩)
  · exact .inl (parse_eq_tooDeep_iff.mpr ⟨hmark, hexceeds⟩)

end

end Typist.Json
