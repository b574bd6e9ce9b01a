import Mathlib.Data.List.Basic
import Typist.Mapping
import Typist.Proofs.Basic

/-!
# What mappings hold

Setting a name changes the value of that name and of no other (`get?_set`), and a new name comes
last (`names_set`). Of many entries set one after the other each name keeps its first place and its
last value (`names_setAll`, `get?_setAll`). A mapping is its names in order and what it gives them
(`ext_get?`), so setting entries is setting what they make of the empty mapping
(`setAll_entries_ofList`), and setting some of the names of a mapping as it has them is narrowing it
to those names (`entries_ofList_entriesOf`).

Every entry of a mapping made by setting entries is one of them (`mem_of_mem_ofList`), and every
value that a mapping gives stands among its entries (`mem_of_get?`).
-/

namespace Typist

section

variable {ν α : Type} [DecidableEq ν]

theorem lookup_cons_eq_if (key : ν) (value : α) (other : ν) (es : List (ν × α)) :
    ((key, value) :: es).lookup other = if other = key then some value else es.lookup other := by
  rw [List.lookup_cons]
  by_cases h : other = key
  · rw [h, beq_self_eq_true, if_pos rfl]
  · rw [beq_eq_false_iff_ne.mpr h, if_neg h]

theorem lookup_putEntry (name : ν) (value : α) (other : ν) (es : List (ν × α)) :
    (putEntry name value es).lookup other =
      if other = name then some value else es.lookup other := by
  induction es with
  | nil => rw [putEntry, lookup_cons_eq_if]
  | cons e es ih =>
    obtain ⟨key, old⟩ := e
    rw [putEntry]
    by_cases hkey : key = name
    · rw [if_pos hkey, lookup_cons_eq_if, lookup_cons_eq_if, hkey]
      split <;> rfl
    · rw [if_neg hkey, lookup_cons_eq_if, lookup_cons_eq_if, ih]
      by_cases h : other = key
      · rw [if_pos h, if_pos h, h, if_neg hkey]
      · rw [if_neg h, if_neg h]

theorem mem_of_lookup_eq_some {name : ν} {value : α} {es : List (ν × α)}
    (h : es.lookup name = some value) : (name, value) ∈ es := by
  obtain ⟨before, after, heq, -⟩ := List.lookup_eq_some_iff.mp h
  rw [heq]
  exact List.mem_append_right before (List.mem_cons_self ..)

theorem lookup_eq_none_of_not_mem {name : ν} {es : List (ν × α)} (h : name ∉ es.map Prod.fst) :
    es.lookup name = none :=
  List.lookup_eq_none_iff.mpr fun e he => by
    simpa using fun heq : name = e.1 => h (heq ▸ List.mem_map_of_mem he)

theorem putEntry_of_lookup_eq_none {name : ν} (value : α) {es : List (ν × α)}
    (h : es.lookup name = none) : putEntry name value es = es ++ [(name, value)] := by
  induction es with
  | nil => rfl
  | cons e es ih =>
    obtain ⟨key, old⟩ := e
    rw [lookup_cons_eq_if] at h
    split at h
    · cases h
    · next hne => rw [putEntry, if_neg (Ne.symm hne), ih h, List.cons_append]

theorem putEntry_of_not_mem {name : ν} (value : α) {es : List (ν × α)}
    (h : name ∉ es.map Prod.fst) : putEntry name value es = es ++ [(name, value)] :=
  putEntry_of_lookup_eq_none value (lookup_eq_none_of_not_mem h)

theorem names_putEntry_of_isSome {name : ν} (value : α) {es : List (ν × α)}
    (h : (es.lookup name).isSome) : (putEntry name value es).map Prod.fst = es.map Prod.fst := by
  induction es with
  | nil => cases h
  | cons e es ih =>
    obtain ⟨key, old⟩ := e
    rw [putEntry]
    by_cases hkey : key = name
    · rw [if_pos hkey, List.map_cons, List.map_cons]
    · rw [lookup_cons_eq_if, if_neg (Ne.symm hkey)] at h
      rw [if_neg hkey, List.map_cons, List.map_cons, ih h]

/-- In a list that holds each name once it makes no difference from which end a name is looked
up. -/
theorem lookup_reverse {es : List (ν × α)} (h : (es.map Prod.fst).Nodup) (name : ν) :
    es.reverse.lookup name = es.lookup name := by
  induction es with
  | nil => rfl
  | cons e es ih =>
    obtain ⟨hfresh, honce⟩ := List.nodup_cons.mp h
    rw [List.reverse_cons, List.lookup_append, ih honce, lookup_cons_eq_if, lookup_cons_eq_if,
      List.lookup_nil]
    by_cases hname : name = e.1
    · rw [lookup_eq_none_of_not_mem (hname ▸ hfresh), Option.none_or]
    · rw [if_neg hname, if_neg hname, Option.or_none]

/-- A list that holds each name once is made of its names and what they are looked up to. -/
theorem eq_filterMap_lookup {es : List (ν × α)} (h : (es.map Prod.fst).Nodup) :
    es = (es.map Prod.fst).filterMap fun name => (es.lookup name).map fun value =>
      (name, value) := by
  induction es with
  | nil => rfl
  | cons e es ih =>
    obtain ⟨hfresh, honce⟩ := List.nodup_cons.mp h
    have hlater :
        (es.map Prod.fst).filterMap
          (fun name => ((e :: es).lookup name).map fun value => (name, value)) =
        (es.map Prod.fst).filterMap fun name => (es.lookup name).map fun value =>
          (name, value) := by
      refine List.filterMap_congr fun name hname => ?_
      have hne : name ≠ e.1 := fun heq => hfresh (heq ▸ hname)
      rw [lookup_cons_eq_if, if_neg hne]
    rw [List.map_cons, List.filterMap_cons, lookup_cons_eq_if, if_pos rfl, hlater, ← ih honce]
    rfl

theorem mem_putEntry {name : ν} {value : α} {e : ν × α} {es : List (ν × α)}
    (h : e ∈ putEntry name value es) : e ∈ es ∨ e = (name, value) := by
  induction es with
  | nil => exact .inr (List.mem_singleton.mp h)
  | cons first es ih =>
    rw [putEntry] at h
    split at h
    · next hkey =>
      rcases List.mem_cons.mp h with rfl | hmem
      · exact .inr (by rw [hkey])
      · exact .inl (List.mem_cons_of_mem _ hmem)
    · rcases List.mem_cons.mp h with rfl | hmem
      · exact .inl (List.mem_cons_self ..)
      · exact (ih hmem).imp_left (List.mem_cons_of_mem _)

/-- It makes no difference to a list without its repetitions which lawful equality tells them. -/
theorem eraseDups_decidable [BEq ν] [LawfulBEq ν] (names : List ν) :
    @List.eraseDups ν instBEqOfDecidableEq names = names.eraseDups := by
  rw [lawful_beq_subsingleton instBEqOfDecidableEq ‹BEq ν›]

/-- Nor to what a name is looked up to. -/
theorem lookup_decidable [BEq ν] [LawfulBEq ν] (name : ν) (es : List (ν × α)) :
    @List.lookup ν α instBEqOfDecidableEq name es = es.lookup name := by
  rw [lawful_beq_subsingleton instBEqOfDecidableEq ‹BEq ν›]

namespace Mapping

variable {m : Mapping ν α}

theorem get?_set (m : Mapping ν α) (name : ν) (value : α) (other : ν) :
    (m.set name value).get? other = if other = name then some value else m.get? other :=
  lookup_putEntry name value other m.entries

theorem contains_set (m : Mapping ν α) (name : ν) (value : α) (other : ν) :
    (m.set name value).contains other = (decide (other = name) || m.contains other) := by
  rw [contains, get?_set, contains]
  by_cases h : other = name <;> simp [h]

/-- A name that has a value keeps one. -/
theorem contains_set_of_contains {other : ν} (h : m.contains other = true) (name : ν) (value : α) :
    (m.set name value).contains other = true := by
  rw [contains_set, h, Bool.or_true]

theorem setAll_append (m : Mapping ν α) (es es' : List (ν × α)) :
    m.setAll (es ++ es') = (m.setAll es).setAll es' :=
  List.foldl_append

/-- A value stands among the entries. -/
theorem mem_of_get? {name : ν} {value : α} (h : m.get? name = some value) :
    (name, value) ∈ m.entries :=
  mem_of_lookup_eq_some h

/-- A name without a value is set at the end. -/
theorem entries_set_of_not_contains {name : ν} (h : m.contains name = false) (value : α) :
    (m.set name value).entries = m.entries ++ [(name, value)] :=
  putEntry_of_lookup_eq_none value (Option.isNone_iff_eq_none.mp (Option.isSome_eq_false_iff.mp h))

/-- A name that has a value stays where it is. -/
theorem names_set (m : Mapping ν α) (name : ν) (value : α) :
    (m.set name value).names = if m.contains name then m.names else m.names ++ [name] := by
  split
  · next h => exact names_putEntry_of_isSome value h
  · next h =>
    rw [names, entries_set_of_not_contains (Bool.eq_false_iff.mpr h), List.map_append]
    rfl

omit [DecidableEq ν] in
theorem eq_of_entries {m' : Mapping ν α} (h : m.entries = m'.entries) : m = m' := by
  cases m
  cases m'
  cases h
  rfl

/-- Mappings are equal if they have the same names, in the same order, and give the same values. -/
theorem ext_get? {m' : Mapping ν α} (hnames : m.names = m'.names)
    (hget : ∀ name, m.get? name = m'.get? name) : m = m' := by
  have hentries : m.entries = m'.entries := by
    calc
      m.entries = m.names.filterMap fun name => (m.get? name).map fun value => (name, value) :=
        eq_filterMap_lookup m.nodup_names
      _ = m'.names.filterMap fun name => (m'.get? name).map fun value => (name, value) := by
        rw [hnames, funext hget]
      _ = m'.entries := (eq_filterMap_lookup m'.nodup_names).symm
  exact eq_of_entries hentries

/-! ## Setting many names -/

/-- The names that are new come after those there are, in the order in which they are first set. -/
theorem names_setAll (m : Mapping ν α) (es : List (ν × α)) :
    (m.setAll es).names = m.names ++ (es.map Prod.fst).eraseDups.filter fun name =>
      !m.contains name := by
  induction es generalizing m with
  | nil => exact (List.append_nil _).symm
  | cons e es ih =>
    have hrest : (fun name => !(m.set e.1 e.2).contains name) = fun name =>
      !m.contains name && !name == e.1 :=
      funext fun name => by
        rw [contains_set]
        by_cases h : name = e.1 <;> simp [h]
    calc
      ((m.set e.1 e.2).setAll es).names =
          (m.set e.1 e.2).names ++
            (es.map Prod.fst).eraseDups.filter fun name => !m.contains name && !name == e.1 := by
        rw [ih, hrest]
      _ = m.names ++ (e.1 :: (es.map Prod.fst).eraseDups.filter fun name => !name == e.1).filter
            fun name => !m.contains name := by
        rw [names_set, List.filter_cons, List.filter_filter]
        cases m.contains e.1 <;> simp
      _ = m.names ++ ((e :: es).map Prod.fst).eraseDups.filter fun name => !m.contains name := by
        rw [List.map_cons, List.eraseDups_cons, filter_eraseDups]

/-- The last value that a name is set to is its value. -/
theorem get?_setAll (m : Mapping ν α) (es : List (ν × α)) (name : ν) :
    (m.setAll es).get? name = (es.reverse.lookup name).or (m.get? name) := by
  induction es generalizing m with
  | nil => rfl
  | cons e es ih =>
    rw [List.reverse_cons, List.lookup_append, Option.or_assoc, lookup_cons_eq_if, List.lookup_nil]
    refine (ih (m.set e.1 e.2)).trans ?_
    rw [get?_set]
    split <;> rfl

theorem names_ofList (es : List (ν × α)) :
    (ofList es : Mapping ν α).names = (es.map Prod.fst).eraseDups := by
  rw [ofList, names_setAll]
  exact List.filter_eq_self.mpr fun _ _ => rfl

/-- Setting entries is setting what the mapping made of them holds. -/
theorem setAll_entries_ofList (m : Mapping ν α) (es : List (ν × α)) :
    m.setAll (ofList es).entries = m.setAll es := by
  refine ext_get? ?_ fun name => ?_
  · rw [names_setAll, names_setAll, ← names, names_ofList, eraseDups_eq_self (nodup_eraseDups _)]
  · have hget : (ofList es).entries.lookup name = es.reverse.lookup name :=
      (get?_setAll empty es name).trans (Option.or_none ..)
    rw [get?_setAll, get?_setAll, lookup_reverse (ofList es).nodup_names, hget]

/-! ## The entries of some names -/

/-- The entries of the names that have a value, each as often as it is named. -/
def entriesOf (m : Mapping ν α) (names : List ν) : List (ν × α) :=
  names.filterMap fun name => (m.get? name).map fun value => (name, value)

theorem entriesOf_empty (names : List ν) : (∅ : Mapping ν α).entriesOf names = [] :=
  List.filterMap_eq_nil_iff.mpr fun _ _ => rfl

theorem entriesOf_append (m : Mapping ν α) (names names' : List ν) :
    m.entriesOf (names ++ names') = m.entriesOf names ++ m.entriesOf names' :=
  List.filterMap_append

theorem names_entriesOf (m : Mapping ν α) (names : List ν) :
    (m.entriesOf names).map Prod.fst = names.filter m.contains := by
  induction names with
  | nil => rfl
  | cons name names ih =>
    rw [entriesOf] at ih ⊢
    rw [List.filterMap_cons, List.filter_cons, contains]
    cases m.get? name with
    | none => exact ih
    | some value => exact congrArg (name :: ·) ih

theorem get?_setAll_entriesOf (m m' : Mapping ν α) (names : List ν) (name : ν) :
    (m'.setAll (m.entriesOf names)).get? name =
      if name ∈ names then (m.get? name).or (m'.get? name) else m'.get? name := by
  induction names generalizing m' with
  | nil => rfl
  | cons first names ih =>
    rw [entriesOf] at ih ⊢
    rw [List.filterMap_cons]
    cases hfirst : m.get? first with
    | none =>
      refine (ih m').trans ?_
      by_cases heq : name = first
      · simp [heq, hfirst]
      · simp [heq]
    | some value =>
      refine (ih (m'.set first value)).trans ?_
      rw [get?_set]
      by_cases heq : name = first
      · simp [heq, hfirst]
      · simp [heq]

/-- Setting names to what a mapping gives them makes a mapping that holds each of them once, in the
order in which they are first named. -/
theorem entries_ofList_entriesOf (m : Mapping ν α) (names : List ν) :
    (ofList (m.entriesOf names)).entries = m.entriesOf names.eraseDups := by
  have hnames : (ofList (m.entriesOf names)).names = names.eraseDups.filter m.contains := by
    rw [names_ofList, names_entriesOf, filter_eraseDups]
  have hget : ∀ name ∈ names.eraseDups, (ofList (m.entriesOf names)).get? name = m.get? name := by
    intro name hname
    rw [ofList, get?_setAll_entriesOf, if_pos (List.mem_eraseDups.mp hname)]
    exact Option.or_none ..
  calc
    (ofList (m.entriesOf names)).entries =
        (ofList (m.entriesOf names)).names.filterMap
          fun name => ((ofList (m.entriesOf names)).get? name).map fun value => (name, value) :=
      eq_filterMap_lookup (ofList (m.entriesOf names)).nodup_names
    _ = m.entriesOf names.eraseDups := by
      rw [hnames, List.filterMap_filter]
      refine List.filterMap_congr fun name hname => ?_
      rw [hget name hname, contains]
      cases m.get? name <;> rfl

/-! ## How many names there are -/

omit [DecidableEq ν] in
theorem size_eq_length_names (m : Mapping ν α) : m.size = m.names.length :=
  (List.length_map ..).symm

theorem size_set (m : Mapping ν α) (name : ν) (value : α) :
    (m.set name value).size = m.size + if m.contains name then 0 else 1 := by
  rw [size_eq_length_names, size_eq_length_names, names_set]
  split <;> simp

/-- Of two mappings put together the names of both are counted once. -/
theorem size_setAll_entries (m m' : Mapping ν α) :
    (m.setAll m'.entries).size + (m'.names.filter m.contains).length = m.size + m'.size := by
  rw [size_eq_length_names, names_setAll, eraseDups_eq_self m'.nodup_names, ← names,
    List.length_append, size_eq_length_names, size_eq_length_names,
    List.length_eq_length_filter_add (l := m'.names) m.contains]
  omega

/-- Names without a value, each set once, are added in order. -/
theorem entries_setAll_of_not_contains {es : List (ν × α)}
    (hnew : ∀ name ∈ es.map Prod.fst, m.contains name = false) (honce : (es.map Prod.fst).Nodup) :
    (m.setAll es).entries = m.entries ++ es := by
  induction es generalizing m with
  | nil => exact (List.append_nil _).symm
  | cons e es ih =>
    obtain ⟨hfirst, hrest⟩ := List.forall_mem_cons.mp hnew
    obtain ⟨hfresh, honce⟩ := List.nodup_cons.mp honce
    have hnew : ∀ name ∈ es.map Prod.fst, (m.set e.1 e.2).contains name = false := by
      intro name hname
      have hne : name ≠ e.1 := fun heq => hfresh (heq ▸ hname)
      rw [contains_set, hrest name hname, decide_eq_false hne, Bool.or_false]
    calc
      ((m.set e.1 e.2).setAll es).entries = (m.set e.1 e.2).entries ++ es := ih hnew honce
      _ = m.entries ++ e :: es := by rw [entries_set_of_not_contains hfirst, List.append_assoc]; rfl

/-- A mapping is made by setting its entries. -/
theorem ofList_entries (m : Mapping ν α) : ofList m.entries = m :=
  eq_of_entries (entries_setAll_of_not_contains (fun _ _ => rfl) m.nodup_names)

theorem mem_of_mem_setAll {e : ν × α} {es : List (ν × α)} (h : e ∈ (m.setAll es).entries) :
    e ∈ m.entries ∨ e ∈ es := by
  induction es generalizing m with
  | nil => exact .inl h
  | cons first es ih =>
    rcases ih h with hset | hrest
    · rcases mem_putEntry hset with hold | rfl
      · exact .inl hold
      · exact .inr (List.mem_cons_self ..)
    · exact .inr (List.mem_cons_of_mem _ hrest)

/-- A mapping holds nothing that was not set. -/
theorem mem_of_mem_ofList {e : ν × α} {es : List (ν × α)} (h : e ∈ (ofList es).entries) :
    e ∈ es := by
  rcases mem_of_mem_setAll h with hnone | hmem
  · exact absurd hnone (List.not_mem_nil)
  · exact hmem

end Mapping

end

end Typist
