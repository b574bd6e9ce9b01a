import Typist.Text.Quoted

/-!
# Mappings

A mapping gives values to names and keeps the names in the order in which they were first set.
Setting a name again replaces its value and leaves it where it is. Declared defaults, argument
values and key aliases are mappings; the names of the first two are texts, and those of aliases are
code points.
-/

namespace Typist

/-- Sets `name` among the entries: in its place if it is there, at the end if it is not. -/
def putEntry {ν α : Type} [DecidableEq ν] (name : ν) (value : α) : List (ν × α) → List (ν × α)
  | [] => [(name, value)]
  | (other, old) :: rest =>
    if other = name then (other, value) :: rest else (other, old) :: putEntry name value rest

theorem mem_names_putEntry {ν α : Type} [DecidableEq ν] (name : ν) (value : α) (m : ν) :
    ∀ es : List (ν × α), m ∈ (putEntry name value es).map Prod.fst ↔ m = name ∨ m ∈ es.map Prod.fst
  | [] => by simp [putEntry]
  | (other, old) :: rest => by
    have ih := mem_names_putEntry name value m rest
    by_cases h : other = name
    · subst h
      simp [putEntry]
    · simp only [putEntry, h, if_false, List.map_cons, List.mem_cons, ih]
      grind

theorem nodup_names_putEntry {ν α : Type} [DecidableEq ν] (name : ν) (value : α) :
    ∀ es : List (ν × α), (es.map Prod.fst).Nodup → ((putEntry name value es).map Prod.fst).Nodup
  | [], _ => by simp [putEntry]
  | (other, old) :: rest, h => by
    rw [List.map_cons, List.nodup_cons] at h
    by_cases hn : other = name
    · simp only [putEntry, hn, if_true, List.map_cons, List.nodup_cons]
      exact ⟨hn ▸ h.1, h.2⟩
    · simp only [putEntry, hn, if_false, List.map_cons, List.nodup_cons, mem_names_putEntry]
      exact ⟨by grind, nodup_names_putEntry name value rest h.2⟩

/-- Values by name, in the order in which the names were first set. -/
structure Mapping (ν α : Type) where
  entries : List (ν × α)
  nodup_names : (entries.map Prod.fst).Nodup

namespace Mapping

variable {ν α : Type}

/-- The mapping that holds no name. -/
def empty : Mapping ν α :=
  ⟨[], by simp⟩

instance : EmptyCollection (Mapping ν α) :=
  ⟨empty⟩

/-- The names, in the order in which they were first set. -/
def names (m : Mapping ν α) : List ν :=
  m.entries.map Prod.fst

/-- How many names there are. -/
def size (m : Mapping ν α) : Nat :=
  m.entries.length

variable [DecidableEq ν]

/-- The mapping with `name` set to `value`. -/
def set (m : Mapping ν α) (name : ν) (value : α) : Mapping ν α :=
  ⟨putEntry name value m.entries, nodup_names_putEntry name value m.entries m.nodup_names⟩

/-- The value of `name`, if it has one. -/
def get? (m : Mapping ν α) (name : ν) : Option α :=
  m.entries.lookup name

/-- Does `name` have a value? -/
def contains (m : Mapping ν α) (name : ν) : Bool :=
  (m.get? name).isSome

/-- The mapping with the entries set one after the other. -/
def setAll (m : Mapping ν α) (entries : List (ν × α)) : Mapping ν α :=
  entries.foldl (fun m e => m.set e.1 e.2) m

/-- The mapping made by setting the entries one after the other. -/
def ofList (entries : List (ν × α)) : Mapping ν α :=
  empty.setAll entries

/-- Do the two mappings give the same values to the same names, whatever their order? -/
def agrees [DecidableEq α] (m other : Mapping ν α) : Bool :=
  m.size = other.size && m.entries.all fun e => other.get? e.1 = some e.2

instance [DecidableEq α] : DecidableEq (Mapping ν α) := fun m other =>
  if h : m.entries = other.entries then
    .isTrue (by cases m; cases other; simpa using h)
  else .isFalse fun he => h (he ▸ rfl)

/-- The entries in braces, names and values quoted. -/
def shown (m : Mapping Text Text) : Text :=
  let entry (e : Text × Text) : Text := e.1.quoted ++ ": ".toList ++ e.2.quoted
  '\x7b' :: Text.joined ", ".toList (m.entries.map entry) ++ ['\x7d']

end Mapping

end Typist
