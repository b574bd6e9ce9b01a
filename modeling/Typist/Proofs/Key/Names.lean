import Typist.Key.Vocabulary
import Typist.Proofs.Mapping
import Typist.Snippet.Tokenizer

/-!
# Names mean their keys

A name that a key is written with is a token of its own inside a combo (`IsToken`), and looked up it
means the key again. `name?_code` says so of the named keys and `name?_char` of the keys that type
one character, blanks left out. None of these names holds a blank. What a token can name at all is
told by `named?_cases`.
-/

namespace Typist

/-- The keys that tokens name when there are no aliases. -/
def Key.standardLookup : KeyLookup := fun token =>
  (Key.lookup ∅ (.ofText token)).toOption

/-- Is the text read as a single token inside a combo? -/
def IsToken (t : Text) : Prop :=
  t ≠ [] ∧ '$' ∉ t ∧ ∀ c ∈ t, isComboSeparator c = false

instance (t : Text) : Decidable (IsToken t) :=
  have : Decidable (∀ c ∈ t, isComboSeparator c = false) := List.decidableBAll _ t
  inferInstanceAs (Decidable (t ≠ [] ∧ '$' ∉ t ∧ ∀ c ∈ t, isComboSeparator c = false))

theorem standardLookup_eq_named? (token : Text) :
    Key.standardLookup token = Key.named? (.ofText token) := by
  have hget : (∅ : Aliases).get? (.ofText token) = none := rfl
  simp only [Key.standardLookup, Key.lookup, hget, Option.getD_none]
  cases Key.named? (.ofText token) <;> rfl

/-- A token names the character it is, or it is the name of a key or of a character but for its
case. -/
theorem Key.named?_cases {token : CodePoints} {key : Key} (h : Key.named? token = some key) :
    (∃ c, token = [c] ∧ key = .char [c]) ∨ (∃ e ∈ namedKeys, key = .code e.2) ∨
      ∃ e ∈ namedCharacters, key = .char [.char e.2] := by
  unfold Key.named? at h
  split at h
  · next c => exact .inl ⟨c, rfl, (Option.some.inj h).symm⟩
  · dsimp only at h
    split at h
    · next c hlookup =>
        exact .inr (.inl ⟨(_, c), mem_of_lookup_eq_some hlookup, (Option.some.inj h).symm⟩)
    · obtain ⟨c, hlookup, hkey⟩ := Option.map_eq_some_iff.mp h
      exact .inr (.inr ⟨(_, c), mem_of_lookup_eq_some hlookup, hkey.symm⟩)

/-- Does the first name in the vocabulary stand for the key, as a single token? -/
def KeyCode.isWellNamed (c : KeyCode) : Bool :=
  (Key.code c).canonicalName?.any fun name =>
    IsToken name.toList && Key.named? (.ofText name.toList) = some (.code c)

theorem KeyCode.mem_all (c : KeyCode) : c ∈ KeyCode.all := by
  cases c <;> decide

theorem KeyCode.all_isWellNamed : KeyCode.all.all KeyCode.isWellNamed = true := by
  decide +kernel

theorem name?_code (c : KeyCode) :
    ∃ name : Text, (Key.code c).name? = some (.ofText name) ∧ IsToken name ∧
      Key.standardLookup name = some (.code c) := by
  have h := List.all_eq_true.mp KeyCode.all_isWellNamed c (KeyCode.mem_all c)
  unfold KeyCode.isWellNamed at h
  cases hname : (Key.code c).canonicalName? with
  | none => simp [hname] at h
  | some name =>
    simp only [hname, Option.any_some, Bool.and_eq_true, decide_eq_true_eq] at h
    refine ⟨name.toList, ?_, h.1, ?_⟩
    · simp [Key.name?, hname]
    · rw [standardLookup_eq_named?, h.2]

theorem name?_char {c : Char} (hblank : isBlank c = false) :
    ∃ name : Text, (Key.char [.char c]).name? = some (.ofText name) ∧ IsToken name ∧
      Key.standardLookup name = some (.char [.char c]) := by
  by_cases hplus : c = '+'
  · subst hplus
    refine ⟨"plus".toList, ?_, ?_, ?_⟩ <;> decide +kernel
  by_cases hdollar : c = '$'
  · subst hdollar
    refine ⟨"dollar".toList, ?_, ?_, ?_⟩ <;> decide +kernel
  have hspace : c ≠ ' ' := by
    rintro rfl
    exact absurd hblank (by decide)
  have hcanonical : (Key.char [.char c]).canonicalName? = none := by
    simp [Key.canonicalName?, namedCharacters, Ne.symm hplus, Ne.symm hdollar]
  refine ⟨[c], ?_, ?_, ?_⟩
  · simp [Key.name?, hcanonical, CodePoints.text, CodePoint.toChar, hblank, CodePoints.ofText]
  · simp [IsToken, isComboSeparator, Ne.symm hdollar, hplus, hspace]
  · rw [standardLookup_eq_named?]
    rfl

/-! ## Blanks and names -/

/-- Does the key type a blank? -/
def Key.IsBlank (key : Key) : Prop :=
  ∃ c, key = .char [.char c] ∧ isBlank c = true

/-- A key that types a blank has no name. -/
theorem name?_blank {c : Char} (hblank : isBlank c = true) : (Key.char [.char c]).name? = none := by
  have hne : ∀ e ∈ namedCharacters, c ≠ e.2 := by
    have hall : ∀ e ∈ namedCharacters, isBlank e.2 = false := by decide
    rintro e he rfl
    rw [hall e he] at hblank
    cases hblank
  have hcanonical : (Key.char [.char c]).canonicalName? = none := by
    rw [Key.canonicalName?, Option.map_eq_none_iff, List.find?_eq_none]
    intro e he heq
    exact hne e he (by simpa [eq_comm] using heq)
  simp [Key.name?, hcanonical, CodePoints.text, CodePoint.toChar, hblank]

theorem not_blank_of_mem_name_code (c : KeyCode) {name : CodePoints}
    (h : (Key.code c).name? = some name) : ∀ d ∈ name.text, isBlank d = false := by
  have hall : KeyCode.all.all (fun c => (Key.code c).name?.all fun name => !name.text.any isBlank) =
      true := by
    decide +kernel
  have hname := List.all_eq_true.mp hall c (KeyCode.mem_all c)
  rw [h] at hname
  simpa using hname

theorem not_blank_of_mem_name_char {c : Char} (hblank : isBlank c = false) {name : CodePoints}
    (h : (Key.char [.char c]).name? = some name) : ∀ d ∈ name.text, isBlank d = false := by
  cases hcanonical : (Key.char [.char c]).canonicalName? with
  | some canonical =>
    obtain ⟨e, hfound, rfl⟩ := Option.map_eq_some_iff.mp hcanonical
    have hall : namedCharacters.all (fun e => !e.1.toList.any isBlank) = true := by decide
    have hplain : ∀ d ∈ e.1.toList, isBlank d = false := by
      simpa using List.all_eq_true.mp hall e (List.mem_of_find?_eq_some hfound)
    have hname : name = .ofText e.1.toList := by simpa [Key.name?, hcanonical] using h.symm
    rwa [hname, CodePoints.text_ofText]
  | none =>
    have hname : name = [.char c] := by
      simpa [Key.name?, hcanonical, CodePoints.text, CodePoint.toChar, hblank] using h.symm
    rw [hname]
    simpa [CodePoints.text, CodePoint.toChar] using hblank

end Typist
