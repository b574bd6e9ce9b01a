import Typist.Settings

/-!
# What loaded settings are

Settings load if the file reads as a document that describes them and their commit key names a key
(`load_eq_ok_iff`), so what loads can end a line (`commit_of_load`). Nothing but the depth of the
document fails otherwise than by the file (`load_eq_tooDeep_iff`).
-/

namespace Typist.Settings

variable {path : Text} {content : Except FileError (List UInt8)} {levels : Nat} {s : Settings}
  {document : Json}

theorem checked_eq_ok_iff :
    checked document = .ok s ↔ ofJson document = .ok s ∧ ∃ key, s.commit = .ok key := by
  rw [checked]
  cases ofJson document with
  | error fault => simp
  | ok s' =>
    constructor
    · intro h
      simp only at h
      split at h
      · cases h
      · next key hcommit =>
        obtain rfl := Except.ok.inj h
        exact ⟨rfl, key, hcommit⟩
    · rintro ⟨heq, key, hcommit⟩
      obtain rfl := Except.ok.inj heq
      simp only [hcommit]

/-- What loads are the settings that a document describes, if their commit key names a key. -/
theorem load_eq_ok_iff :
    load path content levels = .ok s ↔
      ∃ t document, textOf content = .ok t ∧ Json.parse t levels = .ok document ∧
        ofJson document = .ok s ∧ ∃ key, s.commit = .ok key := by
  constructor
  · intro h
    rw [load] at h
    cases htext : textOf content with
    | error fault =>
      rw [htext] at h
      cases h
    | ok t =>
      simp only [htext] at h
      cases hparse : Json.parse t levels with
      | error e =>
        rw [hparse] at h
        cases e <;> cases h
      | ok document =>
        simp only [hparse] at h
        cases hchecked : checked document with
        | error fault =>
          rw [hchecked] at h
          cases h
        | ok s' =>
          rw [hchecked] at h
          obtain rfl := Except.ok.inj h
          exact ⟨t, document, rfl, hparse, checked_eq_ok_iff.mp hchecked⟩
  · rintro ⟨t, document, htext, hparse, hdescribed⟩
    rw [load, htext]
    simp only [hparse, checked_eq_ok_iff.mpr hdescribed]

/-- The depth of the document is what fails otherwise than by the file. -/
theorem load_eq_tooDeep_iff :
    load path content levels = .error .tooDeep ↔
      ∃ t, textOf content = .ok t ∧ Json.parse t levels = .error .tooDeep := by
  constructor
  · intro h
    rw [load] at h
    cases htext : textOf content with
    | error fault =>
      rw [htext] at h
      cases h
    | ok t =>
      simp only [htext] at h
      refine ⟨t, rfl, ?_⟩
      cases hparse : Json.parse t levels with
      | error e =>
        cases e with
        | tooDeep => rfl
        | malformed flaw left | numberTooLong digits =>
          rw [hparse] at h
          cases h
      | ok document =>
        simp only [hparse] at h
        split at h <;> cases h
  · rintro ⟨t, htext, hparse⟩
    rw [load, htext]
    simp only [hparse]

/-- A file at fault is told by its path. -/
theorem path_of_load {error : SettingsError}
    (h : load path content levels = .error (.settings error)) : error.path = path := by
  rw [load] at h
  cases htext : textOf content with
  | error fault =>
    rw [htext] at h
    cases h
    rfl
  | ok t =>
    simp only [htext] at h
    cases hparse : Json.parse t levels with
    | error e =>
      rw [hparse] at h
      cases e <;> cases h <;> rfl
    | ok document =>
      simp only [hparse] at h
      split at h <;> cases h
      rfl

/-- Settings that load can end a line. -/
theorem commit_of_load (h : load path content levels = .ok s) : ∃ key, s.commit = .ok key := by
  obtain ⟨-, -, -, -, -, hcommit⟩ := load_eq_ok_iff.mp h
  exact hcommit

end Typist.Settings
