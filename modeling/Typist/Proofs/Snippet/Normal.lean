import Mathlib.Data.List.Chain
import Typist.Proofs.Snippet.Grammar
import Typist.Proofs.Key.Names

/-!
# Lines in normal form

A line in normal form says nothing twice : its texts are not empty and not next to each other, and
it holds nothing that would be read as something else. A part is `Part.IsNormal` if it can be
written as it is, and a line is `Line.IsNormal` if its parts are and no two texts are neighbours.
Merging leaves such a line alone (`merged_eq_self`).

`Key.IsTypable` are the keys that a combo can name : the named ones, and those that type one
character other than a blank.
-/

namespace Typist

/-! ## Two characters in a text -/

theorem holds_cons_iff {a b c : Char} {t : Text} :
    Text.holds [a, b] (c :: t) = false ↔
      (c = a → t.head? ≠ some b) ∧ Text.holds [a, b] t = false := by
  rw [Text.holds, Bool.or_eq_false_iff]
  refine and_congr ?_ Iff.rfl
  cases t with
  | nil => simp [List.isPrefixOf]
  | cons d t =>
    simp only [List.isPrefixOf, Bool.and_true, Bool.and_eq_false_iff, beq_eq_false_iff_ne,
      List.head?_cons, ne_eq, Option.some.injEq]
    grind

/-- Two characters stand in texts put together if they stand in one of them, or where they meet. -/
theorem holds_append {a b : Char} {t u : Text} (ht : Text.holds [a, b] t = false)
    (hu : Text.holds [a, b] u = false) (hmeet : t.getLast? = some a → u.head? ≠ some b) :
    Text.holds [a, b] (t ++ u) = false := by
  induction t with
  | nil => exact hu
  | cons c t ih =>
    obtain ⟨hhead, ht⟩ := holds_cons_iff.mp ht
    cases t with
    | nil => exact holds_cons_iff.mpr ⟨fun hc => hmeet (by rw [hc, List.getLast?_singleton]), hu⟩
    | cons d t =>
      refine holds_cons_iff.mpr ⟨hhead, ih ht ?_⟩
      rwa [List.getLast?_cons_cons] at hmeet

theorem holds_of_append {a b : Char} {t u : Text} (h : Text.holds [a, b] (t ++ u) = false) :
    Text.holds [a, b] t = false := by
  induction t with
  | nil => rfl
  | cons c t ih =>
    obtain ⟨hhead, hrest⟩ := holds_cons_iff.mp h
    refine holds_cons_iff.mpr ⟨fun hc hd => hhead hc ?_, ih hrest⟩
    obtain ⟨v, rfl⟩ := List.head?_eq_some_iff.mp hd
    rfl

/-! ## Parts and lines in normal form -/

/-- Is the part a text? -/
def Part.isText : Part → Bool
  | text _ => true
  | _ => false

/-- Can the part stand in a line as it is? -/
def Part.IsNormal : Part → Prop
  | text content =>
    content ≠ [] ∧ Text.holds ['$', '\''] content = false ∧ Text.holds ['$', '['] content = false
  | delay milliseconds => 0 ≤ milliseconds
  | arg name => name ≠ [] ∧ '$' ∉ name ∧ Text.holds [':', ':'] name = false
  | combo keys => keys ≠ []

/-- Can the name be written with the value as its default? -/
def IsWritableDefault (name value : Text) : Prop :=
  (Part.arg name).IsNormal ∧ name.getLast? ≠ some ':' ∧ '$' ∉ value

/-- Is the line in normal form? -/
structure Line.IsNormal (line : Line) : Prop where
  parts : ∀ part ∈ line, part.IsNormal
  /-- No text is next to a text. -/
  apart : line.IsChain fun part next => ¬(part.isText ∧ next.isText)

/-- Can a combo name the key? -/
def Key.IsTypable : Key → Prop
  | .code _ => True
  | .char t => ∃ c, t = [.char c] ∧ isBlank c = false

/-- Are all keys of the line's combos ones that a combo can name? -/
def Line.IsTypable (line : Line) : Prop :=
  ∀ keys, Part.combo keys ∈ line → ∀ key ∈ keys, key.IsTypable

theorem Line.isTypable_cons {part : Part} {line : Line} :
    Line.IsTypable (part :: line) ↔ Line.IsTypable [part] ∧ Line.IsTypable line := by
  simp only [Line.IsTypable, List.mem_cons, List.not_mem_nil, or_false]
  exact ⟨fun h => ⟨fun keys hkeys => h keys (.inl hkeys), fun keys hkeys => h keys (.inr hkeys)⟩,
    fun h keys hkeys => hkeys.elim (h.1 keys) (h.2 keys)⟩

theorem Line.IsNormal.tail {part : Part} {line : Line} (h : Line.IsNormal (part :: line)) :
    Line.IsNormal line :=
  ⟨fun p hp => h.parts p (List.mem_cons_of_mem _ hp), h.apart.tail⟩

/-- What comes after a text in a line in normal form is no text. -/
theorem Line.IsNormal.next {t : Text} {next : Part} {line : Line}
    (h : Line.IsNormal (.text t :: next :: line)) : next.isText = false := by
  have hne := h.apart.rel
  simpa [Part.isText] using hne

theorem merged_eq_self : ∀ {line : Line}, Line.IsNormal line → Line.merged line = line
  | [], _ => rfl
  | .text t :: line, h => by
    have ht : t ≠ [] := (h.parts (.text t) (by simp)).1
    rw [Line.merged, merged_eq_self h.tail]
    match line, h with
    | [], _ => simp [consText, ht]
    | .text u :: line, h => exact absurd h.next (by simp [Part.isText])
    | .delay _ :: _, _ | .arg _ :: _, _ | .combo _ :: _, _ => simp [consText, ht]
  | .delay _ :: _, h | .arg _ :: _, h | .combo _ :: _, h => by
    simp [Line.merged, merged_eq_self h.tail]

end Typist
