import Typist.Json.Reader
import Typist.Json.Writer

/-!
# Strings in JSON

An ASCII document gives a character either as it stands, or by an escape of one letter, or by its
code units, of which a character beyond U+FFFF has two (`unitsOf`). Reading takes the code units off
one by one (`stringCodes_writtenChar`) and then joins the pairs (`ofNats_unitsOf`). So a string is
read back as it was written, whatever characters it holds (`stringAfterQuote_written`).
-/

namespace Typist

/-- Are the code points those of a text? -/
def CodePoints.IsText (p : CodePoints) : Prop :=
  CodePoints.ofText p.text = p

instance (p : CodePoints) : Decidable p.IsText :=
  inferInstanceAs (Decidable (CodePoints.ofText p.text = p))

theorem CodePoints.isText_ofText (t : Text) : (CodePoints.ofText t).IsText := by
  rw [IsText, text_ofText]

theorem CodePoints.ofText_inj {t t' : Text} :
    CodePoints.ofText t = CodePoints.ofText t' ↔ t = t' := by
  refine ⟨fun h => ?_, congrArg _⟩
  rw [← CodePoints.text_ofText t, h, CodePoints.text_ofText]

namespace Json

/-! ## Four hexadecimal digits -/

theorem hexValue?_digitChar : ∀ d < 16, hexValue? (Nat.digitChar d) = some d := by
  decide

theorem paddedHex_one {n : Nat} (h : n < 16) : Text.paddedHex 1 n = [Nat.digitChar n] := by
  rw [Text.paddedHex, Nat.toDigits_of_lt_base h]
  rfl

/-- The last digit of a number stands for its remainder. -/
theorem paddedHex_succ (width n : Nat) :
    Text.paddedHex (width + 2) n =
      Text.paddedHex (width + 1) (n / 16) ++ [Nat.digitChar (n % 16)] := by
  rw [Text.paddedHex, Text.paddedHex]
  rcases Nat.lt_or_ge n 16 with h | h
  · rw [Nat.toDigits_of_lt_base h, Nat.div_eq_of_lt h, Nat.mod_eq_of_lt h,
      Nat.toDigits_of_lt_base (by decide)]
    simp only [List.length_singleton, Nat.add_sub_cancel, Nat.add_succ_sub_one,
      List.replicate_succ']
    rfl
  · have hzeros : ∀ digits, width + 2 - (digits + 1) = width + 1 - digits := by omega
    rw [Nat.toDigits_of_base_le (by decide) h, List.length_append, List.length_singleton, hzeros,
      List.append_assoc]

theorem paddedHex_four {n : Nat} (h : n < 0x10000) :
    Text.paddedHex 4 n = [Nat.digitChar (n / 16 / 16 / 16), Nat.digitChar (n / 16 / 16 % 16),
      Nat.digitChar (n / 16 % 16), Nat.digitChar (n % 16)] := by
  rw [paddedHex_succ, paddedHex_succ, paddedHex_succ, paddedHex_one (by omega)]
  rfl

/-- Four digits are read back. -/
theorem hexValue4?_digitChar {n : Nat} (h : n < 0x10000) :
    hexValue4? (Nat.digitChar (n / 16 / 16 / 16)) (Nat.digitChar (n / 16 / 16 % 16))
      (Nat.digitChar (n / 16 % 16)) (Nat.digitChar (n % 16)) = some n := by
  have hvalue : ∀ m, hexValue? (Nat.digitChar (m % 16)) = some (m % 16) := fun m =>
    hexValue?_digitChar _ (Nat.mod_lt _ (by decide))
  rw [hexValue4?, hexValue?_digitChar (n / 16 / 16 / 16) (by omega), hvalue, hvalue, hvalue]
  exact congrArg some (by omega)

/-! ## How characters are written -/

/-- Is the character a line feed or one of the printable characters of ASCII? -/
def isPlain (c : Char) : Bool :=
  c = '\n' || (0x20 ≤ c.toNat && c.toNat < 0x7f)

/-- The ways in which an ASCII document gives a character. -/
inductive IsWritten (c : Char) : Text → Prop
  | letter {letter : Char} :
      letter ≠ 'u' → isPlain letter → escape? letter = some c → c.toNat < 0x7f →
      IsWritten c ['\\', letter]
  | unit : c.toNat < 0x10000 → IsWritten c (unitEscape c.toNat)
  | pair : 0x10000 ≤ c.toNat → IsWritten c (unitEscape (0xd800 + (c.toNat - 0x10000) / 0x400) ++
      unitEscape (0xdc00 + (c.toNat - 0x10000) % 0x400))
  | plain : c ≠ '"' → c ≠ '\\' → 0x20 ≤ c.toNat → c.toNat < 0x7f → IsWritten c [c]

theorem toNat_bounds (c : Char) : c.toNat < 0xd800 ∨ 0xdfff < c.toNat ∧ c.toNat < 0x110000 :=
  c.valid

theorem isWritten_writtenChar (c : Char) : IsWritten c (writtenChar true c) := by
  by_cases hletter : c ∈ ['"', '\\', '\n', '\r', '\t', '\x08', '\x0c']
  · obtain rfl | rfl | rfl | rfl | rfl | rfl | rfl := by simpa using hletter
    all_goals exact .letter (by decide) (by decide) rfl (by decide)
  · simp only [List.mem_cons, List.not_mem_nil, or_false, not_or] at hletter
    obtain ⟨hquote, hslash, hfeed, hreturn, htab, hback, hform⟩ := hletter
    rw [writtenChar, if_neg hquote, if_neg hslash, if_neg hfeed, if_neg hreturn, if_neg htab,
      if_neg hback, if_neg hform]
    by_cases hcontrol : c.toNat < 0x20
    · rw [if_pos hcontrol]
      exact .unit (by omega)
    rw [if_neg hcontrol]
    by_cases hascii : c.toNat < 0x7f
    · rw [if_neg (by simpa using hascii)]
      exact .plain hquote hslash (by omega) hascii
    rw [if_pos (by simpa using hascii)]
    split
    · next hsingle => exact .unit hsingle
    · next hdouble => exact .pair (by omega)

theorem isPlain_unitEscape {n : Nat} (hn : n < 0x10000) : (unitEscape n).all isPlain = true := by
  have hdigit : ∀ d < 16, isPlain (Nat.digitChar d) = true := by decide
  have hlast : ∀ m, isPlain (Nat.digitChar (m % 16)) = true := fun m =>
    hdigit _ (Nat.mod_lt _ (by decide))
  rw [unitEscape, paddedHex_four hn]
  simp only [List.all_cons, List.all_nil, hdigit (n / 16 / 16 / 16) (by omega), hlast]
  decide

theorem isPlain_writtenChar (c : Char) : (writtenChar true c).all isPlain = true := by
  have hwritten := isWritten_writtenChar c
  generalize writtenChar true c = written at hwritten ⊢
  cases hwritten with
  | letter hletter hplain hc hascii =>
    rw [List.all_cons, List.all_cons, hplain]
    rfl
  | unit hunit => exact isPlain_unitEscape hunit
  | pair hpair =>
    have hbounds := toNat_bounds c
    rw [List.all_append, isPlain_unitEscape (by omega), isPlain_unitEscape (by omega)]
    rfl
  | plain hquote hslash hcontrol hascii =>
    rw [List.all_cons, List.all_nil, isPlain, decide_eq_true hcontrol, decide_eq_true hascii,
      Bool.and_self, Bool.or_true]
    rfl

/-! ## Escapes -/

section

variable {opened after rest : Text} {codes : List Nat}

theorem stringCodes_unitEscape {n : Nat} (hn : n < 0x10000)
    (h : stringCodes opened after = .ok (codes, rest)) :
    stringCodes opened (unitEscape n ++ after) = .ok (n :: codes, rest) := by
  cases after with
  | nil => cases h
  | cons first after =>
    rw [unitEscape, paddedHex_four hn]
    simp only [List.cons_append, List.nil_append]
    rw [stringCodes, hexValue4?_digitChar hn]
    simp only [h]
    rfl

theorem stringCodes_letterEscape {letter c : Char} (hletter : letter ≠ 'u')
    (hc : escape? letter = some c) (h : stringCodes opened after = .ok (codes, rest)) :
    stringCodes opened ('\\' :: letter :: after) = .ok (c.toNat :: codes, rest) := by
  rw [stringCodes, hc]
  · simp only [h]
    rfl
  · rintro a b c d first after' rfl
    exact absurd rfl hletter
  · rintro rfl
    exact absurd rfl hletter

theorem stringCodes_plain {c : Char} (hquote : c ≠ '"') (hslash : c ≠ '\\')
    (hcontrol : ¬ c.toNat < 0x20) (h : stringCodes opened after = .ok (codes, rest)) :
    stringCodes opened (c :: after) = .ok (c.toNat :: codes, rest) := by
  rw [stringCodes, if_neg hcontrol, h]
  · rfl
  all_goals
    intros
    contradiction

/-- The numbers of the code units of a character. -/
def unitsOf (c : Char) : List Nat :=
  if c.toNat < 0x10000 then [c.toNat]
  else [0xd800 + (c.toNat - 0x10000) / 0x400, 0xdc00 + (c.toNat - 0x10000) % 0x400]

/-- A character that was written is read as its code units. -/
theorem stringCodes_writtenChar (c : Char) (h : stringCodes opened after = .ok (codes, rest)) :
    stringCodes opened (writtenChar true c ++ after) = .ok (unitsOf c ++ codes, rest) := by
  have hwritten := isWritten_writtenChar c
  generalize writtenChar true c = written at hwritten ⊢
  cases hwritten with
  | letter hletter hplain hc hascii =>
    rw [unitsOf, if_pos (by omega)]
    exact stringCodes_letterEscape hletter hc h
  | unit hunit =>
    rw [unitsOf, if_pos hunit]
    exact stringCodes_unitEscape hunit h
  | pair hpair =>
    have hbounds := toNat_bounds c
    rw [unitsOf, if_neg (by omega), List.append_assoc]
    exact stringCodes_unitEscape (by omega) (stringCodes_unitEscape (by omega) h)
  | plain hquote hslash hcontrol hascii =>
    rw [unitsOf, if_pos (by omega)]
    exact stringCodes_plain hquote hslash (by omega) h

end

theorem stringCodes_written (opened t rest : Text) :
    stringCodes opened (t.flatMap (writtenChar true) ++ '"' :: rest) =
      .ok (t.flatMap unitsOf, rest) := by
  induction t with
  | nil => rfl
  | cons c t ih =>
    rw [List.flatMap_cons, List.flatMap_cons, List.append_assoc]
    exact stringCodes_writtenChar c ih

/-! ## Pairs -/

theorem isHigh_iff {n : Nat} : CodePoint.isHigh n = true ↔ 0xd800 ≤ n ∧ n < 0xdc00 := by
  simp [CodePoint.isHigh]

theorem isLow_iff {n : Nat} : CodePoint.isLow n = true ↔ 0xdc00 ≤ n ∧ n < 0xe000 := by
  simp [CodePoint.isLow]

theorem ofNats_cons_of_not_high {n : Nat} (h : CodePoint.isHigh n = false) (ns : List Nat) :
    CodePoints.ofNats (n :: ns) = .ofNat n :: CodePoints.ofNats ns := by
  cases ns with
  | nil => rfl
  | cons m ns => simp [CodePoints.ofNats, h]

theorem ofNats_pair {high low : Nat} (hhigh : CodePoint.isHigh high = true)
    (hlow : CodePoint.isLow low = true) (ns : List Nat) :
    CodePoints.ofNats (high :: low :: ns) =
      .char (Char.ofNat (0x10000 + (high - 0xd800) * 0x400 + (low - 0xdc00))) ::
        CodePoints.ofNats ns := by
  rw [CodePoints.ofNats, hhigh, hlow]
  rfl

/-- The code units of a text make the text. -/
theorem ofNats_unitsOf (t : Text) : CodePoints.ofNats (t.flatMap unitsOf) = .ofText t := by
  induction t with
  | nil => rfl
  | cons c t ih =>
    have hbounds := toNat_bounds c
    rw [List.flatMap_cons, unitsOf]
    split
    · next hunit =>
      have hhigh : CodePoint.isHigh c.toNat = false :=
        Bool.eq_false_iff.mpr (by rw [ne_eq, isHigh_iff]; omega)
      have hlow : CodePoint.isLow c.toNat = false :=
        Bool.eq_false_iff.mpr (by rw [ne_eq, isLow_iff]; omega)
      rw [List.singleton_append, ofNats_cons_of_not_high hhigh, ih, CodePoint.ofNat, hhigh, hlow,
        Char.ofNat_toNat]
      rfl
    · next hpair =>
      generalize hn : c.toNat - 0x10000 = n
      have hhigh : CodePoint.isHigh (0xd800 + n / 0x400) = true := isHigh_iff.mpr (by omega)
      have hlow : CodePoint.isLow (0xdc00 + n % 0x400) = true := isLow_iff.mpr (by omega)
      have hvalue :
          0x10000 + (0xd800 + n / 0x400 - 0xd800) * 0x400 + (0xdc00 + n % 0x400 - 0xdc00) =
            c.toNat := by
        omega
      rw [List.cons_append, List.singleton_append, ofNats_pair hhigh hlow, hvalue,
        Char.ofNat_toNat, ih]
      rfl

/-! ## Whole strings -/

section

variable {p : CodePoints}

/-- A text is written character by character. -/
theorem flatMap_writtenPoint (h : p.IsText) :
    p.flatMap (writtenPoint true) = p.text.flatMap (writtenChar true) := by
  calc
    p.flatMap (writtenPoint true) = (CodePoints.ofText p.text).flatMap (writtenPoint true) :=
      congrArg (List.flatMap (writtenPoint true)) h.symm
    _ = p.text.flatMap (writtenChar true) := List.flatMap_map ..

theorem isPlain_writtenString (h : p.IsText) : (writtenString true p).all isPlain = true := by
  have hchars : (p.text.flatMap (writtenChar true)).all isPlain = true :=
    List.all_flatMap.trans (List.all_eq_true.mpr fun c _ => isPlain_writtenChar c)
  rw [writtenString, flatMap_writtenPoint h, List.cons_append, List.all_cons,
    List.all_append, hchars]
  decide

/-- A quote, a backslash, control characters and a character beyond U+FFFF are written in
escapes. -/
example : writtenString true (.ofText "\"\\\n\x00é😀".toList) =
    "\"\\\"\\\\\\n\\u0000\\u00e9\\ud83d\\ude00\"".toList := by decide +kernel

/-- A string is read back as it was written. -/
theorem stringAfterQuote_written (h : p.IsText) (rest : Text) :
    stringAfterQuote (p.flatMap (writtenPoint true) ++ '"' :: rest) = .ok (p, rest) := by
  rw [stringAfterQuote, flatMap_writtenPoint h, stringCodes_written]
  exact congrArg (fun q => Except.ok (q, rest)) ((ofNats_unitsOf p.text).trans h)

end

end Json

end Typist
