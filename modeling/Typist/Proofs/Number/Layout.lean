import Typist.Proofs.Number.Shortest

/-!
# Written decimals

`text_ofRatio` : a decimal of up to fourteen digits that is rounded to binary floating point is
written with its own digits, up to the last that is not zero, whatever the style.
-/

namespace Typist

/-! ## Zeros at the end -/

theorem withoutTrailingZeros_append_zeros (digits : Text) (zeros : Nat) :
    withoutTrailingZeros (digits ++ List.replicate zeros '0') = withoutTrailingZeros digits := by
  induction zeros with
  | zero => simp
  | succ zeros ih =>
    rw [List.replicate_succ', ← List.append_assoc, ← ih]
    simp [withoutTrailingZeros]

theorem withoutTrailingZeros_eq_self {digits : Text} (h : digits.getLast? ≠ some '0') :
    withoutTrailingZeros digits = digits := by
  rw [withoutTrailingZeros]
  cases hreverse : digits.reverse with
  | nil => simpa using hreverse.symm
  | cons last rest =>
    have hlast : last ≠ '0' := by
      rintro rfl
      exact h (by rw [List.getLast?_eq_head?_reverse, hreverse, List.head?_cons])
    rw [List.dropWhile_cons_of_neg (by simpa using hlast), ← hreverse, List.reverse_reverse]

namespace Binary64

/-- A decimal of up to fourteen digits is written with its own digits. -/
theorem text_ofRatio (style : FloatStyle) {digits zeros q : Nat} (hdigits : digits % 10 ≠ 0)
    (hsmall : digits * 10 ^ zeros < 10 ^ 14) (hq : q ≤ 300) :
    (ofRatio false (digits * 10 ^ zeros) (10 ^ q)).text style =
      style.layout (Text.ofNat digits) ((Text.ofNat digits).length + zeros - q - 1) := by
  have hpos : 0 < digits * 10 ^ zeros := Nat.mul_pos (by omega) (Nat.pow_pos (by omega))
  obtain ⟨hlow, hhigh⟩ := short_normal hpos hsmall hq
  obtain ⟨significand, exponent, h, hsig⟩ :=
    ofRatio_of_normal false hpos (Nat.pow_pos (by omega)) hlow hhigh
  obtain ⟨digits', point, hshortest, hvalue, hpoint⟩ := shortest_value hpos hsmall hq h
  obtain ⟨places, hplaces⟩ := Int.eq_ofNat_of_zero_le (show 0 ≤ point + q + 1 by omega)
  -- What is found has the same digits, up to zeros at the end.
  have hsame : digits' * 10 ^ places = digits * 10 ^ (zeros + 1) := by
    have hleft : (10 : ℚ) ^ point * 10 ^ (q + 1) = 10 ^ places := by
      rw [← zpow_natCast, ← zpow_natCast, ← zpow_add₀ (by norm_num), ← hplaces]
      congr 1
      push_cast
      ring
    have hright : (10 : ℚ) ^ (-(q : Int)) * 10 ^ (q + 1) = 10 := by
      rw [← zpow_natCast, ← zpow_add₀ (by norm_num)]
      simp
    have hscaled := congrArg (· * (10 : ℚ) ^ (q + 1)) hvalue
    simp only [mul_assoc, hleft, hright] at hscaled
    push_cast at hscaled
    rw [mul_assoc, ← pow_succ] at hscaled
    exact_mod_cast hscaled
  have htext : Text.ofNat digits' ++ List.replicate places '0' =
      Text.ofNat digits ++ List.replicate (zeros + 1) '0' := by
    have hpos' : 0 < digits' := by
      rcases Nat.eq_zero_or_pos digits' with rfl | hpos'
      · have hzero : digits * 10 ^ (zeros + 1) = 0 := by simpa using hsame.symm
        have hten : 0 < digits * 10 ^ (zeros + 1) := Nat.mul_pos (by omega) (Nat.pow_pos (by omega))
        omega
      · exact hpos'
    rw [← Text.ofNat_mul_pow hpos', ← Text.ofNat_mul_pow (by omega), hsame]
  have hstripped : withoutTrailingZeros (Text.ofNat digits') = Text.ofNat digits := by
    rw [← withoutTrailingZeros_append_zeros _ places, htext, withoutTrailingZeros_append_zeros,
      withoutTrailingZeros_eq_self (Text.getLast_ofNat_ne_zero hdigits)]
  have hlength := congrArg List.length htext
  simp only [List.length_append, List.length_replicate] at hlength
  rw [h, text, if_neg (by omega), hshortest]
  simp only [Bool.false_eq_true, if_false, List.nil_append, hstripped]
  congr 1
  omega

end Binary64

/-! ## Numbers shown to people -/

namespace FloatStyle

variable {digits zeros q : Nat}

theorem plain_positional_iff (first : Int) :
    (plain.positionalFrom ≤ first && first < plain.positionalBelow) = true ↔
      -4 ≤ first ∧ first < 16 := by
  rw [Bool.and_eq_true, decide_eq_true_eq, decide_eq_true_eq]
  rfl

/-- From the fourth place on, a number is written as its whole part, a point and its places. -/
theorem layout_plain (hplaces : zeros < q) (hlow : q ≤ (Text.ofNat digits).length + zeros + 3)
    (hhigh : (Text.ofNat digits).length + zeros ≤ q + 16) :
    ∃ whole fraction, plain.layout (Text.ofNat digits)
      ((Text.ofNat digits).length + zeros - q - 1) =
        whole ++ '.' :: fraction ∧ whole ≠ [] ∧ (∀ c ∈ whole ++ fraction, c.isDigit = true) ∧
      Text.value (whole ++ fraction) = digits ∧ fraction.length = q - zeros := by
  have hlen := Text.length_ofNat_pos digits
  have hdigits : ∀ c ∈ Text.ofNat digits, c.isDigit = true := fun _ => Text.isDigit_of_mem_ofNat
  unfold layout
  rw [if_pos ((plain_positional_iff _).mpr (by omega))]
  split
  · next hneg =>
    -- The digits are after the point, with zeros before them.
    refine ⟨['0'], List.replicate _ '0' ++ Text.ofNat digits, rfl, by simp, ?_, ?_, ?_⟩
    · intro c hc
      simp only [List.mem_append, List.mem_singleton, List.mem_replicate] at hc
      rcases hc with rfl | ⟨-, rfl⟩ | hc
      · decide
      · decide
      · exact hdigits c hc
    · rw [← List.append_assoc]
      show Text.value (List.replicate 1 '0' ++ List.replicate _ '0' ++ _) = _
      rw [List.replicate_append_replicate, Text.value_zeros_append, Text.value_ofNat]
    · rw [List.length_append, List.length_replicate]
      omega
  · next hpos =>
    -- The point is among the digits.
    simp only
    rw [if_neg (by omega)]
    refine ⟨_, _, rfl, ?_, ?_, ?_, ?_⟩
    · rw [ne_eq, List.take_eq_nil_iff]
      rintro (hwhole | hnil)
      · omega
      · exact Text.ofNat_ne_nil digits hnil
    · rw [List.take_append_drop]
      exact hdigits
    · rw [List.take_append_drop, Text.value_ofNat]
    · rw [List.length_drop]
      omega

/-- Before the fourth place, a number is written with an exponent. -/
theorem layout_plain_exponent (hlow : (Text.ofNat digits).length + zeros + 3 < q) :
    ∃ c rest more, Text.ofNat digits = c :: rest ∧
      plain.layout (Text.ofNat digits) ((Text.ofNat digits).length + zeros - q - 1) =
        c :: (if rest = [] then [] else '.' :: rest) ++ 'e' :: more := by
  unfold layout
  rw [if_neg (fun h => absurd ((plain_positional_iff _).mp h) (by omega))]
  generalize hdigits : Text.ofNat digits = t
  cases t with
  | nil => exact absurd hdigits (Text.ofNat_ne_nil digits)
  | cons c rest =>
    cases rest with
    | nil => exact ⟨c, [], _, rfl, rfl⟩
    | cons c' rest => exact ⟨c, c' :: rest, _, rfl, by simp [exponentText]; rfl⟩

end FloatStyle

end Typist
