import Mathlib.Tactic.Common
import Typist.Proofs.Basic
import Typist.Text.Utf8

/-!
# Decoding undoes encoding

Bytes decode to a text exactly if they are its encoding (`decode_eq_ok_iff`), so the strict decoder
refuses what no text encodes to. Where it refuses, the bytes before the sequence at fault are the
longest start of them that encodes a text (`encodesUpTo_of_decode`).
-/

namespace Typist.Utf8

/-! ## One character -/

@[simp]
theorem continued_zero_eq_ok {range : Nat × Nat} {value code : Nat} {bytes : List UInt8} :
    continued 0 range value bytes = .ok code ↔ value = code := by
  simp [continued]

/-- One more byte is read if it is in range. -/
theorem continued_succ_eq_ok {count : Nat} {range : Nat × Nat} {value code : Nat}
    {bytes : List UInt8} :
    continued (count + 1) range value bytes = .ok code ↔
      ∃ b rest, bytes = b :: rest ∧ (range.1 ≤ b.toNat ∧ b.toNat ≤ range.2) ∧
        continued count (0x80, 0xbf) (value * 64 + (b.toNat - 0x80)) rest = .ok code := by
  cases bytes with
  | nil => simp [continued]
  | cons b rest =>
    obtain ⟨low, high⟩ := range
    have hcons : (∃ b' rest', b :: rest = b' :: rest' ∧ (low ≤ b'.toNat ∧ b'.toNat ≤ high) ∧
        continued count (0x80, 0xbf) (value * 64 + (b'.toNat - 0x80)) rest' = .ok code) ↔
        (low ≤ b.toNat ∧ b.toNat ≤ high) ∧
          continued count (0x80, 0xbf) (value * 64 + (b.toNat - 0x80)) rest = .ok code := by
      simp
    rw [hcons, continued]
    by_cases hrange : low ≤ b.toNat ∧ b.toNat ≤ high
    · rw [if_pos (by simpa using hrange)]
      cases hrest : continued count (0x80, 0xbf) (value * 64 + (b.toNat - 0x80)) rest
        <;> simp [hrange]
    · rw [if_neg (by simpa using hrange)]
      simp [hrange]

/-- The second byte keeps overlong forms, surrogates and what is above U+10FFFF out. -/
theorem secondRange_iff (b x : Nat) :
    (secondRange b).1 ≤ x ∧ x ≤ (secondRange b).2 ↔
      0x80 ≤ x ∧ x ≤ 0xbf ∧ (b = 0xe0 → 0xa0 ≤ x) ∧ (b = 0xed → x ≤ 0x9f) ∧ (b = 0xf0 → 0x90 ≤ x) ∧
        (b = 0xf4 → x ≤ 0x8f) := by
  unfold secondRange
  split_ifs <;> simp only <;> omega

theorem lead?_eq_some_iff (b count value : Nat) :
    lead? b = some (count, value) ↔
      (b < 0x80 ∧ count = 0 ∧ value = b) ∨
      ((0xc2 ≤ b ∧ b < 0xe0) ∧ count = 1 ∧ value = b - 0xc0) ∨
      ((0xe0 ≤ b ∧ b < 0xf0) ∧ count = 2 ∧ value = b - 0xe0) ∨
      ((0xf0 ≤ b ∧ b < 0xf5) ∧ count = 3 ∧ value = b - 0xf0) := by
  unfold lead?
  split_ifs with h1 h2 h3 h4 <;>
    simp only [Bool.and_eq_true, decide_eq_true_eq, Option.some.injEq, Prod.mk.injEq,
      false_iff] at * <;> omega

theorem toNat_ofNat_of_lt {n : Nat} (h : n < 256) : (UInt8.ofNat n).toNat = n := by
  rw [UInt8.toNat_ofNat', Nat.mod_eq_of_lt h]

/-- The bytes of a character are read as the character. -/
theorem continued_utf8EncodeChar (c : Char) (rest : List UInt8) :
    ∃ b tail value, String.utf8EncodeChar c = b :: tail ∧
      lead? b.toNat = some (tail.length, value) ∧
      continued tail.length (secondRange b.toNat) value (tail ++ rest) = .ok c.toNat := by
  have hvalid : c.val.toNat < 0xd800 ∨ 0xdfff < c.val.toNat ∧ c.val.toNat < 0x110000 := c.valid
  have hnat : c.toNat = c.val.toNat := rfl
  rw [String.utf8EncodeChar.eq_1, hnat]
  generalize c.val.toNat = v at hvalid
  have hlast : (UInt8.ofNat (v % 64 + 128)).toNat = v % 64 + 128 := toNat_ofNat_of_lt (by omega)
  have hmiddle : (UInt8.ofNat (v / 64 % 64 + 128)).toNat = v / 64 % 64 + 128 :=
    toNat_ofNat_of_lt (by omega)
  split_ifs with h1 h2 h3
  · have hfirst : (UInt8.ofNat v).toNat = v := toNat_ofNat_of_lt (by omega)
    refine ⟨_, [], v, rfl, (lead?_eq_some_iff ..).mpr ?_, by simp⟩
    rw [hfirst]
    exact .inl ⟨by omega, rfl, rfl⟩
  · have hfirst : (UInt8.ofNat (v / 64 % 32 + 192)).toNat = v / 64 % 32 + 192 :=
      toNat_ofNat_of_lt (by omega)
    refine ⟨_, [_], v / 64, rfl, (lead?_eq_some_iff ..).mpr ?_,
      continued_succ_eq_ok.mpr ⟨_, _, rfl, (secondRange_iff ..).mpr ?_,
        continued_zero_eq_ok.mpr ?_⟩⟩
    · rw [hfirst]
      exact .inr (.inl ⟨by omega, rfl, by omega⟩)
    · rw [hfirst, hlast]
      omega
    · rw [hlast]
      omega
  · have hfirst : (UInt8.ofNat (v / 4096 % 16 + 224)).toNat = v / 4096 % 16 + 224 :=
      toNat_ofNat_of_lt (by omega)
    refine ⟨_, [_, _], v / 4096, rfl, (lead?_eq_some_iff ..).mpr ?_,
      continued_succ_eq_ok.mpr ⟨_, _, rfl, (secondRange_iff ..).mpr ?_,
        continued_succ_eq_ok.mpr ⟨_, _, rfl, ?_, continued_zero_eq_ok.mpr ?_⟩⟩⟩
    · rw [hfirst]
      exact .inr (.inr (.inl ⟨by omega, rfl, by omega⟩))
    · rw [hfirst, hmiddle]
      omega
    · rw [hlast]
      omega
    · rw [hmiddle, hlast]
      omega
  · have hfirst : (UInt8.ofNat (v / 262144 % 8 + 240)).toNat = v / 262144 % 8 + 240 :=
      toNat_ofNat_of_lt (by omega)
    have hsecond : (UInt8.ofNat (v / 4096 % 64 + 128)).toNat = v / 4096 % 64 + 128 :=
      toNat_ofNat_of_lt (by omega)
    refine ⟨_, [_, _, _], v / 262144, rfl, (lead?_eq_some_iff ..).mpr ?_,
      continued_succ_eq_ok.mpr ⟨_, _, rfl, (secondRange_iff ..).mpr ?_,
        continued_succ_eq_ok.mpr ⟨_, _, rfl, ?_,
          continued_succ_eq_ok.mpr ⟨_, _, rfl, ?_, continued_zero_eq_ok.mpr ?_⟩⟩⟩⟩
    · rw [hfirst]
      exact .inr (.inr (.inr ⟨by omega, rfl, by omega⟩))
    · rw [hfirst, hsecond]
      omega
    · rw [hmiddle]
      omega
    · rw [hlast]
      omega
    · rw [hsecond, hmiddle, hlast]
      omega

/-- A valid code is that of the character it makes. -/
theorem toNat_ofNat_of_valid {code : Nat} (h : code < 0xd800 ∨ 0xdfff < code ∧ code < 0x110000) :
    (Char.ofNat code).val.toNat = code := by
  rw [Char.ofNat, dif_pos h]
  rfl

/-- Bytes that are read as a character are those of the character. -/
theorem utf8EncodeChar_of_continued {b : UInt8} {rest : List UInt8} {count value code : Nat}
    (hlead : lead? b.toNat = some (count, value))
    (hcode : continued count (secondRange b.toNat) value rest = .ok code) :
    ∃ tail later, rest = tail ++ later ∧ tail.length = count ∧
      String.utf8EncodeChar (Char.ofNat code) = b :: tail := by
  have hbyte : ∀ {n : Nat} {b' : UInt8}, n = b'.toNat → UInt8.ofNat n = b' := by
    rintro n b' rfl
    exact UInt8.ofNat_toNat
  rcases (lead?_eq_some_iff ..).mp hlead with
    ⟨hb, rfl, hvalue⟩ | ⟨hb, rfl, hvalue⟩ | ⟨hb, rfl, hvalue⟩ | ⟨hb, rfl, hvalue⟩
  · have hcode := continued_zero_eq_ok.mp hcode
    have hvalid : (Char.ofNat code).val.toNat = code := toNat_ofNat_of_valid (by omega)
    have hfirst : UInt8.ofNat code = b := hbyte (by omega)
    refine ⟨[], rest, rfl, rfl, ?_⟩
    rw [String.utf8EncodeChar.eq_1, hvalid, if_pos (by omega), hfirst]
  · obtain ⟨b₁, later, rfl, h₁, hcode⟩ := continued_succ_eq_ok.mp hcode
    have hcode := continued_zero_eq_ok.mp hcode
    have h₁ := (secondRange_iff ..).mp h₁
    have hvalid : (Char.ofNat code).val.toNat = code := toNat_ofNat_of_valid (by omega)
    refine ⟨[b₁], later, rfl, rfl, ?_⟩
    rw [String.utf8EncodeChar.eq_1, hvalid, if_neg (by omega), if_pos (by omega),
      hbyte (show _ = b.toNat by omega), hbyte (show _ = b₁.toNat by omega)]
  · obtain ⟨b₁, later, rfl, h₁, hcode⟩ := continued_succ_eq_ok.mp hcode
    obtain ⟨b₂, later, rfl, h₂, hcode⟩ := continued_succ_eq_ok.mp hcode
    have hcode := continued_zero_eq_ok.mp hcode
    have h₁ := (secondRange_iff ..).mp h₁
    have h₂ : 0x80 ≤ b₂.toNat ∧ b₂.toNat ≤ 0xbf := h₂
    have hvalid : (Char.ofNat code).val.toNat = code := toNat_ofNat_of_valid (by omega)
    refine ⟨[b₁, b₂], later, rfl, rfl, ?_⟩
    rw [String.utf8EncodeChar.eq_1, hvalid, if_neg (by omega), if_neg (by omega), if_pos (by omega),
      hbyte (show _ = b.toNat by omega), hbyte (show _ = b₁.toNat by omega),
      hbyte (show _ = b₂.toNat by omega)]
  · obtain ⟨b₁, later, rfl, h₁, hcode⟩ := continued_succ_eq_ok.mp hcode
    obtain ⟨b₂, later, rfl, h₂, hcode⟩ := continued_succ_eq_ok.mp hcode
    obtain ⟨b₃, later, rfl, h₃, hcode⟩ := continued_succ_eq_ok.mp hcode
    have hcode := continued_zero_eq_ok.mp hcode
    have h₁ := (secondRange_iff ..).mp h₁
    have h₂ : 0x80 ≤ b₂.toNat ∧ b₂.toNat ≤ 0xbf := h₂
    have h₃ : 0x80 ≤ b₃.toNat ∧ b₃.toNat ≤ 0xbf := h₃
    have hvalid : (Char.ofNat code).val.toNat = code := toNat_ofNat_of_valid (by omega)
    refine ⟨[b₁, b₂, b₃], later, rfl, rfl, ?_⟩
    rw [String.utf8EncodeChar.eq_1, hvalid, if_neg (by omega), if_neg (by omega), if_neg (by omega),
      hbyte (show _ = b.toNat by omega), hbyte (show _ = b₁.toNat by omega),
      hbyte (show _ = b₂.toNat by omega), hbyte (show _ = b₃.toNat by omega)]

/-! ## Texts -/

theorem encode_cons (c : Char) (t : Text) : encode (c :: t) = String.utf8EncodeChar c ++ encode t :=
  rfl

theorem encode_append (t u : Text) : encode (t ++ u) = encode t ++ encode u :=
  List.flatMap_append

/-- No byte of another character is a line feed. -/
theorem not_mem_utf8EncodeChar {c : Char} (hc : c ≠ '\n') :
    (10 : UInt8) ∉ String.utf8EncodeChar c := by
  have hnat : c.val.toNat ≠ 10 := fun h => hc (Char.ext (UInt32.toNat_inj.mp h))
  have hvalid : c.val.toNat < 0xd800 ∨ 0xdfff < c.val.toNat ∧ c.val.toNat < 0x110000 := c.valid
  have hbyte : ∀ n : Nat, n < 256 → n ≠ 10 → (10 : UInt8) ≠ UInt8.ofNat n := by
    intro n hn hne h
    exact hne (by rw [← toNat_ofNat_of_lt hn, ← h]; rfl)
  rw [String.utf8EncodeChar.eq_1]
  generalize c.val.toNat = v at *
  split_ifs with h1 h2 h3
  · simp only [List.mem_cons, List.not_mem_nil, or_false]
    exact hbyte v (by omega) hnat
  all_goals
    simp only [List.mem_cons, List.not_mem_nil, or_false, not_or]
    refine ⟨hbyte _ (by omega) (by omega), ?_⟩
  · exact hbyte _ (by omega) (by omega)
  · exact ⟨hbyte _ (by omega) (by omega), hbyte _ (by omega) (by omega)⟩
  · exact ⟨hbyte _ (by omega) (by omega), hbyte _ (by omega) (by omega),
      hbyte _ (by omega) (by omega)⟩

/-- The line feeds of a text are those of its bytes. -/
theorem count_encode (t : Text) : (encode t).count 10 = t.count '\n' := by
  induction t with
  | nil => rfl
  | cons c t ih =>
    rw [encode_cons, List.count_append, ih]
    by_cases hc : c = '\n'
    · subst hc
      rw [List.count_cons_self, Nat.add_comm]
      rfl
    · rw [List.count_eq_zero.mpr (not_mem_utf8EncodeChar hc), Nat.zero_add,
        List.count_cons_of_ne (by simpa using hc)]

/-- The bytes that belong to a character read already are passed over. -/
theorem decodeFrom_skip (offset : Nat) (tail rest : List UInt8) :
    decodeFrom offset tail.length (tail ++ rest) = decodeFrom (offset + tail.length) 0 rest := by
  induction tail generalizing offset with
  | nil => rfl
  | cons b tail ih =>
    rw [List.cons_append, List.length_cons, decodeFrom, ih, Nat.add_assoc, Nat.add_comm 1]

/-- A text before other bytes is decoded before them. -/
theorem decodeFrom_encode (offset : Nat) (t : Text) (rest : List UInt8) :
    decodeFrom offset 0 (encode t ++ rest) =
      (decodeFrom (offset + (encode t).length) 0 rest).map (t ++ ·) := by
  induction t generalizing offset with
  | nil =>
    show decodeFrom offset 0 rest = (decodeFrom offset 0 rest).map fun u => u
    cases decodeFrom offset 0 rest <;> rfl
  | cons c t ih =>
    obtain ⟨b, tail, value, hencode, hlead, hcode⟩ := continued_utf8EncodeChar c (encode t ++ rest)
    have hcons : encode (c :: t) = b :: (tail ++ encode t) := by
      rw [encode_cons, hencode, List.cons_append]
    have hoffset : offset + 1 + tail.length + (encode t).length =
        offset + (encode (c :: t)).length := by
      rw [hcons, List.length_cons, List.length_append]
      omega
    rw [← hoffset, hcons, List.cons_append, List.append_assoc, decodeFrom, hlead]
    simp only [hcode, decodeFrom_skip, ih, Char.ofNat_toNat]
    cases decodeFrom (offset + 1 + tail.length + (encode t).length) 0 rest <;> rfl

/-- Where decoding fails, a text comes before the place. -/
theorem decodeFrom_spec (offset : Nat) (bytes : List UInt8) :
    match decodeFrom offset 0 bytes with
    | .ok t => bytes = encode t
    | .error failure =>
      ∃ t rest, bytes = encode t ++ rest ∧ failure.offset = offset + (encode t).length := by
  induction hlength : bytes.length using Nat.strongRecOn generalizing offset bytes with
  | ind n ih =>
    cases bytes with
    | nil => rfl
    | cons b rest =>
      rw [decodeFrom]
      cases hlead : lead? b.toNat with
      | none => exact ⟨[], _, rfl, rfl⟩
      | some found =>
        obtain ⟨count, value⟩ := found
        simp only
        cases hcode : continued count (secondRange b.toNat) value rest with
        | error why => exact ⟨[], _, rfl, rfl⟩
        | ok code =>
          obtain ⟨tail, later, rfl, rfl, hencode⟩ := utf8EncodeChar_of_continued hlead hcode
          have hcons : ∀ t, encode (Char.ofNat code :: t) = b :: tail ++ encode t := fun t => by
            rw [encode_cons, hencode]
          have ih :=
            ih later.length (by simp at hlength; omega) (offset + 1 + tail.length) later rfl
          simp only [decodeFrom_skip]
          cases hlater : decodeFrom (offset + 1 + tail.length) 0 later with
          | ok t =>
            rw [hlater] at ih
            show b :: (tail ++ later) = encode (Char.ofNat code :: t)
            rw [hcons, ← ih, List.cons_append]
          | error failure =>
            rw [hlater] at ih
            obtain ⟨t, rest, rfl, hoffset⟩ := ih
            refine ⟨Char.ofNat code :: t, rest, by rw [hcons]; simp, ?_⟩
            rw [hoffset, hcons, List.length_append, List.length_cons]
            omega

/-- Bytes decode to a text exactly if they are its encoding. -/
theorem decode_eq_ok_iff {bytes : List UInt8} {t : Text} :
    decode bytes = .ok t ↔ bytes = encode t := by
  constructor
  · intro h
    have hspec := decodeFrom_spec 0 bytes
    rw [← decode, h] at hspec
    exact hspec
  · rintro rfl
    have hencode := decodeFrom_encode 0 t []
    rw [List.append_nil] at hencode
    rw [decode, hencode]
    simp [decodeFrom, Except.map]

/-- The bytes before the offset encode a text, and no more bytes from the start do. -/
structure EncodesUpTo (bytes : List UInt8) (offset : Nat) : Prop where
  start : ∃ t rest, bytes = encode t ++ rest ∧ (encode t).length = offset
  longest : ∀ t rest, bytes = encode t ++ rest → (encode t).length ≤ offset

/-- Where bytes do not decode, what comes before is the longest start of them that encodes a
text. -/
theorem encodesUpTo_of_decode {bytes : List UInt8} {failure : Failure}
    (h : decode bytes = .error failure) : EncodesUpTo bytes failure.offset := by
  rw [decode] at h
  constructor
  · have hspec := decodeFrom_spec 0 bytes
    rw [h] at hspec
    obtain ⟨t, rest, hbytes, hoffset⟩ := hspec
    exact ⟨t, rest, hbytes, by omega⟩
  · rintro t rest rfl
    have hspec := decodeFrom_spec (0 + (encode t).length) rest
    rw [decodeFrom_encode] at h
    rw [map_eq_error_iff.mp h] at hspec
    obtain ⟨u, rest', -, hoffset⟩ := hspec
    omega

end Typist.Utf8
