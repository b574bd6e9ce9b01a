import Mathlib.Data.List.DropRight
import Typist.Proofs.Text.Pieces
import Typist.Proofs.Text.Utf8
import Typist.Snippet.Reader

/-!
# Bytes and texts

The bytes of a text are read as the text. Other bytes are refused before any line is read, so
whatever the lookup and whatever was read before : the snippet read so far stays as it is. What is
raised tells the line of the first byte after the longest start that encodes a text. That line is
told by the line feeds among the bytes before it (`liesOnLine_of_append`), and these are the line
feeds of the text, so it is numbered as the lines of the text are.
-/

namespace Typist

/-- Does the byte at the offset lie on the line of the number, counted from 1? Lines are what line
feeds are between, and a line feed lies on none. -/
def LiesOnLine (bytes : List UInt8) (offset number : Nat) : Prop :=
  ∃ before line after, bytes = before ++ line ++ after ∧ (before = [] ∨ before.getLast? = some 10) ∧
    10 ∉ line ∧ (after = [] ∨ after.head? = some 10) ∧
    before.length ≤ offset ∧ offset < before.length + line.length ∧ number = before.count 10 + 1

/-- The line that is left open by bytes begins at their start or after a line feed. -/
theorem exists_lineStart (bytes : List UInt8) :
    ∃ before start, bytes = before ++ start ∧ (before = [] ∨ before.getLast? = some 10) ∧
      10 ∉ start := by
  let inLine (b : UInt8) : Bool := b ≠ 10
  refine ⟨bytes.rdropWhile inLine, bytes.rtakeWhile inLine, List.rdropWhile_append_rtakeWhile.symm,
    ?_, ?_⟩
  · by_cases hnil : bytes.rdropWhile inLine = []
    · exact .inl hnil
    · have hlast := List.rdropWhile_last_not inLine bytes hnil
      rw [List.getLast?_eq_getLast_of_ne_nil hnil]
      exact .inr (congrArg some (by simpa [inLine] using hlast))
  · exact fun h => by simpa [inLine] using List.mem_rtakeWhile_imp h

/-- A line ends at the end of the bytes or before a line feed. -/
theorem exists_lineEnd (bytes : List UInt8) :
    ∃ stop after, bytes = stop ++ after ∧ 10 ∉ stop ∧ (after = [] ∨ after.head? = some 10) := by
  let inLine (b : UInt8) : Bool := b ≠ 10
  refine ⟨bytes.takeWhile inLine, bytes.dropWhile inLine, List.takeWhile_append_dropWhile.symm, ?_,
    ?_⟩
  · exact fun h => by simpa [inLine] using List.mem_takeWhile_imp h
  · by_cases hnil : bytes.dropWhile inLine = []
    · exact .inl hnil
    · have hhead := List.head_dropWhile_not inLine hnil
      rw [List.head?_eq_some_head hnil]
      exact .inr (congrArg some (by simpa [inLine] using hhead))

/-- The line feeds before a byte tell its line. -/
theorem liesOnLine_of_append (pre : List UInt8) {b : UInt8} (hb : b ≠ 10) (rest : List UInt8) :
    LiesOnLine (pre ++ b :: rest) pre.length (pre.count 10 + 1) := by
  obtain ⟨before, start, rfl, hbefore, hstart⟩ := exists_lineStart pre
  obtain ⟨stop, after, rfl, hstop, hafter⟩ := exists_lineEnd rest
  have hline : 10 ∉ start ++ b :: stop := by simp [hstart, hstop, Ne.symm hb]
  refine ⟨before, start ++ b :: stop, after, by simp, hbefore, hline, hafter, ?_, ?_, ?_⟩
  · rw [List.length_append]
    exact Nat.le_add_right ..
  · rw [List.length_append, List.length_append, List.length_cons]
    omega
  · rw [List.count_append, List.count_eq_zero.mpr hstart, Nat.add_zero]

/-- The first byte after the longest start that encodes a text is no line feed, which would encode
one more character. -/
theorem Utf8.EncodesUpTo.exists_cons {t : Text} {rest : List UInt8}
    (h : EncodesUpTo (encode t ++ rest) (encode t).length) (hrest : rest ≠ []) :
    ∃ b later, rest = b :: later ∧ b ≠ 10 := by
  obtain ⟨b, later, rfl⟩ := List.exists_cons_of_ne_nil hrest
  refine ⟨b, later, rfl, ?_⟩
  rintro rfl
  have hfeed : encode (t ++ ['\n']) = encode t ++ [10] := encode_append t ['\n']
  have hlonger := h.longest (t ++ ['\n']) later (by rw [hfeed, List.append_assoc]; rfl)
  rw [hfeed, List.length_append] at hlonger
  exact absurd hlonger (by simp)

/-- What comes of bytes, by the texts they encode or begin with. -/
structure ReadsAsUtf8 (bytes : List UInt8) : Prop where
  /-- The bytes of a text are read as the text. -/
  encoded : ∀ t, bytes = Utf8.encode t → ∀ lookup,
    Snippet.readBytes lookup bytes = Snippet.readText lookup t ∧
      Snippet.parseBytes lookup bytes = Snippet.parse lookup t
  /-- Other bytes are refused on the line of the first byte after the longest text they begin with.
  Nothing is looked up, and the snippet read so far stays as it is. -/
  refused : (∀ t, bytes ≠ Utf8.encode t) →
    ∃ t rest reason, ∃ number : Nat, bytes = Utf8.encode t ++ rest ∧
      Utf8.EncodesUpTo bytes (Utf8.encode t).length ∧
      LiesOnLine bytes (Utf8.encode t).length number ∧ number = (t.pieces '\n').length ∧
      ∀ lookup,
        (∀ σ, Snippet.readBytes lookup bytes σ =
          .error (.snippet ⟨.undecodable reason, some number⟩) σ) ∧
          Snippet.parseBytes lookup bytes = .error (.snippet ⟨.undecodable reason, some number⟩)

/-- Whatever the bytes, they are read as the text they encode, or refused where they stop to encode
one. -/
theorem parseBytes_readsAsUtf8 (bytes : List UInt8) : ReadsAsUtf8 bytes where
  encoded t hbytes lookup := by
    have hread : Snippet.readBytes lookup bytes = Snippet.readText lookup t := by
      rw [Snippet.readBytes, Utf8.decode_eq_ok_iff.mpr hbytes]
    exact ⟨hread, by rw [Snippet.parseBytes, hread, Snippet.parse]⟩
  refused hnone := by
    cases hdecode : Utf8.decode bytes with
    | ok t => exact absurd (Utf8.decode_eq_ok_iff.mp hdecode) (hnone t)
    | error failure =>
      have hupTo := Utf8.encodesUpTo_of_decode hdecode
      obtain ⟨t, rest, rfl, hoffset⟩ := hupTo.start
      rw [← hoffset] at hupTo
      have hrest : rest ≠ [] := by
        rintro rfl
        exact hnone t (List.append_nil _)
      obtain ⟨b, later, rfl, hb⟩ := hupTo.exists_cons hrest
      have hnumber : Snippet.lineOfOffset (Utf8.encode t ++ b :: later) failure.offset =
          (t.pieces '\n').length := by
        rw [Snippet.lineOfOffset, ← hoffset, List.take_left, Utf8.count_encode, Text.length_pieces]
      have hlies := liesOnLine_of_append (Utf8.encode t) hb later
      rw [Utf8.count_encode, ← Text.length_pieces] at hlies
      have hraised : ∀ lookup, Snippet.readBytes lookup (Utf8.encode t ++ b :: later) =
          throw (.snippet ⟨.undecodable failure.reason.message,
            some ((t.pieces '\n').length : Nat)⟩) := by
        intro lookup
        rw [Snippet.readBytes, hdecode, ← hnumber]
      refine ⟨t, b :: later, failure.reason.message, (t.pieces '\n').length, rfl, hupTo, hlies, rfl,
        fun lookup => ?_⟩
      refine ⟨fun σ => by rw [hraised]; rfl, ?_⟩
      rw [Snippet.parseBytes, hraised]
      rfl

/-- A line of one character, and on the next the three bytes that would make a surrogate. -/
def surrogateBytes : List UInt8 :=
  [0x61, 0x0a, 0xed, 0xa0, 0x80, 0x0a]

theorem parseBytes_readsAsUtf8_surrogateBytes :
    (∀ t, surrogateBytes ≠ Utf8.encode t) ∧
      Snippet.parseBytes (fun _ => none) surrogateBytes =
        .error (.snippet ⟨.undecodable "invalid continuation byte", some 2⟩) ∧
      ∃ t, (t.pieces '\n').length = 2 ∧ Utf8.EncodesUpTo surrogateBytes (Utf8.encode t).length ∧
        LiesOnLine surrogateBytes (Utf8.encode t).length 2 := by
  have hnone : ∀ t, surrogateBytes ≠ Utf8.encode t := by
    intro t ht
    have hdecode : Utf8.decode surrogateBytes = .error ⟨2, [0xed], .continuationByte⟩ := by
      decide +kernel
    rw [Utf8.decode_eq_ok_iff.mpr ht] at hdecode
    cases hdecode
  have hparse : Snippet.parseBytes (fun _ => none) surrogateBytes =
      .error (.snippet ⟨.undecodable "invalid continuation byte", some 2⟩) := by
    rfl
  obtain ⟨t, rest, reason, number, -, hupTo, hlies, hnumber, hraised⟩ :=
    (parseBytes_readsAsUtf8 surrogateBytes).refused hnone
  have herror := Except.error.inj ((hraised fun _ => none).2.symm.trans hparse)
  have hline : (number : Int) = 2 := by
    injection herror with herror
    injection herror with _ hline
    exact Option.some.inj hline
  obtain rfl : number = 2 := by omega
  exact ⟨hnone, hparse, t, hnumber.symm, hupTo, hlies⟩

end Typist
