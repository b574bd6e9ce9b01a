import Typist.Proofs.Snippet.RoundTrip

/-!
# How keys are spelled

The keys that tokens name, through aliases or not, are those of the vocabulary and those that type
one character (`exists_lookup_iff`). Of these, the keys that type a blank have no name, and no other
key is without one (`name?_eq_none_iff`). The name of a key spells it (`IsSpelledBy`) : it has no
separator in it and no `$`, so that between separators it is one token of a combo, whatever the
other tokens are (`readsAsToken_of_isToken`), and without aliases that token names the key.

A name may hold half of a surrogate pair. It has no separator in it either, but no text holds it, so
there is nothing to say of how it is read.
-/

namespace Typist

open LineContext

/-! ## A token among others -/

/-- Is the text empty, or does it end in a separator of tokens? -/
def EndsApart (t : Text) : Prop :=
  ∀ c, t.getLast? = some c → isComboSeparator c = true

/-- Is the text empty, or does it start with a separator of tokens? -/
def StartsApart (t : Text) : Prop :=
  ∀ c, t.head? = some c → isComboSeparator c = true

theorem comboTokens_append_of_endsApart {t : Text} (h : EndsApart t) (u : Text) :
    comboTokens (t ++ u) = comboTokens t ++ comboTokens u := by
  rcases List.eq_nil_or_concat' t with rfl | ⟨t, c, rfl⟩
  · rw [comboTokens_nil, List.nil_append, List.nil_append]
  · have hc : isComboSeparator c = true := h c (by simp)
    rw [List.append_assoc, List.singleton_append, comboTokens_append_cons t u hc,
      comboTokens_append_cons t [] hc, comboTokens_nil, List.append_nil]

theorem comboTokens_append_of_startsApart {u : Text} (h : StartsApart u) (t : Text) :
    comboTokens (t ++ u) = comboTokens t ++ comboTokens u := by
  cases u with
  | nil => rw [comboTokens_nil, List.append_nil, List.append_nil]
  | cons c u =>
    have hc : isComboSeparator c = true := h c rfl
    have hcons : comboTokens (c :: u) = comboTokens u := by
      simpa [comboTokens_nil] using comboTokens_append_cons [] u hc
    rw [comboTokens_append_cons t u hc, hcons]

theorem IsToken.not_mem {t : Text} (h : IsToken t) {c : Char} (hc : c ∈ ['+', ' ', '$']) :
    c ∉ t := by
  intro hmem
  rcases List.mem_cons.mp hc with rfl | hc
  · exact absurd (h.2.2 _ hmem) (by decide)
  rcases List.mem_cons.mp hc with rfl | hc
  · exact absurd (h.2.2 _ hmem) (by decide)
  · obtain rfl := List.mem_singleton.mp hc
    exact h.2.1 hmem

/-- Is the text, between separators, one token of every combo that it stands in? -/
def ReadsAsToken (t : Text) : Prop :=
  ∀ (ctx : LineContext) (s : Scan), s.mode = .text →
    ∀ before after : Text, '$' ∉ before → EndsApart before → '$' ∉ after → StartsApart after →
      ∀ rest : Text, ctx.scan s (['$', '!'] ++ (before ++ t ++ after) ++ ['$'] ++ rest) =
        ctx.closeCombo s (comboTokens before ++ [t] ++ comboTokens after) >>= fun closed =>
          ctx.scan closed rest

theorem readsAsToken_of_isToken {t : Text} (h : IsToken t) : ReadsAsToken t := by
  intro ctx s hs before after hbefore hends hafter hstarts rest
  have hbody : '$' ∉ before ++ t ++ after := by simp [hbefore, h.2.1, hafter]
  have htokens :
      comboTokens (before ++ t ++ after) = comboTokens before ++ [t] ++ comboTokens after := by
    rw [comboTokens_append_of_startsApart hstarts, comboTokens_append_of_endsApart hends,
      comboTokens_of_isToken h]
  rw [scan_tokens hs hbody, htokens]

/-! ## The keys that tokens name -/

namespace Key

variable {aliases : Aliases} {token name : CodePoints} {key : Key}

/-- Is the key one of the vocabulary, or one that types a single character? -/
def IsNameable : Key → Prop
  | .code c => ∃ name, (name, c) ∈ namedKeys
  | .char t => ∃ c, t = [c]

theorem isNameable_of_named? (h : named? token = some key) : key.IsNameable := by
  rcases named?_cases h with ⟨c, -, rfl⟩ | ⟨⟨name, c⟩, hmem, rfl⟩ | ⟨⟨name, c⟩, -, rfl⟩
  · exact ⟨c, rfl⟩
  · exact ⟨name, hmem⟩
  · exact ⟨.char c, rfl⟩

theorem lookup_eq_ok_iff :
    lookup aliases token = .ok key ↔ named? ((aliases.get? token).getD token) = some key := by
  unfold lookup
  dsimp only
  split <;> simp_all

theorem lookup_of_standardLookup {t : Text} (h : standardLookup t = some key) :
    lookup ∅ (.ofText t) = .ok key :=
  lookup_eq_ok_iff.mpr (standardLookup_eq_named? t ▸ h)

/-- Aliases add no keys to those that tokens name by themselves. -/
theorem exists_lookup_iff : (∃ aliases token, lookup aliases token = .ok key) ↔ key.IsNameable := by
  constructor
  · rintro ⟨aliases, token, h⟩
    exact isNameable_of_named? (lookup_eq_ok_iff.mp h)
  · intro h
    match key, h with
    | .code c, _ =>
      obtain ⟨t, -, -, ht⟩ := name?_code c
      exact ⟨∅, .ofText t, lookup_of_standardLookup ht⟩
    | .char _, ⟨c, rfl⟩ => exact ⟨∅, [c], rfl⟩

/-! ## Their names -/

/-- Is the name one that stands for the key in every combo? -/
structure IsSpelledBy (key : Key) (name : CodePoints) : Prop where
  ne_nil : name ≠ []
  isPlain : ∀ c ∈ ['+', ' ', '$'], CodePoint.char c ∉ name
  /-- The name is one token of the combos that it stands in. -/
  isRead : ∀ t, name = .ofText t → ReadsAsToken t
  /-- The token names the key by itself. -/
  means : lookup ∅ name = .ok key

theorem isSpelledBy_of_isToken {t : Text} (ht : IsToken t) (hkey : standardLookup t = some key) :
    key.IsSpelledBy (.ofText t) := by
  refine ⟨by simpa [CodePoints.ofText] using ht.1, ?_, ?_, lookup_of_standardLookup hkey⟩
  · intro c hc hmem
    have hct : c ∈ t := by simpa [CodePoints.ofText] using hmem
    exact ht.not_mem hc hct
  · intro u hu
    have htu : t = u := by simpa [CodePoints.text_ofText] using congrArg CodePoints.text hu
    exact htu ▸ readsAsToken_of_isToken ht

theorem name?_half (n : Nat) : (Key.char [.half n]).name? = some [.half n] := by
  have hblank : isBlank (CodePoint.half n).toChar = false := rfl
  simp [name?, canonicalName?, namedCharacters, CodePoints.text, hblank]

theorem isSpelledBy_half (n : Nat) : (Key.char [.half n]).IsSpelledBy [.half n] := by
  refine ⟨by simp, by simp, ?_, rfl⟩
  intro t ht
  -- a text holds no half of a pair, so none is the name
  match t with
  | [] => cases ht
  | c :: t => cases (List.cons.inj ht).1

/-- A key that a token can name types a blank, or it has a name and is spelled by it. -/
theorem isBlank_or_isSpelledBy (h : key.IsNameable) :
    key.IsBlank ∧ key.name? = none ∨
      ¬ key.IsBlank ∧ ∃ name, key.name? = some name ∧ key.IsSpelledBy name := by
  match key, h with
  | .code c, _ =>
    obtain ⟨t, hname, ht, hkey⟩ := name?_code c
    exact .inr ⟨by simp [IsBlank], .ofText t, hname, isSpelledBy_of_isToken ht hkey⟩
  | .char _, ⟨.half n, rfl⟩ =>
    exact .inr ⟨by simp [IsBlank], [.half n], name?_half n, isSpelledBy_half n⟩
  | .char _, ⟨.char c, rfl⟩ =>
    cases hblank : isBlank c with
    | true => exact .inl ⟨⟨c, rfl, hblank⟩, name?_blank hblank⟩
    | false =>
      obtain ⟨t, hname, ht, hkey⟩ := name?_char hblank
      exact .inr ⟨by simp [IsBlank, hblank], .ofText t, hname, isSpelledBy_of_isToken ht hkey⟩

theorem name?_eq_none_iff (h : key.IsNameable) : key.name? = none ↔ key.IsBlank := by
  rcases isBlank_or_isSpelledBy h with ⟨hblank, hnone⟩ | ⟨hblank, name, hname, -⟩
  · exact ⟨fun _ => hblank, fun _ => hnone⟩
  · simp [hname, hblank]

theorem isSpelledBy_of_name? (h : key.IsNameable) (hname : key.name? = some name) :
    key.IsSpelledBy name := by
  rcases isBlank_or_isSpelledBy h with ⟨-, hnone⟩ | ⟨-, name', hname', hspelled⟩
  · cases hnone.symm.trans hname
  · exact Option.some.inj (hname'.symm.trans hname) ▸ hspelled

/-- What a token names, under whatever aliases, is a key of the vocabulary or one that types a
single character. It has no name exactly if it types a blank, and the name it has otherwise spells
it. -/
theorem lookup_isSpelled (h : lookup aliases token = .ok key) :
    key.IsNameable ∧ (key.name? = none ↔ key.IsBlank) ∧ ∀ name, key.name? = some name →
      key.IsSpelledBy name := by
  have hkey : key.IsNameable := exists_lookup_iff.mp ⟨aliases, token, h⟩
  exact ⟨hkey, name?_eq_none_iff hkey, fun _ => isSpelledBy_of_name? hkey⟩

/-- An alias for a character that cannot stand in a combo itself. -/
def sumAlias : Aliases :=
  .ofList [(.ofText "sum".toList, .ofText "PLUS".toList)]

theorem lookup_isSpelled_sumAlias :
    lookup sumAlias (.ofText "sum".toList) = .ok (.char [.char '+']) ∧
      (Key.char [.char '+']).name? = some (.ofText "plus".toList) ∧
      (Key.char [.char '+']).IsSpelledBy (.ofText "plus".toList) := by
  have hlookup : lookup sumAlias (.ofText "sum".toList) = .ok (.char [.char '+']) := by
    decide +kernel
  have hname : (Key.char [.char '+']).name? = some (.ofText "plus".toList) := by decide +kernel
  exact ⟨hlookup, hname, (lookup_isSpelled hlookup).2.2 _ hname⟩

end Key

end Typist
