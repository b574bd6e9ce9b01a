import Typist.Proofs.Json.Reading
import Typist.Proofs.Saving
import Typist.Proofs.Settings

/-!
# Loading is all or nothing

A settings file gives settings whose commit key names a key, or it is at fault. The one thing that
is neither is a document that begins an array or object beyond the levels there are. If the document
is an object, the settings are those that its members describe : of members with the same name the
last counts, and a field that is not named has its default (`load_allOrNothing`).
-/

namespace Typist

/-! ## What values stand for -/

/-- Does a value stand for the delay? -/
inductive Json.MeansDelay : Json → Duration → Prop
  /-- A number of milliseconds. -/
  | millis {n : Int} {d : Duration} : d.micros = n * 1000 → MeansDelay (.int n) d
  /-- True and false count as one and zero. -/
  | truth {b : Bool} {d : Duration} : d.micros = (if b then 1000 else 0) → MeansDelay (.bool b) d
  | written {p : CodePoints} {d : Duration} : Duration.parse p.text = .ok d → MeansDelay (.str p) d

/-- Does a value stand for the other names of keys? It is an object then, whose values are taken as
text. -/
def Json.MeansAliases (v : Json) (aliases : Aliases) : Prop :=
  ∃ fields, v = .obj fields ∧ aliases = .ofList (fields.map fun field => (field.1, field.2.asText))

theorem Duration.ofMillis?_eq_some_iff {n : Int} {d : Duration} :
    Duration.ofMillis? n = some d ↔ d.micros = n * 1000 := by
  rw [ofMillis?, ofMicros?]
  split
  · next hrange =>
    rw [Option.some.injEq]
    constructor
    · rintro rfl
      rfl
    · intro hmicros
      cases d
      cases hmicros
      rfl
  · next hrange =>
    refine ⟨nofun, fun hmicros => ?_⟩
    exact absurd (hmicros ▸ d.inRange) hrange

namespace Settings

theorem delayOf_eq_some_iff {v : Json} {d : Duration} : delayOf v = some d ↔ v.MeansDelay d := by
  constructor
  · intro h
    cases v with
    | int n => exact .millis (Duration.ofMillis?_eq_some_iff.mp h)
    | bool b =>
      refine .truth ((Duration.ofMillis?_eq_some_iff.mp h).trans ?_)
      cases b <;> rfl
    | str p =>
      rw [delayOf] at h
      cases hparse : Duration.parse p.text with
      | error e =>
        rw [hparse] at h
        cases h
      | ok d' =>
        rw [hparse] at h
        obtain rfl := Option.some.inj h
        exact .written hparse
    | null | float | arr | obj => cases h
  · intro h
    cases h with
    | millis h => exact Duration.ofMillis?_eq_some_iff.mpr h
    | @truth b d h =>
      refine Duration.ofMillis?_eq_some_iff.mpr (h.trans ?_)
      cases b <;> rfl
    | written h =>
      rw [delayOf, h]
      rfl

theorem aliasesOf_eq_some_iff {v : Json} {aliases : Aliases} :
    aliasesOf v = some aliases ↔ v.MeansAliases aliases := by
  cases v with
  | obj fields =>
    rw [aliasesOf, Option.some.injEq]
    refine ⟨fun h => ⟨fields, rfl, h.symm⟩, ?_⟩
    rintro ⟨_, heq, rfl⟩
    cases heq
    rfl
  | null | bool | int | float | str | arr =>
    constructor
    · intro h
      cases h
    · rintro ⟨_, heq, -⟩
      cases heq

/-! ## What members describe -/

section

variable {α : Type} {ms : List (CodePoints × Json)} {name : String}

/-- Do the members give the field of the name this value? It is what the last member of the name
means, or the default if there is none. -/
def Gives (ms : List (CodePoints × Json)) (name : String) (means : Json → α → Prop)
    (default a : α) : Prop :=
  match ms.reverse.lookup (.ofText name.toList) with
  | none => a = default
  | some v => means v a

/-- Are these the settings that the members of an object describe? -/
structure IsDescribedBy (s : Settings) (ms : List (CodePoints × Json)) : Prop where
  charDelay : Gives ms "char_delay" Json.MeansDelay standard.charDelay s.charDelay
  lineDelay : Gives ms "line_delay" Json.MeansDelay standard.lineDelay s.lineDelay
  focusCycle : Gives ms "focus_cycle" (fun v on => on = v.isTrue) standard.focusCycle s.focusCycle
  honorDelays : Gives ms "honor_delays" (fun v on => on = v.isTrue) standard.honorDelays
    s.honorDelays
  commitKey : Gives ms "commit_key" (fun v key => key = v.asText) standard.commitKey s.commitKey
  keyAliases : Gives ms "key_aliases" Json.MeansAliases standard.keyAliases s.keyAliases

/-- A field of the object is what its members give. -/
theorem field_ofMembers {means : Json → α → Prop} {convert : Json → Option α} {default a : α}
    (h : ∀ v, convert v = some a ↔ means v a) :
    field (Json.ofMembers ms) name convert default = some a ↔ Gives ms name means default a := by
  have hlookup : (Mapping.ofList ms).entries.lookup (.ofText name.toList) =
      ms.reverse.lookup (.ofText name.toList) := by
    calc
      (Mapping.ofList ms).entries.lookup (.ofText name.toList) =
          (Mapping.ofList ms).get? (.ofText name.toList) := (lookup_decidable _ _).symm
      _ = _ := (Mapping.get?_setAll Mapping.empty ms _).trans (Option.or_none ..)
      _ = ms.reverse.lookup (.ofText name.toList) := lookup_decidable _ _
  rw [field, Json.ofMembers, find, hlookup, Gives]
  cases ms.reverse.lookup (.ofText name.toList) with
  | none => exact Option.some_inj.trans eq_comm
  | some v => exact h v

/-- An object loads as the settings that its members describe. -/
theorem ofJson_ofMembers {s : Settings} :
    ofJson (Json.ofMembers ms) = .ok s ↔ s.IsDescribedBy ms := by
  have hfields : s.IsDescribedBy ms ↔
      field (Json.ofMembers ms) "char_delay" delayOf standard.charDelay = some s.charDelay ∧
      field (Json.ofMembers ms) "line_delay" delayOf standard.lineDelay = some s.lineDelay ∧
      field (Json.ofMembers ms) "focus_cycle" (some ·.isTrue) standard.focusCycle =
        some s.focusCycle ∧
      field (Json.ofMembers ms) "honor_delays" (some ·.isTrue) standard.honorDelays =
        some s.honorDelays ∧
      field (Json.ofMembers ms) "commit_key" (some ·.asText) standard.commitKey = some s.commitKey ∧
      field (Json.ofMembers ms) "key_aliases" aliasesOf standard.keyAliases =
        some s.keyAliases := by
    have hdelay : ∀ {d : Duration} (v : Json), delayOf v = some d ↔ v.MeansDelay d :=
      fun _ => delayOf_eq_some_iff
    have htrue : ∀ {on : Bool} (v : Json), some v.isTrue = some on ↔ on = v.isTrue :=
      fun _ => Option.some_inj.trans eq_comm
    have htext : ∀ {key : CodePoints} (v : Json), some v.asText = some key ↔ key = v.asText :=
      fun _ => Option.some_inj.trans eq_comm
    exact ⟨fun h => ⟨(field_ofMembers hdelay).mpr h.charDelay,
      (field_ofMembers hdelay).mpr h.lineDelay, (field_ofMembers htrue).mpr h.focusCycle,
      (field_ofMembers htrue).mpr h.honorDelays, (field_ofMembers htext).mpr h.commitKey,
      (field_ofMembers fun _ => aliasesOf_eq_some_iff).mpr h.keyAliases⟩,
      fun ⟨h₁, h₂, h₃, h₄, h₅, h₆⟩ => ⟨(field_ofMembers hdelay).mp h₁,
        (field_ofMembers hdelay).mp h₂, (field_ofMembers htrue).mp h₃,
        (field_ofMembers htrue).mp h₄, (field_ofMembers htext).mp h₅,
        (field_ofMembers fun _ => aliasesOf_eq_some_iff).mp h₆⟩⟩
  rw [hfields, ofJson, show namelessKind? (Json.ofMembers ms) = none from rfl]
  simp only
  constructor
  · intro h
    split at h
    · next h₁ h₂ h₃ h₄ h₅ h₆ =>
      obtain rfl := Except.ok.inj h
      exact ⟨h₁, h₂, h₃, h₄, h₅, h₆⟩
    · cases h
  · rintro ⟨h₁, h₂, h₃, h₄, h₅, h₆⟩
    rw [h₁, h₂, h₃, h₄, h₅, h₆]

end

/-! ## What loads -/

section

variable {content : Except FileError (List UInt8)}

/-- The text of a file is what its bytes encode, with line feeds for all ends of lines. -/
theorem textOf_eq_ok_iff {t : Text} :
    textOf content = .ok t ↔ ∃ u, content = .ok (Utf8.encode u) ∧ u.lineFeeds = t := by
  cases content with
  | error e => simp [textOf]
  | ok bytes =>
    simp only [textOf, Except.ok.injEq, ← Utf8.decode_eq_ok_iff]
    cases Utf8.decode bytes <;> simp

/-- Loading gives settings with a key that ends lines, or the file is at fault, or it ends for the
depth of the document. -/
theorem load_cases (path : Text) (content : Except FileError (List UInt8)) (levels : Nat) :
    (∃ s key, load path content levels = .ok s ∧ s.commit = .ok key) ∨
      (∃ fault, load path content levels = .error (.settings ⟨path, fault⟩)) ∨
        load path content levels = .error .tooDeep := by
  cases hload : load path content levels with
  | ok s =>
    obtain ⟨key, hkey⟩ := commit_of_load hload
    exact .inl ⟨s, key, rfl, hkey⟩
  | error e =>
    cases e with
    | tooDeep => exact .inr (.inr rfl)
    | settings error =>
      obtain rfl := path_of_load hload
      exact .inr (.inl ⟨error.fault, rfl⟩)

end

/-- Is what comes of a settings file all of it, or nothing, if documents may be nested so many
levels? -/
structure LoadsAllOrNothing (path : Text) (content : Except FileError (List UInt8))
    (levels : Nat) : Prop where
  /-- Loading gives settings with a key that ends lines, or the file is at fault, unless its
  document is nested too deeply. -/
  settles : (∃ s key, load path content levels = .ok s ∧ s.commit = .ok key) ∨
    (∃ fault, load path content levels = .error (.settings ⟨path, fault⟩)) ∨
      load path content levels = .error .tooDeep
  /-- Only a document that begins an array or object beyond the levels there are is nested too
  deeply. -/
  tooDeep_iff : load path content levels = .error .tooDeep ↔
    ∃ u, content = .ok (Utf8.encode u) ∧ Json.NestsBeyond levels u.lineFeeds
  /-- What loads of an object are the settings that its members describe. -/
  object : ∀ u n ms, content = .ok (Utf8.encode u) → Json.IsDocument n u.lineFeeds (.object ms) →
    ∀ s : Settings, load path content levels = .ok s ↔
      ¬ Json.NestsBeyond levels u.lineFeeds ∧ s.IsDescribedBy ms ∧ ∃ key, s.commit = .ok key

/-- Loading settings is all or nothing, but for documents that are nested too deeply. -/
theorem load_allOrNothing (path : Text) (content : Except FileError (List UInt8)) (levels : Nat) :
    LoadsAllOrNothing path content levels where
  settles := load_cases path content levels
  tooDeep_iff := by
    rw [load_eq_tooDeep_iff]
    constructor
    · rintro ⟨t, htext, hparse⟩
      obtain ⟨u, hcontent, rfl⟩ := textOf_eq_ok_iff.mp htext
      exact ⟨u, hcontent, Json.parse_eq_tooDeep_iff.mp hparse⟩
    · rintro ⟨u, hcontent, hbeyond⟩
      exact ⟨_, textOf_eq_ok_iff.mpr ⟨u, hcontent, rfl⟩, Json.parse_eq_tooDeep_iff.mpr hbeyond⟩
  object u n ms hcontent hdocument s := by
    have htext : textOf content = .ok u.lineFeeds := textOf_eq_ok_iff.mpr ⟨u, hcontent, rfl⟩
    rw [← Json.parse_eq_tooDeep_iff, load_eq_ok_iff, ← ofJson_ofMembers]
    rcases Json.parse_of_isDocument_object hdocument with hdeep | hobject
    · refine ⟨?_, fun ⟨hnot, _⟩ => absurd hdeep hnot⟩
      rintro ⟨t, document, htext', hparse, -⟩
      obtain rfl := Except.ok.inj (htext.symm.trans htext')
      rw [hdeep] at hparse
      cases hparse
    · constructor
      · rintro ⟨t, document, htext', hparse, hdescribed⟩
        obtain rfl := Except.ok.inj (htext.symm.trans htext')
        obtain rfl := Except.ok.inj (hobject.symm.trans hparse)
        exact ⟨by rw [hobject]; exact nofun, hdescribed⟩
      · rintro ⟨-, hdescribed⟩
        exact ⟨_, _, htext, hobject, hdescribed⟩

/-- An object that gives a delay twice, and has a name that no field goes by. -/
def repeatedDelay : Text :=
  "\x7b\"char_delay\": 7, \"colour\": [],\r\n\"char_delay\": \"2ms\"\x7d".toList

theorem load_allOrNothing_repeatedDelay :
    load "settings.json".toList (.ok (Utf8.encode repeatedDelay)) =
      .ok { charDelay := ⟨2000, by decide⟩ } := by
  have hdocument : Json.IsDocument Json.nestingLimit repeatedDelay.lineFeeds (.object
      [(.ofText "char_delay".toList, .int 7), (.ofText "colour".toList, .arr []),
        (.ofText "char_delay".toList, .str (.ofText "2ms".toList))]) := by
    refine ⟨by decide, [], .object (.member rfl (.scalar rfl) rfl
      (.member rfl (.emptyArray rfl) rfl (.lastMember rfl (.str rfl) rfl))), rfl⟩
  have hdescribed : IsDescribedBy { charDelay := ⟨2000, by decide⟩ }
      [(.ofText "char_delay".toList, .int 7), (.ofText "colour".toList, .arr []),
        (.ofText "char_delay".toList, .str (.ofText "2ms".toList))] :=
    ⟨.written (by decide +kernel), rfl, rfl, rfl, rfl, rfl⟩
  exact ((load_allOrNothing _ _ Json.nestingLimit).object _ _ _ rfl hdocument _).mpr
    ⟨Json.not_nestsBeyond hdocument, hdescribed, .code .enter, by decide⟩

/-- A file of brackets that open and do not close is not told to be at fault, if they are more than
the levels there are. -/
theorem load_brackets (path : Text) {levels k : Nat} (h : levels < k) :
    load path (.ok (Utf8.encode (List.replicate k '['))) levels = .error .tooDeep := by
  have hlines : Text.lineFeeds (List.replicate k '[') = List.replicate k '[' :=
    lineFeeds_of_not_mem fun hmem => absurd (List.eq_of_mem_replicate hmem) (by decide)
  have hmark : (List.replicate k '[').head? ≠ some '\ufeff' := fun hhead =>
    absurd (List.eq_of_mem_replicate (List.mem_of_mem_head? hhead)) (by decide)
  have hskip : Json.skipSpace (List.replicate k '[') = List.replicate k '[' := by
    obtain ⟨k, rfl⟩ := Nat.exists_eq_succ_of_ne_zero (Nat.ne_of_gt (Nat.zero_lt_of_lt h))
    rfl
  have hexceeds := Json.exceeds_replicate h []
  rw [List.append_nil] at hexceeds
  refine load_eq_tooDeep_iff.mpr ⟨_, textOf_eq_ok_iff.mpr ⟨_, rfl, hlines⟩,
    Json.parse_eq_tooDeep_iff.mpr ⟨hmark, ?_⟩⟩
  rwa [hskip]

end Settings

end Typist
