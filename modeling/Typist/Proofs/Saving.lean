import Typist.Proofs.Json.RoundTrip
import Typist.Proofs.Text.Utf8
import Typist.Settings

/-!
# Saved settings

Saving settings and loading them again gives the same settings (`load_saved`), if their commit key
names a key under their own aliases, each delay is what its text reads as, and their names are
texts. The file is ASCII, so its bytes decode and its lines end in line feeds alone; its document is
read back (`readsBack_toJson`), and the settings that the document describes are those it was made
of (`ofJson_toJson`).
-/

namespace Typist

theorem lineFeeds_of_not_mem {t : Text} (h : '\r' ∉ t) : t.lineFeeds = t := by
  induction t with
  | nil => rfl
  | cons c t ih =>
    rw [List.mem_cons, not_or] at h
    rw [Text.lineFeeds, if_neg (Ne.symm h.1), ih h.2]
    rintro rest rfl
    exact absurd rfl h.1

namespace Settings

variable {s : Settings}

/-- Are the names in the settings texts? -/
structure HasTextNames (s : Settings) : Prop where
  commitKey : s.commitKey.IsText
  keyAliases : ∀ entry ∈ s.keyAliases.entries, entry.1.IsText ∧ entry.2.IsText

theorem lookup_record (name : String) (fields : List (String × Json)) :
    (fields.map fun field => (CodePoints.ofText field.1.toList, field.2)).lookup
      (.ofText name.toList) = fields.lookup name := by
  induction fields with
  | nil => rfl
  | cons field fields ih =>
    have hname : (CodePoints.ofText name.toList == CodePoints.ofText field.1.toList) =
        (name == field.1) := by
      rw [Bool.eq_iff_iff, beq_iff_eq, beq_iff_eq, CodePoints.ofText_inj, String.toList_inj]
    rw [List.map_cons, List.lookup_cons, List.lookup_cons, hname, ih]

/-- A field that a record has is converted. -/
theorem field_record {α : Type} {name : String} {fields : List (String × Json)} {value : Json}
    (h : fields.lookup name = some value) (convert : Json → Option α) (default : α) :
    field (.record fields) name convert default = convert value := by
  rw [field, Json.record, find, lookup_record, h]
  rfl

theorem aliasesOf_entries (aliases : Aliases) :
    aliasesOf (.obj (aliases.entries.map fun e => (e.1, .str e.2))) = some aliases := by
  have hentries :
      (aliases.entries.map fun e => (e.1, Json.str e.2)).map (fun e => (e.1, e.2.asText)) =
        aliases.entries := by
    rw [List.map_map]
    exact List.map_id' _
  rw [aliasesOf, hentries, Mapping.ofList_entries]

theorem delayOf_text {d : Duration} (h : Duration.parse d.text = .ok d) :
    delayOf (.text d.text) = some d := by
  rw [Json.text, delayOf, CodePoints.text_ofText, h]
  rfl

/-- The settings that a document describes are those it was made of. -/
theorem ofJson_toJson (hchar : Duration.parse s.charDelay.text = .ok s.charDelay)
    (hline : Duration.parse s.lineDelay.text = .ok s.lineDelay) : ofJson s.toJson = .ok s := by
  rw [ofJson, show namelessKind? s.toJson = none from rfl, toJson]
  simp only
  rw [field_record rfl delayOf, delayOf_text hchar, field_record rfl delayOf, delayOf_text hline,
    field_record rfl, field_record rfl, field_record rfl, field_record rfl aliasesOf,
    aliasesOf_entries]
  rfl

/-! ## The file -/

/-- The document of settings is read back, which takes two levels. -/
theorem readsBack_toJson (h : s.HasTextNames) (levels : Nat) :
    Json.ReadsBack (levels + 2) s.toJson := by
  have haliases :
      Json.ReadsBack (levels + 1) (.obj (s.keyAliases.entries.map fun e => (e.1, .str e.2))) := by
    refine Json.readsBack_obj ?_ fun field hfield => ?_
    · rw [List.map_map]
      exact s.keyAliases.nodup_names
    · obtain ⟨entry, hentry, rfl⟩ := List.mem_map.mp hfield
      obtain ⟨hname, hvalue⟩ := h.keyAliases entry hentry
      exact ⟨hname, Json.readsBack_str hvalue⟩
  have hnames : ["char_delay", "line_delay", "focus_cycle", "honor_delays", "commit_key",
      "key_aliases"].Nodup := by
    decide
  refine Json.readsBack_record hnames ?_
  simp only [List.forall_mem_cons, List.not_mem_nil, false_implies, implies_true, and_true]
  exact ⟨Json.readsBack_str (CodePoints.isText_ofText _),
    Json.readsBack_str (CodePoints.isText_ofText _), Json.readsBack_bool _, Json.readsBack_bool _,
    Json.readsBack_str h.commitKey, haliases⟩

/-- A saved file is the text that was saved. -/
theorem textOf_saved (h : s.HasTextNames) : textOf (.ok (Utf8.encode s.saved)) = .ok s.saved := by
  have hreturn : '\r' ∉ s.saved := by
    intro hmem
    have hplain := List.all_eq_true.mp ((readsBack_toJson h 0).plain 0) _ hmem
    exact absurd hplain (by decide)
  rw [textOf, Utf8.decode_eq_ok_iff.mpr rfl]
  simp only [lineFeeds_of_not_mem hreturn]

/-- Settings that are saved load as they were, which takes two levels. -/
theorem load_saved {key : Key} (path : Text) (levels : Nat) (hcommit : s.commit = .ok key)
    (hchar : Duration.parse s.charDelay.text = .ok s.charDelay)
    (hline : Duration.parse s.lineDelay.text = .ok s.lineDelay) (hnames : s.HasTextNames) :
    load path (.ok (Utf8.encode s.saved)) (levels + 2) = .ok s := by
  have hparse : Json.parse s.saved (levels + 2) = .ok s.toJson :=
    Json.parse_indented (readsBack_toJson hnames levels)
  have hchecked : checked s.toJson = .ok s := by
    rw [checked, ofJson_toJson hchar hline]
    simp only [hcommit]
  rw [load, textOf_saved hnames]
  simp only [hparse, hchecked]

/-- An alias without characters, for a quote, a backslash, control characters and a character beyond
U+FFFF, and an alias that the commit key goes by. -/
theorem load_saved_pair :
    let aliases : Aliases := .ofList
      [(.ofText [], .ofText "\"\\\n\x00é😀".toList), (.ofText "go".toList, .ofText "enter".toList)]
    let s : Settings :=
      { lineDelay := ⟨90061001000, by decide⟩, commitKey := .ofText "go".toList,
        keyAliases := aliases }
    s.commit = .ok (.code .enter) ∧ Duration.parse s.charDelay.text = .ok s.charDelay ∧
      Duration.parse s.lineDelay.text = .ok s.lineDelay ∧ s.HasTextNames ∧
      load "settings.json".toList (.ok (Utf8.encode s.saved)) = .ok s := by
  intro aliases s
  have hcommit : s.commit = .ok (.code .enter) := rfl
  have hchar : Duration.parse s.charDelay.text = .ok s.charDelay := by decide +kernel
  have hline : Duration.parse s.lineDelay.text = .ok s.lineDelay := by decide +kernel
  have hnames : s.HasTextNames := ⟨by decide, by decide⟩
  exact ⟨hcommit, hchar, hline, hnames,
    load_saved "settings.json".toList 986 hcommit hchar hline hnames⟩

end Settings

end Typist
