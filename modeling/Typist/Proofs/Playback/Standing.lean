import Typist.Proofs.Playback.Trace

/-!
# Where a script stands at a call that fails

A script whose calls are accepted up to one that fails has made the calls before it, and what is
left to do then depends on the fault and on where the script stands, and on nothing else the faults
say (`StandsAt`) : some keys are held (`Standing`), and if the call was one of the releases that
close a chord, the other releases go on. A key that was pressed and not released is held then, or is
being released (`Standing.Fits`). `follow_standsAt` : every script stands somewhere at each of its
calls.
-/

namespace Typist

/-- Where a script stands at a call : the keys that are held, and the key whose release closes a
chord, if that is the call. -/
structure Standing where
  held : List Key
  closing : Option Key

/-- The script can stand so at the call when the entries came before it. -/
structure Standing.Fits (st : Standing) (before : List Entry) (call : Call) : Prop where
  /-- No key is held twice. -/
  nodup : st.held.Nodup
  /-- A key is closing only at its release. -/
  release : ∀ key ∈ st.closing, call = .release key
  /-- A key that is owed is held, or is being released. -/
  owed : ∀ key, Journal.Owes before key → key ∈ st.held ∨ st.closing = some key

/-- What is left to do after a call that failed : after a release that closes a chord the other
releases go on, if the hardware failed. -/
def Player.afterFault (p : Player) (st : Standing) (fault : Fault) : Play Unit :=
  match st.closing with
  | none => throw (.fault fault)
  | some key =>
    if fault.isHardware then do
      Play.perform (notReleased key fault)
      p.releaseKeys st.held.reverse (some fault)
    else throw (.fault fault)

namespace Player

/-- Releasing keys fails once a release has failed. -/
theorem releaseKeys_fails (p : Player) (keys : List Key) (fault : Fault) (stage : Stage) :
    ∃ e stage', (p.releaseKeys keys (some fault)).run stage = .error e stage' := by
  induction keys generalizing stage with
  | nil => exact ⟨_, _, rfl⟩
  | cons key keys ih =>
    rw [releaseKeys_cons_run]
    cases (Play.attempt (p.sending (.release key))).run ⟨⟨keys.reverse⟩, stage.journal⟩ with
    | error e stage => exact ⟨e, stage, rfl⟩
    | ok failed stage =>
      cases failed with
      | none => exact ih stage
      | some other => exact ih ⟨stage.tracker, stage.journal ++ _⟩

theorem afterFault_fails (p : Player) (st : Standing) (fault : Fault) (stage : Stage) :
    ∃ e stage', (p.afterFault st fault).run stage = .error e stage' := by
  rw [afterFault]
  cases st.closing with
  | none => exact ⟨_, _, rfl⟩
  | some key =>
    simp only
    split
    · exact p.releaseKeys_fails st.held.reverse fault ⟨stage.tracker, stage.journal ++ _⟩
    · exact ⟨_, _, rfl⟩

/-! ## Chords -/

/-- At a call that comes after the entries, the action stands so : under all faults that this call
is the first to meet, what is left of the action to do is what `afterFault` says. -/
def StandsAt (act : Player → Play Unit) (st : Standing) (before : List Entry)
    (call : Call) : Prop :=
  ∀ settings faults journal fault, faults.Agrees journal (before ++ [.called call (some fault)]) →
    (act (onto settings faults)).run ⟨{}, journal⟩ =
      ((onto settings faults).afterFault st fault).run
        ⟨⟨st.held⟩, journal ++ before ++ [.called call (some fault)]⟩

/-- A chord whose toggles are accepted stands at a release with the keys that are released after
it. -/
theorem releases_standsAt {keys keys₁ keys₂ : List Key} {key : Key}
    (h : (Tracker.toggleAll {} keys).2.held.reverse = keys₁ ++ key :: keys₂) :
    StandsAt (fun p => p.keyCombo keys) ⟨keys₂.reverse, some key⟩
      ((Tracker.toggleAll {} keys).1.map KeyEvent.entry ++ releaseEntries keys₁)
        (.release key) := by
  intro settings faults journal fault hagrees
  rw [List.append_assoc, Faults.agrees_append, Faults.agrees_append] at hagrees
  obtain ⟨htoggled, hreleased, hmeets⟩ := hagrees
  have hheld : (Tracker.toggleAll {} keys).2 = ⟨(keys₁ ++ key :: keys₂).reverse⟩ := by
    rw [← h, List.reverse_reverse]
  rw [keyCombo_run htoggled, h, hheld, releaseKeys_run hreleased, releaseKeys_cons_run,
    attempt_release_run_of_meets hmeets]
  have hlast : (⟨keys₂.reverse, some key⟩ : Standing).held.reverse = keys₂ :=
    List.reverse_reverse keys₂
  by_cases hhardware : fault.isHardware = true
  · rw [if_pos hhardware, afterFault, hlast]
    simp only [hhardware, if_true]
    rw [List.append_assoc journal]
    rfl
  · rw [if_neg hhardware, afterFault, hlast]
    simp only [hhardware]
    rw [List.append_assoc journal]
    rfl

/-- A chord stands in its toggles, or in the releases that close it. -/
theorem keyCombo_standsAt {keys : List Key} {before after : List KeyEvent} {event : KeyEvent}
    (h : chordEvents keys = before ++ event :: after) :
    ∃ st : Standing, st.Fits (before.map KeyEvent.entry) event.call ∧
      StandsAt (fun p => p.keyCombo keys) st (before.map KeyEvent.entry) event.call := by
  have hchord : (Tracker.toggleAll {} keys).1 ++ (Tracker.toggleAll {} keys).2.releases =
    before ++ event :: after := h
  have hnodup : (Tracker.toggleAll {} keys).2.held.Nodup := Tracker.nodup_toggleAll List.nodup_nil
  rcases split_of_append hchord with ⟨mid, htoggled, -⟩ | ⟨mid, rfl, hreleases⟩
  · -- The call is a toggle : what is held is what the toggles before it hold.
    obtain ⟨first, rfl, hstands⟩ := toggleKeys_run_of_meets htoggled
    refine ⟨⟨(Tracker.toggleAll {} first).2.held, none⟩,
      ⟨Tracker.nodup_toggleAll List.nodup_nil, by simp,
        fun key howes => .inl (mem_held_of_owes howes)⟩, ?_⟩
    intro settings faults journal fault hagrees
    simp only [keyCombo, EStateM.run_bind, hstands settings faults journal fault hagrees]
    rfl
  · -- The call is a release : its key is not held any more, those released after it are.
    obtain ⟨keys₁, rest, hheld, rfl, hrest⟩ := List.map_eq_append_iff.mp hreleases
    obtain ⟨key, keys₂, rfl, rfl, -⟩ := List.map_eq_cons_iff.mp hrest
    have hsplit : (Tracker.toggleAll {} keys).2.held = keys₂.reverse ++ (key :: keys₁.reverse) := by
      rw [← List.reverse_reverse (Tracker.held _), hheld]
      simp
    rw [List.map_append, entries_releases]
    refine ⟨⟨keys₂.reverse, some key⟩, ⟨?_, by simp [KeyEvent.call], ?_⟩, releases_standsAt hheld⟩
    · rw [hsplit] at hnodup
      exact (List.nodup_append.mp hnodup).1
    · intro other howes
      rcases Journal.owes_append.mp howes with hreleased | ⟨htoggled, hnone⟩
      · exact absurd hreleased (Journal.not_owes_of_forall (by simp [releaseEntries]))
      · have hmem := mem_held_of_owes htoggled
        rw [hsplit, List.mem_append, List.mem_cons] at hmem
        rcases hmem with hlater | rfl | hearlier
        · exact .inl hlater
        · exact .inr rfl
        · exact absurd (List.mem_map_of_mem (List.mem_reverse.mp hearlier)) (hnone none)

/-! ## Moves and scripts -/

/-- No key is held at the call of an action that makes one call. -/
theorem call_standsAt {act : Player → Play Unit} {c call : Call} {before after : List Entry}
    (hact : ∀ settings faults, act (onto settings faults) = Play.perform (Act.call faults c))
    (h : [Entry.called c none] = before ++ .called call none :: after) :
    ∃ st : Standing, st.Fits before call ∧ StandsAt act st before call := by
  cases before with
  | cons entry before => simp at h
  | nil =>
    obtain ⟨rfl, -⟩ : c = call ∧ [] = after := by simpa using h
    refine ⟨⟨[], none⟩, ⟨List.nodup_nil, by simp,
      fun key howes => absurd howes Journal.not_owes_nil⟩, ?_⟩
    intro settings faults journal fault hmeets
    rw [hact, perform_call_run_of_meets hmeets, List.append_nil]
    rfl

/-- A move stands somewhere at each of its calls. -/
theorem make_standsAt {move : Move} {before after : List Entry} {call : Call}
    (h : move.entries = before ++ .called call none :: after) :
    ∃ st : Standing, st.Fits before call ∧ StandsAt (fun p => p.make move) st before call := by
  cases move with
  | focus | type c | sleep d | click key => exact call_standsAt (fun _ _ => rfl) h
  | chord keys =>
    obtain ⟨events, rest, hevents, rfl, hrest⟩ := List.map_eq_append_iff.mp h
    obtain ⟨event, events', rfl, hevent, rfl⟩ := List.map_eq_cons_iff.mp hrest
    obtain rfl : event.call = call := by simpa [KeyEvent.entry] using hevent
    exact keyCombo_standsAt hevents
  | skip number =>
    cases before with
    | nil => simp [Move.entries] at h
    | cons entry before => simp [Move.entries] at h
  | stop e => simp [Move.entries] at h

/-- A script stands somewhere at each of its calls. -/
theorem follow_standsAt {moves : List Move} {before after : List Entry} {call : Call}
    (h : scriptEntries moves = before ++ .called call none :: after) :
    ∃ st : Standing, st.Fits before call ∧ StandsAt (fun p => p.follow moves) st before call := by
  induction moves generalizing before with
  | nil => simp [scriptEntries] at h
  | cons move moves ih =>
    rcases move.stop_or_not_stop with ⟨error, rfl⟩ | hstop
    · simp [scriptEntries] at h
    · rw [scriptEntries_cons hstop] at h
      rcases split_of_append h with ⟨mid, hmove, -⟩ | ⟨mid, rfl, hmoves⟩
      · obtain ⟨st, hfits, hstands⟩ := make_standsAt hmove
        refine ⟨st, hfits, ?_⟩
        intro settings faults journal fault hmeets
        have hmove := hstands settings faults journal fault hmeets
        obtain ⟨e, stage, hfails⟩ := (onto settings faults).afterFault_fails st fault
          ⟨⟨st.held⟩, journal ++ before ++ [.called call (some fault)]⟩
        simp only at hmove ⊢
        rw [follow_cons, EStateM.run_bind, hmove, hfails]
      · obtain ⟨st, hfits, hstands⟩ := ih hmoves
        refine ⟨st, ⟨hfits.nodup, hfits.release, ?_⟩, ?_⟩
        · intro key howes
          rcases Journal.owes_append.mp howes with hlater | ⟨hearlier, -⟩
          · exact hfits.owed key hlater
          · exact absurd hearlier (move.not_owes_entries key)
        · intro settings faults journal fault hmeets
          rw [List.append_assoc, Faults.agrees_append] at hmeets
          have hmoves := hstands settings faults _ fault hmeets.2
          simp only at hmoves ⊢
          rw [follow_cons_run hstop hmeets.1, hmoves]
          simp only [List.append_assoc]

end Player

end Typist
