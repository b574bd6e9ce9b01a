import Typist.Proofs.Playback.Faults
import Typist.Proofs.Playback.Rendering

/-!
# The calls of a script

`Player.onto` is the player on a keyboard and a clock of which every operation is a call that may
meet a fault. Under faults that meet none of the calls of a script, following the script makes these
calls and holds no key at the end (`follow_run`), and after every press it has made a release of the
key (`not_owes_scriptEntries`). Toggling keys stops at the first call that fails, with the keys held
as they were before it (`toggleKeys_run_of_meets`).
-/

namespace Typist

/-! ## Accepted calls -/

theorem Move.entries_accepted (move : Move) : ∀ entry ∈ move.entries, entry.isAccepted := by
  cases move <;> simp [entries, Entry.isAccepted, KeyEvent.entry]

theorem scriptEntries_accepted (moves : List Move) :
    ∀ entry ∈ scriptEntries moves, entry.isAccepted := by
  induction moves with
  | nil => simp [scriptEntries]
  | cons move moves ih =>
    rcases move.stop_or_not_stop with ⟨error, rfl⟩ | hstop
    · simp [scriptEntries]
    · rw [scriptEntries_cons hstop]
      exact List.forall_mem_append.mpr ⟨move.entries_accepted, ih⟩

theorem entries_accepted (events : List KeyEvent) :
    ∀ entry ∈ events.map KeyEvent.entry, entry.isAccepted := by
  simp [Entry.isAccepted, KeyEvent.entry]

/-! ## Releases and presses of a chord -/

theorem owes_of_events {events : List KeyEvent} {key : Key}
    (h : Journal.Owes (events.map KeyEvent.entry) key) :
    ∃ before after, events = before ++ .press key :: after ∧ .release key ∉ after := by
  obtain ⟨before, rest, heq, hafter⟩ := h
  obtain ⟨before, rest', rfl, -, hrest⟩ := List.map_eq_append_iff.mp heq
  obtain ⟨event, after, rfl, hevent, rfl⟩ := List.map_eq_cons_iff.mp hrest
  cases event with
  | release other => simp at hevent
  | press other =>
    obtain rfl : other = key := by simpa using hevent
    exact ⟨before, after, rfl, fun hmem => hafter none (List.mem_map_of_mem hmem)⟩

/-- A key that is owed while keys are toggled is held. -/
theorem mem_held_of_owes {keys : List Key} {key : Key}
    (h : Journal.Owes ((Tracker.toggleAll {} keys).1.map KeyEvent.entry) key) :
    key ∈ (Tracker.toggleAll {} keys).2.held := by
  obtain ⟨before, after, hevents, hafter⟩ := owes_of_events h
  rw [Tracker.held_toggleAll, mem_keysDown, hevents]
  exact (leavesDown_of_press hafter).after before

/-- A move lets go of every key that it presses. -/
theorem Move.not_owes_entries (move : Move) (key : Key) : ¬ Journal.Owes move.entries key := by
  cases move with
  | chord keys =>
    intro howes
    obtain ⟨before, after, hevents, hafter⟩ := owes_of_events howes
    exact hafter (released_of_chordEvents hevents)
  | focus | type c | sleep d | click key | skip number | stop error =>
    exact Journal.not_owes_of_forall (by simp [entries])

theorem not_owes_scriptEntries (moves : List Move) (key : Key) :
    ¬ Journal.Owes (scriptEntries moves) key := by
  induction moves with
  | nil => exact Journal.not_owes_nil
  | cons move moves ih =>
    rcases move.stop_or_not_stop with ⟨error, rfl⟩ | hstop
    · exact Journal.not_owes_nil
    · rw [scriptEntries_cons hstop, Journal.owes_append]
      rintro (howes | ⟨howes, -⟩)
      · exact ih howes
      · exact move.not_owes_entries key howes

/-! ## One call -/

/-- The player on a keyboard and a clock of which every operation is a call. -/
def Player.onto (settings : Settings) (faults : Faults) : Player :=
  ⟨Keyboard.direct faults, settings, fun d => Act.call faults (.sleep d)⟩

section

variable {faults : Faults} {journal : Journal} {t : Tracker}

theorem perform_call_run_of_meets {call : Call} {fault : Fault}
    (h : faults.Agrees journal [.called call (some fault)]) :
    (Play.perform (Act.call faults call)).run ⟨t, journal⟩ =
      .error (.fault fault) ⟨t, journal ++ [.called call (some fault)]⟩ :=
  perform_run_of_error (call_run_of_fault h.1)

end

namespace Player

variable {settings : Settings} {faults : Faults} {journal : Journal} {t : Tracker}

/-- Where every operation is a call, a call is rendered as it stands. -/
theorem act?_onto {settings : Settings} {call : Call} {act : Act Unit}
    (h : act ∈ (onto settings faults).act? call) : act = Act.call faults call := by
  cases call with
  | controllerPress | controllerRelease | input => cases h
  | press | release | click | type | focus | sleep => exact (Option.some.inj h).symm

/-- Accepted entries happen on such a keyboard as they stand. -/
theorem renders_of_agrees (settings : Settings) {entries : List Entry}
    (haccepted : ∀ entry ∈ entries, entry.isAccepted) (h : faults.Agrees journal entries) :
    (onto settings faults).Renders (fun call => [.called call none]) journal entries ∧
      renderedEntries (fun call => [.called call none]) entries = entries := by
  induction entries generalizing journal with
  | nil => exact ⟨trivial, rfl⟩
  | cons entry entries ih =>
    obtain ⟨hentry, hentries⟩ := List.forall_mem_cons.mp haccepted
    obtain ⟨hrenders, hrendered⟩ := ih hentries h.2
    have hsame : entry.rendered (fun call => [.called call none]) = [entry] := by
      cases entry with
      | called call fault =>
        cases fault with
        | none => rfl
        | some fault => simp [Entry.isAccepted] at hentry
      | recorded | printed | noticed | spaced => rfl
    refine ⟨⟨?_, hsame ▸ hrenders⟩, by rw [renderedEntries_cons, hsame, hrendered,
      List.singleton_append]⟩
    cases entry with
    | called call fault =>
      intro act hact
      obtain rfl : fault = none := by simpa [Entry.rendered] using hsame.symm
      rw [act?_onto hact]
      exact call_run_of_none h.1
    | recorded | printed | noticed | spaced => trivial

theorem onto_sending (event : KeyEvent) :
    (onto settings faults).sending event = Act.call faults event.call := by
  cases event <;> rfl

/-! ## Toggling -/

theorem toggleKeys_append (p : Player) (keys keys' : List Key) :
    p.toggleKeys (keys ++ keys') = p.toggleKeys keys >>= fun _ => p.toggleKeys keys' := by
  induction keys with
  | nil => simp [toggleKeys]
  | cons key keys ih => simp [toggleKeys, ih]

theorem toggleKeys_run {keys : List Key}
    (h : faults.Agrees journal ((t.toggleAll keys).1.map KeyEvent.entry)) :
    ((onto settings faults).toggleKeys keys).run ⟨t, journal⟩ =
      .ok () ⟨(t.toggleAll keys).2, journal ++ (t.toggleAll keys).1.map KeyEvent.entry⟩ := by
  obtain ⟨hrenders, hrendered⟩ := renders_of_agrees settings (entries_accepted _) h
  rw [toggleKeys_run_of_renders hrenders, hrendered]

/-- Toggling stops at the first event that is not accepted, with the keys held as they were before
it. -/
theorem toggleKeys_run_of_meets {keys : List Key} {before after : List KeyEvent} {event : KeyEvent}
    (h : (t.toggleAll keys).1 = before ++ event :: after) :
    ∃ first, (t.toggleAll first).1 = before ∧ ∀ settings faults journal fault,
      faults.Agrees journal (before.map KeyEvent.entry ++ [.called event.call (some fault)]) →
      ((onto settings faults).toggleKeys keys).run ⟨t, journal⟩ =
        .error (.fault fault) ⟨(t.toggleAll first).2,
          journal ++ before.map KeyEvent.entry ++ [.called event.call (some fault)]⟩ := by
  obtain ⟨first, key, rest, rfl, rfl, rfl⟩ := Tracker.toggleAll_split h
  refine ⟨first, rfl, ?_⟩
  intro settings faults journal fault hagrees
  obtain ⟨hbefore, hmeets⟩ := Faults.agrees_append.mp hagrees
  rw [toggleKeys_append, EStateM.run_bind, toggleKeys_run hbefore]
  simp only
  rw [toggleKeys_cons_run, EStateM.run_bind, EStateM.run_bind, send, onto_sending,
    perform_call_run_of_meets hmeets]

/-! ## Releasing -/

theorem attempt_release_run {key : Key} (h : faults.Agrees journal [.called (.release key) none]) :
    (Play.attempt ((onto settings faults).sending (.release key))).run ⟨t, journal⟩ =
      .ok none ⟨t, journal ++ [.called (.release key) none]⟩ := by
  simp [onto_sending, KeyEvent.call, Play.attempt, EStateM.run, Act.call,
    show faults journal (.release key) = none from h.1]

theorem attempt_release_run_of_meets {key : Key} {fault : Fault}
    (h : faults.Agrees journal [.called (.release key) (some fault)]) :
    (Play.attempt ((onto settings faults).sending (.release key))).run ⟨t, journal⟩ =
      if fault.isHardware then
        .ok (some fault) ⟨t, journal ++ [.called (.release key) (some fault)]⟩
      else .error (.fault fault) ⟨t, journal ++ [.called (.release key) (some fault)]⟩ := by
  simp [onto_sending, KeyEvent.call, Play.attempt, EStateM.run, Act.call,
    show faults journal (.release key) = some fault from h.1]

/-- The entry of a notice that a key was not released. -/
def notReleasedEntry (key : Key) (fault : Fault) : Entry :=
  .noticed ⟨.warning, "Could not release " ++ key.shown.str ++ ": " ++ fault.message⟩

@[simp]
theorem calls_notReleasedEntry (key : Key) (fault : Fault) (j : Journal) :
    Journal.calls (notReleasedEntry key fault :: j) = Journal.calls j :=
  rfl

theorem perform_notReleased_run (key : Key) (fault : Fault) :
    (Play.perform (notReleased key fault)).run ⟨t, journal⟩ =
      .ok () ⟨t, journal ++ [notReleasedEntry key fault]⟩ :=
  rfl

/-- After a release that is accepted the other keys are released. -/
theorem releaseKeys_cons_run_of_agrees {key : Key} {keys : List Key} {failure : Option Fault}
    (h : faults.Agrees journal [.called (.release key) none]) :
    ((onto settings faults).releaseKeys (key :: keys) failure).run ⟨t, journal⟩ =
      ((onto settings faults).releaseKeys keys failure).run
        ⟨⟨keys.reverse⟩, journal ++ [.called (.release key) none]⟩ := by
  rw [releaseKeys_cons_run, attempt_release_run h]

/-- After a release that fails with the hardware the other keys are released too. -/
theorem releaseKeys_cons_run_of_hardware {key : Key} {keys : List Key} {failure : Option Fault}
    {fault : Fault} (h : faults.Agrees journal [.called (.release key) (some fault)])
    (hhardware : fault.isHardware = true) :
    ((onto settings faults).releaseKeys (key :: keys) failure).run ⟨t, journal⟩ =
      ((onto settings faults).releaseKeys keys (failure.or (some fault))).run
        ⟨⟨keys.reverse⟩, journal ++ [.called (.release key) (some fault),
          notReleasedEntry key fault]⟩ := by
  rw [releaseKeys_cons_run, attempt_release_run_of_meets h, if_pos hhardware]
  simp only
  rw [EStateM.run_bind, perform_notReleased_run]
  simp

/-- A release that fails in another way ends it. -/
theorem releaseKeys_cons_run_of_not_hardware {key : Key} {keys : List Key} {failure : Option Fault}
    {fault : Fault} (h : faults.Agrees journal [.called (.release key) (some fault)])
    (hhardware : ¬ fault.isHardware = true) :
    ((onto settings faults).releaseKeys (key :: keys) failure).run ⟨t, journal⟩ =
      .error (.fault fault) ⟨⟨keys.reverse⟩, journal ++ [.called (.release key) (some fault)]⟩ := by
  rw [releaseKeys_cons_run, attempt_release_run_of_meets h, if_neg hhardware]

/-- How releasing keys ends, given the first failure. -/
def releasesEnd : Option Fault → Except PlayError Unit
  | none => .ok ()
  | some fault => .error (.fault fault)

/-- Releasing keys only makes releases. If none of them meets a fault other than of the hardware,
every key is tried, and the first failure is what it comes to. -/
theorem releaseKeys_run_spec (settings : Settings) (faults : Faults) (keys : List Key)
    (failure : Option Fault) (t : Tracker) (journal : Journal) :
    ∃ fate t' added, ((onto settings faults).releaseKeys keys failure).run ⟨t, journal⟩ =
        Play.result fate ⟨t', journal ++ added⟩ ∧
      (∀ made ∈ Journal.calls added, ∃ j key, made = (.release key, faults j (.release key))) ∧
      ((∀ made ∈ Journal.calls added, ∀ fault ∈ made.2, fault.isHardware = true) →
        (t.held = keys.reverse → t' = {}) ∧ (Journal.calls added).map Prod.fst = keys.map .release ∧
          fate = releasesEnd (failure.or ((Journal.calls added).findSome? Prod.snd))) := by
  induction keys generalizing failure t journal with
  | nil =>
    refine ⟨releasesEnd failure, t, [], ?_, by simp, fun _ => ⟨fun hheld => ?_, rfl, by simp⟩⟩
    · cases failure <;> simp [releaseKeys, releasesEnd, Play.result]
    · cases t
      simpa using hheld
  | cons key keys ih =>
    cases hfault : faults journal (.release key) with
    | none =>
      rw [releaseKeys_cons_run_of_agrees ⟨hfault, trivial⟩]
      obtain ⟨fate, t', added, hrun, hreleases, hspec⟩ := ih failure ⟨keys.reverse⟩
        (journal ++ [.called (.release key) none])
      refine ⟨fate, t', .called (.release key) none :: added, by simpa using hrun, ?_,
        fun hhardware => ?_⟩
      · exact List.forall_mem_cons.mpr ⟨⟨journal, key, by rw [hfault]⟩, hreleases⟩
      · obtain ⟨hheld, hcalls, hfate⟩ := hspec (List.forall_mem_cons.mp hhardware).2
        exact ⟨fun _ => hheld rfl, by simpa using hcalls, by simpa using hfate⟩
    | some fault =>
      by_cases hhardware : fault.isHardware = true
      · rw [releaseKeys_cons_run_of_hardware ⟨hfault, trivial⟩ hhardware]
        obtain ⟨fate, t', added, hrun, hreleases, hspec⟩ :=
          ih (failure.or (some fault)) ⟨keys.reverse⟩
          (journal ++ [.called (.release key) (some fault), notReleasedEntry key fault])
        refine ⟨fate, t',
          .called (.release key) (some fault) :: notReleasedEntry key fault :: added,
          by simpa using hrun, ?_, fun hall => ?_⟩
        · exact List.forall_mem_cons.mpr ⟨⟨journal, key, by rw [hfault]⟩, hreleases⟩
        · obtain ⟨hheld, hcalls, hfate⟩ := hspec (List.forall_mem_cons.mp hall).2
          exact ⟨fun _ => hheld rfl, by simpa using hcalls, by simpa [Option.or_assoc] using hfate⟩
      · rw [releaseKeys_cons_run_of_not_hardware ⟨hfault, trivial⟩ hhardware]
        refine ⟨.error (.fault fault), _, [.called (.release key) (some fault)], rfl, ?_,
          fun hall => ?_⟩
        · exact List.forall_mem_cons.mpr ⟨⟨journal, key, by rw [hfault]⟩, by simp⟩
        · exact absurd (hall (.release key, some fault) (by simp) fault rfl) hhardware

theorem releaseKeys_run {keys keys' : List Key} {failure : Option Fault}
    (h : faults.Agrees journal (releaseEntries keys)) :
    ((onto settings faults).releaseKeys (keys ++ keys') failure).run
        ⟨⟨(keys ++ keys').reverse⟩, journal⟩ =
      ((onto settings faults).releaseKeys keys' failure).run
        ⟨⟨keys'.reverse⟩, journal ++ releaseEntries keys⟩ := by
  have haccepted : ∀ entry ∈ releaseEntries keys, entry.isAccepted := by
    rw [← entries_releases]
    exact entries_accepted _
  obtain ⟨hrenders, hrendered⟩ := renders_of_agrees settings haccepted h
  rw [releaseKeys_run_of_renders hrenders, hrendered]

theorem keyCombo_run {keys : List Key}
    (h : faults.Agrees journal ((Tracker.toggleAll {} keys).1.map KeyEvent.entry)) :
    ((onto settings faults).keyCombo keys).run ⟨{}, journal⟩ =
      ((onto settings faults).releaseKeys (Tracker.toggleAll {} keys).2.held.reverse none).run
        ⟨(Tracker.toggleAll {} keys).2,
          journal ++ (Tracker.toggleAll {} keys).1.map KeyEvent.entry⟩ := by
  rw [keyCombo, EStateM.run_bind, toggleKeys_run h]
  rfl

/-! ## Following a script -/

/-- A move other than a stop makes its calls, and holds no key at the end. -/
theorem make_run {move : Move} (hstop : ∀ e, move ≠ .stop e)
    (h : faults.Agrees journal move.entries) :
    ((onto settings faults).make move).run ⟨{}, journal⟩ =
      .ok () ⟨{}, journal ++ move.entries⟩ := by
  obtain ⟨hrenders, hrendered⟩ := renders_of_agrees settings move.entries_accepted h
  rw [make_run_of_renders hstop hrenders, hrendered]

theorem follow_cons_run {move : Move} {moves : List Move} (hstop : ∀ e, move ≠ .stop e)
    (h : faults.Agrees journal move.entries) :
    ((onto settings faults).follow (move :: moves)).run ⟨{}, journal⟩ =
      ((onto settings faults).follow moves).run ⟨{}, journal ++ move.entries⟩ := by
  rw [follow_cons, EStateM.run_bind, make_run hstop h]

/-- A script of which every call is accepted makes its calls, and holds no key at the end. -/
theorem follow_run {moves : List Move} (h : faults.Agrees journal (scriptEntries moves)) :
    ((onto settings faults).follow moves).run ⟨{}, journal⟩ =
      Play.result (scriptEnd moves) ⟨{}, journal ++ scriptEntries moves⟩ := by
  obtain ⟨hrenders, hrendered⟩ := renders_of_agrees settings (scriptEntries_accepted moves) h
  rw [follow_run_of_renders hrenders, hrendered]

end Player

end Typist
