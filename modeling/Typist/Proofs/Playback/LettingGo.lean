import Typist.Proofs.Playback.DryRun
import Typist.Proofs.Playback.Interruption

/-!
# Keys that the controller is left with

The controller is left with a key down if it accepted a press of the key and no release since
(`Stroke.IsDown`). Here presses may fail in any way, with the hardware or because the user
interrupts, and no release fails (`Faults.SparesControllerReleases`).

At every step the strokes that are down are those of keys the player holds (`Stage.Accounts`) : what
clicks a key or types a character lets go of it at once (`Act.LetsGo`), and a chord holds what it
presses. So nothing is down when the held keys are released. Windows are switched before that, with
a key that is not held : `play_leavesDown_iff` says that a key is left down exactly if switching
windows breaks off between its two presses, and that it is the switcher.
-/

namespace Typist

/-! ## Strokes that are down -/

/-- Is the stroke down after the calls? The controller accepted a press of it, and no release
since. -/
def Stroke.IsDown (stroke : Stroke) (calls : List (Call × Option Fault)) : Prop :=
  ∃ before after, calls = before ++ (.controllerPress stroke, none) :: after ∧
    (.controllerRelease stroke, none) ∉ after

namespace Stroke

variable {stroke : Stroke} {made : Call × Option Fault} {calls calls' : List (Call × Option Fault)}

@[simp]
theorem not_isDown_nil : ¬ stroke.IsDown [] := by
  simp [IsDown]

@[simp]
theorem isDown_cons :
    stroke.IsDown (made :: calls) ↔
      stroke.IsDown calls ∨ made = (.controllerPress stroke, none) ∧
        (.controllerRelease stroke, none) ∉ calls :=
  exists_split_cons

/-- A release makes up for the presses before it. -/
theorem isDown_append :
    stroke.IsDown (calls ++ calls') ↔
      stroke.IsDown calls' ∨ stroke.IsDown calls ∧ (.controllerRelease stroke, none) ∉ calls' := by
  rw [IsDown, exists_split_append]
  simp only [List.mem_append, not_or, ← and_assoc, exists_and_right]
  rfl

end Stroke

/-- Did switching windows, of which these are all the calls, break off between the press of the
switcher and the press of tab? -/
def System.SwitchBreaksOff (system : System) (calls : List (Call × Option Fault)) : Prop :=
  calls = [(.controllerPress (.named system.switcher), none)] ∨
    ∃ fault, calls =
      [(.controllerPress (.named system.switcher), none),
        (.controllerPress (.named "tab"), some fault)]

/-- The switcher is down then, and nothing else. -/
theorem isDown_of_switchBreaksOff {system : System} {calls : List (Call × Option Fault)}
    {stroke : Stroke} (h : system.SwitchBreaksOff calls) :
    stroke.IsDown calls ↔ stroke = .named system.switcher := by
  rcases h with rfl | ⟨fault, rfl⟩ <;> simp [eq_comm]

/-! ## Actions that let go -/

/-- The faults that meet no release by the controller. -/
def Faults.SparesControllerReleases (faults : Faults) : Prop :=
  ∀ journal stroke, faults journal (.controllerRelease stroke) = Option.none

/-- Does the action let go of every stroke that it presses, however it ends? -/
def Act.LetsGo (act : Act Unit) : Prop :=
  ∀ journal, ∃ added, stateAfter act journal = journal ++ added ∧
    ∀ stroke : Stroke, ¬ stroke.IsDown (Journal.calls added)

section

variable {system : System} {faults : Faults}

/-- A call is made, whatever it meets. -/
theorem stateAfter_call (faults : Faults) (call : Call) (journal : Journal) :
    stateAfter (Act.call faults call) journal =
      journal ++ [.called call (faults journal call)] := by
  cases h : faults journal call with
  | none => rw [stateAfter, call_run_of_none h]
  | some fault => rw [stateAfter, call_run_of_fault h]

theorem note_letsGo (level : Level) (message : String) : (Act.note level message).LetsGo := fun _ =>
  ⟨[.noticed ⟨level, message⟩], rfl, by simp⟩

theorem sleep_letsGo (faults : Faults) (d : Duration) :
    (Act.call faults (.sleep d)).LetsGo := fun journal =>
  ⟨[.called (.sleep d) (faults journal (.sleep d))], stateAfter_call .., by simp⟩

/-- A stroke that is clicked is released as soon as its press is accepted. -/
theorem click_letsGo (h : faults.SparesControllerReleases) (stroke : Stroke) :
    (Act.call faults (.controllerPress stroke) >>= fun _ =>
      Act.call faults (.controllerRelease stroke)).LetsGo := by
  intro journal
  cases hpress : faults journal (.controllerPress stroke) with
  | some fault =>
    refine ⟨[.called (.controllerPress stroke) (some fault)], ?_, by simp⟩
    rw [stateAfter, EStateM.run_bind, call_run_of_fault hpress]
  | none =>
    refine ⟨[.called (.controllerPress stroke) none, .called (.controllerRelease stroke) none],
      ?_, by simp⟩
    rw [stateAfter, EStateM.run_bind, call_run_of_none hpress]
    simp only
    rw [call_run_of_none (h _ stroke), List.append_assoc]
    rfl

theorem withStroke_letsGo {send : Stroke → Act Unit} (h : ∀ stroke, (send stroke).LetsGo)
    (key : Key) : (Keyboard.withStroke system key send).LetsGo := by
  intro journal
  rw [Keyboard.withStroke]
  cases system.stroke? key with
  | none => exact ⟨[], by rw [List.append_nil]; rfl, by simp⟩
  | some stroke => exact h stroke journal

/-- Switching windows lets go of what it presses, unless it breaks off. -/
theorem focus_run (system : System) (h : faults.SparesControllerReleases) (journal : Journal) :
    (∃ added, (Keyboard.controller system faults).focus.run journal = .ok () (journal ++ added) ∧
        ∀ stroke : Stroke, ¬ stroke.IsDown (Journal.calls added)) ∨
      ∃ fault added, (Keyboard.controller system faults).focus.run journal =
        .error fault (journal ++ added) ∧
        ((∀ stroke : Stroke, ¬ stroke.IsDown (Journal.calls added)) ∨
          system.SwitchBreaksOff (Journal.calls added)) := by
  by_cases hswitcher : system.switcher ∈ system.missing
  · refine .inr ⟨.unavailable system.switcher, [], ?_, .inl (by simp)⟩
    simp [Keyboard.controller, Keyboard.withName, hswitcher]
  · simp only [Keyboard.controller, withName_eq hswitcher, EStateM.run_bind, note_run]
    generalize Notice.mk .debug _ = cycling
    cases hpress : faults (journal ++ [.noticed cycling])
      (.controllerPress (.named system.switcher)) with
    | some fault =>
      rw [call_run_of_fault hpress]
      exact .inr ⟨fault, _, by rw [List.append_assoc], .inl (by simp)⟩
    | none =>
      rw [call_run_of_none hpress]
      by_cases htab : "tab" ∈ system.missing
      · refine .inr ⟨.unavailable "tab",
          [.noticed cycling, .called (.controllerPress (.named system.switcher)) none], ?_,
          .inr (.inl rfl)⟩
        simp [Keyboard.withName, htab]
      · simp only [withName_eq htab]
        cases hpress' : faults (journal ++ [.noticed cycling] ++
            [.called (.controllerPress (.named system.switcher)) none])
              (.controllerPress (.named "tab")) with
        | some fault =>
          rw [call_run_of_fault hpress']
          refine .inr ⟨fault, [.noticed cycling,
            .called (.controllerPress (.named system.switcher)) none,
            .called (.controllerPress (.named "tab")) (some fault)], ?_, .inr (.inr ⟨fault, rfl⟩)⟩
          simp
        | none =>
          rw [call_run_of_none hpress']
          simp only [call_run_of_none (h _ _), List.append_assoc]
          refine .inl ⟨_, rfl, fun stroke => ?_⟩
          simp +contextual [eq_comm (b := stroke)]

end

/-! ## Stages -/

/-- Does the action of a player keep a property of stages, however it ends? -/
def Play.Keeps (property : Stage → Prop) (act : Play Unit) : Prop :=
  ∀ stage, property stage → property (stateAfter act stage)

section

variable {property : Stage → Prop} {act act' : Play Unit}

/-- An action that keeps a property keeps it after another. -/
theorem Play.Keeps.after {stage : Stage} (h' : act'.Keeps property)
    (h : property (stateAfter act stage)) :
    property (stateAfter (act >>= fun _ => act') stage) := by
  rw [stateAfter] at h ⊢
  rw [EStateM.run_bind]
  cases hrun : act.run stage with
  | error e stage' => simpa [hrun] using h
  | ok _ stage' => exact h' stage' (by simpa [hrun] using h)

theorem Play.Keeps.bind (h : act.Keeps property) (h' : act'.Keeps property) :
    Play.Keeps property (act >>= fun _ => act') := fun stage hstage =>
  h'.after (h stage hstage)

end

/-- The stage accounts for every stroke that is down since `earlier` : it is that of a key held. -/
structure Stage.Accounts (system : System) (earlier : Journal) (stage : Stage) : Prop where
  later : earlier <+: stage.journal
  /-- The controller has the keys that are held. -/
  sendable : ∀ key ∈ stage.tracker.held, ∃ stroke, system.stroke? key = some stroke
  held : ∀ stroke : Stroke, stroke.IsDown (stage.callsSince earlier) →
    ∃ key ∈ stage.tracker.held, system.stroke? key = some stroke

/-- What happens later is added to the calls. -/
theorem Stage.callsSince_later {earlier journal : Journal} (h : earlier <+: journal)
    (t t' : Tracker) (added : Journal) :
    (⟨t', journal ++ added⟩ : Stage).callsSince earlier =
      (⟨t, journal⟩ : Stage).callsSince earlier ++ added.calls := by
  obtain ⟨made, rfl⟩ := h
  rw [List.append_assoc, Stage.callsSince_append, Stage.callsSince_append, Journal.calls_append]

namespace Stage.Accounts

variable {system : System} {earlier journal added : Journal} {t : Tracker}
  {held : List Key} {key : Key} {stroke : Stroke}

/-- At the start nothing is down. -/
theorem start (system : System) (earlier : Journal) : Accounts system earlier ⟨{}, earlier⟩ where
  later := List.prefix_rfl
  sendable := by simp
  held := by simp [callsSince]

/-- What lets go changes nothing. -/
theorem letGo (h : Accounts system earlier ⟨t, journal⟩)
    (hadded : ∀ stroke : Stroke, ¬ stroke.IsDown (Journal.calls added)) :
    Accounts system earlier ⟨t, journal ++ added⟩ where
  later := h.later.trans (List.prefix_append ..)
  sendable := h.sendable
  held stroke hdown := by
    rw [callsSince_later h.later t, Stroke.isDown_append] at hdown
    rcases hdown with hdown | ⟨hdown, -⟩
    · exact absurd hdown (hadded stroke)
    · exact h.held stroke hdown

/-- A key that is pressed is held. -/
theorem pressed (h : Accounts system earlier ⟨t, journal⟩)
    (hstroke : system.stroke? key = some stroke) :
    Accounts system earlier ⟨t.pressed key,
      journal ++ [.called (.controllerPress stroke) none]⟩ where
  later := h.later.trans (List.prefix_append ..)
  sendable := by
    intro other hother
    rcases List.mem_append.mp hother with hother | hother
    · exact h.sendable other hother
    · exact ⟨stroke, by rw [List.mem_singleton.mp hother, hstroke]⟩
  held other hdown := by
    rw [callsSince_later h.later t, Stroke.isDown_append] at hdown
    rcases hdown with hdown | ⟨hdown, -⟩
    · obtain rfl : stroke = other := by simpa using hdown
      exact ⟨key, List.mem_append_right _ (List.mem_singleton_self key), hstroke⟩
    · obtain ⟨heldKey, hheld, hsame⟩ := h.held other hdown
      exact ⟨heldKey, List.mem_append_left _ hheld, hsame⟩

/-- A key that is released need not be held any more. -/
theorem released (h : Accounts system earlier ⟨t, journal⟩)
    (hstroke : system.stroke? key = some stroke) (hheld : ∀ other ∈ held, other ∈ t.held)
    (hothers : ∀ other ∈ t.held, other ≠ key → other ∈ held) :
    Accounts system earlier ⟨⟨held⟩, journal ++ [.called (.controllerRelease stroke) none]⟩ where
  later := h.later.trans (List.prefix_append ..)
  sendable other hother := h.sendable other (hheld other hother)
  held other hdown := by
    rw [callsSince_later h.later t, Stroke.isDown_append] at hdown
    rcases hdown with hdown | ⟨hdown, hnot⟩
    · simp at hdown
    · obtain ⟨heldKey, hmem, hsame⟩ := h.held other hdown
      refine ⟨heldKey, hothers heldKey hmem ?_, hsame⟩
      rintro rfl
      obtain rfl : stroke = other := Option.some.inj (hstroke.symm.trans hsame)
      simp at hnot

end Stage.Accounts

/-! ## Moves -/

namespace Player

/-- The player on the system's controller, on which calls may meet faults. -/
def through (settings : Settings) (system : System) (faults : Faults) : Player :=
  ⟨Keyboard.controller system faults, settings, fun d => Act.call faults (.sleep d)⟩

variable {settings : Settings} {system : System} {faults : Faults} {earlier : Journal}

theorem perform_keeps {act : Act Unit} (h : act.LetsGo) :
    (Play.perform act).Keeps (Stage.Accounts system earlier) := by
  rintro ⟨t, journal⟩ haccounts
  obtain ⟨added, hadded, hdown⟩ := h journal
  have hstage : stateAfter (Play.perform act) ⟨t, journal⟩ = ⟨t, stateAfter act journal⟩ := by
    simp only [stateAfter, EStateM.run, Play.perform]
    cases act journal <;> rfl
  rw [hstage, hadded]
  exact haccounts.letGo hdown

theorem sending_press {key : Key} {stroke : Stroke} (h : system.stroke? key = some stroke) :
    (through settings system faults).sending (.press key) =
      Act.call faults (.controllerPress stroke) := by
  simp [sending, through, Keyboard.controller, Keyboard.withStroke, h]

theorem sending_release {key : Key} {stroke : Stroke} (h : system.stroke? key = some stroke) :
    (through settings system faults).sending (.release key) =
      Act.call faults (.controllerRelease stroke) := by
  simp [sending, through, Keyboard.controller, Keyboard.withStroke, h]

/-- A key that the controller does not have is not pressed. -/
theorem sending_press_run_of_none {key : Key} (h : system.stroke? key = none) (journal : Journal) :
    ((through settings system faults).sending (.press key)).run journal =
      .error (.unsupported key) journal := by
  simp [sending, through, Keyboard.controller, Keyboard.withStroke, h]

/-- A key that is toggled is held if its press is accepted, and let go if it was held. -/
theorem toggle_accounts (hspares : faults.SparesControllerReleases) (key : Key) {t : Tracker}
    {journal : Journal} (h : Stage.Accounts system earlier ⟨t, journal⟩) :
    Stage.Accounts system earlier
      (stateAfter ((through settings system faults).send (t.toggle key).1 >>= fun _ =>
        modify fun stage => { stage with tracker := (t.toggle key).2 }) ⟨t, journal⟩) := by
  rw [stateAfter, EStateM.run_bind, send]
  by_cases hmem : key ∈ t.held
  · obtain ⟨stroke, hstroke⟩ := h.sendable key hmem
    have hrun := call_run_of_none (hspares journal stroke)
    rw [Tracker.toggle_of_mem hmem, sending_release hstroke, perform_run hrun]
    refine h.released hstroke (fun other => List.mem_of_mem_erase) fun other hother hne => ?_
    exact (List.mem_erase_of_ne hne).mpr hother
  · rw [Tracker.toggle_of_not_mem hmem]
    cases hstroke : system.stroke? key with
    | none =>
      rw [perform_run_of_error (sending_press_run_of_none hstroke journal)]
      exact h
    | some stroke =>
      rw [sending_press hstroke]
      cases hfault : faults journal (.controllerPress stroke) with
      | none =>
        rw [perform_run (call_run_of_none hfault)]
        exact h.pressed hstroke
      | some fault =>
        rw [perform_run_of_error (call_run_of_fault hfault)]
        exact h.letGo (by simp)

theorem toggleKeys_keeps (hspares : faults.SparesControllerReleases) (keys : List Key) :
    ((through settings system faults).toggleKeys keys).Keeps (Stage.Accounts system earlier) := by
  induction keys with
  | nil => exact fun _ h => h
  | cons key keys ih =>
    rintro ⟨t, journal⟩ h
    rw [stateAfter, toggleKeys_cons_run]
    exact ih.after (toggle_accounts hspares key h)

/-- The keys held are all released. -/
theorem releaseKeys_run_of_accounts (settings : Settings)
    (hspares : faults.SparesControllerReleases) {keys : List Key} {journal : Journal}
    (h : Stage.Accounts system earlier ⟨⟨keys.reverse⟩, journal⟩) :
    ∃ journal', ((through settings system faults).releaseKeys keys none).run ⟨⟨keys.reverse⟩,
      journal⟩ = .ok () ⟨{}, journal'⟩ ∧ Stage.Accounts system earlier ⟨{}, journal'⟩ := by
  induction keys generalizing journal with
  | nil => exact ⟨journal, rfl, h⟩
  | cons key keys ih =>
    obtain ⟨stroke, hstroke⟩ := h.sendable key (by simp)
    have hattempt : (Play.attempt ((through settings system faults).sending (.release key))).run
        ⟨⟨keys.reverse⟩, journal⟩ =
          .ok none ⟨⟨keys.reverse⟩, journal ++ [.called (.controllerRelease stroke) none]⟩ := by
      simp [sending_release hstroke, Play.attempt, EStateM.run, Act.call, hspares journal stroke]
    rw [releaseKeys_cons_run, hattempt]
    refine ih (h.released hstroke (by simp +contextual) fun other hother hne => ?_)
    simpa [hne] using hother

theorem releaseHeld_run_of_accounts (settings : Settings)
    (hspares : faults.SparesControllerReleases) {stage : Stage}
    (h : Stage.Accounts system earlier stage) :
    ∃ journal', (through settings system faults).releaseHeld.run stage = .ok () ⟨{}, journal'⟩ ∧
      Stage.Accounts system earlier ⟨{}, journal'⟩ := by
  have hheld : stage = ⟨⟨stage.tracker.held.reverse.reverse⟩, stage.journal⟩ := by
    rw [List.reverse_reverse]
  rw [hheld] at h
  obtain ⟨journal', hrun, h'⟩ := releaseKeys_run_of_accounts settings hspares h
  rw [← hheld] at hrun
  exact ⟨journal', hrun, h'⟩

theorem releaseHeld_keeps (hspares : faults.SparesControllerReleases) :
    (through settings system faults).releaseHeld.Keeps (Stage.Accounts system earlier) := by
  intro stage h
  obtain ⟨journal', hrun, h'⟩ := releaseHeld_run_of_accounts settings hspares h
  rwa [stateAfter, hrun]

theorem make_keeps (hspares : faults.SparesControllerReleases) {move : Move}
    (hfocus : move ≠ .focus) :
    ((through settings system faults).make move).Keeps (Stage.Accounts system earlier) := by
  cases move with
  | focus => exact absurd rfl hfocus
  | type c => exact perform_keeps (click_letsGo hspares _)
  | sleep d => exact perform_keeps (sleep_letsGo faults d)
  | chord keys => exact (toggleKeys_keeps hspares keys).bind (releaseHeld_keeps hspares)
  | click key => exact perform_keeps (withStroke_letsGo (click_letsGo hspares) key)
  | skip number => exact perform_keeps (note_letsGo _ _)
  | stop e => exact fun _ h => h

theorem follow_keeps (hspares : faults.SparesControllerReleases) {moves : List Move}
    (hfocus : Move.focus ∉ moves) :
    ((through settings system faults).follow moves).Keeps (Stage.Accounts system earlier) := by
  induction moves with
  | nil => exact fun _ h => h
  | cons move moves ih =>
    rw [List.mem_cons, not_or] at hfocus
    exact (make_keeps hspares (Ne.symm hfocus.1)).bind (ih hfocus.2)

/-- Playing lines and releasing what is held leaves nothing down. -/
theorem ensuring_playLines_letsGo (hspares : faults.SparesControllerReleases)
    (values : Mapping Text Text) (lines : List Line) {stage : Stage}
    (h : Stage.Accounts system earlier stage) (stroke : Stroke) :
    ¬ stroke.IsDown
      ((stateAfter (Play.ensuring ((through settings system faults).playLines values 1 lines)
      (through settings system faults).releaseHeld) stage).callsSince earlier) := by
  have hplayed : Stage.Accounts system earlier
      (stateAfter ((through settings system faults).playLines values 1 lines) stage) := by
    rw [playLines_eq_follow]
    exact follow_keeps hspares (focus_not_mem_linesMoves 1 lines) stage h
  obtain ⟨journal', hrun, hreleased⟩ := releaseHeld_run_of_accounts settings hspares hplayed
  rw [stateAfter_ensuring, stateAfter, hrun]
  intro hdown
  obtain ⟨key, hkey, -⟩ := hreleased.held stroke hdown
  cases hkey

end Player

/-! ## Playing -/

/-- The stage that playing a snippet through the controller leaves, after `earlier` and from where
no key is held. -/
def stageThrough (settings : Settings) (system : System) (faults : Faults) (snippet : Snippet)
    (values : Mapping Text Text) (earlier : Journal) : Stage :=
  stateAfter ((Player.through settings system faults).play snippet values) ⟨{}, earlier⟩

section

variable (settings : Settings) (system : System) {faults : Faults} (snippet : Snippet)
  (values : Mapping Text Text) (earlier : Journal)

/-- Without switching windows playing leaves nothing down. -/
theorem not_isDown_of_not_focusCycle (hspares : faults.SparesControllerReleases)
    (hcycle : ¬ settings.focusCycle = true) (stroke : Stroke) :
    ¬ stroke.IsDown ((stageThrough settings system faults snippet values earlier).callsSince
      earlier) := by
  have hfocus : (Player.through settings system faults).focus = pure () := if_neg hcycle
  rw [stageThrough, Player.play, hfocus, pure_bind]
  exact Player.ensuring_playLines_letsGo hspares values snippet.lines (.start system earlier) stroke

/-- If windows are switched, playing leaves nothing down, unless switching them breaks off. -/
theorem not_isDown_or_breaksOff (hspares : faults.SparesControllerReleases)
    (hcycle : settings.focusCycle = true) :
    let calls := (stageThrough settings system faults snippet values earlier).callsSince earlier
    (∀ stroke : Stroke, ¬ stroke.IsDown calls) ∨ system.SwitchBreaksOff calls := by
  have hfocus : (Player.through settings system faults).focus =
      Play.perform (Keyboard.controller system faults).focus :=
    if_pos hcycle
  rw [stageThrough, stateAfter, Player.play, hfocus, EStateM.run_bind]
  rcases focus_run system hspares earlier with ⟨added, hrun, hdown⟩ | ⟨fault, added, hrun, hends⟩
  · rw [perform_run hrun]
    have haccounts := (Stage.Accounts.start system earlier).letGo hdown
    exact .inl (Player.ensuring_playLines_letsGo hspares values snippet.lines haccounts)
  · rw [perform_run_of_error hrun]
    simp only [Stage.callsSince_append]
    exact hends

/-- Playing through the controller, of which no release fails, leaves a key down exactly if windows
are switched first and that breaks off between its two presses. The key is the switcher. -/
theorem play_leavesDown_iff (h : faults.SparesControllerReleases) (stroke : Stroke) :
    let calls := (stageThrough settings system faults snippet values earlier).callsSince earlier
    stroke.IsDown calls ↔
      settings.focusCycle = true ∧ system.SwitchBreaksOff calls ∧
        stroke = .named system.switcher := by
  intro calls
  refine ⟨fun hdown => ?_,
    fun ⟨_, hbreaks, hstroke⟩ => (isDown_of_switchBreaksOff hbreaks).mpr hstroke⟩
  by_cases hcycle : settings.focusCycle = true
  · rcases not_isDown_or_breaksOff settings system snippet values earlier h hcycle with
      hnone | hbreaks
    · exact absurd hdown (hnone stroke)
    · exact ⟨hcycle, hbreaks, (isDown_of_switchBreaksOff hbreaks).mp hdown⟩
  · exact absurd hdown (not_isDown_of_not_focusCycle settings system snippet values earlier h
      hcycle stroke)

end

/-- The faults of a controller that does not press tab. -/
def jammedTab : Faults := fun _ call =>
  if call = .controllerPress (.named "tab") then some (.hardware "jammed") else none

theorem play_leavesDown_jammedTab :
    let settings : Settings := { Settings.unhurried with focusCycle := true }
    let calls := (stageThrough settings {} jammedTab ⟨[[.text ['a']]], {}, []⟩ {} []).callsSince []
    jammedTab.SparesControllerReleases ∧
      calls = [(.controllerPress (.named "alt"), none),
        (.controllerPress (.named "tab"), some (.hardware "jammed"))] ∧
      (Stroke.named "alt").IsDown calls := by
  intro settings calls
  have hspares : jammedTab.SparesControllerReleases := fun _ _ => if_neg (by simp)
  have hcalls : calls =
      [(.controllerPress (.named "alt"), none),
        (.controllerPress (.named "tab"), some (.hardware "jammed"))] := by
    decide
  have hbreaks : System.SwitchBreaksOff {} calls := .inr ⟨_, hcalls⟩
  exact ⟨hspares, hcalls,
    (play_leavesDown_iff settings {} _ {} [] hspares _).mpr ⟨rfl, hbreaks, rfl⟩⟩

end Typist
