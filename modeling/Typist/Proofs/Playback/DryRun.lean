import Typist.Playback.Controller
import Typist.Proofs.Playback.Faults
import Typist.Proofs.Playback.Rendering

/-!
# Dry runs

In a dry run the player plays on a recorder that is wrapped around no keyboard. It records the
events, and may print each of them. `Entry.sent` translates what a dry run comes to into calls : an
event becomes the call that gives it to the system's controller, a named key under the controller's
name, and a pause stays as it is.

`play_dryRun` : if the controller never fails and has the keys of the recorded events, playing
through it makes the calls of the dry run and no others, in the same order and with the same pauses,
after the calls that switch windows if the settings say so. Both end in the same way, at the end of
the script or at its first stop. What a dry run prints are its events, a line for each.
-/

namespace Typist

/-! ## Events as they are sent -/

/-- The stroke of a key, a named key under the controller's name. -/
def Key.stroke : Key → Stroke
  | .code c => .named (controllerName c)
  | .char t => .text t

/-- The call that gives an event to the controller. -/
def KeyEvent.sent : KeyEvent → Call
  | .press key => .controllerPress key.stroke
  | .release key => .controllerRelease key.stroke

/-- What an entry of a dry run says is sent. -/
def Entry.sent : Entry → List Call
  | .recorded event => [event.sent]
  | .called call _ => [call]
  | .printed _ | .noticed _ | .spaced => []

/-- The line that is printed for an event. -/
def KeyEvent.line (event : KeyEvent) : Text :=
  event.described ++ ['\n']

/-- The events that a call to a keyboard comes to. -/
def Call.events : Call → List KeyEvent
  | .press key => [.press key]
  | .release key => [.release key]
  | .click key => [.press key, .release key]
  | .type t => [.press (.char (.ofText t)), .release (.char (.ofText t))]
  | .focus | .sleep _ | .controllerPress _ | .controllerRelease _ | .input => []

namespace System

variable (system : System)

/-- The calls that switch windows. -/
def switching : List Call :=
  [.controllerPress (.named system.switcher), .controllerPress (.named "tab"),
    .controllerRelease (.named "tab"), .controllerRelease (.named system.switcher)]

/-- Does the controller have the key? It has every key that types a text. -/
def HasKey : Key → Prop
  | .code c => controllerName c ∉ system.missing
  | .char _ => True

instance (key : Key) : Decidable (system.HasKey key) :=
  match key with
  | .code c => inferInstanceAs (Decidable (controllerName c ∉ system.missing))
  | .char _ => inferInstanceAs (Decidable True)

/-- Does the controller have all keys that playing uses, given the events of the snippet? -/
structure HasKeysFor (settings : Settings) (events : List KeyEvent) : Prop where
  recorded : ∀ event ∈ events, system.HasKey event.key
  switching : settings.focusCycle = true → system.switcher ∉ system.missing ∧ "tab" ∉ system.missing

variable {system}

theorem stroke?_eq {key : Key} (h : system.HasKey key) : system.stroke? key = some key.stroke := by
  cases key with
  | char t => rfl
  | code c => exact if_neg h

end System

/-! ## The two players -/

namespace Player

/-- The player of a dry run. -/
def dryRun (settings : Settings) (echo : Bool) : Player :=
  ⟨Keyboard.recorder none echo, settings, fun d => Act.call Faults.none (.sleep d)⟩

/-- The player on a controller that never fails. -/
def controlling (settings : Settings) (system : System) : Player :=
  ⟨Keyboard.controller system Faults.none, settings, fun d => Act.call Faults.none (.sleep d)⟩

end Player

section

variable (settings : Settings) (system : System) (echo : Bool) (snippet : Snippet)
  (values : Mapping Text Text)

/-- What happens when a snippet is played in a dry run. -/
def dryRunJournal : Journal :=
  (stateAfter ((Player.dryRun settings echo).play snippet values) {}).journal

/-- What happens when a snippet is played through the controller. -/
def controllerJournal : Journal :=
  (stateAfter ((Player.controlling settings system).play snippet values) {}).journal

end

/-- The entries of an event that is recorded. -/
def recordEntries (echo : Bool) (event : KeyEvent) : List Entry :=
  .recorded event :: if echo then [.printed event.line] else []

/-- What a recorder does for a call. -/
def recorderEntries (echo : Bool) : Call → List Entry
  | .focus => [.noticed ⟨.info, "Dry run; not switching windows"⟩]
  | .sleep d => [.called (.sleep d) none]
  | call => call.events.flatMap (recordEntries echo)

/-- What a controller that never fails does for a call. -/
def controllerEntries (system : System) : Call → List Entry
  | .focus =>
    .noticed ⟨.debug,
      "Cycling focus with " ++ (Stroke.named system.switcher).described.str ++ "+tab"⟩ ::
        system.switching.map fun call => .called call none
  | .sleep d => [.called (.sleep d) none]
  | call => call.events.map fun event => .called event.sent none

section

variable {settings : Settings} {system : System} {echo : Bool} {call : Call} {act : Act Unit}

theorem call_run (call : Call) (journal : Journal) :
    (Act.call Faults.none call).run journal = .ok () (journal ++ [.called call none]) :=
  call_run_of_none rfl

theorem note_run (level : Level) (message : String) (journal : Journal) :
    (Act.note level message).run journal = .ok () (journal ++ [.noticed ⟨level, message⟩]) :=
  rfl

theorem record_run (event : KeyEvent) (journal : Journal) :
    (Keyboard.record echo event).run journal = .ok () (journal ++ recordEntries echo event) := by
  cases echo <;> simp [Keyboard.record, recordEntries, Act.enter, KeyEvent.line]

theorem act?_dryRun (h : act ∈ (Player.dryRun settings echo).act? call) (journal : Journal) :
    act.run journal = .ok () (journal ++ recorderEntries echo call) := by
  cases call with
  | controllerPress | controllerRelease | input => cases h
  | press | release | click | type =>
    obtain rfl := Option.some.inj h
    simp [Player.dryRun, Keyboard.recorder, record_run, recorderEntries, Call.events,
      EStateM.run_bind]
  | focus | sleep =>
    obtain rfl := Option.some.inj h
    rfl

theorem withStroke_eq {key : Key} (h : system.HasKey key) (send : Stroke → Act Unit) :
    Keyboard.withStroke system key send = send key.stroke := by
  rw [Keyboard.withStroke, System.stroke?_eq h]

theorem withName_eq {name : String} (h : name ∉ system.missing) (send : Stroke → Act Unit) :
    Keyboard.withName system name send = send (.named name) :=
  if_neg h

theorem act?_controlling (h : act ∈ (Player.controlling settings system).act? call)
    (hkeys : ∀ event ∈ call.events, system.HasKey event.key)
    (hswitch : call = .focus → system.switcher ∉ system.missing ∧ "tab" ∉ system.missing)
    (journal : Journal) : act.run journal = .ok () (journal ++ controllerEntries system call) := by
  cases call with
  | controllerPress | controllerRelease | input => cases h
  | press key | release key | click key =>
    obtain rfl := Option.some.inj h
    have hkey : system.HasKey key := hkeys _ (List.mem_cons_self ..)
    simp [Player.controlling, Keyboard.controller, withStroke_eq hkey, call_run, EStateM.run_bind,
      controllerEntries, Call.events, KeyEvent.sent]
  | type t =>
    obtain rfl := Option.some.inj h
    simp [Player.controlling, Keyboard.controller, call_run, EStateM.run_bind, controllerEntries,
      Call.events, KeyEvent.sent, Key.stroke]
  | sleep d =>
    obtain rfl := Option.some.inj h
    exact call_run (.sleep d) journal
  | focus =>
    obtain rfl := Option.some.inj h
    obtain ⟨hswitcher, htab⟩ := hswitch rfl
    simp [Player.controlling, Keyboard.controller, withName_eq hswitcher, withName_eq htab,
      call_run, note_run, EStateM.run_bind, controllerEntries, System.switching]

/-! ## Scripts -/

/-- A recorder records whatever it is given. -/
theorem renders_dryRun (journal : Journal) (entries : List Entry) :
    (Player.dryRun settings echo).Renders (recorderEntries echo) journal entries :=
  renders_of_forall fun _ _ _ _ hact journal => act?_dryRun hact journal

theorem events_recorderEntries (call : Call) :
    Journal.events (recorderEntries echo call) = call.events := by
  cases echo <;> cases call <;> rfl

/-- The events of each call are recorded. -/
theorem mem_events {entries : List Entry} {fault : Option Fault} {event : KeyEvent}
    (hentry : .called call fault ∈ entries) (hevent : event ∈ call.events) :
    event ∈ Journal.events (renderedEntries (recorderEntries echo) entries) := by
  obtain ⟨before, after, rfl⟩ := List.append_of_mem hentry
  rw [renderedEntries_append, renderedEntries_cons, Journal.events_append, Journal.events_append,
    Entry.rendered, events_recorderEntries]
  exact List.mem_append_right _ (List.mem_append_left _ hevent)

/-! ## What a dry run shows -/

/-- What happened in a dry run shows what was sent after the calls that came first, and its events
were printed if `echo` is on. -/
structure Shows (echo : Bool) (first : List Call) (dry sent : Journal) : Prop where
  sent : sent.calls = unfailing (first ++ dry.flatMap Entry.sent)
  printed : dry.output = if echo then dry.events.flatMap KeyEvent.line else []

theorem Shows.append {first : List Call} {dry dry' sent sent' : Journal}
    (h : Shows echo first dry sent) (h' : Shows echo [] dry' sent') :
    Shows echo first (dry ++ dry') (sent ++ sent') where
  sent := by
    rw [Journal.calls_append, h.sent, h'.sent, List.nil_append, ← unfailing_append,
      List.append_assoc, List.flatMap_append]
  printed := by
    rw [Journal.output_append, h.printed, h'.printed, Journal.events_append, List.flatMap_append]
    split <;> rfl

theorem Shows.nil : Shows echo [] [] [] where
  sent := rfl
  printed := by cases echo <;> rfl

theorem shows_focus :
    Shows echo system.switching (recorderEntries echo .focus)
      (controllerEntries system .focus) where
  sent := rfl
  printed := by cases echo <;> rfl

theorem shows_call (h : call ≠ .focus) :
    Shows echo [] (recorderEntries echo call) (controllerEntries system call) where
  sent := by
    cases call with
    | focus => exact absurd rfl h
    | _ => cases echo <;> rfl
  printed := by
    cases echo <;> cases call <;>
      simp [recorderEntries, Call.events, recordEntries, Journal.output, Journal.events]

theorem shows_entry (h : call ≠ .focus) (fault : Option Fault) :
    Shows echo [] (renderedEntries (recorderEntries echo) [.called call fault])
      (renderedEntries (controllerEntries system) [.called call fault]) :=
  (shows_call h).append .nil

theorem shows_events (events : List KeyEvent) :
    Shows echo [] (renderedEntries (recorderEntries echo) (events.map KeyEvent.entry))
      (renderedEntries (controllerEntries system) (events.map KeyEvent.entry)) := by
  induction events with
  | nil => exact .nil
  | cons event events ih =>
    have hevent : event.call ≠ .focus := by cases event <;> simp [KeyEvent.call]
    exact (shows_call hevent).append ih

theorem shows_move {move : Move} (h : move ≠ .focus) :
    Shows echo [] (renderedEntries (recorderEntries echo) move.entries)
      (renderedEntries (controllerEntries system) move.entries) := by
  cases move with
  | focus => exact absurd rfl h
  | chord keys => exact shows_events _
  | type c | sleep d | click key => exact shows_entry (by simp) none
  | skip number => exact ⟨rfl, by cases echo <;> rfl⟩
  | stop e => exact .nil

theorem shows_script {moves : List Move} (h : Move.focus ∉ moves) :
    Shows echo [] (renderedEntries (recorderEntries echo) (scriptEntries moves))
      (renderedEntries (controllerEntries system) (scriptEntries moves)) := by
  induction moves with
  | nil => exact .nil
  | cons move moves ih =>
    rw [List.mem_cons, not_or] at h
    rcases move.stop_or_not_stop with ⟨error, rfl⟩ | hstop
    · exact .nil
    · rw [scriptEntries_cons hstop, renderedEntries_append, renderedEntries_append]
      exact (shows_move fun hmove => h.1 hmove.symm).append (ih h.2)

/-! ## The moves of the lines -/

section

variable {values : Mapping Text Text}

theorem focus_not_mem_moves (d : Duration) : Move.focus ∉ d.moves := by
  intro h
  cases eq_sleep_of_mem_moves h

theorem focus_not_mem_typingMoves (t : Text) : Move.focus ∉ typingMoves settings t := by
  intro h
  rcases mem_typingMoves h with ⟨c, hc⟩ | hc <;> cases hc

theorem focus_not_mem_part_moves (part : Part) : Move.focus ∉ part.moves settings values := by
  cases part with
  | text content => exact focus_not_mem_typingMoves content
  | combo keys => simp [Part.moves]
  | arg name =>
    rw [Part.moves]
    cases values.get? name with
    | none => simp
    | some value => exact focus_not_mem_typingMoves value
  | delay milliseconds =>
    rw [Part.moves]
    split
    · cases Duration.ofMillis? milliseconds with
      | none => simp
      | some d => exact focus_not_mem_moves d
    · simp

theorem focus_ne_commitMove : Move.focus ≠ settings.commitMove := by
  rw [Settings.commitMove]
  split <;> simp

/-- Windows are switched before the lines only. -/
theorem focus_not_mem_linesMoves (number : Nat) (lines : List Line) :
    Move.focus ∉ linesMoves settings values number lines := by
  induction lines generalizing number with
  | nil => simp [linesMoves]
  | cons line lines ih =>
    simp only [linesMoves, Line.moves, List.mem_append, not_or]
    refine ⟨⟨focus_not_mem_moves _, ?_⟩, ih _⟩
    split
    · simp
    · simp [focus_not_mem_part_moves, focus_ne_commitMove]

/-- Windows are switched if the settings say so. -/
theorem focusCycle_of_mem_script {snippet : Snippet}
    (h : Move.focus ∈ snippet.script settings values) : settings.focusCycle = true := by
  rw [Snippet.script, List.mem_append] at h
  rcases h with h | h
  · split at h
    · assumption
    · cases h
  · exact absurd h (focus_not_mem_linesMoves _ _)

end

theorem exists_move_of_mem_scriptEntries {moves : List Move} {entry : Entry}
    (h : entry ∈ scriptEntries moves) : ∃ move ∈ moves, entry ∈ move.entries := by
  induction moves with
  | nil => cases h
  | cons move moves ih =>
    rcases move.stop_or_not_stop with ⟨error, rfl⟩ | hstop
    · cases h
    · rw [scriptEntries_cons hstop] at h
      rcases List.mem_append.mp h with h | h
      · exact ⟨move, List.mem_cons_self .., h⟩
      · obtain ⟨move', hmove, hentry⟩ := ih h
        exact ⟨move', List.mem_cons_of_mem _ hmove, hentry⟩

theorem eq_focus_of_mem_entries {move : Move} {fault : Option Fault}
    (h : .called .focus fault ∈ move.entries) : move = .focus := by
  cases move with
  | focus => rfl
  | chord keys =>
    obtain ⟨event, -, hentry⟩ := List.mem_map.mp h
    cases event <;> simp at hentry
  | type | sleep | click | skip | stop => simp [Move.entries] at h

/-! ## Playing -/

section

variable {snippet : Snippet} {values : Mapping Text Text}

/-- A controller that has the keys renders a script. -/
theorem renders_controlling (journal : Journal)
    (hkeys : system.HasKeysFor settings (Journal.events
      (renderedEntries (recorderEntries echo) (scriptEntries (snippet.script settings values))))) :
    (Player.controlling settings system).Renders (controllerEntries system) journal
      (scriptEntries (snippet.script settings values)) := by
  refine renders_of_forall fun call fault hentry act hact journal =>
    act?_controlling hact ?_ ?_ journal
  · exact fun event hevent => hkeys.recorded event (mem_events hentry hevent)
  · rintro rfl
    obtain ⟨move, hmove, hfocus⟩ := exists_move_of_mem_scriptEntries hentry
    obtain rfl := eq_focus_of_mem_entries hfocus
    exact hkeys.switching (focusCycle_of_mem_script hmove)

theorem shows_snippet :
    Shows echo (if settings.focusCycle then system.switching else [])
      (renderedEntries (recorderEntries echo) (scriptEntries (snippet.script settings values)))
      (renderedEntries (controllerEntries system)
        (scriptEntries (snippet.script settings values))) := by
  have hlines : Move.focus ∉ linesMoves settings values 1 snippet.lines :=
    focus_not_mem_linesMoves _ _
  rw [Snippet.script]
  by_cases hfocus : settings.focusCycle = true
  · rw [if_pos hfocus, if_pos hfocus]
    exact shows_focus.append (shows_script hlines)
  · rw [if_neg hfocus, if_neg hfocus]
    exact shows_script hlines

theorem play_dryRun_run :
    ((Player.dryRun settings echo).play snippet values).run {} =
      Play.result (scriptEnd (snippet.script settings values))
        ⟨{}, renderedEntries (recorderEntries echo)
          (scriptEntries (snippet.script settings values))⟩ :=
  Player.play_run_of_renders (renders_dryRun [] _)

/-- What a dry run shows is what is sent. Playing through a controller that has the keys ends as the
dry run does, and makes the calls that the dry run shows and no others, after those that switch
windows. -/
theorem play_dryRun
    (hkeys : system.HasKeysFor settings (dryRunJournal settings echo snippet values).events) :
    outcome ((Player.controlling settings system).play snippet values) {} =
        outcome ((Player.dryRun settings echo).play snippet values) {} ∧
      Shows echo (if settings.focusCycle then system.switching else [])
        (dryRunJournal settings echo snippet values)
        (controllerJournal settings system snippet values) := by
  rw [dryRunJournal, stateAfter_of_run play_dryRun_run] at hkeys
  have hcontroller : ((Player.controlling settings system).play snippet values).run {} =
      Play.result (scriptEnd (snippet.script settings values))
        ⟨{}, renderedEntries (controllerEntries system)
          (scriptEntries (snippet.script settings values))⟩ :=
    Player.play_run_of_renders (renders_controlling [] hkeys)
  rw [dryRunJournal, controllerJournal, outcome_of_run hcontroller, outcome_of_run play_dryRun_run,
    stateAfter_of_run hcontroller, stateAfter_of_run play_dryRun_run]
  exact ⟨rfl, shows_snippet⟩

/-- A value that holds a quote and a combo that names a key twice, on a system that switches windows
with the command key and has no menu key. -/
theorem play_dryRun_combo :
    let s : Settings :=
      { charDelay := ⟨3000, by decide⟩, lineDelay := .zero, commitKey := .ofText "tab".toList }
    let system : System := { switchesWithCommand := true, missing := ["menu"] }
    let values : Mapping Text Text := .ofList [(['n'], ['\''])]
    let combo : List Key := [.code .leftCtrl, .char (.ofText ['c']), .code .leftCtrl]
    let snippet : Snippet := { lines := [[.text "##".toList], [.arg ['n'], .combo combo]] }
    system.HasKeysFor s (dryRunJournal s true snippet values).events ∧
      outcome ((Player.controlling s system).play snippet values) {} = .ok () ∧
      (controllerJournal s system snippet values).calls = unfailing
        [.controllerPress (.named "cmd"), .controllerPress (.named "tab"),
          .controllerRelease (.named "tab"), .controllerRelease (.named "cmd"),
          .controllerPress (.text (.ofText ['\''])), .controllerRelease (.text (.ofText ['\''])),
          .sleep ⟨3000, by decide⟩, .controllerPress (.named "ctrl"),
          .controllerPress (.text (.ofText ['c'])), .controllerRelease (.named "ctrl"),
          .controllerRelease (.text (.ofText ['c'])), .controllerPress (.named "tab"),
          .controllerRelease (.named "tab")] ∧
      (dryRunJournal s true snippet values).output =
        ("press \"'\"\nrelease \"'\"\npress KEY_LEFTCTRL\npress 'c'\nrelease KEY_LEFTCTRL\n" ++
          "release 'c'\npress KEY_TAB\nrelease KEY_TAB\n").toList := by
  intro s system values combo snippet
  have hevents : (dryRunJournal s true snippet values).events =
      [.press (.char (.ofText ['\''])), .release (.char (.ofText ['\''])), .press (.code .leftCtrl),
        .press (.char (.ofText ['c'])), .release (.code .leftCtrl),
        .release (.char (.ofText ['c'])), .press (.code .tab), .release (.code .tab)] := by
          decide +kernel
  have hkeys : system.HasKeysFor s (dryRunJournal s true snippet values).events := by
    rw [hevents]
    exact ⟨by decide, fun _ => by decide⟩
  obtain ⟨houtcome, hshows⟩ := play_dryRun hkeys
  refine ⟨hkeys, houtcome.trans rfl, hshows.sent.trans (by decide +kernel), ?_⟩
  rw [hshows.printed, hevents]
  decide +kernel

end

end

end Typist
