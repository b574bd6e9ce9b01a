import Typist.Proofs.Chord
import Typist.Proofs.Playback.Script

/-!
# Scripts on any keyboard

Where no call of a script fails, the script comes to its calls and the notices between them
(`scriptEntries`). A keyboard may do something of its own for a call : a recorder records events,
and the system's controller is given strokes. `Player.Renders` says that the player's keyboard and
clock do for each of these calls what `render` says. Then following the script adds its entries as
they are rendered, ends as the script does, and holds no key at the end (`follow_run_of_renders`),
and so does playing the snippet (`play_run_of_renders`).
-/

namespace Typist

/-! ## What a script comes to where no call fails -/

/-- The call that passes an event on. -/
def KeyEvent.call : KeyEvent → Call
  | .press key => .press key
  | .release key => .release key

/-- The entry of an event that is accepted. -/
def KeyEvent.entry (event : KeyEvent) : Entry :=
  .called event.call none

@[simp]
theorem KeyEvent.entry_press (key : Key) : (KeyEvent.press key).entry = .called (.press key) none :=
  rfl

@[simp]
theorem KeyEvent.entry_release (key : Key) :
    (KeyEvent.release key).entry = .called (.release key) none :=
  rfl

/-- The entries of a move of which every call is accepted. -/
def Move.entries : Move → List Entry
  | .focus => [.called .focus none]
  | .type c => [.called (.type [c]) none]
  | .sleep d => [.called (.sleep d) none]
  | .chord keys => (chordEvents keys).map KeyEvent.entry
  | .click key => [.called (.click key) none]
  | .skip number => [.noticed ⟨.debug, "Skipping comment line " ++ (Text.ofNat number).str⟩]
  | .stop _ => []

/-- The entries of a script of which every call is accepted. -/
def scriptEntries : List Move → List Entry
  | [] => []
  | .stop _ :: _ => []
  | move :: moves => move.entries ++ scriptEntries moves

/-- How a script ends of which every call is accepted. -/
def scriptEnd : List Move → Except PlayError Unit
  | [] => .ok ()
  | .stop error :: _ => .error error
  | _ :: moves => scriptEnd moves

theorem Move.stop_or_not_stop (move : Move) :
    (∃ error, move = .stop error) ∨ ∀ error, move ≠ .stop error := by
  cases move <;> simp

section

variable {move : Move} {moves : List Move}

theorem scriptEntries_cons (h : ∀ error, move ≠ .stop error) :
    scriptEntries (move :: moves) = move.entries ++ scriptEntries moves := by
  cases move with
  | stop error => exact absurd rfl (h error)
  | focus | type c | sleep d | chord keys | click key | skip number => rfl

theorem scriptEnd_cons (h : ∀ error, move ≠ .stop error) :
    scriptEnd (move :: moves) = scriptEnd moves := by
  cases move with
  | stop error => exact absurd rfl (h error)
  | focus | type c | sleep d | chord keys | click key | skip number => rfl

end

/-- The result that an action comes to at a stage. -/
def Play.result (fate : Except PlayError Unit) (stage : Stage) :
    EStateM.Result PlayError Stage Unit :=
  match fate with
  | .ok () => .ok () stage
  | .error e => .error e stage

theorem outcome_of_run {act : Play Unit} {fate : Except PlayError Unit} {stage stage' : Stage}
    (h : act.run stage = Play.result fate stage') : outcome act stage = fate := by
  rw [outcome, h]
  cases fate <;> rfl

theorem stateAfter_of_run {act : Play Unit} {fate : Except PlayError Unit} {stage stage' : Stage}
    (h : act.run stage = Play.result fate stage') : stateAfter act stage = stage' := by
  rw [stateAfter, h]
  cases fate <;> rfl

/-- The calls, none of which fails. -/
def unfailing (calls : List Call) : List (Call × Option Fault) :=
  calls.map fun call => (call, none)

@[simp]
theorem unfailing_append (calls calls' : List Call) :
    unfailing (calls ++ calls') = unfailing calls ++ unfailing calls' :=
  List.map_append ..

/-! ## Keyboards that render calls -/

/-- What an entry is rendered as, where a call is rendered as `render` says. -/
def Entry.rendered (render : Call → List Entry) : Entry → List Entry
  | .called call _ => render call
  | entry => [entry]

/-- What entries are rendered as. -/
def renderedEntries (render : Call → List Entry) (entries : List Entry) : List Entry :=
  entries.flatMap (Entry.rendered render)

/-- What a player does for a call, if it is one to its keyboard or its clock. -/
def Player.act? (p : Player) : Call → Option (Act Unit)
  | .press key => some (p.keyboard.press key)
  | .release key => some (p.keyboard.release key)
  | .click key => some (p.keyboard.click key)
  | .type t => some (p.keyboard.type t)
  | .focus => some p.keyboard.focus
  | .sleep d => some (p.sleep d)
  | .controllerPress _ | .controllerRelease _ | .input => none

/-- Played after the journal, the entry is rendered as `render` says, if it is a call. -/
def Entry.IsRendered (p : Player) (render : Call → List Entry) (journal : Journal) : Entry → Prop
  | .called call _ => ∀ act ∈ p.act? call, act.run journal = .ok () (journal ++ render call)
  | _ => True

/-- Played one after the other, the entries are rendered as `render` says. -/
def Player.Renders (p : Player) (render : Call → List Entry) : Journal → List Entry → Prop
  | _, [] => True
  | journal, entry :: entries =>
    entry.IsRendered p render journal ∧ p.Renders render (journal ++ entry.rendered render) entries

section

variable {p : Player} {render : Call → List Entry} {journal : Journal}

@[simp]
theorem renderedEntries_nil : renderedEntries render [] = [] :=
  rfl

@[simp]
theorem renderedEntries_cons (entry : Entry) (entries : List Entry) :
    renderedEntries render (entry :: entries) =
      entry.rendered render ++ renderedEntries render entries :=
  List.flatMap_cons ..

@[simp]
theorem renderedEntries_append (before after : List Entry) :
    renderedEntries render (before ++ after) =
      renderedEntries render before ++ renderedEntries render after :=
  List.flatMap_append ..

theorem renders_append {before after : List Entry} :
    p.Renders render journal (before ++ after) ↔
      p.Renders render journal before ∧
        p.Renders render (journal ++ renderedEntries render before) after := by
  induction before generalizing journal with
  | nil => simp [Player.Renders]
  | cons entry before ih => simp [Player.Renders, ih, and_assoc]

/-- Entries are rendered if each call among them is, whatever happened before it. -/
theorem renders_of_forall {entries : List Entry}
    (h : ∀ call fault, .called call fault ∈ entries → ∀ act ∈ p.act? call, ∀ journal,
      act.run journal = .ok () (journal ++ render call)) : p.Renders render journal entries := by
  induction entries generalizing journal with
  | nil => trivial
  | cons entry entries ih =>
    refine ⟨?_, ih fun call fault hmem => h call fault (List.mem_cons_of_mem _ hmem)⟩
    cases entry with
    | called call fault =>
      exact fun act hact => h call fault (List.mem_cons_self ..) act hact journal
    | recorded | printed | noticed | spaced => trivial

theorem perform_run {act : Act Unit} {t : Tracker} {journal' : Journal}
    (h : act.run journal = .ok () journal') :
    (Play.perform act).run ⟨t, journal⟩ = .ok () ⟨t, journal'⟩ := by
  rw [EStateM.run] at h
  rw [EStateM.run, Play.perform, h]

theorem perform_run_of_error {act : Act Unit} {t : Tracker} {journal' : Journal} {fault : Fault}
    (h : act.run journal = .error fault journal') :
    (Play.perform act).run ⟨t, journal⟩ = .error (.fault fault) ⟨t, journal'⟩ := by
  rw [EStateM.run] at h
  rw [EStateM.run, Play.perform, h]

end

namespace Player

section

variable {p : Player} {render : Call → List Entry} {journal : Journal} {t : Tracker}

theorem act?_event (p : Player) (event : KeyEvent) :
    p.act? event.call = some (p.sending event) := by
  cases event <;> rfl

/-! ## Chords -/

theorem toggleKeys_cons_run (p : Player) (key : Key) (keys : List Key) :
    (p.toggleKeys (key :: keys)).run ⟨t, journal⟩ =
      ((p.send (t.toggle key).1 >>=
        fun _ => modify fun stage => { stage with tracker := (t.toggle key).2 }) >>=
        fun _ => p.toggleKeys keys).run ⟨t, journal⟩ := by
  rw [toggleKeys]
  simp only [EStateM.run_bind, EStateM.run_get, bind_assoc]

/-- Toggling keys adds their events as they are rendered. -/
theorem toggleKeys_run_of_renders {keys : List Key}
    (h : p.Renders render journal ((t.toggleAll keys).1.map KeyEvent.entry)) :
    (p.toggleKeys keys).run ⟨t, journal⟩ =
      .ok () ⟨(t.toggleAll keys).2,
        journal ++ renderedEntries render ((t.toggleAll keys).1.map KeyEvent.entry)⟩ := by
  induction keys generalizing t journal with
  | nil => simp [toggleKeys]
  | cons key keys ih =>
    rw [Tracker.toggleAll_cons_fst, List.map_cons] at h
    have hevent :
        (p.sending (t.toggle key).1).run journal =
          .ok () (journal ++ render (t.toggle key).1.call) :=
      h.1 _ (p.act?_event _)
    rw [toggleKeys_cons_run, EStateM.run_bind, EStateM.run_bind, send, perform_run hevent]
    simp only [EStateM.run_modify]
    refine (ih h.2).trans ?_
    rw [Tracker.toggleAll_cons_fst, List.map_cons, renderedEntries_cons, ← List.append_assoc]
    rfl

/-- The entries of releases that are accepted. -/
def releaseEntries (keys : List Key) : List Entry :=
  keys.map fun key => .called (.release key) none

@[simp]
theorem releaseEntries_cons (key : Key) (keys : List Key) :
    releaseEntries (key :: keys) = .called (.release key) none :: releaseEntries keys :=
  rfl

theorem releaseKeys_cons_run (p : Player) (key : Key) (keys : List Key) (failure : Option Fault) :
    (p.releaseKeys (key :: keys) failure).run ⟨t, journal⟩ =
      match (Play.attempt (p.sending (.release key))).run ⟨⟨keys.reverse⟩, journal⟩ with
      | .ok none stage => (p.releaseKeys keys failure).run stage
      | .ok (some fault) stage =>
        (Play.perform (notReleased key fault) >>= fun _ =>
          p.releaseKeys keys (failure.or (some fault))).run stage
      | .error e stage => .error e stage := by
  rw [releaseKeys, EStateM.run_bind, EStateM.run_modify]
  simp only
  rw [EStateM.run_bind]
  cases (Play.attempt (p.sending (.release key))).run ⟨⟨keys.reverse⟩, journal⟩ with
  | error e stage => rfl
  | ok failed stage => cases failed <;> rfl

/-- Releasing the first of some keys adds their releases as they are rendered. -/
theorem releaseKeys_run_of_renders {keys keys' : List Key} {failure : Option Fault}
    (h : p.Renders render journal (releaseEntries keys)) :
    (p.releaseKeys (keys ++ keys') failure).run ⟨⟨(keys ++ keys').reverse⟩, journal⟩ =
      (p.releaseKeys keys' failure).run
        ⟨⟨keys'.reverse⟩, journal ++ renderedEntries render (releaseEntries keys)⟩ := by
  induction keys generalizing journal with
  | nil => simp [releaseEntries]
  | cons key keys ih =>
    have hrelease :
        (p.sending (.release key)).run journal = .ok () (journal ++ render (.release key)) :=
          h.1 _ rfl
    have hattempt :
        (Play.attempt (p.sending (.release key))).run ⟨⟨(keys ++ keys').reverse⟩, journal⟩ =
          .ok none ⟨⟨(keys ++ keys').reverse⟩, journal ++ render (.release key)⟩ := by
      rw [EStateM.run] at hrelease
      rw [EStateM.run, Play.attempt, hrelease]
    rw [List.cons_append, releaseKeys_cons_run, hattempt]
    refine (ih h.2).trans ?_
    rw [releaseEntries_cons, renderedEntries_cons, ← List.append_assoc]

theorem releaseKeys_all_run_of_renders {keys : List Key}
    (h : p.Renders render journal (releaseEntries keys)) :
    (p.releaseKeys keys none).run ⟨⟨keys.reverse⟩, journal⟩ =
      .ok () ⟨{}, journal ++ renderedEntries render (releaseEntries keys)⟩ := by
  have hrun : (p.releaseKeys (keys ++ []) none).run ⟨⟨(keys ++ []).reverse⟩, journal⟩ =
    .ok () ⟨⟨[]⟩, journal ++ renderedEntries render (releaseEntries keys)⟩ :=
      releaseKeys_run_of_renders h
  rwa [List.append_nil] at hrun

theorem entries_releases (keys : List Key) :
    (keys.map KeyEvent.release).map KeyEvent.entry = releaseEntries keys := by
  simp [releaseEntries]

/-- A chord adds its events as they are rendered. -/
theorem keyCombo_run_of_renders {keys : List Key}
    (h : p.Renders render journal ((chordEvents keys).map KeyEvent.entry)) :
    (p.keyCombo keys).run ⟨{}, journal⟩ =
      .ok () ⟨{}, journal ++ renderedEntries render ((chordEvents keys).map KeyEvent.entry)⟩ := by
  have hevents :
      (chordEvents keys).map KeyEvent.entry = (Tracker.toggleAll {} keys).1.map KeyEvent.entry ++
        releaseEntries (Tracker.toggleAll {} keys).2.held.reverse := by
    rw [← entries_releases, ← List.map_append]
    rfl
  rw [hevents, renders_append] at h
  rw [keyCombo, EStateM.run_bind, toggleKeys_run_of_renders h.1, hevents, renderedEntries_append,
    ← List.append_assoc, ← releaseKeys_all_run_of_renders h.2, List.reverse_reverse]
  rfl

/-! ## Scripts -/

/-- A move other than a stop adds its entries as they are rendered, and holds no key at the end. -/
theorem make_run_of_renders {move : Move} (hstop : ∀ e, move ≠ .stop e)
    (h : p.Renders render journal move.entries) :
    (p.make move).run ⟨{}, journal⟩ =
      .ok () ⟨{}, journal ++ renderedEntries render move.entries⟩ := by
  cases move with
  | focus | type c | sleep d | click key =>
    rw [Move.entries, renderedEntries_cons, renderedEntries_nil, List.append_nil]
    exact perform_run (h.1 _ rfl)
  | skip number => rfl
  | stop e => exact absurd rfl (hstop e)
  | chord keys => exact keyCombo_run_of_renders h

/-- Following a script adds its entries as they are rendered, ends as the script does, and holds no
key at the end. -/
theorem follow_run_of_renders {moves : List Move}
    (h : p.Renders render journal (scriptEntries moves)) :
    (p.follow moves).run ⟨{}, journal⟩ =
      Play.result (scriptEnd moves)
        ⟨{}, journal ++ renderedEntries render (scriptEntries moves)⟩ := by
  induction moves generalizing journal with
  | nil => simp [scriptEntries, scriptEnd, Play.result]
  | cons move moves ih =>
    rcases move.stop_or_not_stop with ⟨error, rfl⟩ | hstop
    · simp [scriptEntries, scriptEnd, Play.result, make, EStateM.run_bind]
    · rw [scriptEntries_cons hstop, renders_append] at h
      rw [follow_cons, EStateM.run_bind, make_run_of_renders hstop h.1, scriptEntries_cons hstop,
        scriptEnd_cons hstop, renderedEntries_append, ← List.append_assoc]
      exact ih h.2

/-- Cleaning up where nothing is held changes nothing. -/
theorem ensuring_run_of_none_held {p : Player} {body : Play Unit} {fate : Except PlayError Unit}
    {stage : Stage} {journal : Journal} (h : body.run stage = Play.result fate ⟨{}, journal⟩) :
    (Play.ensuring body p.releaseHeld).run stage = Play.result fate ⟨{}, journal⟩ := by
  rw [ensuring_run, h]
  cases fate <;> simp [Play.result, releaseHeld_run_nil]

/-- From where no key is held, playing a snippet adds the entries of its script as they are
rendered, ends as the script does, and holds no key at the end. -/
theorem play_run_of_renders {snippet : Snippet} {values : Mapping Text Text}
    (h : p.Renders render journal (scriptEntries (snippet.script p.settings values))) :
    (p.play snippet values).run ⟨{}, journal⟩ =
      Play.result (scriptEnd (snippet.script p.settings values))
        ⟨{}, journal ++
          renderedEntries render (scriptEntries (snippet.script p.settings values))⟩ := by
  rw [play_run]
  exact ensuring_run_of_none_held (follow_run_of_renders h)

end

end Player

end Typist
