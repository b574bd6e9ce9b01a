import Typist.Proofs.Arguments
import Typist.Proofs.Playback.Trace
import Typist.Proofs.Settings
import Typist.Proofs.Snippet.Produced

/-!
# Playing on a keyboard that never fails

On a keyboard and a clock that never fail a script goes on to its end, or to its first stop
(`play_outcome`). A stop is an argument without a value, a delay that is no duration, or a commit
key that names no key (`stop_mem_script`).

If the settings were loaded, the snippet was read under them and the values were resolved for it,
then only a delay is left to stop it : `play_of_resolved`.
-/

namespace Typist

/-! ## Where a script stops -/

theorem scriptEnd_eq_ok_iff {moves : List Move} :
    scriptEnd moves = .ok () ↔ ∀ e, Move.stop e ∉ moves := by
  induction moves with
  | nil => simp [scriptEnd]
  | cons move moves ih =>
    rcases move.stop_or_not_stop with ⟨error, rfl⟩ | hstop
    · simp only [scriptEnd, reduceCtorEq, false_iff, not_forall, not_not]
      exact ⟨error, List.mem_cons_self ..⟩
    · rw [scriptEnd_cons hstop, ih]
      simp [fun e => (hstop e).symm]

theorem mem_of_scriptEnd {moves : List Move} {e : PlayError} (h : scriptEnd moves = .error e) :
    Move.stop e ∈ moves := by
  induction moves with
  | nil => cases h
  | cons move moves ih =>
    rcases move.stop_or_not_stop with ⟨error, rfl⟩ | hstop
    · obtain rfl := Except.error.inj h
      exact List.mem_cons_self ..
    · rw [scriptEnd_cons hstop] at h
      exact List.mem_cons_of_mem _ (ih h)

section

variable {s : Settings} {values : Mapping Text Text} {e : PlayError}

theorem stop_not_mem_moves (d : Duration) : Move.stop e ∉ d.moves := by
  intro h
  cases eq_sleep_of_mem_moves h

theorem stop_not_mem_typingMoves (t : Text) : Move.stop e ∉ typingMoves s t := by
  intro h
  rcases mem_typingMoves h with ⟨c, hc⟩ | hc <;> cases hc

/-- Why a part stops a script. -/
inductive Part.Stops (s : Settings) (values : Mapping Text Text) : Part → PlayError → Prop
  | unresolved {name : Text} :
      values.get? name = none → Stops s values (.arg name) (.unresolved name)
  | delayOutOfRange {milliseconds : Int} :
      s.honorDelays = true → Duration.ofMillis? milliseconds = none →
      Stops s values (.delay milliseconds) .delayOutOfRange

theorem stop_mem_part_moves {part : Part} :
    Move.stop e ∈ part.moves s values ↔ part.Stops s values e := by
  constructor
  · intro h
    cases part with
    | text content => exact absurd h (stop_not_mem_typingMoves content)
    | combo keys => simp [Part.moves] at h
    | arg name =>
      rw [Part.moves] at h
      cases hvalue : values.get? name with
      | none =>
        rw [hvalue] at h
        obtain rfl := Move.stop.inj (List.mem_singleton.mp h)
        exact .unresolved hvalue
      | some value =>
        rw [hvalue] at h
        exact absurd h (stop_not_mem_typingMoves value)
    | delay milliseconds =>
      rw [Part.moves] at h
      split at h
      · next hhonored =>
        cases hd : Duration.ofMillis? milliseconds with
        | none =>
          rw [hd] at h
          obtain rfl := Move.stop.inj (List.mem_singleton.mp h)
          exact .delayOutOfRange hhonored hd
        | some d =>
          rw [hd] at h
          exact absurd h (stop_not_mem_moves d)
      · simp at h
  · intro h
    cases h with
    | unresolved hvalue => simp [Part.moves, hvalue]
    | delayOutOfRange hhonored hd => simp [Part.moves, hhonored, hd]

theorem stop_eq_commitMove :
    Move.stop e = s.commitMove ↔
      ∃ error, s.commit = .error error ∧ e = .unknownCommitKey error := by
  rw [Settings.commitMove]
  cases s.commit <;> simp

/-- A line stops a script at one of its parts or at its end, unless it is a comment. -/
def Line.Stops (s : Settings) (values : Mapping Text Text) (line : Line) (e : PlayError) : Prop :=
  line.isComment = false ∧
    ((∃ part ∈ line, part.Stops s values e) ∨ ∃ error, s.commit = .error error ∧
      e = .unknownCommitKey error)

theorem stop_mem_line_moves {number : Nat} {line : Line} :
    Move.stop e ∈ line.moves s values number ↔ line.Stops s values e := by
  rw [Line.moves, Line.Stops, List.mem_append, or_iff_right (stop_not_mem_moves _)]
  cases line.isComment with
  | true => simp
  | false => simp [stop_mem_part_moves, stop_eq_commitMove]

theorem stop_mem_linesMoves {number : Nat} {lines : List Line} :
    Move.stop e ∈ linesMoves s values number lines ↔ ∃ line ∈ lines, line.Stops s values e := by
  induction lines generalizing number with
  | nil => simp [linesMoves]
  | cons line lines ih => simp [linesMoves, stop_mem_line_moves, ih]

/-- The stops in the script of a snippet are those of its lines. -/
theorem stop_mem_script {snippet : Snippet} :
    Move.stop e ∈ snippet.script s values ↔ ∃ line ∈ snippet.lines, line.Stops s values e := by
  rw [Snippet.script, List.mem_append, stop_mem_linesMoves]
  refine or_iff_right ?_
  split <;> simp

end

/-! ## Actions that never fail -/

/-- Does the action never fail? -/
def Succeeds {ε σ : Type} (act : EStateM ε σ Unit) : Prop :=
  ∀ s, ∃ s', act.run s = .ok () s'

/-- Does nothing that the player does with its keyboard and its clock ever fail? -/
structure Player.IsUnfailing (p : Player) : Prop where
  press : ∀ key, Succeeds (p.keyboard.press key)
  release : ∀ key, Succeeds (p.keyboard.release key)
  click : ∀ key, Succeeds (p.keyboard.click key)
  type : ∀ t, Succeeds (p.keyboard.type t)
  focus : Succeeds p.keyboard.focus
  sleep : ∀ d, Succeeds (p.sleep d)

section

variable {ε σ : Type} {act act' : EStateM ε σ Unit}

theorem succeeds_pure : Succeeds (pure () : EStateM ε σ Unit) := fun s =>
  ⟨s, rfl⟩

theorem succeeds_modify (f : σ → σ) : Succeeds (modify f : EStateM ε σ Unit) := fun s =>
  ⟨f s, rfl⟩

theorem Succeeds.bind (h : Succeeds act) (h' : Succeeds act') :
    Succeeds (act >>= fun _ => act') := by
  intro s
  obtain ⟨s₁, hrun⟩ := h s
  obtain ⟨s₂, hrun'⟩ := h' s₁
  exact ⟨s₂, run_bind_eq_ok.mpr ⟨(), s₁, hrun, hrun'⟩⟩

end

theorem note_succeeds (level : Level) (message : String) : Succeeds (Act.note level message) :=
  succeeds_modify _

namespace Play

theorem perform_succeeds {act : Act Unit} (h : Succeeds act) : Succeeds (perform act) := by
  intro stage
  obtain ⟨journal, hrun⟩ := h stage.journal
  refine ⟨{ stage with journal }, ?_⟩
  rw [EStateM.run] at hrun
  rw [EStateM.run, perform, hrun]

/-- What never fails tells no failure. -/
theorem attempt_run {act : Act Unit} (h : Succeeds act) (stage : Stage) :
    ∃ stage', (attempt act).run stage = .ok none stage' := by
  obtain ⟨journal, hrun⟩ := h stage.journal
  refine ⟨{ stage with journal }, ?_⟩
  rw [EStateM.run] at hrun
  rw [EStateM.run, attempt, hrun]

end Play

namespace Player

variable {p : Player}

theorem IsUnfailing.sending (h : p.IsUnfailing) (event : KeyEvent) :
    Succeeds (p.sending event) := by
  cases event with
  | press key => exact h.press key
  | release key => exact h.release key

theorem toggleKeys_succeeds (h : p.IsUnfailing) (keys : List Key) :
    Succeeds (p.toggleKeys keys) := by
  induction keys with
  | nil => exact succeeds_pure
  | cons key keys ih =>
    rintro ⟨t, journal⟩
    rw [toggleKeys_cons_run]
    exact ((Play.perform_succeeds (h.sending _)).bind (succeeds_modify _)).bind ih _

theorem releaseKeys_succeeds (h : p.IsUnfailing) (keys : List Key) :
    Succeeds (p.releaseKeys keys none) := by
  induction keys with
  | nil => exact succeeds_pure
  | cons key keys ih =>
    rintro ⟨t, journal⟩
    obtain ⟨stage, hrun⟩ := Play.attempt_run (h.sending (.release key)) ⟨⟨keys.reverse⟩, journal⟩
    rw [releaseKeys_cons_run, hrun]
    exact ih stage

theorem releaseHeld_succeeds (h : p.IsUnfailing) : Succeeds p.releaseHeld := fun stage =>
  releaseKeys_succeeds h stage.tracker.held.reverse stage

/-- A move that is no stop is made. -/
theorem make_succeeds (h : p.IsUnfailing) {move : Move} (hstop : ∀ e, move ≠ .stop e) :
    Succeeds (p.make move) := by
  cases move with
  | focus => exact Play.perform_succeeds h.focus
  | type c => exact Play.perform_succeeds (h.type [c])
  | sleep d => exact Play.perform_succeeds (h.sleep d)
  | chord keys => exact (toggleKeys_succeeds h keys).bind (releaseHeld_succeeds h)
  | click key => exact Play.perform_succeeds (h.click key)
  | skip number => exact Play.perform_succeeds (note_succeeds _ _)
  | stop e => exact absurd rfl (hstop e)

/-- A script is followed to its first stop. -/
theorem follow_end (h : p.IsUnfailing) (moves : List Move) (stage : Stage) :
    ∃ stage', (p.follow moves).run stage = Play.result (scriptEnd moves) stage' := by
  induction moves generalizing stage with
  | nil => exact ⟨stage, rfl⟩
  | cons move moves ih =>
    rcases move.stop_or_not_stop with ⟨error, rfl⟩ | hstop
    · exact ⟨stage, rfl⟩
    · obtain ⟨stage₁, hmake⟩ := make_succeeds h hstop stage
      obtain ⟨stage₂, hfollow⟩ := ih stage₁
      exact ⟨stage₂, by rw [follow_cons, EStateM.run_bind, hmake, scriptEnd_cons hstop, ← hfollow]⟩

theorem focus_succeeds (h : p.IsUnfailing) : Succeeds p.focus := by
  rw [focus]
  split
  · exact Play.perform_succeeds h.focus
  · exact succeeds_pure

/-- Playing comes to what its script comes to, whatever is held before it. -/
theorem play_outcome (h : p.IsUnfailing) (snippet : Snippet) (values : Mapping Text Text)
    (stage : Stage) :
    outcome (p.play snippet values) stage = scriptEnd (snippet.script p.settings values) := by
  obtain ⟨stage₁, hfocus⟩ := focus_succeeds h stage
  obtain ⟨stage₂, hfollow⟩ := follow_end h (snippet.script p.settings values) stage
  obtain ⟨stage₃, hrelease⟩ := releaseHeld_succeeds h stage₂
  rw [← focus_bind_playLines, EStateM.run_bind, hfocus] at hfollow
  rw [outcome, play, EStateM.run_bind, hfocus]
  simp only at hfollow ⊢
  rw [ensuring_run, hfollow]
  cases scriptEnd (snippet.script p.settings values) <;> simp [Play.result, hrelease]

/-- Where no call meets a fault nothing fails. -/
theorem onto_isUnfailing (settings : Settings) : (onto settings Faults.none).IsUnfailing := by
  have hcall : ∀ c, Succeeds (Act.call Faults.none c) := fun c journal =>
    ⟨journal ++ [.called c none], rfl⟩
  exact ⟨fun _ => hcall _, fun _ => hcall _, fun _ => hcall _, fun _ => hcall _, hcall _,
    fun _ => hcall _⟩

end Player

/-! ## What was loaded, read and resolved -/

/-- The most milliseconds that a duration has. -/
def maxMillis : Int := 86399999999999999

theorem ofMillis?_eq_none_iff {milliseconds : Int} (h : 0 ≤ milliseconds) :
    Duration.ofMillis? milliseconds = none ↔ maxMillis < milliseconds := by
  have hrange :
      minMicros ≤ milliseconds * 1000 ∧ milliseconds * 1000 ≤ maxMicros ↔
        ¬ maxMillis < milliseconds := by
    simp only [minMicros, maxMicros, maxMillis]
    omega
  rw [Duration.ofMillis?, Duration.ofMicros?]
  by_cases hlong : maxMillis < milliseconds
  · simp [hrange, hlong]
  · simp [hrange, hlong]

/-- Is there a delay that is longer than any duration, in a line that is no comment? -/
def Snippet.HasEndlessDelay (snippet : Snippet) : Prop :=
  ∃ line ∈ snippet.lines, line.isComment = false ∧
    ∃ milliseconds, Part.delay milliseconds ∈ line ∧ maxMillis < milliseconds

section

variable {ε σ : Type} {path t : Text} {content : Except FileError (List UInt8)} {levels : Nat}
  {settings : Settings} {snippet : Snippet} {ask : Text → EStateM ε σ Text}
  {supplied values : Mapping Text Text} {s s' : σ}

/-- A script stops at endless delays only, if the settings were loaded, the snippet was read under
them and its values were resolved. -/
theorem stop_mem_script_of_resolved (hload : Settings.load path content levels = .ok settings)
    (hparse : Snippet.parse settings.keyLookup t = .ok snippet)
    (hresolve : (resolveArguments ask snippet.lines snippet.defaults supplied).run s =
      .ok values s') (e : PlayError) :
    Move.stop e ∈ snippet.script settings values ↔
      e = .delayOutOfRange ∧ settings.honorDelays = true ∧ snippet.HasEndlessDelay := by
  have hlong : ∀ line ∈ snippet.lines, ∀ milliseconds, Part.delay milliseconds ∈ line →
      (Duration.ofMillis? milliseconds = none ↔ maxMillis < milliseconds) := by
    intro line hline milliseconds hpart
    exact ofMillis?_eq_none_iff ((line_isNormal_of_parse hparse hline).parts _ hpart)
  rw [stop_mem_script]
  constructor
  · rintro ⟨line, hline, hcomment, ⟨part, hpart, hstops⟩ | ⟨error, hcommit, -⟩⟩
    · cases hstops with
      | @unresolved name hvalue =>
        have hcontains := contains_of_resolveArguments hresolve hline hpart
        rw [Mapping.contains, hvalue] at hcontains
        cases hcontains
      | @delayOutOfRange milliseconds hhonored hd =>
        exact ⟨rfl, hhonored, line, hline, hcomment, milliseconds, hpart,
          (hlong line hline milliseconds hpart).mp hd⟩
    · obtain ⟨key, hkey⟩ := Settings.commit_of_load hload
      rw [hkey] at hcommit
      cases hcommit
  · rintro ⟨rfl, hhonored, line, hline, hcomment, milliseconds, hpart, hd⟩
    exact ⟨line, hline, hcomment, .inl ⟨_, hpart, .delayOutOfRange hhonored
      ((hlong line hline milliseconds hpart).mpr hd)⟩⟩

/-- On a keyboard that never fails a snippet is played to its end under the settings it was read
with, unless a delay that counts is endless : it stops there. -/
theorem play_of_resolved {p : Player} (hp : p.IsUnfailing)
    (hload : Settings.load path content levels = .ok p.settings)
    (hparse : Snippet.parse p.settings.keyLookup t = .ok snippet)
    (hresolve : (resolveArguments ask snippet.lines snippet.defaults supplied).run s =
      .ok values s') (stage : Stage) :
    (outcome (p.play snippet values) stage = .ok () ↔
        ¬ (p.settings.honorDelays = true ∧ snippet.HasEndlessDelay)) ∧
      (outcome (p.play snippet values) stage = .error .delayOutOfRange ↔
        p.settings.honorDelays = true ∧ snippet.HasEndlessDelay) := by
  have hstops := stop_mem_script_of_resolved hload hparse hresolve
  rw [Player.play_outcome hp]
  cases hend : scriptEnd (snippet.script p.settings values) with
  | ok _ =>
    have hnone : ¬ (p.settings.honorDelays = true ∧ snippet.HasEndlessDelay) := fun hendless =>
      scriptEnd_eq_ok_iff.mp hend _ ((hstops _).mpr ⟨rfl, hendless⟩)
    simp [hnone]
  | error e =>
    obtain ⟨rfl, hendless⟩ := (hstops e).mp (mem_of_scriptEnd hend)
    simp [hendless]

end

/-- A settings file in which the key that ends a line types an `x`. -/
def commitX : List UInt8 :=
  Utf8.encode "\x7b\"commit_key\":\"x\"\x7d".toList

/-- A text with an argument, and with a delay of a thousand million days. -/
def agesText : Text :=
  "a$@n$$'86400000000000000$b".toList

theorem play_of_resolved_agesText :
    ∃ settings snippet values interview,
      Settings.load [] (.ok commitX) = .ok settings ∧
      Snippet.parse settings.keyLookup agesText = .ok snippet ∧
      (resolveArguments Interview.ask snippet.lines snippet.defaults {}).run ⟨[], [some ['v']]⟩ =
        .ok values interview ∧
      (Player.onto settings Faults.none).IsUnfailing ∧ snippet.HasEndlessDelay ∧
      outcome ((Player.onto settings Faults.none).play snippet values) {} =
        .error .delayOutOfRange := by
  let settings : Settings := { commitKey := .ofText ['x'] }
  have hload : Settings.load [] (.ok commitX) = .ok settings := by decide +kernel
  have hlines : (Snippet.parse settings.keyLookup agesText).map Snippet.lines =
      .ok [[.text ['a'], .arg ['n'], .delay 86400000000000000, .text ['b']]] := by decide +kernel
  cases hparse : Snippet.parse settings.keyLookup agesText with
  | error e =>
    rw [hparse] at hlines
    cases hlines
  | ok snippet =>
    rw [hparse] at hlines
    obtain hlines : snippet.lines = _ := Except.ok.inj hlines
    have hresolve : (resolveArguments Interview.ask snippet.lines snippet.defaults {}).run
        ⟨[], [some ['v']]⟩ = .ok (.ofList [(['n'], ['v'])])
          ⟨[question ['n'] (snippet.defaults.get? ['n'])], []⟩ := by
      rw [hlines]
      rfl
    have hunfailing := Player.onto_isUnfailing settings
    have hendless : snippet.HasEndlessDelay :=
      ⟨_, by rw [hlines]; exact List.mem_singleton_self _, rfl, 86400000000000000,
        by simp, by decide⟩
    exact ⟨settings, snippet, _, _, hload, hparse, hresolve, hunfailing, hendless,
      (play_of_resolved hunfailing hload hparse hresolve {}).2.mpr ⟨rfl, hendless⟩⟩

end Typist
