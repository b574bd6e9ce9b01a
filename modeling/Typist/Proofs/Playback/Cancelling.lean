import Typist.Command.Run
import Typist.Proofs.Playback.Interruption

/-!
# What becomes of an interruption

When the user interrupts, the keys held are released before the interruption leaves the player. If
the keyboard fails to release one of them, the first such failure leaves in its place. So a run that
the user interrupts while it plays is reported as cancelled exactly if every release after the
interruption is accepted (`playOn_interrupted`).
-/

namespace Typist

section

variable {settings : Settings} {faults : Faults} {snippet : Snippet} {values : Mapping Text Text}
  {earlier : Journal} {before after : List (Call × Option Fault)} {call : Call} {fault : Fault}

/-- A call that fails and is no release is the first that fails : all calls after the first are
releases. -/
theorem exists_standsAt_of_fault
    (h : (stageAfterPlay settings faults snippet values earlier).callsSince earlier =
      before ++ (call, some fault) :: after) (hcall : ∀ key, call ≠ .release key) :
    ∃ st made, Player.StandsAt (fun p => p.follow (snippet.script settings values)) st made call ∧
      faults.Agrees earlier (made ++ [.called call (some fault)]) ∧
        Journal.calls made = before := by
  have haccepted := scriptEntries_accepted (snippet.script settings values)
  rcases faults.agrees_or_meets earlier haccepted with
    hall | ⟨made, first, rest, met, hscript, hmeets⟩
  · have hcalls := Journal.calls_accepted haccepted
    rw [stageAfterPlay_of_agrees hall, Stage.callsSince_append] at h
    exact absurd (hcalls (call, some fault) (by simp [h])) (by simp)
  · obtain ⟨st, -, hstands⟩ := Player.follow_standsAt hscript
    obtain ⟨added, hjournal, hreleases⟩ := journal_stageAfterPlay_of_meets hstands hmeets
    have hsince : Journal.calls made ++ (first, some met) :: Journal.calls added =
        before ++ (call, some fault) :: after := by
      rw [← h, Stage.callsSince, hjournal]
      simp
    rcases split_of_append hsince with ⟨mid, hmade, -⟩ | ⟨mid, rfl, hrest⟩
    · have hearlier := calls_before_accepted hscript (call, some fault) (by simp [hmade])
      cases hearlier
    · cases mid with
      | nil =>
        obtain ⟨rfl, hmet⟩ := Prod.mk.inj (List.cons.inj hrest).1
        obtain rfl := Option.some.inj hmet
        exact ⟨st, made, hstands, hmeets, (List.append_nil _).symm⟩
      | cons _ mid =>
        obtain ⟨key, hkey⟩ := hreleases (call, some fault) (by rw [(List.cons.inj hrest).2]; simp)
        exact absurd hkey (hcall key)

end

/-- The fault that leaves the player after an interruption, given the calls made after it : the
first that these met, if any. -/
def faultLeaving (after : List (Call × Option Fault)) : Fault :=
  (after.findSome? Prod.snd).getD .interrupt

/-- A run is reported as cancelled exactly if no release failed after the interruption. -/
theorem status_faultLeaving {after : List (Call × Option Fault)}
    (hafter : ∀ made ∈ after, ∀ fault ∈ made.2, fault.isHardware = true) (verbose : Bool)
    (console : Command.Console) :
    (Command.concluded verbose (.failure (.play (.fault (faultLeaving after)))) console).status =
      if ∀ made ∈ after, made.2 = none then Command.cancelledStatus else 1 := by
  rw [faultLeaving]
  cases hfirst : after.findSome? Prod.snd with
  | none =>
    rw [if_pos (List.findSome?_eq_none_iff.mp hfirst)]
    rfl
  | some fault =>
    obtain ⟨made, hmade, hfault⟩ := List.exists_of_findSome?_eq_some hfirst
    rw [if_neg fun haccepted => by rw [haccepted made hmade] at hfault; cases hfault]
    have hhardware := hafter made hmade fault hfault
    cases fault with
    | unsupported | hardware => rfl
    | interrupt | unavailable => cases hhardware

/-- A run stops where playing does. -/
theorem playOn_of_play_run {host : Command.Host} {settings : Settings} {snippet : Snippet}
    {values : Mapping Text Text} {console : Command.Console} {e : PlayError} {stage : Stage}
    (h : ((Player.onto settings host.faults).play snippet values).run ⟨{}, console.journal⟩ =
      .error e stage) :
    Command.Session.playOn (Keyboard.direct host.faults) host settings snippet values console =
      .error (.failure (.play e)) { console with journal := stage.journal } := by
  rw [EStateM.run, Player.onto] at h
  rw [Command.Session.playOn]
  simp only [h]

/-- If the user interrupts a call other than a release, and only the hardware fails the releases
after it, then playing comes to the first of these failures, and without one to the interruption.
Without one the run is reported as cancelled, and with one it is not. -/
theorem playOn_interrupted {host : Command.Host} {settings : Settings} {snippet : Snippet}
    {values : Mapping Text Text} {console : Command.Console}
    {before after : List (Call × Option Fault)} {call : Call}
    (h : (stageAfterPlay settings host.faults snippet values console.journal).callsSince
      console.journal = before ++ (call, some .interrupt) :: after)
    (hcall : ∀ key, call ≠ .release key)
    (hafter : ∀ made ∈ after, ∀ fault ∈ made.2, fault.isHardware = true) :
    outcome ((Player.onto settings host.faults).play snippet values) ⟨{}, console.journal⟩ =
        .error (.fault (faultLeaving after)) ∧
      ∃ stop console', Command.Session.playOn (Keyboard.direct host.faults) host settings snippet
        values console = .error stop console' ∧
        ∀ verbose, (Command.concluded verbose stop console').status =
          if ∀ made ∈ after, made.2 = none then Command.cancelledStatus else 1 := by
  obtain ⟨st, made, hstands, hmeets, rfl⟩ := exists_standsAt_of_fault h hcall
  obtain ⟨fate, t, added, hrun, hspec⟩ := play_run_of_interrupt hstands hmeets
  obtain rfl : Journal.calls added = after := by
    rw [stageAfterPlay, stateAfter_of_run hrun, Stage.callsSince_append] at h
    simpa using h
  obtain ⟨-, rfl⟩ := hspec hafter
  exact ⟨by rw [outcome, hrun]; rfl, _, _, playOn_of_play_run hrun,
    fun verbose => status_faultLeaving hafter verbose _⟩

theorem playOn_interrupted_jammedCtrl :
    let host : Command.Host := { files := ⟨fun _ => .absent, fun _ => none⟩, faults := jammedCtrl }
    let console : Command.Console := { input := ⟨[], [], [], false⟩ }
    let copy : Snippet := ⟨[[.combo [.code .leftCtrl, .char (.ofText ['c'])]]], {}, []⟩
    (stageAfterPlay .unhurried jammedCtrl copy {} []).callsSince [] =
        [(.press (.code .leftCtrl), none)] ++ (.press (.char (.ofText ['c'])), some .interrupt) ::
          [(.release (.code .leftCtrl), some (.hardware "jammed"))] ∧
      outcome ((Player.onto .unhurried jammedCtrl).play copy {}) ⟨{}, []⟩ =
        .error (.fault (.hardware "jammed")) ∧
      ∃ stop console', Command.Session.playOn (Keyboard.direct jammedCtrl) host .unhurried copy
        {} console = .error stop console' ∧
        ∀ verbose, (Command.concluded verbose stop console').status = 1 := by
  intro host console copy
  have hcalls : (stageAfterPlay .unhurried jammedCtrl copy {} []).callsSince [] =
      [(.press (.code .leftCtrl), none)] ++ (.press (.char (.ofText ['c'])), some .interrupt) ::
        [(.release (.code .leftCtrl), some (.hardware "jammed"))] := by
    decide
  exact ⟨hcalls, @playOn_interrupted host .unhurried copy {} console _ _ _ hcalls (by simp)
    (by simp [Fault.isHardware])⟩

end Typist
