import Typist.Proofs.Playback.Standing

/-!
# Playing stops at the first fault and cleans up

`play_failStop` : as long as a release fails only with the hardware, the calls up to the first that
fails are those of playing on a keyboard that never fails. All calls after it are releases, one for
each key held at that moment, last pressed first (`PlaysFailStop`). However playing ends, no key is
held, and after every press that was accepted a release of the key was tried.

The keys held at the moment of a call are read off the stage that the lines leave when the user
interrupts that call and nothing is cleaned up (`stageAtCall`).
-/

namespace Typist

/-! ## The statement -/

/-- The calls that were made since `earlier`, with the faults they met. -/
def Stage.callsSince (stage : Stage) (earlier : Journal) : List (Call × Option Fault) :=
  Journal.calls (stage.journal.drop earlier.length)

section

variable (settings : Settings) (faults : Faults) (snippet : Snippet) (values : Mapping Text Text)
  (earlier : Journal)

/-- The stage that playing a snippet leaves, after `earlier` and from where no key is held. -/
def stageAfterPlay : Stage :=
  stateAfter ((Player.onto settings faults).play snippet values) ⟨{}, earlier⟩

/-- The stage at which playing a snippet makes the call that has `n` calls before it : the one that
its lines leave when the user interrupts that call. -/
def stageAtCall (n : Nat) : Stage :=
  let p := Player.onto settings (faults.interruptedAt (earlier.calls.length + n))
  stateAfter (p.focus >>= fun _ => p.playLines values 1 snippet.lines) ⟨{}, earlier⟩

/-- Playing a snippet stops at the first fault and cleans up. -/
structure PlaysFailStop : Prop where
  /-- The calls accepted before the first that fails are the first calls on a keyboard that never
  fails. -/
  accepted : ((stageAfterPlay settings faults snippet values earlier).callsSince earlier).takeWhile
      (fun made => made.2.isNone) <+:
    (stageAfterPlay settings Faults.none snippet values earlier).callsSince earlier
  /-- The calls after the first that fails release the keys held at it, each once and last pressed
  first. -/
  cleanedUp : ∀ before call fault after,
    (stageAfterPlay settings faults snippet values earlier).callsSince earlier =
      before ++ (call, some fault) :: after → (∀ made ∈ before, made.2 = none) →
    (stageAtCall settings faults snippet values earlier before.length).callsSince earlier =
        before ++ [(call, some .interrupt)] ∧
      (stageAtCall settings faults snippet values earlier before.length).tracker.held.Nodup ∧
      after.map Prod.fst =
        (stageAtCall settings faults snippet values earlier before.length).tracker.held.reverse.map
          .release
  /-- No key is held at the end. -/
  noneHeld : (stageAfterPlay settings faults snippet values earlier).tracker.held = []
  /-- After an accepted press a release of the key was tried. -/
  released : ∀ key before after,
    (stageAfterPlay settings faults snippet values earlier).callsSince earlier =
      before ++ (.press key, none) :: after → ∃ fault, (.release key, fault) ∈ after

end

/-! ## Cleaning up -/

namespace Player

variable {settings : Settings} {faults : Faults}

/-- Releasing keys tries each of them, whichever fail, and then none is held. -/
theorem releaseKeys_run_of_sparesReleases (settings : Settings) (h : faults.SparesReleases)
    (keys : List Key) (failure : Option Fault) (journal : Journal) :
    ∃ fate added, ((onto settings faults).releaseKeys keys failure).run ⟨⟨keys.reverse⟩, journal⟩ =
        Play.result fate ⟨{}, journal ++ added⟩ ∧
      (Journal.calls added).map Prod.fst = keys.map .release := by
  obtain ⟨fate, t, added, hrun, hreleases, hspec⟩ :=
    releaseKeys_run_spec settings faults keys failure ⟨keys.reverse⟩ journal
  obtain ⟨hheld, hcalls, -⟩ := hspec fun made hmade fault hfault => by
    obtain ⟨j, key, rfl⟩ := hreleases made hmade
    exact h j key fault hfault
  exact ⟨fate, added, by rw [hrun, hheld rfl], hcalls⟩

/-- Cleaning up after a failure releases what is held. -/
theorem ensuring_run_of_error (h : faults.SparesReleases) {body : Play Unit} {e : PlayError}
    {stage : Stage} {held : List Key} {journal : Journal}
    (hbody : body.run stage = .error e ⟨⟨held⟩, journal⟩) :
    ∃ fate added, (Play.ensuring body (onto settings faults).releaseHeld).run stage =
        Play.result fate ⟨{}, journal ++ added⟩ ∧
      (Journal.calls added).map Prod.fst = held.reverse.map .release := by
  obtain ⟨fate, added, hrun, hcalls⟩ :=
    releaseKeys_run_of_sparesReleases settings h held.reverse none journal
  rw [List.reverse_reverse] at hrun
  rw [ensuring_run, hbody]
  simp only [releaseHeld_run]
  rw [hrun]
  cases fate with
  | ok _ => exact ⟨.error e, added, rfl, hcalls⟩
  | error e' => exact ⟨.error e', added, rfl, hcalls⟩

/-- Nothing is left to do after an interruption. -/
theorem afterFault_interrupt (p : Player) (st : Standing) :
    p.afterFault st .interrupt = throw (.fault .interrupt) := by
  rw [afterFault]
  cases st.closing <;> rfl

/-- After a call that fails the keys held at it are released, by the chord that it closes or by the
clean-up. -/
theorem ensuring_afterFault_run (settings : Settings) (h : faults.SparesReleases) (st : Standing)
    (fault : Fault) (journal : Journal) :
    ∃ fate added, (Play.ensuring ((onto settings faults).afterFault st fault)
        (onto settings faults).releaseHeld).run ⟨⟨st.held⟩, journal⟩ =
          Play.result fate ⟨{}, journal ++ added⟩ ∧
      (Journal.calls added).map Prod.fst = st.held.reverse.map .release := by
  have hthrow (body : Play Unit) (hbody : body = throw (.fault fault)) :
      body.run ⟨⟨st.held⟩, journal⟩ = .error (.fault fault) ⟨⟨st.held⟩, journal⟩ := by
    rw [hbody]
    rfl
  cases hclosing : st.closing with
  | none => exact ensuring_run_of_error h (hthrow _ (by rw [afterFault, hclosing]))
  | some key =>
    by_cases hhardware : fault.isHardware = true
    · obtain ⟨fate, added, hrun, hcalls⟩ := releaseKeys_run_of_sparesReleases settings h
        st.held.reverse (some fault) (journal ++ [notReleasedEntry key fault])
      rw [List.reverse_reverse] at hrun
      refine ⟨fate, notReleasedEntry key fault :: added, ensuring_run_of_none_held ?_, hcalls⟩
      rw [afterFault, hclosing]
      simp only [hhardware, if_true]
      rw [EStateM.run_bind, perform_notReleased_run]
      simpa using hrun
    · exact ensuring_run_of_error h
        (hthrow _ (by rw [afterFault, hclosing]; exact if_neg hhardware))

theorem ensuring_run_congr {body body' last : Play Unit} {stage stage' : Stage}
    (h : body.run stage = body'.run stage') :
    (Play.ensuring body last).run stage = (Play.ensuring body' last).run stage' := by
  rw [ensuring_run, ensuring_run, h]

end Player

/-! ## Playing -/

section

variable {settings : Settings} {faults : Faults} {snippet : Snippet} {values : Mapping Text Text}
  {earlier : Journal}

/-- Playing makes the calls of its script if none of them fails. -/
theorem stageAfterPlay_of_agrees
    (h : faults.Agrees earlier (scriptEntries (snippet.script settings values))) :
    stageAfterPlay settings faults snippet values earlier =
      ⟨{}, earlier ++ scriptEntries (snippet.script settings values)⟩ := by
  have hrun : ((Player.onto settings faults).play snippet values).run ⟨{}, earlier⟩ =
      Play.result (scriptEnd (snippet.script settings values))
        ⟨{}, earlier ++ scriptEntries (snippet.script settings values)⟩ := by
    rw [Player.play_run]
    exact Player.ensuring_run_of_none_held (Player.follow_run h)
  exact stateAfter_of_run hrun

/-- If a call fails, playing makes the calls of its script up to that one, then what is left to do
after it. -/
theorem play_run_of_meets {st : Standing} {before : List Entry} {call : Call} {fault : Fault}
    (hstands : Player.StandsAt (fun p => p.follow (snippet.script settings values)) st before call)
    (hmeets : faults.Agrees earlier (before ++ [.called call (some fault)])) :
    ((Player.onto settings faults).play snippet values).run ⟨{}, earlier⟩ =
      (Play.ensuring ((Player.onto settings faults).afterFault st fault)
        (Player.onto settings faults).releaseHeld).run
        ⟨⟨st.held⟩, earlier ++ before ++ [.called call (some fault)]⟩ := by
  rw [Player.play_run]
  exact Player.ensuring_run_congr (hstands settings faults earlier fault hmeets)

/-- If a call fails, playing makes the calls of its script up to that one, then releases what is
held. -/
theorem stageAfterPlay_of_meets (hspares : faults.SparesReleases) {st : Standing}
    {before : List Entry} {call : Call} {fault : Fault}
    (hstands : Player.StandsAt (fun p => p.follow (snippet.script settings values)) st before call)
    (hmeets : faults.Agrees earlier (before ++ [.called call (some fault)])) :
    ∃ added, stageAfterPlay settings faults snippet values earlier =
        ⟨{}, earlier ++ (before ++ .called call (some fault) :: added)⟩ ∧
      (Journal.calls added).map Prod.fst = st.held.reverse.map .release := by
  obtain ⟨fate, added, hcleaned, hcalls⟩ := Player.ensuring_afterFault_run settings hspares st fault
    (earlier ++ before ++ [.called call (some fault)])
  have hrun : ((Player.onto settings faults).play snippet values).run ⟨{}, earlier⟩ =
      Play.result fate ⟨{}, earlier ++ (before ++ .called call (some fault) :: added)⟩ := by
    rw [play_run_of_meets hstands hmeets]
    simpa using hcleaned
  exact ⟨added, stateAfter_of_run hrun, hcalls⟩

/-- The stage at a call that fails is the one at which the script stands there. -/
theorem stageAtCall_of_meets {st : Standing} {before : List Entry} {call : Call} {fault : Fault}
    (hstands : Player.StandsAt (fun p => p.follow (snippet.script settings values)) st before call)
    (hmeets : faults.Agrees earlier (before ++ [.called call (some fault)])) :
    stageAtCall settings faults snippet values earlier (Journal.calls before).length =
      ⟨⟨st.held⟩, earlier ++ (before ++ [.called call (some .interrupt)])⟩ := by
  have hinterrupt := Faults.agrees_interrupt call (Faults.agrees_append.mp hmeets).1
  have hrun := hstands settings _ earlier .interrupt hinterrupt
  rw [Player.afterFault_interrupt, List.append_assoc] at hrun
  have hend : Play.result (.error (.fault .interrupt))
      ⟨⟨st.held⟩, earlier ++ (before ++ [.called call (some .interrupt)])⟩ =
        (throw (.fault .interrupt) : Play Unit).run
          ⟨⟨st.held⟩, earlier ++ (before ++ [.called call (some .interrupt)])⟩ := rfl
  rw [stageAtCall]
  simp only [Player.focus_bind_playLines]
  exact stateAfter_of_run (hrun.trans hend.symm)

end

/-! ## The main result -/

theorem Stage.callsSince_append (t : Tracker) (earlier made : Journal) :
    (⟨t, earlier ++ made⟩ : Stage).callsSince earlier = made.calls := by
  simp [callsSince]

/-- The first call that fails is the only one with none before it. -/
theorem first_fault_unique {before before' after after' : List (Call × Option Fault)}
    {call call' : Call} {fault fault' : Fault}
    (h : before ++ (call, some fault) :: after = before' ++ (call', some fault') :: after')
    (hbefore : ∀ made ∈ before, made.2 = none) (hbefore' : ∀ made ∈ before', made.2 = none) :
    before = before' ∧ call = call' ∧ after = after' := by
  rcases split_of_append h with ⟨mid, rfl, -⟩ | ⟨mid, rfl, hrest⟩
  · exact absurd (hbefore (call', some fault') (by simp)) (by simp)
  · cases mid with
    | cons made mid =>
      obtain ⟨rfl, -⟩ := List.cons.inj hrest
      exact absurd (hbefore' (call, some fault) (by simp)) (by simp)
    | nil =>
      obtain ⟨hcall, rfl⟩ := List.cons.inj hrest
      exact ⟨by simp, (Prod.mk.inj hcall).1, rfl⟩

section

variable {st : Standing} {before after added : List Entry} {call : Call} {fault : Fault} {key : Key}

/-- The calls up to the one that fails are accepted. -/
theorem calls_before_accepted {moves : List Move}
    (h : scriptEntries moves = before ++ .called call none :: after) :
    ∀ made ∈ Journal.calls before, made.2 = none := by
  refine Journal.calls_accepted fun entry hentry => scriptEntries_accepted moves entry ?_
  rw [h]
  exact List.mem_append_left _ hentry

/-- Nothing is owed once what was held is released. -/
theorem not_owes_of_fits (hfits : st.Fits before call)
    (hadded : (Journal.calls added).map Prod.fst = st.held.reverse.map .release) :
    ¬ Journal.Owes (before ++ .called call (some fault) :: added) key := by
  rw [Journal.owes_append]
  rintro (howes | ⟨howes, hnone⟩)
  · refine Journal.not_owes_of_forall (fun key hmem => ?_) howes
    have hcall : Call.press key ∈ (Journal.calls added).map Prod.fst :=
      List.mem_map.mpr ⟨_, Journal.mem_calls (by simpa using hmem), rfl⟩
    simp [hadded] at hcall
  · rcases hfits.owed key howes with hheld | hclosing
    · have hcall : Call.release key ∈ (Journal.calls added).map Prod.fst := by
        rw [hadded]
        exact List.mem_map_of_mem (List.mem_reverse.mpr hheld)
      obtain ⟨⟨_, fault'⟩, hmade, rfl⟩ := List.mem_map.mp hcall
      exact hnone fault' (List.mem_cons_of_mem _ (Journal.mem_of_calls hmade))
    · obtain rfl := hfits.release key hclosing
      exact hnone (some fault) (List.mem_cons_self ..)

end

section

variable (settings : Settings) (snippet : Snippet) (values : Mapping Text Text) (earlier : Journal)

/-- Whatever fails, playing a snippet stops there and cleans up, as long as a release fails only
with the hardware. -/
theorem play_failStop {faults : Faults} (h : faults.SparesReleases) :
    PlaysFailStop settings faults snippet values earlier := by
  have haccepted := scriptEntries_accepted (snippet.script settings values)
  have hunfailing :
      (stageAfterPlay settings Faults.none snippet values earlier).callsSince earlier =
        Journal.calls (scriptEntries (snippet.script settings values)) := by
    rw [stageAfterPlay_of_agrees (Faults.agrees_none haccepted), Stage.callsSince_append]
  rcases faults.agrees_or_meets earlier haccepted with
    hall | ⟨before, call, after, fault, hscript, hmeets⟩
  · have hstage := stageAfterPlay_of_agrees hall
    have hcalls := Journal.calls_accepted haccepted
    refine ⟨?_, ?_, ?_, ?_⟩
    · rw [hunfailing, hstage, Stage.callsSince_append]
      exact List.takeWhile_prefix _
    · intro before call fault after heq
      rw [hstage, Stage.callsSince_append] at heq
      exact absurd (hcalls (call, some fault) (by simp [heq])) (by simp)
    · rw [hstage]
    · intro key before after heq
      rw [hstage, Stage.callsSince_append] at heq
      exact Journal.release_of_not_owes (not_owes_scriptEntries _ key) heq
  · obtain ⟨st, hfits, hstands⟩ := Player.follow_standsAt hscript
    obtain ⟨added, hstage, hadded⟩ := stageAfterPlay_of_meets h hstands hmeets
    have hbefore := calls_before_accepted hscript
    refine ⟨?_, ?_, ?_, ?_⟩
    · have htake : (Journal.calls (before ++ .called call (some fault) :: added)).takeWhile
          (fun made => made.2.isNone) = Journal.calls before := by
        rw [Journal.calls_append,
          List.takeWhile_append_of_pos fun made hmade => by simp [hbefore made hmade]]
        simp
      rw [hunfailing, hstage, Stage.callsSince_append, htake, hscript, Journal.calls_append]
      exact List.prefix_append _ _
    · intro before' call' fault' after' heq hbefore'
      rw [hstage, Stage.callsSince_append, Journal.calls_append, Journal.calls_called] at heq
      obtain ⟨rfl, rfl, rfl⟩ := first_fault_unique heq hbefore hbefore'
      rw [stageAtCall_of_meets hstands hmeets, Stage.callsSince_append]
      exact ⟨by simp, hfits.nodup, hadded⟩
    · rw [hstage]
    · intro key before' after' heq
      rw [hstage, Stage.callsSince_append] at heq
      exact Journal.release_of_not_owes (not_owes_of_fits hfits hadded) heq

end

/-- The faults of a keyboard on which characters are interrupted and ctrl does not come up. -/
def jammedCtrl : Faults := fun _ call =>
  match call with
  | .press (.char _) => some .interrupt
  | .release (.code .leftCtrl) => some (.hardware "jammed")
  | _ => none

theorem play_failStop_jammedCtrl :
    let copy : Snippet :=
      ⟨[[.combo [.code .leftCtrl, .code .leftShift, .char (.ofText ['c'])]]], {}, []⟩
    jammedCtrl.SparesReleases ∧ PlaysFailStop .unhurried jammedCtrl copy {} [] ∧
      (stageAfterPlay .unhurried jammedCtrl copy {} []).callsSince [] =
        [(.press (.code .leftCtrl), none), (.press (.code .leftShift), none),
          (.press (.char (.ofText ['c'])), some .interrupt),
          (.release (.code .leftShift), none),
          (.release (.code .leftCtrl), some (.hardware "jammed"))] := by
  have hspares : jammedCtrl.SparesReleases := by
    intro journal key fault hfault
    by_cases hkey : key = .code .leftCtrl
    · subst hkey
      cases hfault
      rfl
    · simp [jammedCtrl, hkey] at hfault
  exact ⟨hspares, play_failStop _ _ _ _ hspares, by decide⟩

end Typist
