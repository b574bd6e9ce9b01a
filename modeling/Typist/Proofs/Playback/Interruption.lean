import Typist.Proofs.Playback.FailStop

/-!
# What an interruption leaves down

The user interrupts one call and no other call fails : playing comes to the interruption, and the
keys held at it are released. But a chord that closes takes a key for released before its release is
made. So a key is left down by the interruption of its closing release, and by that alone
(`play_interrupted`).
-/

namespace Typist

/-! ## Keys that are down -/

/-- Is the key down after the calls? It was pressed, and no release of it was accepted since. -/
def LeftDown (key : Key) (calls : List (Call × Option Fault)) : Prop :=
  ∃ before after, calls = before ++ (.press key, none) :: after ∧ (.release key, none) ∉ after

section

variable {key : Key} {held : List Key} {call : Call} {fault : Fault} {before after : List Entry}

/-- Accepted releases of the keys, the last of them first. -/
def acceptedReleases (held : List Key) : List (Call × Option Fault) :=
  held.reverse.map fun key => (.release key, none)

theorem mem_acceptedReleases {made : Call × Option Fault} :
    made ∈ acceptedReleases held ↔ ∃ key ∈ held, made = (.release key, none) := by
  simp [acceptedReleases, eq_comm]

/-- A key that is owed is down, unless it is one of those released at the end. -/
theorem leftDown_of_owes (h : Journal.Owes before key) (hheld : key ∉ held) :
    LeftDown key (Journal.calls before ++ (call, some fault) :: acceptedReleases held) := by
  obtain ⟨first, last, rfl, hlast⟩ := h
  refine ⟨Journal.calls first, Journal.calls last ++ (call, some fault) :: acceptedReleases held,
    by simp, ?_⟩
  rw [List.mem_append, List.mem_cons]
  rintro (hmem | hmem | hmem)
  · exact hlast none (Journal.mem_of_calls hmem)
  · simp at hmem
  · obtain ⟨other, hother, hsame⟩ := mem_acceptedReleases.mp hmem
    obtain rfl : key = other := by simpa using hsame
    exact hheld hother

/-- A key that is down is owed, and is none of those released at the end. -/
theorem owes_of_leftDown (hbefore : ∀ made ∈ Journal.calls before, made.2 = none)
    (h : LeftDown key (Journal.calls before ++ (call, some fault) :: acceptedReleases held)) :
    Journal.Owes before key ∧ key ∉ held := by
  obtain ⟨first, last, hsplit, hlast⟩ := h
  rcases split_of_append hsplit with ⟨mid, hpressed, rfl⟩ | ⟨mid, -, hrest⟩
  · refine ⟨?_, fun hheld => hlast ?_⟩
    · obtain ⟨j₁, j₂, rfl, rfl, rfl⟩ := Journal.calls_split hpressed
      refine ⟨j₁, j₂, rfl, fun tried hmem => hlast (List.mem_append_left _ ?_)⟩
      have hmade : (.release key, tried) ∈ Journal.calls j₂ := Journal.mem_calls hmem
      obtain rfl : tried = none := hbefore (.release key, tried) (by simp [hmade])
      exact hmade
    · exact List.mem_append_right _
        (List.mem_cons_of_mem _ (mem_acceptedReleases.mpr ⟨key, hheld, rfl⟩))
  · -- No press is among the releases at the end.
    have hmem : (.press key, none) ∈ (call, some fault) :: acceptedReleases held := by
      rw [hrest]
      exact List.mem_append_right _ (List.mem_cons_self ..)
    rcases List.mem_cons.mp hmem with hsame | hreleases
    · simp at hsame
    · obtain ⟨other, -, hsame⟩ := mem_acceptedReleases.mp hreleases
      simp at hsame

/-- A key that a move releases is owed at its release. -/
theorem Move.owes_of_release {move : Move}
    (h : move.entries = before ++ .called (.release key) none :: after) :
    Journal.Owes before key := by
  cases move with
  | chord keys =>
    obtain ⟨events, rest, hevents, rfl, hrest⟩ := List.map_eq_append_iff.mp h
    obtain ⟨event, events', rfl, hevent, rfl⟩ := List.map_eq_cons_iff.mp hrest
    cases event with
    | press other => simp at hevent
    | release other =>
      obtain rfl : other = key := by simpa using hevent
      obtain ⟨first, last, rfl, hlast⟩ := pressed_of_chordEvents hevents
      refine ⟨first.map KeyEvent.entry, last.map KeyEvent.entry, by simp, ?_⟩
      intro fault hmem
      obtain ⟨event, hlater, hentry⟩ := List.mem_map.mp hmem
      cases event with
      | press other' => simp at hentry
      | release other' =>
        obtain ⟨rfl, -⟩ : other' = other ∧ none = fault := by simpa using hentry
        exact hlast hlater
  | focus | type | sleep | click | skip | stop =>
    have hmem : .called (.release key) none ∈ before ++ .called (.release key) none :: after := by
      simp
    rw [← h] at hmem
    simp [entries] at hmem

/-- A key that a script releases is owed at its release. -/
theorem owes_of_release {moves : List Move}
    (h : scriptEntries moves = before ++ .called (.release key) none :: after) :
    Journal.Owes before key := by
  induction moves generalizing before with
  | nil => simp [scriptEntries] at h
  | cons move moves ih =>
    rcases move.stop_or_not_stop with ⟨error, rfl⟩ | hstop
    · simp [scriptEntries] at h
    · rw [scriptEntries_cons hstop] at h
      rcases split_of_append h with ⟨mid, hmove, -⟩ | ⟨mid, rfl, hmoves⟩
      · exact Move.owes_of_release hmove
      · exact Journal.owes_append.mpr (.inl (ih hmoves))

end

/-! ## Only releases are made after a fault -/

/-- Does the action of a player make no calls but releases? -/
def Play.OnlyReleases (act : Play Unit) : Prop :=
  ∀ stage, ∃ added, (stateAfter act stage).journal = stage.journal ++ added ∧
    ∀ made ∈ Journal.calls added, ∃ key, made.1 = .release key

theorem stateAfter_ensuring (body last : Play Unit) (stage : Stage) :
    stateAfter (Play.ensuring body last) stage = stateAfter last (stateAfter body stage) := by
  rw [stateAfter, Player.ensuring_run, stateAfter, stateAfter]
  cases body.run stage with
  | ok _ stage => rfl
  | error e stage =>
    simp only
    cases last.run stage <;> rfl

theorem Play.OnlyReleases.ensuring {body last : Play Unit} (hbody : body.OnlyReleases)
    (hlast : last.OnlyReleases) : (Play.ensuring body last).OnlyReleases := fun stage => by
  obtain ⟨added, hadded, hreleases⟩ := hbody stage
  obtain ⟨added', hadded', hreleases'⟩ := hlast (stateAfter body stage)
  refine ⟨added ++ added', ?_, ?_⟩
  · rw [stateAfter_ensuring, hadded', hadded, List.append_assoc]
  · rw [Journal.calls_append]
    exact List.forall_mem_append.mpr ⟨hreleases, hreleases'⟩

namespace Player

variable (settings : Settings) (faults : Faults)

theorem releaseKeys_onlyReleases (keys : List Key) (failure : Option Fault) :
    ((onto settings faults).releaseKeys keys failure).OnlyReleases := by
  rintro ⟨t, journal⟩
  obtain ⟨fate, t', added, hrun, hreleases, -⟩ :=
    releaseKeys_run_spec settings faults keys failure t journal
  refine ⟨added, by rw [stateAfter_of_run hrun], fun made hmade => ?_⟩
  obtain ⟨-, key, rfl⟩ := hreleases made hmade
  exact ⟨key, rfl⟩

theorem releaseHeld_onlyReleases : (onto settings faults).releaseHeld.OnlyReleases := fun stage =>
  releaseKeys_onlyReleases settings faults stage.tracker.held.reverse none stage

theorem afterFault_onlyReleases (st : Standing) (fault : Fault) :
    ((onto settings faults).afterFault st fault).OnlyReleases := by
  intro stage
  rw [afterFault]
  cases st.closing with
  | none => exact ⟨[], (List.append_nil _).symm, by simp⟩
  | some key =>
    by_cases hhardware : fault.isHardware = true
    · obtain ⟨added, hadded, hreleases⟩ :=
        releaseKeys_onlyReleases settings faults st.held.reverse (some fault)
        ⟨stage.tracker, stage.journal ++ [notReleasedEntry key fault]⟩
      simp only [hhardware, if_true]
      exact ⟨notReleasedEntry key fault :: added, hadded.trans (List.append_assoc ..), hreleases⟩
    · simp only [hhardware]
      exact ⟨[], (List.append_nil _).symm, by simp⟩

end Player

/-! ## Playing -/

section

variable {settings : Settings} {faults : Faults} {snippet : Snippet} {values : Mapping Text Text}
  {earlier : Journal} {st : Standing} {made : List Entry} {call : Call} {fault : Fault}

/-- After a call that fails playing makes releases only. -/
theorem journal_stageAfterPlay_of_meets
    (hstands : Player.StandsAt (fun p => p.follow (snippet.script settings values)) st made call)
    (hmeets : faults.Agrees earlier (made ++ [.called call (some fault)])) :
    ∃ added, (stageAfterPlay settings faults snippet values earlier).journal =
        earlier ++ made ++ [.called call (some fault)] ++ added ∧
      ∀ made ∈ Journal.calls added, ∃ key, made.1 = .release key := by
  rw [stageAfterPlay, stateAfter, play_run_of_meets hstands hmeets]
  exact (Player.afterFault_onlyReleases settings faults st fault).ensuring
    (Player.releaseHeld_onlyReleases settings faults) ⟨⟨st.held⟩,
      earlier ++ made ++ [.called call (some fault)]⟩

theorem prefix_stageAfterPlay_of_meets
    (hstands : Player.StandsAt (fun p => p.follow (snippet.script settings values)) st made call)
    (hmeets : faults.Agrees earlier (made ++ [.called call (some fault)])) :
    earlier ++ made ++ [.called call (some fault)] <+:
      (stageAfterPlay settings faults snippet values earlier).journal := by
  obtain ⟨added, hjournal, -⟩ := journal_stageAfterPlay_of_meets hstands hmeets
  exact ⟨added, hjournal.symm⟩

/-- After an interruption playing releases what is held. If only the hardware fails these releases,
the first failure is what playing comes to, and without one it comes to the interruption. -/
theorem play_run_of_interrupt
    (hstands : Player.StandsAt (fun p => p.follow (snippet.script settings values)) st made call)
    (hmeets : faults.Agrees earlier (made ++ [.called call (some .interrupt)])) :
    ∃ fate t added, ((Player.onto settings faults).play snippet values).run ⟨{}, earlier⟩ =
        Play.result fate ⟨t, earlier ++ (made ++ .called call (some .interrupt) :: added)⟩ ∧
      ((∀ made ∈ Journal.calls added, ∀ fault ∈ made.2, fault.isHardware = true) →
        (Journal.calls added).map Prod.fst = st.held.reverse.map .release ∧
          fate = .error (.fault (((Journal.calls added).findSome? Prod.snd).getD .interrupt))) := by
  obtain ⟨fate, t, added, hreleases, -, hspec⟩ :=
    Player.releaseKeys_run_spec settings faults st.held.reverse none
    ⟨st.held⟩ (earlier ++ made ++ [.called call (some .interrupt)])
  refine ⟨fate >>= fun _ => .error (.fault .interrupt), t, added, ?_, fun hhardware => ?_⟩
  · have hthrown :=
      Player.ensuring_run (throw (.fault .interrupt)) (Player.onto settings faults).releaseHeld
      ⟨⟨st.held⟩, earlier ++ made ++ [.called call (some .interrupt)]⟩
    rw [play_run_of_meets hstands hmeets, Player.afterFault_interrupt, hthrown]
    simp only [EStateM.run_throw, Player.releaseHeld_run, hreleases]
    cases fate <;> simp [Play.result, bind, Except.bind]
  · obtain ⟨-, hcalls, rfl⟩ := hspec hhardware
    refine ⟨hcalls, ?_⟩
    rw [Option.none_or]
    cases (Journal.calls added).findSome? Prod.snd <;> rfl

theorem eq_acceptedReleases {calls : List (Call × Option Fault)} {held : List Key}
    (hcalls : calls.map Prod.fst = held.reverse.map .release)
    (haccepted : ∀ made ∈ calls, made.2 = none) : calls = acceptedReleases held := by
  have hpairs : calls.map (fun made => (made.1, none)) = calls := by
    refine (List.map_congr_left fun made hmade => ?_).trans (List.map_id calls)
    exact Prod.ext rfl (haccepted made hmade).symm
  calc
    calls = (calls.map Prod.fst).map fun call => (call, none) := by
      rw [List.map_map]; exact hpairs.symm
    _ = acceptedReleases held := by rw [hcalls, acceptedReleases, List.map_map]; rfl

/-- After an interruption playing releases what is held. If all releases are accepted, playing comes
to the interruption. -/
theorem stageAfterPlay_of_interrupt
    (hstands : Player.StandsAt (fun p => p.follow (snippet.script settings values)) st made call)
    (hmeets : faults.Agrees earlier (made ++ [.called call (some .interrupt)])) :
    ∃ t added, stageAfterPlay settings faults snippet values earlier =
        ⟨t, earlier ++ (made ++ .called call (some .interrupt) :: added)⟩ ∧
      ((∀ made ∈ Journal.calls added, made.2 = none) →
        Journal.calls added = acceptedReleases st.held ∧
          outcome ((Player.onto settings faults).play snippet values) ⟨{}, earlier⟩ =
            .error (.fault .interrupt)) := by
  obtain ⟨fate, t, added, hrun, hspec⟩ := play_run_of_interrupt hstands hmeets
  refine ⟨t, added, stateAfter_of_run hrun, fun haccepted => ?_⟩
  obtain ⟨hcalls, rfl⟩ := hspec fun made hmade fault hfault => by
    rw [haccepted made hmade] at hfault
    cases hfault
  refine ⟨eq_acceptedReleases hcalls haccepted, ?_⟩
  rw [outcome, hrun, List.findSome?_eq_none_iff.mpr haccepted]
  rfl

end

/-- If the user interrupts one call and no other call fails, playing comes to the interruption. A
key is left down exactly if that call was its release and it was not held any more, as at a release
that closes a chord. -/
theorem play_interrupted {settings : Settings} {faults : Faults} {snippet : Snippet}
    {values : Mapping Text Text} {earlier : Journal} {before after : List (Call × Option Fault)}
    {call : Call} (h : (stageAfterPlay settings faults snippet values earlier).callsSince earlier =
      before ++ (call, some .interrupt) :: after)
    (hothers : ∀ made ∈ before ++ after, made.2 = none) :
    outcome ((Player.onto settings faults).play snippet values) ⟨{}, earlier⟩ =
      .error (.fault .interrupt) ∧
      ∀ key, LeftDown key (before ++ (call, some .interrupt) :: after) ↔
        call = .release key ∧
          key ∉ (stageAtCall settings faults snippet values earlier
            before.length).tracker.held := by
  obtain ⟨hbefore, hafter⟩ := List.forall_mem_append.mp hothers
  have haccepted := scriptEntries_accepted (snippet.script settings values)
  rcases faults.agrees_or_meets earlier haccepted with
    hall | ⟨made, call', rest, fault, hscript, hmeets⟩
  · have hcalls := Journal.calls_accepted haccepted
    rw [stageAfterPlay_of_agrees hall, Stage.callsSince_append] at h
    exact absurd (hcalls (call, some .interrupt) (by simp [h])) (by simp)
  · obtain ⟨st, hfits, hstands⟩ := Player.follow_standsAt hscript
    have hmade := calls_before_accepted hscript
    -- The call that fails is the one that is interrupted.
    obtain ⟨added, hjournal⟩ := prefix_stageAfterPlay_of_meets hstands hmeets
    have hsince : Journal.calls made ++ (call', some fault) :: Journal.calls added =
        before ++ (call, some .interrupt) :: after := by
      rw [← h, Stage.callsSince, ← hjournal]
      simp
    obtain ⟨rfl, rfl, rfl⟩ := first_fault_unique hsince hmade hbefore
    obtain rfl : fault = .interrupt := by simpa using hsince
    obtain ⟨t, added', hstage, hreleases⟩ := stageAfterPlay_of_interrupt hstands hmeets
    have hsame : Journal.calls added' = Journal.calls added := by
      rw [hstage, Stage.callsSince_append] at h
      simpa using h
    obtain ⟨hcalls, houtcome⟩ := hreleases (by rwa [hsame])
    rw [← hsame, hcalls, stageAtCall_of_meets hstands hmeets]
    refine ⟨houtcome, fun key => ⟨fun hdown => ?_, ?_⟩⟩
    · obtain ⟨howes, hheld⟩ := owes_of_leftDown hmade hdown
      exact ⟨hfits.release key ((hfits.owed key howes).resolve_left hheld), hheld⟩
    · rintro ⟨rfl, hheld⟩
      exact leftDown_of_owes (owes_of_release hscript) hheld

/-- The faults of a user who interrupts the first release. -/
def interruptedRelease : Faults := fun journal call =>
  match call with
  | .release _ => if journal.calls.all fun made => made.2.isNone then some .interrupt else none
  | _ => none

theorem play_interrupted_ctrl :
    let hold : Snippet := ⟨[[.combo [.code .leftCtrl, .code .leftShift]]], {}, []⟩
    (stageAfterPlay .unhurried interruptedRelease hold {} []).callsSince [] =
        [(.press (.code .leftCtrl), none), (.press (.code .leftShift), none)] ++
          (.release (.code .leftShift), some .interrupt) :: [(.release (.code .leftCtrl), none)] ∧
      outcome ((Player.onto .unhurried interruptedRelease).play hold {}) ⟨{}, []⟩ =
        .error (.fault .interrupt) ∧
      LeftDown (.code .leftShift) ([(.press (.code .leftCtrl), none),
        (.press (.code .leftShift), none)] ++
          (.release (.code .leftShift), some .interrupt) ::
            [(.release (.code .leftCtrl), none)]) := by
  intro hold
  have hcalls : (stageAfterPlay .unhurried interruptedRelease hold {} []).callsSince [] =
      [(.press (.code .leftCtrl), none), (.press (.code .leftShift), none)] ++
        (.release (.code .leftShift), some .interrupt) :: [(.release (.code .leftCtrl), none)] := by
    decide
  obtain ⟨houtcome, hdown⟩ := play_interrupted hcalls (by simp)
  exact ⟨hcalls, houtcome, (hdown _).mpr ⟨rfl, by decide⟩⟩

end Typist
