import Typist.Proofs.Playback.FailStop

/-!
# Releasing what is held

The keys held are released one after the other, last pressed first, and a release that fails does
not keep the others from being made. `Faults.tries` are the releases with what each of them meets.
As long as they fail with the hardware only, they are all that is done (`releaseHeld_triesEach`) :
each key held is tried once, a failure is noted and the next key is taken, and the first failure is
raised when there is no key left.
-/

namespace Typist

/-- What a release that was tried leaves in the journal : the call, and a notice if it failed. -/
def triedEntries : Key × Option Fault → List Entry
  | (key, none) => [.called (.release key) none]
  | (key, some fault) => [.called (.release key) (some fault), Player.notReleasedEntry key fault]

/-- The keys with what their releases meet, if they are released in order, whichever fail. -/
def Faults.tries (faults : Faults) : Journal → List Key → List (Key × Option Fault)
  | _, [] => []
  | journal, key :: keys =>
    let tried := (key, faults journal (.release key))
    tried :: faults.tries (journal ++ triedEntries tried) keys

/-- Each key is tried once, in order. -/
theorem Faults.keys_tries (faults : Faults) (journal : Journal) (keys : List Key) :
    (faults.tries journal keys).map Prod.fst = keys := by
  induction keys generalizing journal with
  | nil => rfl
  | cons key keys ih => rw [tries, List.map_cons, ih]

theorem calls_triedEntries (tried : List (Key × Option Fault)) :
    Journal.calls (tried.flatMap triedEntries) = tried.map fun t => (.release t.1, t.2) := by
  induction tried with
  | nil => rfl
  | cons t tried ih =>
    rw [List.flatMap_cons, Journal.calls_append, ih]
    obtain ⟨key, _ | fault⟩ := t <;> rfl

namespace Player

variable {faults : Faults}

/-- Releasing keys that fail with the hardware only tries them all, and comes to the first
failure. -/
theorem releaseKeys_run_of_hardware (settings : Settings) {keys : List Key}
    (h : ∀ journal, ∀ key ∈ keys, ∀ fault, faults journal (.release key) = some fault →
      fault.isHardware = true) (failure : Option Fault) (journal : Journal) :
    ((onto settings faults).releaseKeys keys failure).run ⟨⟨keys.reverse⟩, journal⟩ =
      Play.result (releasesEnd (failure.or ((faults.tries journal keys).findSome? Prod.snd)))
        ⟨{}, journal ++ (faults.tries journal keys).flatMap triedEntries⟩ := by
  induction keys generalizing failure journal with
  | nil => cases failure <;> simp [releaseKeys, Faults.tries, releasesEnd, Play.result]
  | cons key keys ih =>
    have hkeys := fun journal key hkey => h journal key (List.mem_cons_of_mem _ hkey)
    rw [Faults.tries]
    cases hfault : faults journal (.release key) with
    | none =>
      rw [releaseKeys_cons_run_of_agrees ⟨hfault, trivial⟩, ih hkeys]
      simp [triedEntries]
    | some fault =>
      have hhardware := h journal key (List.mem_cons_self ..) fault hfault
      rw [releaseKeys_cons_run_of_hardware ⟨hfault, trivial⟩ hhardware, ih hkeys]
      simp [triedEntries]

/-- Releasing what is held makes one release for each key held, last pressed first, and holds no key
at the end. If none of them fails it succeeds, and otherwise it raises the first failure. -/
theorem releaseHeld_triesEach (settings : Settings) {held : List Key}
    (h : ∀ journal, ∀ key ∈ held, ∀ fault, faults journal (.release key) = some fault →
      fault.isHardware = true) (journal : Journal) :
    let releasing := (onto settings faults).releaseHeld
    let tried := faults.tries journal held.reverse
    tried.map Prod.fst = held.reverse ∧
      (stateAfter releasing ⟨⟨held⟩, journal⟩).callsSince journal =
        tried.map (fun t => (.release t.1, t.2)) ∧
      stateAfter releasing ⟨⟨held⟩, journal⟩ = ⟨{}, journal ++ tried.flatMap triedEntries⟩ ∧
      outcome releasing ⟨⟨held⟩, journal⟩ =
        match tried.findSome? Prod.snd with
        | none => .ok ()
        | some fault => .error (.fault fault) := by
  intro releasing tried
  have hrun : releasing.run ⟨⟨held⟩, journal⟩ =
      Play.result (releasesEnd (tried.findSome? Prod.snd))
        ⟨{}, journal ++ tried.flatMap triedEntries⟩ := by
    have hheld : ∀ journal, ∀ key ∈ held.reverse, ∀ fault,
        faults journal (.release key) = some fault → fault.isHardware = true :=
      fun journal key hkey => h journal key (List.mem_reverse.mp hkey)
    have hkeys := releaseKeys_run_of_hardware settings hheld none journal
    rwa [List.reverse_reverse, Option.none_or] at hkeys
  have hstage := stateAfter_of_run hrun
  refine ⟨faults.keys_tries journal held.reverse, ?_, hstage, ?_⟩
  · rw [hstage, Stage.callsSince_append, calls_triedEntries]
  · rw [outcome_of_run hrun]
    cases tried.findSome? Prod.snd <;> rfl

/-- The faults of a keyboard that releases neither ctrl nor characters. -/
def stuckCtrl : Faults := fun _ call =>
  match call with
  | .release (.code .leftCtrl) => some (.hardware "stuck")
  | .release (.char t) => some (.unsupported (.char t))
  | _ => none

theorem releaseHeld_triesEach_stuckCtrl :
    let held : List Key :=
      [.code .leftCtrl, .char (.ofText ['c']), .code .leftShift, .code .leftCtrl]
    let releasing := (onto .unhurried stuckCtrl).releaseHeld
    (∀ journal, ∀ key ∈ held, ∀ fault, stuckCtrl journal (.release key) = some fault →
      fault.isHardware = true) ∧ (stateAfter releasing ⟨⟨held⟩, []⟩).callsSince [] =
        [(.release (.code .leftCtrl), some (.hardware "stuck")),
          (.release (.code .leftShift), none),
          (.release (.char (.ofText ['c'])), some (.unsupported (.char (.ofText ['c'])))),
          (.release (.code .leftCtrl), some (.hardware "stuck"))] ∧
      (stateAfter releasing ⟨⟨held⟩, []⟩).tracker.held = [] ∧
      outcome releasing ⟨⟨held⟩, []⟩ = .error (.fault (.hardware "stuck")) := by
  intro held releasing
  have hhardware : ∀ journal, ∀ key ∈ held, ∀ fault, stuckCtrl journal (.release key) = some fault →
      fault.isHardware = true := by
    intro journal key _ fault hfault
    unfold stuckCtrl at hfault
    split at hfault <;> cases hfault <;> rfl
  obtain ⟨-, hcalls, hstage, hend⟩ := releaseHeld_triesEach .unhurried hhardware []
  refine ⟨hhardware, hcalls.trans rfl, by rw [hstage], hend.trans rfl⟩

end Player

end Typist
