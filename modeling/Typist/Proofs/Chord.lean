import Mathlib.Algebra.Group.Nat.Even
import Mathlib.Algebra.Ring.Parity
import Mathlib.Data.Finset.Basic
import Mathlib.Data.Finset.Dedup
import Mathlib.Tactic.Tauto
import Typist.Proofs.Chord.Holding

/-!
# Chords

While the keys of a chord are toggled, what is held is what the events so far leave down
(`held_toggleAll`), and a key is held if it was named an odd number of times (`mem_held_toggleAll`).
A chord releases what is held at the end, so it leaves no key down : it lets go of every key that it
presses (`released_of_chordEvents`), and of no other (`pressed_of_chordEvents`).

On a device that knows which keys are down (`replay?`), a chord presses none that is down and
releases none that is not. `IsChordOf` says this of the events of a chord, and which keys they name
and in which order, and `chordEvents_isChordOf` that it holds whatever keys the chord names.
-/

namespace Typist

namespace Tracker

variable {t : Tracker} {key : Key} {keys : List Key}

/-! ## Toggling -/

@[simp]
theorem toggleAll_nil : t.toggleAll [] = ([], t) :=
  rfl

@[simp]
theorem toggleAll_cons_fst :
    (t.toggleAll (key :: keys)).1 = (t.toggle key).1 :: ((t.toggle key).2.toggleAll keys).1 :=
  rfl

@[simp]
theorem toggleAll_cons_snd :
    (t.toggleAll (key :: keys)).2 = ((t.toggle key).2.toggleAll keys).2 :=
  rfl

theorem nodup_toggle (h : t.held.Nodup) : (t.toggle key).2.held.Nodup := by
  by_cases hmem : key ∈ t.held
  · rw [toggle_of_mem hmem]
    exact h.erase key
  · rw [toggle_of_not_mem hmem]
    refine List.nodup_append.mpr ⟨h, by simp, ?_⟩
    intro held hheld last hlast hsame
    rw [hsame, List.mem_singleton.mp hlast] at hheld
    exact hmem hheld

/-- No key is held twice. -/
theorem nodup_toggleAll (h : t.held.Nodup) : (t.toggleAll keys).2.held.Nodup := by
  induction keys generalizing t with
  | nil => exact h
  | cons key keys ih => exact ih (nodup_toggle h)

theorem map_key_toggleAll (t : Tracker) (keys : List Key) :
    (t.toggleAll keys).1.map KeyEvent.key = keys := by
  induction keys generalizing t with
  | nil => rfl
  | cons key keys ih =>
    have hkey : (t.toggle key).1.key = key := by
      rw [toggle]
      split <;> rfl
    rw [toggleAll_cons_fst, List.map_cons, hkey, ih]

theorem mem_held_toggle (h : t.held.Nodup) {other : Key} :
    key ∈ (t.toggle other).2.held ↔ (key ∈ t.held ↔ key ≠ other) := by
  by_cases hmem : other ∈ t.held
  · rw [toggle_of_mem hmem, released, h.mem_erase_iff]
    by_cases hkey : key = other <;> simp [hkey, hmem]
  · rw [toggle_of_not_mem hmem, pressed, List.mem_append, List.mem_singleton]
    by_cases hkey : key = other <;> simp [hkey, hmem]

/-- A key that is toggled an even number of times is held as before. -/
theorem mem_held_toggleAll (h : t.held.Nodup) :
    key ∈ (t.toggleAll keys).2.held ↔ (key ∈ t.held ↔ Even (keys.count key)) := by
  induction keys generalizing t with
  | nil => simp
  | cons other keys ih =>
    rw [toggleAll_cons_snd, ih (nodup_toggle h), mem_held_toggle h]
    by_cases hkey : key = other
    · rw [hkey, List.count_cons_self, Nat.even_add_one]
      tauto
    · rw [List.count_cons_of_ne (Ne.symm hkey)]
      tauto

/-- What toggling keys holds is what its events leave down. -/
theorem held_toggleAll (keys : List Key) :
    (toggleAll {} keys).2.held = keysDown (toggleAll {} keys).1 := by
  have hlater (t : Tracker) (history : List KeyEvent) (h : t.held = keysDown history) :
      (t.toggleAll keys).2.held = keysDown (history ++ (t.toggleAll keys).1) := by
    induction keys generalizing t history with
    | nil => rw [toggleAll_nil, List.append_nil, h]
    | cons key keys ih =>
      rw [toggleAll_cons_fst, toggleAll_cons_snd, ih _ _ (held_toggle h), List.append_assoc,
        List.singleton_append]
  exact hlater {} [] rfl

/-- Each event comes of one key, toggled after those before it. -/
theorem toggleAll_split {before after : List KeyEvent} {event : KeyEvent}
    (h : (t.toggleAll keys).1 = before ++ event :: after) :
    ∃ first key rest, keys = first ++ key :: rest ∧ (t.toggleAll first).1 = before ∧
      ((t.toggleAll first).2.toggle key).1 = event := by
  induction keys generalizing t before with
  | nil => simp at h
  | cons key keys ih =>
    rw [toggleAll_cons_fst] at h
    cases before with
    | nil => exact ⟨[], key, keys, rfl, rfl, (List.cons.inj h).1⟩
    | cons head before =>
      obtain ⟨hhead, hrest⟩ := List.cons.inj h
      obtain ⟨first, key', rest, hkeys, hbefore, hevent⟩ := ih hrest
      refine ⟨key :: first, key', rest, by rw [hkeys, List.cons_append], ?_, hevent⟩
      rw [toggleAll_cons_fst, hhead, hbefore]

end Tracker

/-! ## Replaying events -/

/-- The keys that are down after the events; none if the events press a key that is down, or release
one that is not. -/
def replay? : Finset Key → List KeyEvent → Option (Finset Key)
  | down, [] => some down
  | down, .press key :: later => if key ∈ down then none else replay? (insert key down) later
  | down, .release key :: later => if key ∈ down then replay? (down.erase key) later else none

theorem replay?_append (down : Finset Key) (events more : List KeyEvent) :
    replay? down (events ++ more) = (replay? down events).bind fun down => replay? down more := by
  induction events generalizing down with
  | nil => rfl
  | cons event events ih =>
    cases event with
    | press key =>
      rw [List.cons_append, replay?, replay?]
      split
      · rfl
      · exact ih _
    | release key =>
      rw [List.cons_append, replay?, replay?]
      split
      · exact ih _
      · rfl

namespace Tracker

variable {t : Tracker} {key : Key} {keys : List Key}

/-- Toggling presses no key that is held, and releases none that is not. -/
theorem replay?_toggleAll (h : t.held.Nodup) :
    replay? t.held.toFinset (t.toggleAll keys).1 = some (t.toggleAll keys).2.held.toFinset := by
  induction keys generalizing t with
  | nil => rfl
  | cons key keys ih =>
    rw [toggleAll_cons_fst, toggleAll_cons_snd, ← ih (nodup_toggle h)]
    by_cases hmem : key ∈ t.held
    · have hrest : (t.released key).held.toFinset = t.held.toFinset.erase key := by
        ext other
        simp [released, h.mem_erase_iff]
      rw [toggle_of_mem hmem, replay?, if_pos (List.mem_toFinset.mpr hmem), hrest]
    · have hmore : (t.pressed key).held.toFinset = insert key t.held.toFinset := by
        ext other
        rw [List.mem_toFinset, Finset.mem_insert, List.mem_toFinset, pressed, List.mem_append,
          List.mem_singleton, or_comm]
      rw [toggle_of_not_mem hmem, replay?, if_neg (mt List.mem_toFinset.mp hmem), hmore]

/-- The releases of what is held leave no key down. -/
theorem replay?_releases (h : t.held.Nodup) : replay? t.held.toFinset t.releases = some ∅ := by
  have hreleases (keys : List Key) (hkeys : keys.Nodup) :
      replay? keys.toFinset (keys.map .release) = some ∅ := by
    induction keys with
    | nil => rfl
    | cons key keys ih =>
      obtain ⟨hkey, hkeys⟩ := List.nodup_cons.mp hkeys
      have hnot : key ∉ keys.toFinset := mt List.mem_toFinset.mp hkey
      rw [List.map_cons, List.toFinset_cons, replay?, if_pos (Finset.mem_insert_self ..),
        Finset.erase_insert hnot]
      exact ih hkeys
  rw [← List.toFinset_reverse, releases]
  exact hreleases _ (List.nodup_reverse.mpr h)

end Tracker

/-! ## Chords -/

section

variable {keys : List Key} {key : Key} {before after : List KeyEvent}

theorem chordEvents_eq (keys : List Key) :
    chordEvents keys = (Tracker.toggleAll {} keys).1 ++ (Tracker.toggleAll {} keys).2.releases :=
  rfl

/-- A chord leaves no key down. -/
theorem keysDown_chordEvents (keys : List Key) : keysDown (chordEvents keys) = [] :=
  Tracker.keysDown_append_releases (Tracker.held_toggleAll keys)

/-- A chord lets go of every key that it presses. -/
theorem released_of_chordEvents (h : chordEvents keys = before ++ .press key :: after) :
    .release key ∈ after := by
  by_contra hnone
  have hdown : key ∈ keysDown (chordEvents keys) := by
    rw [mem_keysDown, h]
    exact (leavesDown_of_press hnone).after before
  rw [keysDown_chordEvents] at hdown
  cases hdown

/-- A chord releases only keys that are down. -/
theorem leavesDown_of_chordEvents (h : chordEvents keys = before ++ .release key :: after) :
    LeavesDown before key := by
  rw [chordEvents_eq] at h
  rcases split_of_append h with ⟨mid, htoggled, -⟩ | ⟨mid, rfl, hreleases⟩
  · obtain ⟨first, other, rest, -, rfl, hevent⟩ := Tracker.toggleAll_split htoggled
    rw [← mem_keysDown, ← Tracker.held_toggleAll]
    by_cases hmem : other ∈ (Tracker.toggleAll {} first).2.held
    · rw [Tracker.toggle_of_mem hmem] at hevent
      exact KeyEvent.release.inj hevent ▸ hmem
    · rw [Tracker.toggle_of_not_mem hmem] at hevent
      cases hevent
  · have hnodup : (Tracker.toggleAll {} keys).2.held.reverse.Nodup :=
      List.nodup_reverse.mpr (Tracker.nodup_toggleAll List.nodup_nil)
    rw [← Tracker.map_key_releases, hreleases, List.map_append, List.map_cons] at hnodup
    have honce : key ∉ mid.map KeyEvent.key := fun hmem =>
      (List.nodup_append.mp hnodup).2.2 key hmem key (List.mem_cons_self ..) rfl
    have hheld : key ∈ (Tracker.toggleAll {} keys).2.held := by
      rw [← List.mem_reverse, ← Tracker.map_key_releases, hreleases]
      simp [KeyEvent.key]
    rw [Tracker.held_toggleAll] at hheld
    rw [← mem_keysDown, keysDown_append]
    exact List.mem_append_left _ (List.mem_filter.mpr ⟨hheld, decide_eq_true honce⟩)

/-- A chord releases a key only after pressing it, and not twice in a row. -/
theorem pressed_of_chordEvents (h : chordEvents keys = before ++ .release key :: after) :
    ∃ first last, before = first ++ .press key :: last ∧ .release key ∉ last := by
  obtain ⟨first, last, hbefore, hlast⟩ := leavesDown_of_chordEvents h
  exact ⟨first, last, hbefore, fun hmem => hlast (List.mem_map_of_mem hmem)⟩

end

/-- The events are a chord of the keys. -/
structure IsChordOf (events : List KeyEvent) (keys : List Key) : Prop where
  /-- From no key down, the events press no key that is down and release none that is not, and leave
  none down. -/
  balanced : replay? ∅ events = some ∅
  /-- The first events name the keys in order. -/
  named : (events.take keys.length).map KeyEvent.key = keys
  /-- The other events release the keys that are named an odd number of times, each once, the one
  pressed last first. -/
  closed : ∃ left : List Key, events.drop keys.length = left.map .release ∧ left.Nodup ∧
    (∀ key, key ∈ left ↔ Odd (keys.count key)) ∧
      left.Pairwise fun key other => LastPressedBefore events other key

/-- The events of a chord are balanced, and name its keys in order. -/
theorem chordEvents_isChordOf (keys : List Key) : IsChordOf (chordEvents keys) keys := by
  have hnamed := Tracker.map_key_toggleAll {} keys
  have hlength : (Tracker.toggleAll {} keys).1.length = keys.length := by
    rw [← hnamed, List.length_map, hnamed]
  have hnodup : (Tracker.toggleAll {} keys).2.held.Nodup := Tracker.nodup_toggleAll List.nodup_nil
  rw [chordEvents_eq]
  refine ⟨?_, ?_, (Tracker.toggleAll {} keys).2.held.reverse, ?_, List.nodup_reverse.mpr hnodup,
    fun key => ?_, ?_⟩
  · have htoggled :
        replay? ∅ (Tracker.toggleAll {} keys).1 =
          some (Tracker.toggleAll {} keys).2.held.toFinset :=
      Tracker.replay?_toggleAll List.nodup_nil
    rw [replay?_append, htoggled, Option.bind_some, Tracker.replay?_releases hnodup]
  · rw [List.take_left' hlength, hnamed]
  · rw [List.drop_left' hlength, Tracker.releases]
  · rw [List.mem_reverse, Tracker.mem_held_toggleAll List.nodup_nil, ← Nat.not_even_iff_odd]
    exact iff_false_left List.not_mem_nil
  · rw [List.pairwise_reverse, Tracker.held_toggleAll]
    refine (pairwise_keysDown _).imp fun h => h.append fun key hmem => ?_
    simp [Tracker.releases] at hmem

end Typist
