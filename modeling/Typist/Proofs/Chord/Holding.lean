import Mathlib.Data.List.Induction
import Typist.Chord
import Typist.Proofs.Basic

/-!
# What a tracker holds

The events of a tracker tell which keys are down : those whose last event is a press (`LeavesDown`).
`keysDown` reads them off, in the order of these presses (`pairwise_keysDown`).

`Tracker.Use` is a tracker with the events that it recorded or returned since it was fresh. Each
operation leaves held what its events leave down (`held_operate?`), and so does any row of them
(`held_operateAll`). So what the tracker shows is at any time the true state of the keys
(`operateAll_isFaithful`).
-/

namespace Typist

/-! ## Keys that are down -/

/-- Do the events leave the key down? Its last event is a press. -/
def LeavesDown (events : List KeyEvent) (key : Key) : Prop :=
  ∃ before after, events = before ++ .press key :: after ∧ key ∉ after.map KeyEvent.key

/-- Does the last press of `first` come before the last press of `second`? -/
def LastPressedBefore (events : List KeyEvent) (first second : Key) : Prop :=
  ∃ before after, events = before ++ .press first :: after ∧ .press first ∉ after ∧
    .press second ∈ after

/-- The keys whose last event is a press, in the order of these presses. -/
def keysDown : List KeyEvent → List Key
  | [] => []
  | .press key :: later =>
    if key ∈ later.map KeyEvent.key then keysDown later else key :: keysDown later
  | .release _ :: later => keysDown later

section

variable {event : KeyEvent} {events more : List KeyEvent} {key first second : Key}

theorem leavesDown_cons :
    LeavesDown (event :: events) key ↔
      LeavesDown events key ∨ event = .press key ∧ key ∉ events.map KeyEvent.key :=
  exists_split_cons

theorem press_mem_of_leavesDown (h : LeavesDown events key) : .press key ∈ events := by
  obtain ⟨before, after, rfl, -⟩ := h
  exact List.mem_append_right _ (List.mem_cons_self ..)

theorem LeavesDown.after (h : LeavesDown events key) (earlier : List KeyEvent) :
    LeavesDown (earlier ++ events) key :=
  exists_split_append.mpr (.inl h)

/-- A key that is pressed and not released since is down. -/
theorem leavesDown_of_press (h : .release key ∉ events) :
    LeavesDown (.press key :: events) key := by
  induction events with
  | nil => exact ⟨[], [], rfl, List.not_mem_nil⟩
  | cons event events ih =>
    rw [List.mem_cons, not_or] at h
    rcases leavesDown_cons.mp (ih h.2) with hdown | ⟨-, hnone⟩
    · exact hdown.after [.press key, event]
    · -- No later event names the key, so its last event is this one or the press before it.
      by_cases hkey : event = .press key
      · exact ⟨[.press key], events, by rw [hkey]; rfl, hnone⟩
      · have hother : key ≠ event.key := by
          rintro rfl
          cases event with
          | press other => exact hkey rfl
          | release other => exact h.1 rfl
        exact ⟨[], event :: events, rfl, List.not_mem_cons_of_ne_of_not_mem hother hnone⟩

/-- The keys read off the events are those that the events leave down. -/
theorem mem_keysDown : key ∈ keysDown events ↔ LeavesDown events key := by
  induction events with
  | nil => simp [keysDown, LeavesDown]
  | cons event events ih =>
    rw [leavesDown_cons, ← ih]
    cases event with
    | release other => simp [keysDown]
    | press other =>
      rw [keysDown]
      split
      · next hlater =>
        refine ⟨.inl, fun h => h.resolve_right ?_⟩
        rintro ⟨heq, hnot⟩
        exact hnot (KeyEvent.press.inj heq ▸ hlater)
      · next hlater =>
        rw [List.mem_cons, or_comm]
        refine or_congr_right ⟨?_, fun h => (KeyEvent.press.inj h.1).symm⟩
        rintro rfl
        exact ⟨rfl, hlater⟩

theorem nodup_keysDown (events : List KeyEvent) : (keysDown events).Nodup := by
  induction events with
  | nil => exact List.nodup_nil
  | cons event events ih =>
    cases event with
    | release other => exact ih
    | press other =>
      rw [keysDown]
      split
      · exact ih
      · next hlater =>
        refine List.nodup_cons.mpr ⟨fun h => hlater ?_, ih⟩
        exact List.mem_map_of_mem (press_mem_of_leavesDown (mem_keysDown.mp h))

theorem LastPressedBefore.cons (h : LastPressedBefore events first second) (event : KeyEvent) :
    LastPressedBefore (event :: events) first second := by
  obtain ⟨before, after, rfl, hfirst, hsecond⟩ := h
  exact ⟨event :: before, after, rfl, hfirst, hsecond⟩

/-- What comes later and presses nothing does not change the order of the presses. -/
theorem LastPressedBefore.append (h : LastPressedBefore events first second)
    (hmore : ∀ key, .press key ∉ more) : LastPressedBefore (events ++ more) first second := by
  obtain ⟨before, after, rfl, hfirst, hsecond⟩ := h
  exact ⟨before, after ++ more, by simp, List.not_mem_append hfirst (hmore first),
    List.mem_append_left _ hsecond⟩

theorem pairwise_keysDown (events : List KeyEvent) :
    (keysDown events).Pairwise (LastPressedBefore events) := by
  induction events with
  | nil => exact List.Pairwise.nil
  | cons event events ih =>
    have hlater : (keysDown events).Pairwise (LastPressedBefore (event :: events)) :=
      ih.imp fun h => h.cons event
    cases event with
    | release other => exact hlater
    | press other =>
      rw [keysDown]
      split
      · exact hlater
      · next hother =>
        refine List.pairwise_cons.mpr ⟨fun key hkey => ?_, hlater⟩
        exact ⟨[], events, rfl, fun h => hother (List.mem_map_of_mem h),
          press_mem_of_leavesDown (mem_keysDown.mp hkey)⟩

/-- Later events decide about the keys they name. -/
theorem keysDown_append (events more : List KeyEvent) :
    keysDown (events ++ more) = (keysDown events).filter (· ∉ more.map KeyEvent.key) ++
      keysDown more := by
  induction events with
  | nil => rfl
  | cons event events ih =>
    cases event with
    | release other => exact ih
    | press other =>
      rw [List.cons_append, keysDown, keysDown, List.map_append, ih]
      by_cases hlater : other ∈ events.map KeyEvent.key
      · rw [if_pos (List.mem_append_left _ hlater), if_pos hlater]
      · by_cases hmore : other ∈ more.map KeyEvent.key
        · rw [if_pos (List.mem_append_right _ hmore), if_neg hlater,
            List.filter_cons_of_neg (by simpa using hmore)]
        · rw [if_neg (List.not_mem_append hlater hmore), if_neg hlater,
            List.filter_cons_of_pos (by simpa using hmore), List.cons_append]

theorem keysDown_concat_release (events : List KeyEvent) (key : Key) :
    keysDown (events ++ [.release key]) = (keysDown events).erase key := by
  rw [keysDown_append, (nodup_keysDown events).erase_eq_filter]
  refine (List.append_nil _).trans (List.filter_congr fun other _ => ?_)
  by_cases hother : other = key <;> simp [KeyEvent.key, hother]

theorem keysDown_concat_press (h : key ∉ keysDown events) :
    keysDown (events ++ [.press key]) = keysDown events ++ [key] := by
  rw [keysDown_append, List.filter_eq_self.mpr]
  · rfl
  · intro other hother
    have hne : other ≠ key := fun heq => h (heq ▸ hother)
    simpa [KeyEvent.key] using hne

end

namespace Tracker

variable {t : Tracker} {history : List KeyEvent} {key : Key}

/-! ## One operation -/

theorem toggle_of_mem (h : key ∈ t.held) : t.toggle key = (.release key, t.released key) :=
  if_pos h

theorem toggle_of_not_mem (h : key ∉ t.held) : t.toggle key = (.press key, t.pressed key) :=
  if_neg h

theorem toggle_fst (t : Tracker) (key : Key) : (t.toggle key).1 = t.next key := by
  rw [toggle, next]
  split <;> rfl

/-- Recording the event that a key gives does what toggling it does. -/
theorem record?_next (t : Tracker) (key : Key) :
    t.record? (t.next key) = some (t.toggle key).2 := by
  by_cases hmem : key ∈ t.held
  · rw [next, if_pos hmem, toggle_of_mem hmem, record?, if_pos hmem]
  · rw [next, if_neg hmem, toggle_of_not_mem hmem, record?]

/-- Releasing all keys gives their releases and leaves none. -/
theorem releaseAll_eq (t : Tracker) : t.releaseAll = (t.releases, {}) := by
  obtain ⟨held⟩ := t
  induction held using List.reverseRecOn with
  | nil => rw [releaseAll]; rfl
  | append_singleton held key ih =>
    have hlast : releaseLast? ⟨held ++ [key]⟩ = some (.release key, ⟨held⟩) := by
      simp [releaseLast?]
    rw [releaseAll]
    split
    · next hnone =>
      rw [hlast] at hnone
      cases hnone
    · next event rest hsome =>
      rw [hlast] at hsome
      obtain ⟨rfl, rfl⟩ := Prod.mk.inj (Option.some.inj hsome)
      rw [ih]
      simp [releases]

theorem held_toggle (h : t.held = keysDown history) :
    (t.toggle key).2.held = keysDown (history ++ [(t.toggle key).1]) := by
  by_cases hmem : key ∈ t.held
  · rw [toggle_of_mem hmem, keysDown_concat_release, released, h]
  · rw [toggle_of_not_mem hmem, keysDown_concat_press (h ▸ hmem), pressed, h]

theorem held_releaseLast? {rest : Tracker} {event : KeyEvent} (h : t.held = keysDown history)
    (hlast : t.releaseLast? = some (event, rest)) : rest.held = keysDown (history ++ [event]) := by
  obtain ⟨key, hkey, hrest⟩ := Option.map_eq_some_iff.mp hlast
  obtain ⟨rfl, rfl⟩ := Prod.mk.inj hrest
  obtain ⟨first, hheld⟩ := List.getLast?_eq_some_iff.mp hkey
  have hnodup : (first ++ [key]).Nodup := by
    rw [← hheld, h]
    exact nodup_keysDown history
  have hnot : key ∉ first := fun hmem =>
    (List.nodup_append.mp hnodup).2.2 key hmem key (List.mem_singleton_self key) rfl
  rw [keysDown_concat_release, ← h, hheld, List.dropLast_concat, List.erase_append_right _ hnot,
    List.erase_cons_head, List.append_nil]

theorem map_key_releases (t : Tracker) : t.releases.map KeyEvent.key = t.held.reverse := by
  simp [releases, Function.comp_def, KeyEvent.key]

theorem keysDown_append_releases (h : t.held = keysDown history) :
    keysDown (history ++ t.releases) = [] := by
  have hreleases (keys : List Key) : keysDown (keys.map .release) = [] := by
    induction keys with
    | nil => rfl
    | cons key keys ih => exact ih
  rw [keysDown_append, map_key_releases, releases, hreleases, ← h, List.append_nil,
    List.filter_eq_nil_iff]
  intro key hkey
  simpa using hkey

/-! ## A tracker in use -/

/-- What a tracker is asked for. -/
inductive Operation
  /-- Toggle the key. -/
  | toggle (key : Key)
  /-- Record the event that naming the key gives. -/
  | record (key : Key)
  /-- Release the key pressed last. -/
  | releaseLast
  /-- Release all keys. -/
  | releaseAll
  deriving DecidableEq, Repr

/-- The events that the operation records or returns, and the tracker after it; none if it fails. -/
def operate? (t : Tracker) : Operation → Option (List KeyEvent × Tracker)
  | .toggle key => some ([(t.toggle key).1], (t.toggle key).2)
  | .record key => (t.record? (t.next key)).map fun later => ([t.next key], later)
  | .releaseLast => t.releaseLast?.map fun (event, later) => ([event], later)
  | .releaseAll => some t.releaseAll

theorem operate?_record (t : Tracker) (key : Key) :
    t.operate? (.record key) = t.operate? (.toggle key) := by
  rw [operate?, operate?, record?_next, toggle_fst]
  rfl

theorem operate?_eq_none_iff (t : Tracker) (op : Operation) :
    t.operate? op = none ↔ op = .releaseLast ∧ t.held = [] := by
  cases op with
  | toggle key => simp [operate?]
  | record key => simp [operate?, record?_next]
  | releaseLast => simp [operate?, releaseLast?]
  | releaseAll => simp [operate?]

/-- An operation leaves held what its events leave down. -/
theorem held_operate? {op : Operation} {events : List KeyEvent} {later : Tracker}
    (h : t.held = keysDown history) (hop : t.operate? op = some (events, later)) :
    later.held = keysDown (history ++ events) := by
  cases op with
  | toggle key =>
    obtain ⟨rfl, rfl⟩ := Prod.mk.inj (Option.some.inj hop)
    exact held_toggle h
  | record key =>
    rw [operate?_record] at hop
    obtain ⟨rfl, rfl⟩ := Prod.mk.inj (Option.some.inj hop)
    exact held_toggle h
  | releaseLast =>
    obtain ⟨⟨event, rest⟩, hlast, hrest⟩ := Option.map_eq_some_iff.mp hop
    obtain ⟨rfl, rfl⟩ := Prod.mk.inj hrest
    exact held_releaseLast? h hlast
  | releaseAll =>
    rw [operate?, releaseAll_eq] at hop
    obtain ⟨rfl, rfl⟩ := Prod.mk.inj (Option.some.inj hop)
    exact (keysDown_append_releases h).symm

/-- A tracker, with the events that it recorded or returned since it was fresh. -/
structure Use where
  events : List KeyEvent := []
  tracker : Tracker := {}
  deriving DecidableEq, Repr

namespace Use

/-- What the operation makes of a tracker in use; if it fails, nothing changes. -/
def operate (use : Use) (op : Operation) : Use :=
  match use.tracker.operate? op with
  | some (events, later) => ⟨use.events ++ events, later⟩
  | none => use

/-- A fresh tracker after the operations. -/
def operateAll (ops : List Operation) : Use :=
  ops.foldl operate {}

/-- What the tracker shows is the true state of the keys. -/
structure IsFaithful (use : Use) : Prop where
  /-- No key is held twice. -/
  nodup : use.tracker.held.Nodup
  /-- A key is held if its last event is a press. -/
  down : ∀ key, key ∈ use.tracker.held ↔ LeavesDown use.events key
  /-- The held keys stand in the order of these presses. -/
  ordered : use.tracker.held.Pairwise (LastPressedBefore use.events)
  /-- Naming a key gives its release if it is down. -/
  next : ∀ key, use.tracker.next key = .release key ↔ LeavesDown use.events key
  /-- The event that naming a key gives can be recorded. -/
  record : ∀ key, ∃ later, use.tracker.record? (use.tracker.next key) = some later
  /-- No operation fails but the release of the last key where none is held. -/
  fails : ∀ op, use.tracker.operate? op = none ↔ op = .releaseLast ∧ use.tracker.held = []
  /-- Releasing all keys gives one release for each held key, in reverse order, and leaves none. -/
  releaseAll : use.tracker.releaseAll = (use.tracker.held.reverse.map .release, {})

variable {use : Use}

theorem held_operate (h : use.tracker.held = keysDown use.events) (op : Operation) :
    (use.operate op).tracker.held = keysDown (use.operate op).events := by
  rw [operate]
  split
  · next hop => exact held_operate? h hop
  · exact h

/-- Whatever a tracker is asked for, it holds the keys that its events leave down. -/
theorem held_operateAll (ops : List Operation) :
    (operateAll ops).tracker.held = keysDown (operateAll ops).events := by
  have hkept (use : Use) (h : use.tracker.held = keysDown use.events) :
      (ops.foldl operate use).tracker.held = keysDown (ops.foldl operate use).events := by
    induction ops generalizing use with
    | nil => exact h
    | cons op ops ih => exact ih _ (held_operate h op)
  exact hkept {} rfl

/-- After any operations on a fresh tracker, what it shows is the true state of the keys. -/
theorem operateAll_isFaithful (ops : List Operation) : (operateAll ops).IsFaithful := by
  have hheld := held_operateAll ops
  have hdown (key : Key) : key ∈ (operateAll ops).tracker.held ↔
      LeavesDown (operateAll ops).events key := by
    rw [hheld, mem_keysDown]
  refine ⟨hheld ▸ nodup_keysDown _, hdown, hheld ▸ pairwise_keysDown _, fun key => ?_,
    fun key => ⟨_, record?_next _ key⟩, operate?_eq_none_iff _, releaseAll_eq _⟩
  rw [← hdown, Tracker.next]
  split
  · next hmem => exact iff_of_true rfl hmem
  · next hmem => exact iff_of_false KeyEvent.noConfusion hmem

end Use

end Tracker

end Typist
