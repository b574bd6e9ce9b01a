import Typist.Playback.Journal
import Typist.Proofs.Basic

/-!
# What calls meet

A row of entries is what happens under given faults if they answer each call of the row, made after
what happened before it, as its entry says (`Faults.Agrees`). Of a row in which every call is
accepted, either all of it happens or it goes wrong at a first call (`Faults.agrees_or_meets`).

`Faults.interruptedAt` lets the user interrupt at one call, given by its number, and
`Faults.SparesReleases` are the faults that are hardware failures whenever they meet a release.
-/

namespace Typist

/-! ## Entries -/

/-- Does the entry say that its call met no fault? -/
def Entry.isAccepted : Entry → Bool
  | .called _ (some _) => false
  | _ => true

/-- The calls are answered as the entry says. -/
def Entry.Agrees (answer : Call → Option Fault) : Entry → Prop
  | .called call fault => answer call = fault
  | _ => True

namespace Journal

@[simp]
theorem calls_nil : Journal.calls [] = [] :=
  rfl

@[simp]
theorem calls_append (j j' : Journal) :
    Journal.calls (j ++ j') = Journal.calls j ++ Journal.calls j' :=
  List.filterMap_append

@[simp]
theorem events_append (j j' : Journal) :
    Journal.events (j ++ j') = Journal.events j ++ Journal.events j' :=
  List.filterMap_append

@[simp]
theorem output_append (j j' : Journal) :
    Journal.output (j ++ j') = Journal.output j ++ Journal.output j' :=
  List.flatMap_append ..

@[simp]
theorem calls_called (call : Call) (fault : Option Fault) (j : Journal) :
    Journal.calls (.called call fault :: j) = (call, fault) :: Journal.calls j :=
  rfl

@[simp]
theorem calls_noticed (notice : Notice) (j : Journal) :
    Journal.calls (.noticed notice :: j) = Journal.calls j :=
  rfl

/-- A call that was made is an entry. -/
theorem mem_of_calls {j : Journal} {call : Call} {fault : Option Fault}
    (h : (call, fault) ∈ j.calls) : .called call fault ∈ j := by
  obtain ⟨entry, hentry, hcall⟩ := List.mem_filterMap.mp h
  cases entry with
  | called call' fault' =>
    obtain ⟨rfl, rfl⟩ := Prod.mk.inj (Option.some.inj hcall)
    exact hentry
  | recorded | printed | noticed | spaced => simp at hcall

theorem mem_calls {j : Journal} {call : Call} {fault : Option Fault}
    (h : .called call fault ∈ j) : (call, fault) ∈ j.calls :=
  List.mem_filterMap.mpr ⟨_, h, rfl⟩

/-- The entries around a call that was made. -/
theorem calls_split {j : Journal} {call : Call} {fault : Option Fault}
    {before after : List (Call × Option Fault)} (h : j.calls = before ++ (call, fault) :: after) :
    ∃ j₁ j₂ : Journal, j = j₁ ++ .called call fault :: j₂ ∧ j₁.calls = before ∧
      j₂.calls = after := by
  obtain ⟨j₁, rest, rfl, hbefore, hrest⟩ := List.filterMap_eq_append_iff.mp h
  obtain ⟨silent, entry, j₂, rfl, hsilent, hentry, hafter⟩ := List.filterMap_eq_cons_iff.mp hrest
  cases entry with
  | called call' fault' =>
    obtain ⟨rfl, rfl⟩ := Prod.mk.inj (Option.some.inj hentry)
    refine ⟨j₁ ++ silent, j₂, by simp, ?_, hafter⟩
    rw [calls_append, show Journal.calls silent = [] from List.filterMap_eq_nil_iff.mpr hsilent,
      List.append_nil]
    exact hbefore
  | recorded | printed | noticed | spaced => simp at hentry

/-- The calls of entries that tell of no fault were accepted. -/
theorem calls_accepted {j : Journal} (h : ∀ entry ∈ j, entry.isAccepted) :
    ∀ made ∈ j.calls, made.2 = none := by
  rintro ⟨call, fault⟩ hmade
  have hentry := h _ (mem_of_calls hmade)
  cases fault with
  | none => rfl
  | some fault => simp [Entry.isAccepted] at hentry

end Journal

/-! ## Faults -/

namespace Faults

variable (faults : Faults)

/-- The entries are what happens under the faults after the journal. -/
def Agrees (faults : Faults) : Journal → List Entry → Prop
  | _, [] => True
  | journal, entry :: entries =>
    entry.Agrees (faults journal) ∧ faults.Agrees (journal ++ [entry]) entries

/-- The faults that are hardware failures whenever they meet a release. -/
def SparesReleases : Prop :=
  ∀ journal key fault, faults journal (.release key) = some fault → fault.isHardware = true

/-- The faults that interrupt the call that has `n` calls before it. -/
def interruptedAt (n : Nat) : Faults := fun journal call =>
  if journal.calls.length = n then some .interrupt else faults journal call

variable {faults} {journal : Journal} {entries : List Entry}

theorem agrees_append {before after : List Entry} :
    faults.Agrees journal (before ++ after) ↔
      faults.Agrees journal before ∧ faults.Agrees (journal ++ before) after := by
  induction before generalizing journal with
  | nil => simp [Agrees]
  | cons entry before ih => simp [Agrees, ih, and_assoc]

/-- Where no call meets a fault, all calls are accepted. -/
theorem agrees_none (h : ∀ entry ∈ entries, entry.isAccepted) :
    Faults.none.Agrees journal entries := by
  induction entries generalizing journal with
  | nil => trivial
  | cons entry entries ih =>
    obtain ⟨hentry, hentries⟩ := List.forall_mem_cons.mp h
    refine ⟨?_, ih hentries⟩
    cases entry with
    | called call fault =>
      cases fault with
      | none => rfl
      | some fault => simp [Entry.isAccepted] at hentry
    | recorded | printed | noticed | spaced => trivial

/-- Accepted calls are all accepted, or a first of them meets a fault. -/
theorem agrees_or_meets (faults : Faults) (journal : Journal)
    (h : ∀ entry ∈ entries, entry.isAccepted) :
    faults.Agrees journal entries ∨
      ∃ before call after fault, entries = before ++ .called call Option.none :: after ∧
        faults.Agrees journal (before ++ [.called call (some fault)]) := by
  induction entries generalizing journal with
  | nil => exact .inl trivial
  | cons entry entries ih =>
    obtain ⟨hentry, hentries⟩ := List.forall_mem_cons.mp h
    by_cases hagrees : entry.Agrees (faults journal)
    · rcases ih (journal ++ [entry]) hentries with hall | ⟨before, call, after, fault, rfl, hmeets⟩
      · exact .inl ⟨hagrees, hall⟩
      · exact .inr ⟨entry :: before, call, after, fault, rfl, hagrees, hmeets⟩
    · cases entry with
      | called call fault =>
        cases fault with
        | some fault => simp [Entry.isAccepted] at hentry
        | none =>
          obtain ⟨fault, hfault⟩ := Option.ne_none_iff_exists'.mp hagrees
          exact .inr ⟨[], call, entries, fault, rfl, hfault, trivial⟩
      | recorded | printed | noticed | spaced => simp [Entry.Agrees] at hagrees

/-- What happens before a call does not depend on whether that call is interrupted. -/
theorem agrees_interruptedAt {n : Nat} (h : faults.Agrees journal entries)
    (hn : journal.calls.length + (Journal.calls entries).length ≤ n) :
    (faults.interruptedAt n).Agrees journal entries := by
  induction entries generalizing journal with
  | nil => trivial
  | cons entry entries ih =>
    obtain ⟨hentry, hentries⟩ := h
    have hrest : Journal.calls (journal ++ entry :: entries) =
        Journal.calls (journal ++ [entry]) ++ Journal.calls entries := by
      rw [← Journal.calls_append, List.append_assoc, List.singleton_append]
    rw [← List.length_append, ← Journal.calls_append, hrest, List.length_append] at hn
    refine ⟨?_, ih hentries hn⟩
    cases entry with
    | called call fault =>
      simp only [Journal.calls_append, Journal.calls_called, List.length_append,
        List.length_cons] at hn
      simp only [Entry.Agrees, interruptedAt, if_neg (show journal.calls.length ≠ n by omega)]
      exact hentry
    | recorded | printed | noticed | spaced => trivial

/-- A call is interrupted in place of meeting another fault. -/
theorem agrees_interrupt {before : List Entry} (call : Call) (h : faults.Agrees journal before) :
    (faults.interruptedAt (journal.calls.length + (Journal.calls before).length)).Agrees journal
      (before ++ [.called call (some .interrupt)]) := by
  refine agrees_append.mpr ⟨agrees_interruptedAt h (Nat.le_refl _), ?_, trivial⟩
  simp [Entry.Agrees, interruptedAt]

end Faults

/-! ## One call -/

section

variable {faults : Faults} {call : Call} {journal : Journal}

theorem call_run_of_none (h : faults journal call = none) :
    (Act.call faults call).run journal = .ok () (journal ++ [.called call none]) := by
  rw [EStateM.run, Act.call, h]

theorem call_run_of_fault {fault : Fault} (h : faults journal call = some fault) :
    (Act.call faults call).run journal = .error fault (journal ++ [.called call (some fault)]) := by
  rw [EStateM.run, Act.call, h]

end

/-! ## Keys that are not let go -/

/-- The key was pressed by an accepted call, and no release of it was tried since. -/
def Journal.Owes (j : Journal) (key : Key) : Prop :=
  ∃ before after, j = before ++ .called (.press key) none :: after ∧
    ∀ fault, .called (.release key) fault ∉ after

namespace Journal

variable {j j' : Journal} {key : Key}

@[simp]
theorem not_owes_nil : ¬ Journal.Owes [] key := by
  simp [Owes]

/-- A release makes up for the presses before it. -/
theorem owes_append :
    Owes (j ++ j') key ↔ Owes j' key ∨ Owes j key ∧ ∀ fault, .called (.release key) fault ∉ j' := by
  rw [Owes, exists_split_append]
  simp only [List.mem_append, not_or, forall_and, ← and_assoc, exists_and_right]
  rfl

theorem not_owes_of_forall (h : ∀ key, .called (.press key) none ∉ j) : ¬ Owes j key := by
  rintro ⟨before, after, rfl, -⟩
  exact h key (by simp)

/-- Where nothing is owed, each accepted press has a release tried after it. -/
theorem release_of_not_owes {before after : List (Call × Option Fault)} (h : ¬ j.Owes key)
    (hcalls : j.calls = before ++ (.press key, none) :: after) :
    ∃ fault, (.release key, fault) ∈ after := by
  refine Classical.byContradiction fun hnone => ?_
  obtain ⟨j₁, j₂, rfl, -, rfl⟩ := calls_split hcalls
  exact h ⟨j₁, j₂, rfl, fun fault hmem => hnone ⟨fault, mem_calls hmem⟩⟩

end Journal

end Typist
