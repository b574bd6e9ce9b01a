/-!
# What the proofs share

Reading a snippet and playing one are actions on a state that is kept when they fail. `outcome` is
what comes of such an action and `stateAfter` the state it leaves, whether it fails or not.
`split_of_append` says where an element stands in two lists put together, and `exists_split_cons`
and `exists_split_append` where it stands with something said of what comes after it. The lemmas on
`List.mapM` say what comes of a row of steps that may fail : all of their results, or the failure of
the first that fails. Those on `List.eraseDups` are about a list without its repetitions.
-/

namespace Typist

variable {ε σ α : Type}

/-- What comes of an action. -/
def outcome (r : EStateM ε σ α) (s : σ) : Except ε α :=
  match r.run s with
  | .ok a _ => .ok a
  | .error e _ => .error e

/-- The state that an action leaves. -/
def stateAfter (r : EStateM ε σ α) (s : σ) : σ :=
  match r.run s with
  | .ok _ s => s
  | .error _ s => s

/-- Two actions in a row succeed if the first does and the second does after it. -/
theorem run_bind_eq_ok {β : Type} {r : EStateM ε σ α} {f : α → EStateM ε σ β} {s s'' : σ} {b : β} :
    (r >>= f).run s = .ok b s'' ↔ ∃ a s', r.run s = .ok a s' ∧ (f a).run s' = .ok b s'' := by
  rw [EStateM.run_bind]
  cases r.run s with
  | error e s' => simp
  | ok a s' =>
    refine ⟨fun h => ⟨a, s', rfl, h⟩, ?_⟩
    rintro ⟨_, _, hrun, h⟩
    obtain ⟨rfl, rfl⟩ := EStateM.Result.ok.inj hrun
    exact h

/-- An element of two lists put together stands in the first or in the second. -/
theorem split_of_append {xs ys before after : List α} {a : α}
    (h : xs ++ ys = before ++ a :: after) :
    (∃ mid, xs = before ++ a :: mid ∧ after = mid ++ ys) ∨
      ∃ mid, before = xs ++ mid ∧ ys = mid ++ a :: after := by
  rcases List.append_eq_append_iff.mp h with ⟨mid, hbefore, hys⟩ | ⟨mid, hxs, hrest⟩
  · exact .inr ⟨mid, hbefore, hys⟩
  · cases mid with
    | nil => exact .inr ⟨[], by simpa using hxs.symm, by simpa using hrest.symm⟩
    | cons b mid =>
      obtain ⟨rfl, rfl⟩ := List.cons.inj hrest
      exact .inl ⟨mid, hxs, rfl⟩

section

variable {a x : α} {xs ys : List α} {P : List α → Prop}

theorem exists_split_cons :
    (∃ before after, x :: xs = before ++ a :: after ∧ P after) ↔
      (∃ before after, xs = before ++ a :: after ∧ P after) ∨ x = a ∧ P xs := by
  constructor
  · rintro ⟨before, after, heq, hafter⟩
    cases before with
    | nil =>
      obtain ⟨rfl, rfl⟩ := List.cons.inj heq
      exact .inr ⟨rfl, hafter⟩
    | cons first before =>
      obtain ⟨-, rfl⟩ := List.cons.inj heq
      exact .inl ⟨before, after, rfl, hafter⟩
  · rintro (⟨before, after, rfl, hafter⟩ | ⟨rfl, hafter⟩)
    · exact ⟨x :: before, after, rfl, hafter⟩
    · exact ⟨[], xs, rfl, hafter⟩

theorem exists_split_append :
    (∃ before after, xs ++ ys = before ++ a :: after ∧ P after) ↔
      (∃ before after, ys = before ++ a :: after ∧ P after) ∨
        ∃ before after, xs = before ++ a :: after ∧ P (after ++ ys) := by
  constructor
  · rintro ⟨before, after, heq, hafter⟩
    rcases split_of_append heq with ⟨mid, rfl, rfl⟩ | ⟨mid, -, rfl⟩
    · exact .inr ⟨before, mid, rfl, hafter⟩
    · exact .inl ⟨mid, after, rfl, hafter⟩
  · rintro (⟨before, after, rfl, hafter⟩ | ⟨before, after, rfl, hafter⟩)
    · exact ⟨xs ++ before, after, (List.append_assoc ..).symm, hafter⟩
    · exact ⟨before, after ++ ys, by rw [List.append_assoc, List.cons_append], hafter⟩

end

/-! ## Steps that may fail -/

section

variable {β : Type}

theorem map_eq_ok_iff {x : Except ε α} {g : α → β} {b : β} :
    x.map g = .ok b ↔ ∃ a, x = .ok a ∧ g a = b := by
  cases x <;> simp [Except.map]

theorem map_eq_error_iff {x : Except ε α} {g : α → β} {e : ε} :
    x.map g = .error e ↔ x = .error e := by
  cases x <;> simp [Except.map]

variable {f : α → Except ε β}

/-- Steps that fail otherwise fail otherwise together. -/
theorem mapM_mapError {ε' : Type} (g : ε → ε') (as : List α) :
    as.mapM (fun a => (f a).mapError g) = (as.mapM f).mapError g := by
  induction as with
  | nil => rfl
  | cons a as ih =>
    rw [List.mapM_cons, List.mapM_cons, ih]
    cases f a with
    | error e => rfl
    | ok b => cases as.mapM f <;> rfl

theorem mapM_cons_eq_ok {a : α} {as : List α} {bs : List β} :
    (a :: as).mapM f = .ok bs ↔ ∃ b bs', f a = .ok b ∧ as.mapM f = .ok bs' ∧ bs = b :: bs' := by
  rw [List.mapM_cons]
  cases f a with
  | error e => simp [bind, Except.bind]
  | ok b => cases as.mapM f <;> simp [bind, Except.bind, pure, Except.pure, eq_comm]

/-- Each result comes of one of the steps. -/
theorem exists_of_mem_mapM {as : List α} {bs : List β} {b : β} (h : as.mapM f = .ok bs)
    (hb : b ∈ bs) : ∃ a ∈ as, f a = .ok b := by
  induction as generalizing bs with
  | nil =>
    cases h
    cases hb
  | cons a as ih =>
    obtain ⟨b', bs', ha, has, rfl⟩ := mapM_cons_eq_ok.mp h
    rcases List.mem_cons.mp hb with rfl | hb
    · exact ⟨a, List.mem_cons_self .., ha⟩
    · obtain ⟨a', ha', hb'⟩ := ih has hb
      exact ⟨a', List.mem_cons_of_mem _ ha', hb'⟩

/-- Each step has its result. -/
theorem exists_mem_of_mapM {as : List α} {bs : List β} {a : α} (h : as.mapM f = .ok bs)
    (ha : a ∈ as) : ∃ b ∈ bs, f a = .ok b := by
  induction as generalizing bs with
  | nil => cases ha
  | cons a' as ih =>
    obtain ⟨b, bs', hb, hbs, rfl⟩ := mapM_cons_eq_ok.mp h
    rcases List.mem_cons.mp ha with rfl | ha
    · exact ⟨b, List.mem_cons_self .., hb⟩
    · obtain ⟨b', hb', hfb⟩ := ih hbs ha
      exact ⟨b', List.mem_cons_of_mem _ hb', hfb⟩

/-- A row fails with the failure of the first step that fails. -/
theorem mapM_eq_error_iff {as : List α} {e : ε} :
    as.mapM f = .error e ↔
      ∃ before a after, as = before ++ a :: after ∧ (∀ x ∈ before, ∃ b, f x = .ok b) ∧
        f a = .error e := by
  constructor
  · intro h
    induction as with
    | nil => cases h
    | cons a as ih =>
      cases ha : f a with
      | error e' =>
        rw [List.mapM_cons, ha] at h
        obtain rfl : e' = e := Except.error.inj h
        exact ⟨[], a, as, rfl, by simp, ha⟩
      | ok b =>
        cases has : as.mapM f with
        | ok bs =>
          rw [List.mapM_cons, ha, has] at h
          cases h
        | error e' =>
          rw [List.mapM_cons, ha, has] at h
          obtain rfl : e' = e := Except.error.inj h
          obtain ⟨before, a', after, rfl, hbefore, ha'⟩ := ih has
          exact ⟨a :: before, a', after, rfl, List.forall_mem_cons.mpr ⟨⟨b, ha⟩, hbefore⟩, ha'⟩
  · rintro ⟨before, a, after, rfl, hbefore, ha⟩
    induction before with
    | nil => rw [List.nil_append, List.mapM_cons, ha]; rfl
    | cons x before ih =>
      obtain ⟨⟨b, hb⟩, hrest⟩ := List.forall_mem_cons.mp hbefore
      rw [List.cons_append, List.mapM_cons, hb, ih hrest]
      rfl

/-- Steps that all succeed have results. -/
theorem mapM_eq_ok_of_forall {as : List α} (h : ∀ a ∈ as, ∃ b, f a = .ok b) :
    ∃ bs, as.mapM f = .ok bs := by
  induction as with
  | nil => exact ⟨[], rfl⟩
  | cons a as ih =>
    obtain ⟨⟨b, hb⟩, hrest⟩ := List.forall_mem_cons.mp h
    obtain ⟨bs, hbs⟩ := ih hrest
    exact ⟨b :: bs, mapM_cons_eq_ok.mpr ⟨b, bs, hb, hbs, rfl⟩⟩

end

/-! ## Lists without their repetitions -/

section

variable [BEq α] [LawfulBEq α]

theorem nodup_eraseDups (l : List α) : l.eraseDups.Nodup := by
  cases l with
  | nil => exact List.nodup_nil
  | cons a l =>
    rw [List.eraseDups_cons, List.nodup_cons]
    exact ⟨by simp [List.mem_eraseDups], nodup_eraseDups _⟩
termination_by l.length
decreasing_by exact Nat.lt_succ_of_le (List.length_filter_le ..)

theorem eraseDups_eq_self {l : List α} (h : l.Nodup) : l.eraseDups = l := by
  induction l with
  | nil => rfl
  | cons a l ih =>
    obtain ⟨ha, hl⟩ := List.nodup_cons.mp h
    have hothers : l.filter (fun b => !b == a) = l :=
      List.filter_eq_self.mpr fun b hb => by simpa using fun heq : b = a => ha (heq ▸ hb)
    rw [List.eraseDups_cons, hothers, ih hl]

theorem filter_eraseDups (p : α → Bool) (l : List α) :
    l.eraseDups.filter p = (l.filter p).eraseDups := by
  cases l with
  | nil => rfl
  | cons a l =>
    rw [List.eraseDups_cons, List.filter_cons, List.filter_cons, filter_eraseDups p,
      List.filter_filter]
    split
    · rw [List.eraseDups_cons, List.filter_filter]
      simp only [Bool.and_comm]
    · next hp =>
      have hsame : (fun b => p b && !b == a) = p := funext fun b => by
        by_cases hb : b = a <;> simp_all
      rw [hsame]
termination_by l.length
decreasing_by exact Nat.lt_succ_of_le (List.length_filter_le ..)

end

end Typist
