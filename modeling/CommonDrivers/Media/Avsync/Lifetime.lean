import CommonDrivers.Media.Avsync.Ownership

/-!
# The lifetime of a session

* `Sync.Lifetime` is what should hold of the sessions, the open files and the ids;
* `Sync.lifetime`: it holds in every state of a run whose steps are `Fits`, and a session that goes
  has no references left;
* `Sync.lifetime_broken` has a run for each of the other steps.
-/

namespace CommonDrivers.Msync

open List Option

instance : DecidablePred Thread.Named
  | .opening id j => inferInstanceAs (Decidable ((j : ℕ) = id))
  | .dropping _ id j => inferInstanceAs (Decidable (j = id))
  | .idle => isTrue trivial
  | .reserved _ _ => isTrue trivial
  | .creating _ _ => isTrue trivial
  | .linking _ _ => isTrue trivial
  | .failed _ _ => isTrue trivial
  | .attaching _ _ => isTrue trivial
  | .removing _ _ => isTrue trivial
  | .freeing _ _ => isTrue trivial
  | .freed _ _ => isTrue trivial

namespace Sync

variable {s s' : Sync} {n : ℕ} {t : Thread} {j : Id}

/-! ## The lifetimes -/

/-- The lifetimes of the sessions are as they should be. -/
structure Lifetime (s : Sync) : Prop where
  /-- A call that names an id has the session with that id. -/
  named : ∀ t ∈ s.threads, t.Named
  /-- The counter has the allocation and the open files. -/
  refcnt : ∀ j ∈ s.head, (s.session j).refcnt = (if s.allocated j then 1 else 0) + s.files.count j
  /-- A session is about to be freed when it has no references, and only then. -/
  freed : ∀ j ∈ s.head, (s.session j).refcnt = 0 ↔ ∃ t ∈ s.threads, t.toFree = some j
  /-- There are no references to a session that is not there. -/
  gone : ∀ j ∉ s.head, s.allocated j = false ∧ j ∉ s.files
  /-- The ids that are marked are those of the sessions, and those that a thread has. -/
  pool : ∀ j, s.idPool j = true ↔ j ∈ s.head ∨ ∃ t ∈ s.threads, t.own = some j

instance (s : Sync) : Decidable s.Lifetime := decidable_of_iff ((∀ t ∈ s.threads, t.Named) ∧
      (∀ j ∈ s.head, (s.session j).refcnt = (if s.allocated j then 1 else 0) + s.files.count j) ∧
      (∀ j ∈ s.head, (s.session j).refcnt = 0 ↔ ∃ t ∈ s.threads, t.toFree = some j) ∧
      (∀ j ∉ s.head, s.allocated j = false ∧ j ∉ s.files) ∧
      ∀ j, s.idPool j = true ↔ j ∈ s.head ∨ ∃ t ∈ s.threads, t.own = some j)
    ⟨fun ⟨h1, h2, h3, h4, h5⟩ => ⟨h1, h2, h3, h4, h5⟩,
      fun ⟨h1, h2, h3, h4, h5⟩ => ⟨h1, h2, h3, h4, h5⟩⟩

theorem exists_of_tally_owns (h : tally (Thread.owns j) s.threads ≠ 0) :
    ∃ t ∈ s.threads, t.own = some j := by
  by_contra hno
  exact h (tally_eq_zero fun t ht => if_neg fun hown => hno ⟨t, ht, hown⟩)

theorem exists_of_tally_frees (h : tally (Thread.frees j) s.threads ≠ 0) :
    ∃ t ∈ s.threads, t.toFree = some j := by
  by_contra hno
  exact h (tally_eq_zero fun t ht => if_neg fun hfree => hno ⟨t, ht, hfree⟩)

theorem Inv.lives (h : s.Inv) : s.Lifetime where
  named t ht := by
    have hok := h.threads t ht
    cases t with
    | linking | freed => trivial
    | _ => exact hok
  refcnt j hj := ((h.sessions j).listed hj).1
  freed j hj := by
    have hfreeing := (h.sessions j).freeing
    constructor
    · intro hzero
      rw [if_pos ⟨hj, hzero⟩] at hfreeing
      exact exists_of_tally_frees (by omega)
    rintro ⟨t, ht, hfree⟩
    by_contra hne
    have hle := le_tally (frees_nonneg j) ht
    rw [hfreeing, if_neg fun hm => hne hm.2, Thread.frees, if_pos hfree] at hle
    omega
  gone j hj := by
    have hrefs := (h.sessions j).unlisted hj
    rw [refs] at hrefs
    split_ifs at hrefs with hallocated
    · omega
    · exact ⟨eq_false_of_ne_true hallocated, count_eq_zero.1 (by omega)⟩
  pool j := by
    have hpool := (h.sessions j).pool
    constructor
    · intro hid
      rw [if_pos hid] at hpool
      by_cases hj : j ∈ s.head
      · exact .inl hj
      · rw [count_eq_zero.2 hj] at hpool
        exact .inr (exists_of_tally_owns (by omega))
    · rintro (hj | ⟨t, ht, hown⟩)
      · exact (h.of_mem hj).2.2
      · obtain ⟨m, hm⟩ := mem_iff_getElem?.1 ht
        exact (h.of_owner hm hown).2.2.2

theorem head_finish (s : Sync) (n : ℕ) (k : Option ℕ) : (s.finish n k).head = s.head := by
  cases k <;> rfl

theorem head_decAndTest (s : Sync) (n : ℕ) (k : Option ℕ) (j : Id) :
    (s.decAndTest n k j).head = s.head := by
  rw [Sync.decAndTest]
  split
  · rfl
  · exact head_finish _ n k

theorem head_removeId (s : Sync) (n : ℕ) (k : Option ℕ) (id : Id) :
    (s.removeId n k id).head = s.head := by
  rw [Sync.removeId]
  split <;> rfl

/-- A session leaves the list when a thread frees it. -/
theorem toFree_of_unlisted {ok : Bool} (hstep : s.goOn n ok t = some s') (hj : j ∈ s.head)
    (hgone : j ∉ s'.head) : t.toFree = some j := by
  cases t with
  | idle => cases hstep
  | creating f i =>
    rw [Sync.goOn] at hstep
    split at hstep <;> exact absurd (some.inj hstep ▸ hj) hgone
  | linking f i =>
    cases hstep
    exact absurd (mem_cons_of_mem i hj) hgone
  | removing k id =>
    rw [Sync.goOn] at hstep
    split at hstep
    · cases hstep
      rw [head_finish] at hgone
      exact absurd hj hgone
    · exact absurd (some.inj hstep ▸ hj) hgone
  | dropping k id i =>
    cases hstep
    rw [head_decAndTest] at hgone
    exact absurd hj hgone
  | freeing k i =>
    rw [Sync.goOn] at hstep
    split at hstep
    · cases hstep
      by_contra hne
      exact hgone ((mem_erase_of_ne fun hij => hne (congrArg some hij.symm)).2 hj)
    · cases hstep
  | freed k i =>
    cases hstep
    rw [head_finish] at hgone
    exact absurd hj hgone
  | _ => exact absurd (some.inj hstep ▸ hj) hgone

theorem exists_toFree_of_unlisted {op : Op} (hstep : s.step op = some s') (hj : j ∈ s.head)
    (hgone : j ∉ s'.head) : ∃ t ∈ s.threads, t.toFree = some j := by
  have hsame : s'.head = s.head → ∃ t ∈ s.threads, t.toFree = some j := fun heq =>
    absurd (heq ▸ hj) hgone
  -- only a thread that frees takes a session from the list
  cases op with
  | msyncOpen f =>
    rw [Sync.step, msyncOpen] at hstep
    split at hstep
    · exact hsame (some.inj hstep ▸ rfl)
    · cases hstep
  | allocSession n f =>
    replace hstep := (call_eq_some hstep).2
    rw [allocSession] at hstep
    split at hstep
    · cases hstep
    split at hstep <;> exact hsame (some.inj hstep ▸ rfl)
  | removeSession n f id =>
    replace hstep := (call_eq_some hstep).2
    rw [removeSession] at hstep
    split at hstep
    · cases hstep
    split at hstep
    · exact hsame (some.inj hstep ▸ head_removeId s n _ _)
    · exact hsame (some.inj hstep ▸ rfl)
  | msyncRelease n f =>
    replace hstep := (call_eq_some hstep).2
    rw [msyncRelease] at hstep
    split at hstep
    · cases hstep
    split at hstep
    · cases hstep
    · exact hsame (some.inj hstep ▸ rfl)
    · exact hsame (some.inj hstep ▸ head_removeId _ n _ _)
  | sessionOpen n id =>
    replace hstep := some.inj (call_eq_some hstep).2
    rw [sessionOpen] at hstep
    split at hstep <;> exact hsame (hstep ▸ rfl)
  | sessionRelease n i =>
    replace hstep := (call_eq_some hstep).2
    rw [Sync.sessionRelease] at hstep
    split at hstep
    · exact hsame (some.inj hstep ▸ head_decAndTest _ n _ _)
    · cases hstep
  | goOn n ok =>
    rw [Sync.step] at hstep
    split at hstep
    · cases hstep
    · next t ht => exact ⟨t, mem_of_getElem? ht, toFree_of_unlisted hstep hj hgone⟩

/-- The lifetimes in every state of a run, and what a session that goes has had: no references. -/
theorem lifetime (h : Reachable (fun s op => s.Fits op) s) :
    s.Lifetime ∧ ∀ op s', s.step op = some s' → ∀ j ∈ s.head, j ∉ s'.head →
      (s.session j).refcnt = 0 ∧ s.allocated j = false ∧ j ∉ s.files := by
  have hlife := h.inv.lives
  refine ⟨hlife, fun op s' hstep j hj hgone => ?_⟩
  have hzero := (hlife.freed j hj).2 (exists_toFree_of_unlisted hstep hj hgone)
  have hrefs := hlife.refcnt j hj
  split_ifs at hrefs with hallocated
  · omega
  · exact ⟨hzero, eq_false_of_ne_true hallocated, count_eq_zero.1 (by omega)⟩

/-- A session is allocated through the control file 0, and then the rest happens. -/
def allocThen (ops : List Op) : List Op :=
  .msyncOpen 0 :: .allocSession 0 0 :: (List.replicate 4 (.goOn 0 true) ++ ops)

/-- The steps of a run are `Fits`. -/
def RunFits (s : Sync) : List Op → Prop
  | [] => True
  | op :: ops => s.Fits op ∧ ∀ s' ∈ s.step op, s'.RunFits ops

theorem Reachable.run {ops : List Op} (h : Reachable (fun s op => s.Fits op) s)
    (hfits : s.RunFits ops) (hrun : s' ∈ s.run ops) : Reachable (fun s op => s.Fits op) s' := by
  induction ops generalizing s with
  | nil => exact some.inj hrun ▸ h
  | cons op ops ih =>
    rw [Sync.run] at hrun
    split at hrun
    · cases hrun
    · next u hstep => exact ih (h.step hfits.1 hstep) (hfits.2 u hstep) hrun

instance (s : Sync) (id : ℕ) : Decidable (s.Finds id) :=
  inferInstanceAs (Decidable (_ ∨ ∃ j ∈ s.head, _))

instance (s : Sync) (ok : Bool) : DecidablePred (s.FitsThread ok)
  | .reserved _ _ => inferInstanceAs (Decidable (ok = true))
  | .opening _ j => inferInstanceAs (Decidable (j ∈ s.head ∧ 0 < (s.session j).refcnt))
  | .removing _ id => inferInstanceAs (Decidable (s.Finds id))
  | .dropping _ id _ => inferInstanceAs (Decidable (s.allocated id = true))
  | .idle => isTrue trivial
  | .creating _ _ => isTrue trivial
  | .linking _ _ => isTrue trivial
  | .failed _ _ => isTrue trivial
  | .attaching _ _ => isTrue trivial
  | .freeing _ _ => isTrue trivial
  | .freed _ _ => isTrue trivial

instance (s : Sync) : DecidablePred s.Fits
  | .sessionOpen _ id => inferInstanceAs (Decidable (s.Finds id))
  | .goOn n ok => inferInstanceAs (Decidable (∀ t ∈ s.threads[n]?, s.FitsThread ok t))
  | .msyncOpen _ => isTrue trivial
  | .allocSession _ _ => isTrue trivial
  | .removeSession _ _ _ => isTrue trivial
  | .msyncRelease _ _ => isTrue trivial
  | .sessionRelease _ _ => isTrue trivial

instance decidableRunFits : (ops : List Op) → (s : Sync) → Decidable (s.RunFits ops)
  | [], _ => isTrue trivial
  | op :: ops, s =>
    have : ∀ s' : Sync, Decidable (s'.RunFits ops) := decidableRunFits ops
    inferInstanceAs (Decidable (s.Fits op ∧ ∀ s' ∈ s.step op, s'.RunFits ops))

/-- A session that is allocated and opened. -/
theorem lifetime_open :
    ∃ s : Sync, Reachable (fun s op => s.Fits op) s ∧ s.head = [0] ∧ s.files = [0] ∧
      s.Lifetime := by
  have hrun : ∃ s ∈ (init 1).run (allocThen [.sessionOpen 0 0, .goOn 0 true]),
      s.head = [0] ∧ s.files = [0] := by decide +kernel
  obtain ⟨s, hs, hhead, hfiles⟩ := hrun
  have h : Reachable (fun s op => s.Fits op) s := (Reachable.init 1).run (by decide +kernel) hs
  exact ⟨s, h, hhead, hfiles, (lifetime h).1⟩

/-- The runs: `session_open` for an id without a session gets another session; an id stays marked
    after `vmalloc` has failed; a second removal takes the reference of an open file; a session is
    freed between the walk of `session_open` and the increment. -/
theorem lifetime_broken : (∃ s ∈ (init 1).run (allocThen [.sessionOpen 0 3]), ¬ s.Lifetime) ∧
    (∃ s ∈ (init 1).run [.msyncOpen 0, .allocSession 0 0, .goOn 0 false], ¬ s.Lifetime) ∧
    (∃ s ∈ (init 1).run (allocThen [.sessionOpen 0 0, .goOn 0 true,
      .removeSession 0 0 0, .goOn 0 true, .goOn 0 true,
      .removeSession 0 0 0, .goOn 0 true, .goOn 0 true]), ¬ s.Lifetime) ∧
    (∃ s ∈ (init 2).run (allocThen [.sessionOpen 1 0,
      .removeSession 0 0 0, .goOn 0 true, .goOn 0 true, .goOn 0 true, .goOn 1 true]),
      ¬ s.Lifetime) := by
  decide +kernel

end Sync

end CommonDrivers.Msync
