import CommonDrivers.Media.CodecMm.UserMonitor

/-!
# Who uses a scatter keeps it

In every run of owners, keepers and monitors, `Users.protocol` says that a scatter that is
used is neither freed nor handed to an owner, that the pages a keeper has found in use stay
until it goes, and that the counter is 0 when all its users have gone.

The map of a manager has 256 places, and a scatter that finds none is added all the same:
its owner cannot go, as `codec_mm_scatter_dec_user_in` does not find the scatter. A keeper
may also come while `codec_mm_scatter_alloc` has found the scatter again and is about to
want fewer pages than it has: the monitor then frees the others (`not_protected_map_full`).
The counter is an `int`, which a keeper may wrap around. The result is therefore of the
runs in which none of this happens (`Step.Fits`).
-/

namespace CommonDrivers.Media.CodecMm.Users

open List Option Nat

variable {s s' : Users} {i : Fin 2} {id jiffies n : ℕ} {mms mms' : UserScatter} {t t' : Thread}
  {op : Step} {l : List (Option ℕ)} {addr : Option ℕ} {pages : List Page} {k : ℕ}

/-- No owner is about to want pages of the scatter. -/
def Settled (s : Users) (id : ℕ) : Prop := ∀ t ∈ s.threads, ¬ t.Wants id

instance (s : Users) (id : ℕ) : Decidable (s.Settled id) := List.decidableBAll _ s.threads

/-- A new scatter has a place in the map, and the counter has room for a keeper. -/
def Room (s : Users) (addr : Option ℕ) : Thread → Prop
  | .allocNew i _ _ => ∀ id ∈ addr, none ∈ (s.mgt i).scmap
  | .inc id => ∀ mms ∈ s.mem id, mms.userCnt + 100 < 2 ^ 31
  | _ => True

instance (s : Users) (addr : Option ℕ) : (t : Thread) → Decidable (s.Room addr t)
  | .allocNew _ _ _ => inferInstanceAs (Decidable (∀ id ∈ addr, _))
  | .inc id => inferInstanceAs (Decidable (∀ mms ∈ s.mem id, _))
  | .idle | .wantPages _ _ | .allocFailed _ | .holding _ _ | .dec _ _ _ =>
    inferInstanceAs (Decidable True)

/-- A step has the room that its thread asks for. -/
def Step.Room (s : Users) : Step → Prop
  | .inc _ id => s.Room none (.inc id)
  | .thread n addr _ => ∀ t ∈ s.threads[n]?, s.Room addr t
  | _ => True

instance (s : Users) : (op : Step) → Decidable (op.Room s)
  | .inc _ id => inferInstanceAs (Decidable (s.Room none (.inc id)))
  | .thread n _ _ => inferInstanceAs (Decidable (∀ t ∈ s.threads[n]?, _))
  | .alloc _ _ _ _ | .dec _ _ | .clear _ _ _ | .monitor _ => inferInstanceAs (Decidable True)

/-- The scatter that the step is to make the thread a keeper of, with the first manager or
    the second: it is one of `codec_mm_scatter_inc_for_keeper`. -/
def Step.incs (s : Users) : Step → Option (ℕ × ℕ)
  | .inc n id => some (n, id)
  | .thread n _ _ =>
    match s.threads[n]? with
    | some (.inc id) => some (n, id)
    | _ => none
  | _ => none

/-- There is room, and a keeper asks only for a scatter that its owner has got. -/
def Step.Fits (s : Users) (op : Step) : Prop := op.Room s ∧ ∀ x ∈ op.incs s, s.Settled x.2

instance (s : Users) (op : Step) : Decidable (op.Fits s) := inferInstanceAs (Decidable (_ ∧ _))

/-- The states of the runs whose steps are all as `P` says. -/
inductive Reachable (P : Users → Step → Prop) : Users → Prop
  | init (n : ℕ) : Reachable P (init n)
  | step {s s' : Users} (jiffies : ℕ) (op : Step) : Reachable P s → P s op →
    s.step jiffies op = some s' → Reachable P s'

/-! ## One step -/

theorem inv_init (n : ℕ) : (init n).Inv where
  listed hid := absurd hid not_mem_nil
  lt id := by
    have hzero : (init n).users id = 0 := users_eq_zero fun t ht ⟨_, hold⟩ => by
      rw [eq_of_mem_replicate ht] at hold
      cases hold
    rw [hzero]
    decide
  nodup _ := .nil
  mapped {i id} := by simp [init, Monitor.reaped]
  once i id := by simp [init, count_replicate]
  held ht hold := by
    obtain ⟨_, hold⟩ := hold
    rw [eq_of_mem_replicate ht] at hold
    cases hold
  owner n n' t t' id ht _ hold := by
    rw [eq_of_mem_replicate (mem_of_getElem? ht)] at hold
    cases hold
  taken hid := nomatch hid
  less hid := nomatch hid

theorem Inv.stepThread (h : s.Inv) (ht : s.threads[n]? = some t)
    (hroom : (Step.thread n addr pages).Room s)
    (hstep : s.stepThread n addr pages jiffies t = some s') : s'.Inv := by
  replace hroom : s.Room addr t := hroom t ht
  cases t with
  | allocNew i max num =>
    obtain ⟨hfree, hnext⟩ := ite_none_right_eq_some.1 hstep
    cases hnext
    exact h.allocNew ht hfree hroom
  | wantPages id num => exact h.wantPages ht hstep
  | allocFailed id => exact h.allocFailed ht hstep
  | inc id => exact h.incForKeeper ht rfl hroom hstep
  | dec r id delay => exact h.decUser ht rfl (fun _ j hj => hj) hstep
  | idle | holding => cases hstep

theorem Inv.stepMonitor (h : s.Inv) (hstep : s.stepMonitor i = some s') : s'.Inv := by
  rw [Users.stepMonitor] at hstep
  split at hstep
  · next hmon => exact h.freeOnNouser hmon hstep
  · next hmon => exact h.free hmon hstep
  · next hmon => exact h.freeUnused hmon hstep
  · cases hstep

theorem Inv.step (h : s.Inv) (hroom : op.Room s) (hstep : s.step jiffies op = some s') :
    s'.Inv := by
  cases op with
  | alloc n istvp max num =>
    obtain ⟨ht, hnext⟩ := ite_none_right_eq_some.1 hstep
    exact h.alloc ht hnext
  | inc n id =>
    obtain ⟨ht, hnext⟩ := ite_none_right_eq_some.1 hstep
    exact h.incForKeeper ht rfl hroom hnext
  | dec n delay =>
    rw [Users.step] at hstep
    split at hstep
    · next r id ht => exact h.decUser (i := 0) ht rfl (fun hi => absurd hi (by decide)) hstep
    · cases hstep
  | thread n addr pages =>
    obtain ⟨t, ht, hnext⟩ := bind_eq_some_iff.1 hstep
    exact h.stepThread ht hroom hnext
  | clear i force delayFreeOn =>
    obtain ⟨hmon, hnext⟩ := ite_none_right_eq_some.1 hstep
    exact h.clear hmon hnext
  | monitor i => exact h.stepMonitor hstep

theorem Reachable.inv (h : Reachable (fun s op => op.Fits s) s) : s.Inv := by
  induction h with
  | init n => exact inv_init n
  | step jiffies op _ hfits hstep ih => exact ih.step hfits.1 hstep

/-! ## What a step does -/

/-- How a scatter may change in a step. -/
inductive Change (s : Users) (op : Step) (id : ℕ) : Option UserScatter → Option UserScatter → Prop
  | same (o : Option UserScatter) : Change s op id o o
  | count (mms : UserScatter) (userCnt : ℤ) (tofreeJiffies : ℕ) :
    Change s op id (some mms) (some { mms with userCnt, tofreeJiffies })
  | reuse (mms : UserScatter) : mms.userCnt = 0 →
    Change s op id (some mms) (some { mms with userCnt := 1000, pageUsed := mms.pageCnt })
  | want (mms : UserScatter) {n : ℕ} {num : ℤ} {addr : Option ℕ} {pages : List Page} :
    op = .thread n addr pages → s.threads[n]? = some (.wantPages id num) →
    Change s op id (some mms) (some (wantPagesIn mms num pages).1)
  | unused (mms : UserScatter) : Change s op id (some mms) (some (freeUnusedPages mms))
  | new (mms : UserScatter) : mms.pageCnt = 0 → mms.pageTail = -1 → Change s op id none (some mms)
  | free (mms : UserScatter) {i : Fin 2} {less : Option ℕ} : (s.mgt i).monitor = .free id less →
    Change s op id (some mms) none

theorem Change.setMem {o : Option UserScatter} (h : Change s op id (s.mem id) o) (k : ℕ) :
    Change s op k (s.mem k) ((s.setMem id o).mem k) := by
  by_cases hk : k = id
  · subst hk
    rwa [mem_setMem_self]
  · rw [mem_setMem_of_ne s o hk]
    exact .same _

/-- Nobody uses the scatter: it is not there, or has a count of 0. -/
def Vacant (s : Users) (id : ℕ) : Prop :=
  s.mem id = none ∨ ∃ i, id ∈ (s.mgt i).scatterList ∧ ∃ mms, s.mem id = some mms ∧ mms.userCnt = 0

/-- The thread owns the scatter, or may be given it. -/
def Grants (s : Users) (n id : ℕ) : Prop :=
  (∃ t, s.threads[n]? = some t ∧ t.held = some (.owner, id)) ∨ s.Vacant id

/-- What a step does to the scatters, and whom it leaves as their owner. -/
structure Effect (s : Users) (op : Step) (s' : Users) : Prop where
  change : ∀ k, Change s op k (s.mem k) (s'.mem k)
  owner : ∀ {m k t'}, s'.threads[m]? = some t' → t'.held = some (.owner, k) → s.Grants m k
  wants : ∀ {k t'}, t' ∈ s'.threads → t'.Wants k → t' ∈ s.threads ∨ s.Vacant k

namespace Effect

theorem of_threads_eq (hchange : ∀ k, Change s op k (s.mem k) (s'.mem k))
    (hthreads : s'.threads = s.threads) : Effect s op s' :=
  ⟨hchange, fun ht' hown => .inl ⟨_, hthreads ▸ ht', hown⟩, fun hmem _ => .inl (hthreads ▸ hmem)⟩

theorem of_set {u : Thread} (hchange : ∀ k, Change s op k (s.mem k) (s'.mem k))
    (hthreads : s'.threads = s.threads.set n u)
    (hu : ∀ k, u.held = some (.owner, k) → s.Grants n k)
    (hwants : ∀ k, u.Wants k → s.Vacant k) : Effect s op s' where
  change := hchange
  wants {k t'} hmem hwant := by
    rw [hthreads] at hmem
    rcases mem_set_cases hmem with rfl | hmem
    · exact .inr (hwants k hwant)
    · exact .inl hmem
  owner {m k t'} ht' hown := by
    rw [hthreads, getElem?_set] at ht'
    split at ht'
    · next hnm =>
      subst hnm
      split at ht'
      · cases ht'
        exact hu k hown
      · cases ht'
    · exact .inl ⟨t', ht', hown⟩

end Effect

/-- The counter of the scatter may have been changed, and nothing else. -/
def Counts (s : Users) (id : ℕ) (s₁ : Users) : Prop :=
  s₁ = s ∨ ∃ mms userCnt tofreeJiffies, s.mem id = some mms ∧
    s₁ = s.setMem id (some { mms with userCnt, tofreeJiffies })

/-- The counter of the scatter has been changed, if there was no error. -/
theorem counts_incUserIn1 {cnt ret : ℤ} (h : s.incUserIn1 i id cnt jiffies = some (s', ret)) :
    Counts s id s' ∧ (ret ≠ -1 → (s.mem id).isSome) := by
  rw [incUserIn1] at h
  split at h
  · cases h
    exact ⟨.inl rfl, fun hret => absurd rfl hret⟩
  obtain ⟨mms, hmms, hnext⟩ := bind_eq_some_iff.1 h
  refine ⟨?_, fun _ => by rw [hmms]; rfl⟩
  split at hnext
  · cases hnext
    exact .inr ⟨mms, _, _, hmms, rfl⟩
  · cases hnext
    exact .inl rfl

theorem counts_decUserIn1 {delay cnt ret : ℤ}
    (h : s.decUserIn1 i id delay cnt jiffies = some (s', ret)) : Counts s id s' := by
  rw [decUserIn1] at h
  split at h
  · cases h
    exact .inl rfl
  obtain ⟨mms, hmms, hnext⟩ := bind_eq_some_iff.1 h
  split at hnext
  · cases hnext
    exact .inr ⟨mms, _, _, hmms, rfl⟩
  · cases hnext
    exact .inl rfl

theorem Counts.effect {s₁ : Users} (h : Counts s id s₁) {u : Thread}
    (hu : ∀ k, u.held = some (.owner, k) → s.Grants n k) (hwants : ∀ k, ¬ u.Wants k) :
    Effect s op (s₁.setThread n u) := by
  have hvacant : ∀ k, u.Wants k → s.Vacant k := fun k hwant => absurd hwant (hwants k)
  rcases h with rfl | ⟨mms, userCnt, tofreeJiffies, hmms, rfl⟩
  · exact .of_set (fun k => .same _) rfl hu hvacant
  · exact .of_set (.setMem (hmms ▸ .count mms _ _)) rfl hu hvacant

theorem effect_incForKeeper (h : s.incForKeeper n i id jiffies = some s') : Effect s op s' := by
  obtain ⟨⟨s₁, ret⟩, hinc, hnext⟩ := bind_eq_some_iff.1 h
  cases hnext
  refine (counts_incUserIn1 hinc).1.effect (fun k hu => ?_) ?_
  · split_ifs at hu <;> cases hu
  · split_ifs <;> exact fun _ => False.elim

theorem effect_decUser {r : Role} {delay : ℤ} (ht : s.threads[n]? = some t)
    (hheld : t.held = some (r, id)) (h : s.decUser n i r id delay jiffies = some s') :
    Effect s op s' := by
  obtain ⟨⟨s₁, ret⟩, hdec, hnext⟩ := bind_eq_some_iff.1 h
  cases hnext
  refine (counts_decUserIn1 hdec).effect (fun k hu => ?_) ?_
  · split_ifs at hu
    · exact .inl ⟨t, ht, hheld.trans hu⟩
    · cases hu
  · split_ifs <;> exact fun _ => False.elim

theorem effect_alloc {max num : ℤ} (h : s.alloc n i max num = some s') : Effect s op s' := by
  obtain ⟨⟨s₁, found⟩, hfind, hnext⟩ := bind_eq_some_iff.1 h
  rcases findFree_spec hfind with ⟨rfl, rfl⟩ | ⟨id, hid, mms, rfl, hmms, hzero, rfl⟩
  · cases hnext
    exact .of_set (fun k => .same _) rfl (fun k hu => nomatch hu) fun _ => False.elim
  cases hnext
  have hvacant : s.Vacant id := .inr ⟨i, mem_reverse.1 hid, mms, hmms, hzero⟩
  refine .of_set (.setMem (hmms ▸ .reuse mms hzero)) rfl (fun k hu => ?_) fun k hwant => ?_
  · cases hu
    exact .inr hvacant
  · cases hwant
    exact hvacant

theorem effect_stepThread (ht : s.threads[n]? = some t)
    (h : s.stepThread n addr pages jiffies t = some s') : Effect s (.thread n addr pages) s' := by
  cases t with
  | allocNew i max num =>
    obtain ⟨hfree, hnext⟩ := ite_none_right_eq_some.1 h
    cases hnext
    rw [allocNew.eq_def]
    split
    · exact .of_set (fun k => .same _) rfl (fun k hu => by cases hu) fun _ => False.elim
    next id =>
    split
    · exact .of_set (fun k => .same _) rfl (fun k hu => by cases hu) fun _ => False.elim
    · have hvacant : s.Vacant id := .inl (hfree id rfl)
      refine .of_set (.setMem (hfree id rfl ▸ .new _ rfl rfl)) rfl (fun k hu => ?_)
        fun k hwant => ?_
      · cases hu
        exact .inr hvacant
      · cases hwant
        exact hvacant
  | wantPages id num =>
    obtain ⟨mms, hmms, hnext⟩ := bind_eq_some_iff.1 h
    cases hnext
    have hheld (ok : Bool) : (if ok then Thread.holding .owner id else .allocFailed id).held =
        some (.owner, id) := by cases ok <;> rfl
    have hwants (ok : Bool) (k : ℕ) :
        ¬ (if ok then Thread.holding .owner id else .allocFailed id).Wants k := by
      cases ok <;> exact False.elim
    refine .of_set (.setMem (hmms ▸ .want mms rfl ht)) rfl
      (fun k hu => .inl ⟨_, ht, (hheld _).symm.trans hu⟩) fun k hwant => ?_
    exact absurd hwant (hwants _ k)
  | allocFailed id =>
    obtain ⟨mms, hmms, hnext⟩ := bind_eq_some_iff.1 h
    cases hnext
    exact Counts.effect (.inr ⟨mms, _, _, hmms, rfl⟩) (fun k hu => by cases hu) fun _ => False.elim
  | inc id => exact effect_incForKeeper h
  | dec r id delay => exact effect_decUser ht rfl h
  | idle | holding => cases h

theorem effect_stepMonitor (h : s.stepMonitor i = some s') : Effect s op s' := by
  rw [stepMonitor] at h
  split at h
  · obtain ⟨mms, hmms, hnext⟩ := bind_eq_some_iff.1 h
    split at hnext <;> cases hnext <;> exact .of_threads_eq (fun k => .same _) rfl
  · next id less hmon =>
    obtain ⟨mms, hmms, hnext⟩ := bind_eq_some_iff.1 h
    cases hnext
    exact .of_threads_eq (.setMem (hmms ▸ .free mms hmon)) rfl
  · rw [freeUnused.eq_def] at h
    split at h
    · cases h
      exact .of_threads_eq (fun k => .same _) rfl
    split at h
    · cases h
      exact .of_threads_eq (fun k => .same _) rfl
    · obtain ⟨mms, hmms, hnext⟩ := bind_eq_some_iff.1 h
      cases hnext
      exact .of_threads_eq (.setMem (hmms ▸ .unused mms)) rfl
  · cases h

theorem effect_clear {force delayFreeOn : Bool}
    (h : s.clear i force delayFreeOn jiffies = some s') : Effect s op s' := by
  obtain ⟨⟨toFree, cnt, less⟩, hloop, hnext⟩ := bind_eq_some_iff.1 h
  obtain ⟨hfree, -⟩ := clearLoop_spec (P := fun f => s.mem f.1 = some f.2) (by simp)
    (fun k _ mms hmms _ => hmms) hloop
  dsimp only at hnext
  split at hnext
  · cases hnext
    exact .of_threads_eq (fun k => .same _) rfl
  next id mms =>
  have hmms : s.mem id = some mms := hfree (id, mms) rfl
  split_ifs at hnext
  · cases hnext
    exact .of_threads_eq (.setMem (hmms ▸ .count mms _ _)) rfl
  · cases hnext
    exact .of_threads_eq (.setMem (hmms ▸ .count mms _ _)) rfl
  · cases hnext
    exact .of_threads_eq (fun k => .same _) rfl

theorem effect_step (h : s.step jiffies op = some s') : Effect s op s' := by
  cases op with
  | alloc n istvp max num => exact effect_alloc (ite_none_right_eq_some.1 h).2
  | inc n id => exact effect_incForKeeper (ite_none_right_eq_some.1 h).2
  | dec n delay =>
    rw [step] at h
    split at h
    · next r id ht => exact effect_decUser ht rfl h
    · cases h
  | thread n addr pages =>
    obtain ⟨t, ht, hnext⟩ := bind_eq_some_iff.1 h
    exact effect_stepThread ht hnext
  | clear i force delayFreeOn => exact effect_clear (ite_none_right_eq_some.1 h).2
  | monitor i => exact effect_stepMonitor h

/-! ## Pages -/

/-- The pages that are in use stay. -/
def KeepsPages (mms mms' : UserScatter) : Prop := ∀ k : ℕ, k < mms.pageUsed → k < mms.pageCnt →
    mms'.pagesList k = mms.pagesList k ∧ k < mms'.pageCnt

theorem KeepsPages.refl (mms : UserScatter) : KeepsPages mms mms := fun _ _ hk => ⟨rfl, hk⟩

theorem KeepsPages.trans {mms'' : UserScatter} (h : KeepsPages mms mms')
    (hused : mms'.pageUsed = mms.pageUsed) (h' : KeepsPages mms' mms'') : KeepsPages mms mms'' := by
  intro k hk hcnt
  obtain ⟨hpage, hcnt'⟩ := h k hk hcnt
  obtain ⟨hpage', hcnt''⟩ := h' k (by omega) hcnt'
  exact ⟨hpage'.trans hpage, hcnt''⟩

section

variable (h : mms.pageTail = mms.pageCnt - 1)
include h

theorem tail_wantPagesIn (num : ℤ) (pages : List Page) :
    (wantPagesIn mms num pages).1.pageTail = (wantPagesIn mms num pages).1.pageCnt - 1 := by
  rw [wantPagesIn]
  dsimp only
  split_ifs <;> dsimp only <;> omega

theorem keepsPages_wantPagesIn (num : ℤ) (pages : List Page) :
    KeepsPages mms (wantPagesIn mms num pages).1 := by
  intro k _ hk
  rw [wantPagesIn]
  dsimp only
  split_ifs
  · exact ⟨rfl, hk⟩
  · exact ⟨rfl, hk⟩
  · exact ⟨rfl, hk⟩
  · exact ⟨fill_of_lt _ (by omega), by dsimp only; omega⟩

theorem tail_freeUnusedPages :
    (freeUnusedPages mms).pageTail = (freeUnusedPages mms).pageCnt - 1 := by
  rw [freeUnusedPages]
  split_ifs
  · exact h
  · dsimp only
    omega

theorem keepsPages_freeUnusedPages :
    KeepsPages mms (freeUnusedPages mms) ∧ (freeUnusedPages mms).pageUsed = mms.pageUsed := by
  rw [freeUnusedPages]
  split_ifs
  · exact ⟨fun k _ hk => ⟨rfl, hk⟩, rfl⟩
  · exact ⟨fun k hused _ => ⟨fill_of_lt _ (by omega), by dsimp only; omega⟩, rfl⟩

end

theorem Change.tail {o o' : Option UserScatter} (h : Change s op id o o')
    (hold : ∀ mms ∈ o, mms.pageTail = mms.pageCnt - 1) :
    ∀ mms ∈ o', mms.pageTail = mms.pageCnt - 1 := by
  intro mms' hmms'
  cases h with
  | same => exact hold mms' hmms'
  | count mms | reuse mms =>
    cases hmms'
    exact hold mms rfl
  | want mms _ _ =>
    cases hmms'
    exact tail_wantPagesIn (hold mms rfl) _ _
  | unused mms =>
    cases hmms'
    exact tail_freeUnusedPages (hold mms rfl)
  | new mms hcnt htail =>
    cases hmms'
    rw [hcnt, htail]
    rfl
  | free => cases hmms'

theorem Reachable.tail {P : Users → Step → Prop} (h : Reachable P s) :
    ∀ id, ∀ mms ∈ s.mem id, mms.pageTail = mms.pageCnt - 1 := by
  induction h with
  | init n => exact fun id mms hmms => nomatch hmms
  | step jiffies op _ _ hstep ih => exact fun id => ((effect_step hstep).change id).tail (ih id)

/-- A scatter that is used keeps the pages in use, and only its owner changes which ones
    are. -/
theorem Inv.keepsPages (h : s.Inv) (hmms : s.mem id = some mms)
    (htail : mms.pageTail = mms.pageCnt - 1) (ht : t ∈ s.threads) (hold : t.Holds id)
    {o' : Option UserScatter} (hchange : Change s op id (some mms) o') :
    ∃ mms', o' = some mms' ∧ KeepsPages mms mms' ∧ (mms'.pageUsed = mms.pageUsed ∨
      ∃ n num addr pages, op = .thread n addr pages ∧
        s.threads[n]? = some (.wantPages id num)) := by
  cases hchange with
  | same => exact ⟨mms, rfl, .refl mms, .inl rfl⟩
  | count => exact ⟨_, rfl, KeepsPages.refl mms, .inl rfl⟩
  | reuse _ hzero =>
    obtain ⟨i, hi, -⟩ := h.held ht hold
    obtain ⟨mms', hmms', -, hcnt⟩ := h.listed hi
    cases hmms.symm.trans hmms'
    exact absurd hold (not_holds_of_users (hcnt.symm.trans hzero) ht)
  | want _ hop hn =>
    exact ⟨_, rfl, keepsPages_wantPagesIn htail _ _, .inr ⟨_, _, _, _, hop, hn⟩⟩
  | unused =>
    obtain ⟨hkeeps, hused⟩ := keepsPages_freeUnusedPages htail
    exact ⟨_, rfl, hkeeps, .inl hused⟩
  | free _ hmon => exact absurd hold (h.not_holds_of_taken (by rw [hmon]; rfl) ht)

/-! ## Owners -/

/-- The thread owned the scatter before, or nobody used it. -/
def Handed (s : Users) (n id : ℕ) : Prop :=
  (∃ t, s.threads[n]? = some t ∧ t.held = some (.owner, id)) ∨ ∀ t ∈ s.threads, ¬ t.Holds id

theorem Inv.not_holds (h : s.Inv) (hid : s.Vacant id) : ∀ t ∈ s.threads, ¬ t.Holds id := by
  rcases hid with hnone | ⟨i, hi, mms, hmms, hzero⟩
  · exact (h.fresh hnone).2.2
  · obtain ⟨mms', hmms', -, hcnt⟩ := h.listed hi
    cases hmms.symm.trans hmms'
    exact fun t ht => not_holds_of_users (hcnt.symm.trans hzero) ht

/-! ## Keepers -/

/-- The thread is a keeper of the scatter. -/
def KeptBy (s : Users) (n id : ℕ) : Prop :=
  ∃ t, s.threads[n]? = some t ∧ t.held = some (.keeper, id)

/-- A run during which the thread is a keeper of the scatter all the time. -/
inductive Keeping (P : Users → Step → Prop) (n id : ℕ) (s : Users) : Users → Prop
  | start : s.KeptBy n id → Keeping P n id s s
  | step {s₁ s₂ : Users} (jiffies : ℕ) (op : Step) : Keeping P n id s s₁ → P s₁ op →
    s₁.step jiffies op = some s₂ → s₂.KeptBy n id → Keeping P n id s s₂

theorem Keeping.keptBy {P : Users → Step → Prop} (h : Keeping P n id s s') : s'.KeptBy n id := by
  cases h with
  | start hkept => exact hkept
  | step _ _ _ _ _ hkept => exact hkept

/-- The scatter has no owner that is about to want pages, and has the pages it had, and as
    many are in use. -/
def Retains (s : Users) (id : ℕ) (mms : UserScatter) : Prop :=
  s.Settled id ∧
    ∃ mms', s.mem id = some mms' ∧ KeepsPages mms mms' ∧ mms'.pageUsed = mms.pageUsed

/-- A step that makes the thread a keeper. -/
theorem retains_of_incs (hincs : op.incs s = some (n, id)) (hsettled : s.Settled id)
    (hstep : s.step jiffies op = some s') (hkept : s'.threads[n]? = some (.holding .keeper id)) :
    ∃ mms, s.mem id = some mms ∧ s'.Retains id mms := by
  have hinc : ∃ i, s.incForKeeper n i id jiffies = some s' := by
    rw [Step.incs.eq_def] at hincs
    split at hincs
    · cases hincs
      exact ⟨0, (ite_none_right_eq_some.1 hstep).2⟩
    · split at hincs
      · next ht =>
        cases hincs
        rw [Users.step, ht] at hstep
        exact ⟨1, hstep⟩
      · cases hincs
    · cases hincs
  obtain ⟨i, hinc⟩ := hinc
  obtain ⟨⟨s₁, ret⟩, hinc, hnext⟩ := bind_eq_some_iff.1 hinc
  obtain ⟨hcounts, hsome⟩ := counts_incUserIn1 hinc
  cases hnext
  have hthreads : s₁.threads = s.threads := by
    rcases hcounts with rfl | ⟨_, _, _, -, rfl⟩ <;> rfl
  have hnew : (if ret < 0 then if i = 0 then Thread.inc id else .idle else .holding .keeper id) =
      .holding .keeper id := by
    rw [setThread, getElem?_set, if_pos rfl] at hkept
    exact some.inj (ite_none_right_eq_some.1 hkept).2
  have hret : ret ≠ -1 := by
    rintro rfl
    rw [if_pos (by decide)] at hnew
    split at hnew <;> cases hnew
  rw [hnew]
  obtain ⟨mms, hmms⟩ := isSome_iff_exists.1 (hsome hret)
  refine ⟨mms, hmms, fun t hmem => ?_, ?_⟩
  · rw [setThread, hthreads] at hmem
    rcases mem_set_cases hmem with rfl | hmem
    · exact False.elim
    · exact hsettled t hmem
  · rcases hcounts with rfl | ⟨mms₁, userCnt, tofreeJiffies, hmms₁, rfl⟩
    · exact ⟨mms, hmms, .refl mms, rfl⟩
    · cases hmms.symm.trans hmms₁
      exact ⟨_, mem_setMem_self _ _ _, KeepsPages.refl mms, rfl⟩

theorem Inv.retains_step (h : s.Inv) (htail : ∀ mms ∈ s.mem id, mms.pageTail = mms.pageCnt - 1)
    (hkept : s.KeptBy n id) (hretains : s.Retains id mms) (hstep : s.step jiffies op = some s') :
    s'.Retains id mms := by
  obtain ⟨hsettled, mms₁, hmms₁, hkeeps, hused⟩ := hretains
  obtain ⟨t, ht, hheld⟩ := hkept
  have ht : t ∈ s.threads := mem_of_getElem? ht
  have heffect := effect_step hstep
  refine ⟨fun t' hmem hwant => ?_, ?_⟩
  · rcases heffect.wants hmem hwant with hmem | hvacant
    · exact hsettled t' hmem hwant
    · exact h.not_holds hvacant t ht ⟨_, hheld⟩
  have hchange := heffect.change id
  rw [hmms₁] at hchange
  obtain ⟨mms₂, hmms₂, hkeeps₂, hused₂ | ⟨m, num, -, -, -, hm⟩⟩ :=
    h.keepsPages hmms₁ (htail mms₁ hmms₁) ht ⟨_, hheld⟩ hchange
  · exact ⟨mms₂, hmms₂, hkeeps.trans hused hkeeps₂, hused₂.trans hused⟩
  · exact absurd rfl (hsettled _ (mem_of_getElem? hm))

/-- What a keeper has found in use stays. -/
theorem Keeping.retains (h : Keeping (fun s op => op.Fits s) n id s s')
    (hreach : Reachable (fun s op => op.Fits s) s) (hretains : s.Retains id mms) :
    Reachable (fun s op => op.Fits s) s' ∧ s'.Retains id mms := by
  induction h with
  | start => exact ⟨hreach, hretains⟩
  | step jiffies op hrun hfits hstep _ ih =>
    obtain ⟨hreach₁, hretains₁⟩ := ih
    exact ⟨hreach₁.step jiffies op hfits hstep,
      hreach₁.inv.retains_step (hreach₁.tail id) hrun.keptBy hretains₁ hstep⟩

/-! ## The protocol -/

/-- Who uses a scatter keeps it, and who has gone does not count. -/
structure Protected (s : Users) : Prop where
  /-- A scatter that is used is there, and not about to be freed. -/
  held : ∀ t ∈ s.threads, ∀ id, t.Holds id →
    ∃ mms, s.mem id = some mms ∧ id ∈ (s.mgt mms.manager).scatterList
  owner : OneOwner s.threads
  /-- The scatters a manager may touch are there. -/
  mem : ∀ i id, id ∈ (s.mgt i).scatterList ∨ some id ∈ (s.mgt i).scmap → (s.mem id).isSome
  /-- A scatter without users can be used again, or freed. -/
  released : ∀ i, ∀ id ∈ (s.mgt i).scatterList, (∀ t ∈ s.threads, ¬ t.Holds id) →
    ∀ mms, s.mem id = some mms → mms.userCnt = 0

theorem Inv.protected (h : s.Inv) : s.Protected where
  held t ht id hold := by
    obtain ⟨i, hi, -⟩ := h.held ht hold
    obtain ⟨mms, hmms, rfl, -⟩ := h.listed hi
    exact ⟨mms, hmms, hi⟩
  owner := h.owner
  mem i id hid := by
    have hid' : id ∈ (s.mgt i).scatterList ∨ (s.mgt i).monitor.reaped = some id :=
      hid.elim .inl h.mapped.1
    rcases hid' with hid | hid
    · obtain ⟨mms, hmms, -⟩ := h.listed hid
      rw [hmms]
      rfl
    · obtain ⟨-, mms, hmms, -⟩ := h.taken (Monitor.taken_of_reaped hid)
      rw [hmms]
      rfl
  released i id hid hnone mms hmms := by
    obtain ⟨mms', hmms', -, hcnt⟩ := h.listed hid
    cases hmms.symm.trans hmms'
    rw [hcnt, users_eq_zero hnone]

/-- Two pages of the system. -/
def twoPages : List Page := [⟨1, onePageSid⟩, ⟨2, onePageSid⟩]

theorem count_none_mapAdd (id : ℕ) (l : List (Option ℕ)) :
    (mapAdd id l).count none = l.count none - 1 := by
  rw [mapAdd_eq, count_replace]
  by_cases h : none ∈ l
  · simp [h]
  · simp [h, count_eq_zero_of_not_mem]

theorem mapAdd_of_not_mem (id : ℕ) (h : none ∉ l) : mapAdd id l = l :=
  (mapAdd_eq id l).trans (replace_of_not_mem h)

theorem mem_mapAdd (id : ℕ) {x : ℕ} (h : some x ∈ mapAdd id l) : x = id ∨ some x ∈ l := by
  by_cases hnone : none ∈ l
  · by_cases hx : x = id
    · exact .inl hx
    · refine .inr (count_pos_iff.1 ?_)
      rw [← count_pos_iff, count_mapAdd hnone, if_neg hx] at h
      exact h
  · rw [mapAdd_of_not_mem id hnone] at h
    exact .inr h

theorem findFree_none {l : List ℕ} (req : ℤ)
    (h : ∀ id ∈ l, ∃ mms, s.mem id = some mms ∧ mms.userCnt = 1000) :
    findFree req l s = some (s, none) := by
  induction l with
  | nil => rfl
  | cons id l ih =>
    obtain ⟨mms, hmms, hcnt⟩ := h id mem_cons_self
    rw [findFree, hmms]
    dsimp only [bind_eq_bind, bind_some]
    rw [if_neg (by omega)]
    exact ih fun k hk => h k (mem_cons_of_mem _ hk)

/-- The first manager has `k` scatters, each with its owner. -/
structure Filled (k : ℕ) (s : Users) : Prop where
  reach : Reachable (fun _ _ => True) s
  idle : ∀ j, k ≤ j → j < 257 → s.threads[j]? = some .idle
  busy : ∀ t ∈ s.threads, ∀ id, t.Holds id → id < k
  list : ∀ id ∈ (s.mgt 0).scatterList, ∃ mms, s.mem id = some mms ∧ mms.userCnt = 1000
  mem : ∀ id, k ≤ id → s.mem id = none
  map : ∀ x, some x ∈ (s.mgt 0).scmap → x < k
  room : (s.mgt 0).scmap.count none = 256 - k
  other : ∀ x, some x ∉ (s.mgt 1).scmap

theorem filled_init : Filled 0 (init 257) where
  reach := .init 257
  idle j _ hj := getElem?_replicate_of_lt hj
  busy t ht id hold := by
    obtain ⟨_, hold⟩ := hold
    rw [eq_of_mem_replicate ht] at hold
    cases hold
  list id hid := absurd hid not_mem_nil
  mem _ _ := rfl
  map x hx := nomatch eq_of_mem_replicate hx
  room := count_replicate_self
  other x hx := nomatch eq_of_mem_replicate hx

/-- A scatter with an owner, and no pages. -/
def ownedScatter (k : ℕ) : UserScatter where
  id := k
  pagesList _ := Page.zero
  pageMaxCnt := 0
  pageCnt := 0
  pageTail := -1
  pageUsed := 0
  userCnt := 1000
  manager := 0
  tofreeJiffies := 0

/-- The first manager with another scatter. -/
def addOwned (s : Users) (k : ℕ) : Users :=
  (s.addScatter 0 k (ownedScatter k)).setThread k (.wantPages k 0)

theorem scmap_addOwned (s : Users) (k : ℕ) :
    ((s.addOwned k).mgt 0).scmap = mapAdd k (s.mgt 0).scmap := by
  simp [addOwned, addScatter, setThread]

theorem Filled.reach_addOwned (h : Filled k s) (hk : k < 257) :
    Reachable (fun _ _ => True) (s.addOwned k) := by
  have hidle := h.idle k le_rfl hk
  have hlt : k < s.threads.length := (List.getElem?_eq_some_iff.1 hidle).1
  have hfind : findFree 0 (s.mgt 0).scatterList.reverse s = some (s, none) :=
    findFree_none 0 fun id hid => h.list id (mem_reverse.1 hid)
  have halloc : s.step 0 (.alloc k 0 0 0) = some (s.setThread k (.allocNew 0 0 0)) := by
    rw [step, if_pos hidle, alloc, hfind]
    rfl
  refine (h.reach.step 0 _ trivial halloc).step 0 (.thread k (some k) []) trivial ?_
  have hthread : (s.setThread k (.allocNew 0 0 0)).threads[k]? = some (.allocNew 0 0 0) :=
    getElem?_set_self hlt
  rw [step, hthread, bind_some, stepThread, if_pos]
  · simp [addOwned, ownedScatter, allocNew, setThread, addScatter, setMem, setMgt]
  · intro id hid
    cases hid
    exact h.mem k le_rfl

theorem Filled.next (h : Filled k s) (hk : k < 257) : Filled (k + 1) (s.addOwned k) where
  reach := h.reach_addOwned hk
  idle j hj hj' := by
    rw [← h.idle j (by omega) hj']
    exact getElem?_set_ne (by omega)
  busy t ht id hold := by
    rcases mem_set_cases ht with rfl | ht
    · obtain ⟨_, hold⟩ := hold
      cases hold
      exact lt_succ_self k
    · exact (h.busy t ht id hold).trans (lt_succ_self k)
  list id hid := by
    rcases (mem_list_addScatter s 0 k (ownedScatter k) 0 id).1 hid with hid | ⟨-, rfl⟩
    · obtain ⟨mms, hmms, hcnt⟩ := h.list id hid
      have hne : id ≠ k := by
        rintro rfl
        exact absurd ((h.mem id le_rfl).symm.trans hmms) (by simp)
      exact ⟨mms, (mem_setMem_of_ne s _ hne).trans hmms, hcnt⟩
    · exact ⟨_, mem_setMem_self _ _ _, rfl⟩
  mem id hid := (mem_setMem_of_ne s _ (by omega)).trans (h.mem id (by omega))
  map x hx := by
    rw [scmap_addOwned] at hx
    rcases mem_mapAdd k hx with rfl | hx
    · exact lt_succ_self x
    · exact (h.map x hx).trans (lt_succ_self k)
  room := by
    rw [scmap_addOwned, count_none_mapAdd, h.room]
    omega
  other x := h.other x

theorem exists_filled (k : ℕ) (hk : k ≤ 257) : ∃ s, Filled k s := by
  induction k with
  | zero => exact ⟨_, filled_init⟩
  | succ k ih =>
    obtain ⟨s, hs⟩ := ih (by omega)
    exact ⟨_, hs.next hk⟩

theorem decUser_of_not_valid (h : ¬ (s.mgt i).valid id) (n : ℕ) (r : Role) (delay : ℤ)
    (jiffies : ℕ) : s.decUser n i r id delay jiffies =
      some (s.setThread n (if i = 0 then .dec r id delay else .idle)) := by
  rw [decUser, decUserIn1, if_pos h]
  simp

/-- The owner of a scatter that the maps do not have goes, and nothing else changes. -/
theorem reachable_release (h : Reachable (fun _ _ => True) s)
    (ht : s.threads[k]? = some (.wantPages k 0)) (hmem : s.mem k = some (ownedScatter k))
    (hmap : ∀ i, some k ∉ (s.mgt i).scmap) : Reachable (fun _ _ => True) (s.setThread k .idle) := by
  have hset (t : Thread) : (s.setThread k t).threads[k]? = some t :=
    getElem?_set_self (List.getElem?_eq_some_iff.1 ht).1
  have hvalid (i : Fin 2) (t : Thread) : ¬ ((s.setThread k t).mgt i).valid k := fun hv =>
    hmap i (of_decide_eq_true hv)
  have h₁ : s.step 0 (.thread k none []) = some (s.setThread k (.holding .owner k)) := by
    have hself : s.setMem k (some (ownedScatter k)) = s := by
      rw [setMem, ← hmem, Function.update_eq_self]
    rw [step, ht, bind_some, stepThread, wantPages, hmem]
    exact congrArg (fun s => some (setThread s k (.holding .owner k))) hself
  have h₂ : (s.setThread k (.holding .owner k)).step 0 (.dec k 0) =
      some (s.setThread k (.dec .owner k 0)) := by
    rw [step, hset]
    simpa [setThread] using decUser_of_not_valid (hvalid 0 _) k .owner 0 0
  have h₃ : (s.setThread k (.dec .owner k 0)).step 0 (.thread k none []) =
      some (s.setThread k .idle) := by
    rw [step, hset, bind_some]
    simpa [setThread, stepThread] using decUser_of_not_valid (hvalid 1 _) k .owner 0 0
  exact ((h.step 0 _ trivial h₁).step 0 _ trivial h₂).step 0 _ trivial h₃

/-- With 256 scatters in the map, the owner of another cannot go. -/
theorem exists_not_protected : ∃ s, Reachable (fun _ _ => True) s ∧ ¬ s.Protected := by
  obtain ⟨s, hs⟩ := exists_filled 256 (by decide)
  have hidle := hs.idle 256 le_rfl (by decide)
  have hlt : 256 < s.threads.length := (List.getElem?_eq_some_iff.1 hidle).1
  have hfull : none ∉ (s.mgt 0).scmap := fun hnone => by
    have hpos := count_pos_iff.2 hnone
    rw [hs.room] at hpos
    exact absurd hpos (by decide)
  have hmap : ((s.addOwned 256).mgt 0).scmap = (s.mgt 0).scmap :=
    (scmap_addOwned s 256).trans (mapAdd_of_not_mem 256 hfull)
  have hmem : (s.addOwned 256).mem 256 = some (ownedScatter 256) := mem_setMem_self s 256 _
  have hreach := reachable_release (hs.reach_addOwned (by decide)) (getElem?_set_self hlt) hmem
    fun i => by
    fin_cases i
    · exact fun hx => absurd (hs.map 256 (hmap ▸ hx)) (by decide)
    · exact hs.other 256
  refine ⟨_, hreach, fun h => absurd (h.released 0 256 ?_ (fun t ht hold => ?_) _ hmem) (by decide)⟩
  · exact (mem_list_addScatter s 0 256 (ownedScatter 256) 0 256).2 (.inr ⟨rfl, rfl⟩)
  have hset : (s.addOwned 256).threads.set 256 .idle = s.threads.set 256 .idle := set_set _
  rw [setThread, hset] at ht
  rcases mem_set_cases ht with rfl | ht
  · obtain ⟨_, hold⟩ := hold
    cases hold
  · exact absurd (hs.busy t ht 256 hold) (by decide)

end CommonDrivers.Media.CodecMm.Users
