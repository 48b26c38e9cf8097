import CommonDrivers.Lib.Tally
import CommonDrivers.Media.CodecMm.Users

/-!
# The counter of a scatter counts its users

`Users.Inv` says that the counter of a scatter in the list of a manager is the sum of what
its users have added, that a scatter someone uses is in a list, and that the map of a
manager has the scatters of its list and the one its monitor is about to free.
-/

namespace CommonDrivers.Media.CodecMm

open List Function Option Thread

/-! ## The map -/

theorem mapAdd_eq (id : ℕ) (l : List (Option ℕ)) : mapAdd id l = l.replace none (some id) := by
  induction l with
  | nil => rfl
  | cons x l ih =>
    cases x with
    | none => rfl
    | some x => exact congrArg (some x :: ·) ih

theorem count_mapAdd {l : List (Option ℕ)} (h : none ∈ l) (id x : ℕ) :
    (mapAdd id l).count (some x) = l.count (some x) + if x = id then 1 else 0 := by
  rw [mapAdd_eq, count_replace]
  simp [h, @eq_comm _ id]

theorem mapDel_eq (id : ℕ) (l : List (Option ℕ)) : mapDel id l = l.replace (some id) none := by
  induction l with
  | nil => rfl
  | cons x l ih => grind [mapDel]

theorem count_mapDel (id x : ℕ) (l : List (Option ℕ)) :
    (mapDel id l).count (some x) = l.count (some x) - if x = id then 1 else 0 := by
  rw [mapDel_eq, count_replace]
  split
  · simp [@eq_comm _ id]
  · split
    · simp_all [count_eq_zero_of_not_mem]
    · rfl

/-! ## Threads and monitors -/

namespace Thread

variable {t t' : Thread} {id : ℕ} {r : Role}

theorem users_of_held (h : t.held = some (r, id)) : t.users id = r.cnt := by
  rw [users, h]
  exact if_pos rfl

theorem users_of_not_holds (h : ¬ t.Holds id) : t.users id = 0 := by
  rw [users]
  split
  · next r id' heq =>
    refine if_neg fun hid => h ⟨r, ?_⟩
    rw [heq, hid]
  · rfl

theorem users_congr (h : t'.held = t.held) : t'.users id = t.users id := by rw [users, users, h]

theorem users_nonneg (id : ℕ) (t : Thread) : 0 ≤ t.users id := by
  by_cases h : t.Holds id
  · obtain ⟨r, hr⟩ := h
    rw [users_of_held hr]
    cases r <;> decide
  · exact (users_of_not_holds h).ge

/-- The managers the scatter may be of, as far as the thread knows. -/
def MayBeIn (t : Thread) (i : Fin 2) : Prop :=
  match t with
  | .dec _ _ _ => i = 1
  | _ => True

theorem Holds.users_pos (h : t.Holds id) : 0 < t.users id := by
  obtain ⟨r, hr⟩ := h
  rw [users_of_held hr]
  cases r <;> decide

end Thread

namespace Monitor

/-- The scatter that is off the list. -/
def taken : Monitor → Option ℕ
  | .reap id _ => some id
  | .free id _ => some id
  | _ => none

/-- The scatter that is off the list, but in the map. -/
def reaped : Monitor → Option ℕ
  | .reap id _ => some id
  | _ => none

/-- The scatter that is, or was, to be freed. -/
def toFree : Monitor → Option ℕ
  | .reap id _ => some id
  | .free id _ => some id
  | .unused toFree _ => toFree
  | .idle => none

/-- The scatter with unused pages. -/
def less : Monitor → Option ℕ
  | .reap _ less => less
  | .free _ less => less
  | .unused _ less => less
  | .idle => none

theorem taken_of_reaped {m : Monitor} {id : ℕ} (h : m.reaped = some id) : m.taken = some id := by
  cases m with
  | reap _ _ => exact h
  | _ => exact nomatch h

end Monitor

namespace Users

variable {s s' : Users} {i j : Fin 2} {id n jiffies : ℕ} {t t' : Thread} {mms mms' : UserScatter}

/-- What the threads have added to the counter of the scatter. -/
def users (s : Users) (id : ℕ) : ℤ := tally (Thread.users id) s.threads

/-- A scatter has no two owners. -/
def OneOwner (l : List Thread) : Prop :=
  ∀ (n n' : ℕ) (t t' : Thread) (id : ℕ), l[n]? = some t → l[n']? = some t' →
    t.held = some (.owner, id) → t'.held = some (.owner, id) → n = n'

/-- A thread becomes an owner only if it was one, or nobody was. -/
theorem OneOwner.set {l : List Thread} (h : OneOwner l) (ht : l[n]? = some t)
    (howner : ∀ {j}, t'.held = some (.owner, j) →
      t.held = some (.owner, j) ∨ ∀ t₁ ∈ l, t₁.held ≠ some (.owner, j)) :
    OneOwner (l.set n t') := by
  have hkey : ∀ {n₁ t₁ j}, n₁ ≠ n → l[n₁]? = some t₁ → t₁.held = some (.owner, j) →
      t'.held ≠ some (.owner, j) := by
    intro n₁ t₁ j hne ht₁ hold hold'
    rcases howner hold' with hold'' | hnone
    · exact hne (h _ _ _ _ _ ht₁ ht hold hold'')
    · exact hnone t₁ (mem_of_getElem? ht₁) hold
  intro n₁ n₂ t₁ t₂ j h₁ h₂ hold₁ hold₂
  rw [getElem?_set] at h₁ h₂
  have hlt : n < l.length := (List.getElem?_eq_some_iff.1 ht).1
  split at h₁ <;> split at h₂
  · next e₁ e₂ => exact e₁.symm.trans e₂
  · next e₁ e₂ =>
    cases h₁
    exact absurd hold₁ (hkey (Ne.symm e₂) h₂ hold₂)
  · next e₁ e₂ =>
    cases h₂
    exact absurd hold₂ (hkey (Ne.symm e₁) h₁ hold₁)
  · exact h _ _ _ _ _ h₁ h₂ hold₁ hold₂

/-- The counters count, and what is used is in a list. -/
structure Inv (s : Users) : Prop where
  listed : ∀ {i id}, id ∈ (s.mgt i).scatterList →
    ∃ mms, s.mem id = some mms ∧ mms.manager = i ∧ mms.userCnt = s.users id
  /-- The counter has not wrapped around. -/
  lt : ∀ id, s.users id < 2 ^ 31
  nodup : ∀ i, (s.mgt i).scatterList.Nodup
  mapped : ∀ {i id}, some id ∈ (s.mgt i).scmap ↔
    id ∈ (s.mgt i).scatterList ∨ (s.mgt i).monitor.reaped = some id
  once : ∀ i id, (s.mgt i).scmap.count (some id) ≤ 1
  held : ∀ {t id}, t ∈ s.threads → t.Holds id → ∃ i, id ∈ (s.mgt i).scatterList ∧ t.MayBeIn i
  owner : OneOwner s.threads
  taken : ∀ {i id}, (s.mgt i).monitor.taken = some id → id ∉ (s.mgt i).scatterList ∧
    ∃ mms, s.mem id = some mms ∧ mms.manager = i ∧ mms.userCnt < 0
  less : ∀ {i id}, (s.mgt i).monitor.less = some id →
    id ∈ (s.mgt i).scatterList ∨ (s.mgt i).monitor.toFree = some id

theorem users_eq_zero (h : ∀ t ∈ s.threads, ¬ t.Holds id) : s.users id = 0 :=
  tally_eq_zero fun t ht => users_of_not_holds (h t ht)

theorem not_holds_of_users (h : s.users id = 0) (ht : t ∈ s.threads) : ¬ t.Holds id := fun hid => by
  have hle := le_tally (users_nonneg id) ht
  have hpos := hid.users_pos
  rw [users] at h
  omega

theorem users_setThread (ht : s.threads[n]? = some t) (t' : Thread) (id : ℕ) :
    (s.setThread n t').users id = s.users id + (t'.users id - t.users id) := tally_set _ ht t'

theorem atomicAdd_eq {cnt v : ℤ} (hlo : -2 ^ 31 ≤ v + cnt) (hhi : v + cnt < 2 ^ 31) :
    atomicAdd cnt v = v + cnt := by
  rw [atomicAdd, i32, u32]
  split <;> omega

/-- A scatter that is found has no users, and is in the list. -/
theorem findFree_spec {l : List ℕ} {req : ℤ} {found : Option ℕ}
    (h : findFree req l s = some (s', found)) :
    (found = none ∧ s' = s) ∨ ∃ id ∈ l, ∃ mms, found = some id ∧ s.mem id = some mms ∧
      mms.userCnt = 0 ∧
      s' = s.setMem id (some { mms with userCnt := 1000, pageUsed := mms.pageCnt }) := by
  induction l with
  | nil =>
    cases h
    exact .inl ⟨rfl, rfl⟩
  | cons id l ih =>
    obtain ⟨mms, hmms, h⟩ := bind_eq_some_iff.1 h
    split at h
    · next hfree =>
      have hadd : atomicAdd 1000 mms.userCnt = 1000 := by
        rw [hfree.2]
        decide
      rw [if_pos hadd] at h
      cases h
      refine .inr ⟨id, mem_cons_self, mms, rfl, hmms, hfree.2, ?_⟩
      rw [hadd]
    · rcases ih h with hnone | ⟨id', hid', hrest⟩
      · exact .inl hnone
      · exact .inr ⟨id', mem_cons_of_mem _ hid', hrest⟩

theorem wantPagesIn_same (mms : UserScatter) (num : ℤ) (pages : List Page) :
    (wantPagesIn mms num pages).1.manager = mms.manager ∧
      (wantPagesIn mms num pages).1.userCnt = mms.userCnt := by
  rw [wantPagesIn]
  dsimp only
  split_ifs <;> exact ⟨rfl, rfl⟩

theorem Role.cnt_pos (r : Role) : 0 < r.cnt := by cases r <;> decide

/-! ## Changes of the threads and the counters -/

variable {r : Role}

section

variable (h : s.Inv)
include h

/-- A scatter that is off the list has no users. -/
theorem Inv.not_holds_of_taken (hid : (s.mgt i).monitor.taken = some id)
    (ht : t ∈ s.threads) : ¬ t.Holds id := fun hold => by
  obtain ⟨j, hj, -⟩ := h.held ht hold
  obtain ⟨hnot, mms, hmms, rfl, -⟩ := h.taken hid
  obtain ⟨mms', hmms', rfl, -⟩ := h.listed hj
  rw [some.inj (hmms.symm.trans hmms')] at hnot
  exact hnot hj

/-- The counters follow the threads, and the managers stay as they are. -/
theorem Inv.of_counts (hmgt : s'.mgt = s.mgt)
    (hmem : ∀ {id mms}, s.mem id = some mms → ∃ mms', s'.mem id = some mms' ∧
      mms'.manager = mms.manager ∧ mms'.userCnt = mms.userCnt + (s'.users id - s.users id))
    (hlt : ∀ id, s'.users id < 2 ^ 31) (hheld : ∀ {t id}, t ∈ s'.threads → t.Holds id →
      ∃ i, id ∈ (s.mgt i).scatterList ∧ t.MayBeIn i) (howner : OneOwner s'.threads) : s'.Inv where
  listed {i id} hid := by
    rw [hmgt] at hid
    obtain ⟨mms, hmms, hman, hcnt⟩ := h.listed hid
    obtain ⟨mms', hmms', hman', hcnt'⟩ := hmem hmms
    exact ⟨mms', hmms', hman'.trans hman, by rw [hcnt', hcnt]; ring⟩
  lt := hlt
  nodup i := hmgt ▸ h.nodup i
  mapped := hmgt ▸ h.mapped
  once i := hmgt ▸ h.once i
  held ht hid := hmgt ▸ hheld ht hid
  owner := howner
  taken {i id} hid := by
    rw [hmgt] at hid ⊢
    obtain ⟨hnot, mms, hmms, hman, hneg⟩ := h.taken hid
    obtain ⟨mms', hmms', hman', hcnt'⟩ := hmem hmms
    refine ⟨hnot, mms', hmms', hman'.trans hman, ?_⟩
    -- nobody used it, and nobody does
    have hzero : s.users id = 0 := users_eq_zero fun t ht => h.not_holds_of_taken hid ht
    have hzero' : s'.users id = 0 := users_eq_zero fun t ht hold => by
      obtain ⟨j, hj, -⟩ := hheld ht hold
      obtain ⟨mms'', hmms'', rfl, -⟩ := h.listed hj
      rw [some.inj (hmms.symm.trans hmms'')] at hman
      exact hnot (hman ▸ hj)
    omega
  less := hmgt ▸ h.less

/-- A scatter becomes a keeper's only if it is in the list. -/
theorem Inv.incUserIn1 {ret : ℤ} (hroom : ∀ mms, s.mem id = some mms → mms.userCnt + 100 < 2 ^ 31)
    (hinc : s.incUserIn1 i id 100 jiffies = some (s', ret)) :
    (ret < 0 ∧ s' = s) ∨ (ret = 0 ∧ id ∈ (s.mgt i).scatterList ∧ ∃ mms mms',
      s.mem id = some mms ∧ mms'.manager = mms.manager ∧ mms'.userCnt = mms.userCnt + 100 ∧
      s' = s.setMem id (some mms')) := by
  rw [Users.incUserIn1] at hinc
  split at hinc
  · cases hinc
    exact .inl ⟨by decide, rfl⟩
  next hvalid =>
  obtain ⟨mms, hmms, hnext⟩ := bind_eq_some_iff.1 hinc
  dsimp only at hnext
  split at hnext
  · next hnonneg =>
    have hadd : atomicAdd 100 mms.userCnt = mms.userCnt + 100 :=
      atomicAdd_eq (by omega) (hroom mms hmms)
    rw [hadd, if_neg (show ¬ mms.userCnt + 100 ≤ 0 by omega)] at hnext
    cases hnext
    have hmap : some id ∈ (s.mgt i).scmap := by simpa [UserMgt.valid] using hvalid
    have hid : id ∈ (s.mgt i).scatterList := (h.mapped.1 hmap).resolve_right fun hreap => by
      obtain ⟨-, mms', hmms', -, hneg⟩ := h.taken (Monitor.taken_of_reaped hreap)
      cases hmms.symm.trans hmms'
      omega
    refine .inr ⟨rfl, hid, mms, _, hmms, ?_, ?_, rfl⟩ <;> rfl
  · cases hnext
    exact .inl ⟨by decide, rfl⟩

section

variable (ht : s.threads[n]? = some t)
include ht

section

variable (hmms : s.mem id = some mms) (hman : mms'.manager = mms.manager)
include hmms hman

/-- A thread goes on, and the counter of a scatter with it. -/
theorem Inv.move (hcnt : mms'.userCnt = mms.userCnt + (t'.users id - t.users id))
    (hlt : s.users id + (t'.users id - t.users id) < 2 ^ 31)
    (hother : ∀ j ≠ id, t'.users j = t.users j)
    (hheld : ∀ {j}, t'.Holds j → ∃ i, j ∈ (s.mgt i).scatterList ∧ t'.MayBeIn i)
    (howner : ∀ {j}, t'.held = some (.owner, j) → t.held = some (.owner, j) ∨ s.users j = 0) :
    ((s.setMem id (some mms')).setThread n t').Inv := by
  have husers (j : ℕ) : ((s.setMem id (some mms')).setThread n t').users j =
      s.users j + (t'.users j - t.users j) := users_setThread ht t' j
  refine h.of_counts rfl ?_ ?_ ?_ (h.owner.set ht fun hold => ?_)
  · intro j mms₁ hj
    rw [husers, add_sub_cancel_left]
    by_cases hid : j = id
    · subst hid
      cases hj.symm.trans hmms
      exact ⟨mms', update_self _ _ _, hman, hcnt⟩
    · refine ⟨mms₁, (update_of_ne hid _ _).trans hj, rfl, ?_⟩
      rw [hother j hid, sub_self, add_zero]
  · intro j
    rw [husers]
    by_cases hid : j = id
    · rwa [hid]
    · rw [hother j hid, sub_self, add_zero]
      exact h.lt j
  · intro t₁ j ht₁ hold
    rcases mem_set_cases ht₁ with rfl | ht₁
    · exact hheld hold
    · exact h.held ht₁ hold
  · refine (howner hold).imp_right fun hzero t₁ ht₁ hold₁ => ?_
    exact not_holds_of_users hzero ht₁ ⟨_, hold₁⟩

/-- A thread goes on with the scatter it has, and writes it. -/
theorem Inv.keep (hcnt : mms'.userCnt = mms.userCnt) (hheld : t'.held = t.held)
    (hin : ∀ i, t'.MayBeIn i) : ((s.setMem id (some mms')).setThread n t').Inv := by
  have husers (j : ℕ) : t'.users j = t.users j := users_congr hheld
  refine h.move ht hmms hman ?_ ?_ (fun j _ => husers j) ?_ ?_
  · rw [husers, sub_self, add_zero, hcnt]
  · rw [husers, sub_self, add_zero]
    exact h.lt id
  · rintro j ⟨r, hr⟩
    obtain ⟨i, hi, -⟩ := h.held (mem_of_getElem? ht) ⟨r, hheld ▸ hr⟩
    exact ⟨i, hi, hin i⟩
  · exact fun hold => .inl (hheld ▸ hold)

/-- A thread becomes a user of a scatter in a list. -/
theorem Inv.acquire (hnone : t.held = none) (hheld : t'.held = some (r, id))
    (hin : ∀ i, t'.MayBeIn i) (hid : id ∈ (s.mgt i).scatterList)
    (hcnt : mms'.userCnt = mms.userCnt + r.cnt) (hlt : mms.userCnt + r.cnt < 2 ^ 31)
    (howner : r = .owner → mms.userCnt = 0) : ((s.setMem id (some mms')).setThread n t').Inv := by
  have hnot (j : ℕ) : ¬ t.Holds j := fun ⟨_, hold⟩ => absurd (hnone.symm.trans hold) (by simp)
  obtain ⟨mms₁, hmms₁, -, husers⟩ := h.listed hid
  cases hmms.symm.trans hmms₁
  refine h.move ht hmms hman ?_ ?_ (fun j hj => ?_) ?_ ?_
  · rw [users_of_held hheld, users_of_not_holds (hnot id), sub_zero, hcnt]
  · rwa [users_of_held hheld, users_of_not_holds (hnot id), sub_zero, ← husers]
  · rw [users_of_not_holds (hnot j), users_of_not_holds]
    rintro ⟨r', hold⟩
    cases hheld.symm.trans hold
    exact hj rfl
  · rintro j ⟨r', hold⟩
    cases hheld.symm.trans hold
    exact ⟨i, hid, hin i⟩
  · intro j hold
    cases hheld.symm.trans hold
    exact .inr (husers.symm.trans (howner rfl))

/-- A thread is no longer a user of a scatter. -/
theorem Inv.release (hheld : t.held = some (r, id))
    (hnone : t'.held = none) (hcnt : mms'.userCnt = mms.userCnt - r.cnt) :
    ((s.setMem id (some mms')).setThread n t').Inv := by
  have hnot (j : ℕ) : ¬ t'.Holds j := fun ⟨_, hold⟩ => absurd (hnone.symm.trans hold) (by simp)
  refine h.move ht hmms hman ?_ ?_ (fun j hj => ?_) ?_ ?_
  · rw [users_of_held hheld, users_of_not_holds (hnot id), hcnt]
    ring
  · have hpos := users_nonneg id t
    have hlt := h.lt id
    rw [users_of_not_holds (hnot id)]
    omega
  · rw [users_of_not_holds (hnot j), users_of_not_holds]
    rintro ⟨r', hold⟩
    cases hheld.symm.trans hold
    exact hj rfl
  · exact fun hold => absurd hold (hnot _)
  · exact fun hold => absurd ⟨_, hold⟩ (hnot _)

end

/-- A thread goes on with the scatter it has, if any. -/
theorem Inv.goOn (hheld : t'.held = t.held)
    (hin : ∀ {j}, t'.Holds j → ∃ i, j ∈ (s.mgt i).scatterList ∧ t'.MayBeIn i) :
    (s.setThread n t').Inv := by
  have husers (j : ℕ) : (s.setThread n t').users j = s.users j := by
    rw [users_setThread ht, users_congr hheld, sub_self, add_zero]
  refine h.of_counts rfl (fun {j mms} hj => ⟨mms, hj, rfl, ?_⟩) (fun j => ?_) ?_
    (h.owner.set ht fun hold => .inl (hheld ▸ hold))
  · rw [husers, sub_self, add_zero]
  · rw [husers]
    exact h.lt j
  intro t₁ j ht₁ hold
  rcases mem_set_cases ht₁ with rfl | ht₁
  · exact hin hold
  · exact h.held ht₁ hold

/-- A thread without a scatter goes on. -/
theorem Inv.goOn_none (hnone : t.held = none)
    (hnone' : t'.held = none) : (s.setThread n t').Inv := by
  refine h.goOn ht (hnone'.trans hnone.symm) ?_
  rintro j ⟨r, hr⟩
  cases hnone'.symm.trans hr

/-! ## Owners and keepers -/

theorem Inv.incForKeeper (hnone : t.held = none)
    (hroom : ∀ mms, s.mem id = some mms → mms.userCnt + 100 < 2 ^ 31)
    (hstep : s.incForKeeper n i id jiffies = some s') : s'.Inv := by
  obtain ⟨⟨s₁, ret⟩, hinc, hnext⟩ := bind_eq_some_iff.1 hstep
  rcases h.incUserIn1 hroom hinc with ⟨hret, rfl⟩ | ⟨rfl, hid, mms, mms', hmms, hman, hcnt, rfl⟩
  · dsimp only at hnext
    rw [if_pos hret] at hnext
    cases hnext
    refine h.goOn_none ht hnone ?_
    split <;> rfl
  · cases hnext
    exact h.acquire ht hmms hman hnone (r := .keeper) rfl (fun _ => trivial) hid hcnt
      (hroom mms hmms) (nomatch ·)

variable (hheld : t.held = some (r, id))
include hheld

/-- The counter of a scatter that is used is at least what its user counts. -/
theorem Inv.cnt_le (hmms : s.mem id = some mms) : r.cnt ≤ mms.userCnt ∧ mms.userCnt < 2 ^ 31 := by
  obtain ⟨i, hi, -⟩ := h.held (mem_of_getElem? ht) ⟨r, hheld⟩
  obtain ⟨mms', hmms', -, hcnt⟩ := h.listed hi
  cases hmms.symm.trans hmms'
  rw [hcnt, ← users_of_held hheld]
  exact ⟨le_tally (users_nonneg id) (mem_of_getElem? ht), h.lt id⟩

/-- `atomic_sub` of what a user counts. -/
theorem Inv.atomicAdd_neg (hmms : s.mem id = some mms) :
    atomicAdd (-r.cnt) mms.userCnt = mms.userCnt - r.cnt := by
  obtain ⟨hle, hlt⟩ := h.cnt_le ht hheld hmms
  have hpos := Role.cnt_pos r
  exact atomicAdd_eq (by omega) (by omega)

/-- A user has gone if the scatter is in the list of the manager, which has it otherwise in
    the other. -/
theorem Inv.decUserIn1 {delay ret : ℤ}
    (hdec : s.decUserIn1 i id delay r.cnt jiffies = some (s', ret)) :
    (ret < 0 ∧ id ∉ (s.mgt i).scatterList ∧ s' = s) ∨ (ret = 0 ∧ ∃ mms mms',
      s.mem id = some mms ∧ mms'.manager = mms.manager ∧ mms'.userCnt = mms.userCnt - r.cnt ∧
      s' = s.setMem id (some mms')) := by
  rw [Users.decUserIn1] at hdec
  split at hdec
  · next hvalid =>
    cases hdec
    refine .inl ⟨by decide, fun hid => hvalid ?_, rfl⟩
    simpa [UserMgt.valid] using h.mapped.2 (.inl hid)
  obtain ⟨mms, hmms, hnext⟩ := bind_eq_some_iff.1 hdec
  obtain ⟨hle, -⟩ := h.cnt_le ht hheld hmms
  have hpos := Role.cnt_pos r
  rw [if_pos (show mms.userCnt ≥ 1 by omega), h.atomicAdd_neg ht hheld hmms] at hnext
  cases hnext
  refine .inr ⟨rfl, mms, _, hmms, ?_, ?_, rfl⟩ <;> rfl

theorem Inv.decUser (hin : i = 1 → ∀ j, t.MayBeIn j → j = 1) {delay : ℤ}
    (hstep : s.decUser n i r id delay jiffies = some s') : s'.Inv := by
  obtain ⟨⟨s₁, ret⟩, hdec, hnext⟩ := bind_eq_some_iff.1 hstep
  rcases h.decUserIn1 ht hheld hdec with ⟨hret, hid, rfl⟩ | ⟨rfl, mms, mms', hmms, hman, hcnt, rfl⟩
  · -- the first manager does not have it, so the second does
    obtain ⟨j, hj, hjin⟩ := h.held (mem_of_getElem? ht) ⟨r, hheld⟩
    have hij : i = 0 := by
      by_contra hi
      have hi : i = 1 := by omega
      exact hid (by rw [hi, ← hin hi j hjin]; exact hj)
    dsimp only at hnext
    rw [if_pos ⟨hret, hij⟩] at hnext
    cases hnext
    refine h.goOn ht hheld.symm ?_
    rintro k ⟨r', hold⟩
    cases hold
    refine ⟨j, hj, ?_⟩
    have hne : j ≠ i := fun hji => hid (hji ▸ hj)
    change j = 1
    omega
  · cases hnext
    exact h.release ht hmms hman hheld rfl hcnt

end

theorem Inv.alloc (ht : s.threads[n]? = some .idle) {max num : ℤ}
    (hstep : s.alloc n i max num = some s') : s'.Inv := by
  obtain ⟨⟨s₁, found⟩, hfind, hnext⟩ := bind_eq_some_iff.1 hstep
  rcases findFree_spec hfind with ⟨rfl, rfl⟩ | ⟨id, hid, mms, rfl, hmms, hzero, rfl⟩
  · cases hnext
    exact h.goOn_none ht rfl rfl
  cases hnext
  refine h.acquire ht hmms rfl rfl (r := .owner) rfl (fun _ => trivial) (mem_reverse.1 hid)
    ?_ ?_ fun _ => hzero
  · rw [hzero]
    rfl
  · rw [hzero]
    decide

theorem Inv.wantPages {num : ℤ} (ht : s.threads[n]? = some (.wantPages id num))
    {pages : List Page} (hstep : s.wantPages n id num pages = some s') : s'.Inv := by
  obtain ⟨mms, hmms, hnext⟩ := bind_eq_some_iff.1 hstep
  obtain ⟨hman, hcnt⟩ := wantPagesIn_same mms num pages
  generalize wantPagesIn mms num pages = w at hnext hman hcnt
  obtain ⟨mms', ok⟩ := w
  cases hnext
  refine h.keep ht hmms hman hcnt ?_ fun i => ?_
  · cases ok <;> rfl
  · cases ok <;> trivial

theorem Inv.allocFailed (ht : s.threads[n]? = some (.allocFailed id))
    (hstep : s.allocFailed n id = some s') : s'.Inv := by
  obtain ⟨mms, hmms, hnext⟩ := bind_eq_some_iff.1 hstep
  cases hnext
  exact h.release ht hmms rfl (r := .owner) rfl rfl (h.atomicAdd_neg ht rfl hmms)

end

/-! ## New scatters -/

@[simp]
theorem mgt_setMgt_self (s : Users) (i : Fin 2) (m : UserMgt) : (s.setMgt i m).mgt i = m :=
  update_self _ _ _

theorem mgt_setMgt_of_ne (s : Users) (m : UserMgt) (h : j ≠ i) : (s.setMgt i m).mgt j = s.mgt j :=
  update_of_ne h _ _

@[simp]
theorem mem_setMem_self (s : Users) (id : ℕ) (o : Option UserScatter) :
    (s.setMem id o).mem id = o := update_self _ _ _

theorem mem_setMem_of_ne (s : Users) (o : Option UserScatter) {k : ℕ} (h : k ≠ id) :
    (s.setMem id o).mem k = s.mem k := update_of_ne h _ _

/-- Memory that is free is of no scatter. -/
theorem Inv.fresh (h : s.Inv) (hid : s.mem id = none) :
    (∀ i, id ∉ (s.mgt i).scatterList) ∧ (∀ i, (s.mgt i).monitor.taken ≠ some id) ∧
      ∀ t ∈ s.threads, ¬ t.Holds id := by
  have hlist : ∀ i, id ∉ (s.mgt i).scatterList := fun i hi => by
    obtain ⟨mms, hmms, -⟩ := h.listed hi
    cases hid.symm.trans hmms
  refine ⟨hlist, fun i hi => ?_, fun t ht hold => ?_⟩
  · obtain ⟨-, mms, hmms, -⟩ := h.taken hi
    cases hid.symm.trans hmms
  · obtain ⟨i, hi, -⟩ := h.held ht hold
    exact hlist i hi

/-- A scatter of the manager, at the end of its list. -/
def addScatter (s : Users) (i : Fin 2) (id : ℕ) (mms : UserScatter) : Users :=
  (s.setMem id (some mms)).setMgt i
    { s.mgt i with
      scatterList := (s.mgt i).scatterList ++ [id]
      scmap := mapAdd id (s.mgt i).scmap }

section AddScatter

variable (s) (i) (id) (mms)

theorem mem_list_addScatter (j : Fin 2) (k : ℕ) : k ∈ ((s.addScatter i id mms).mgt j).scatterList ↔
      k ∈ (s.mgt j).scatterList ∨ (j = i ∧ k = id) := by
  by_cases hj : j = i
  · subst hj
    simp [addScatter]
  · simp [addScatter, mgt_setMgt_of_ne _ _ hj, hj, setMem]

theorem monitor_addScatter (j : Fin 2) :
    ((s.addScatter i id mms).mgt j).monitor = (s.mgt j).monitor := by
  by_cases hj : j = i
  · subst hj
    simp [addScatter]
  · simp [addScatter, mgt_setMgt_of_ne _ _ hj, setMem]

variable {s} {i}

theorem count_map_addScatter (h : none ∈ (s.mgt i).scmap) (j : Fin 2) (k : ℕ) :
    ((s.addScatter i id mms).mgt j).scmap.count (some k) =
      (s.mgt j).scmap.count (some k) + if j = i ∧ k = id then 1 else 0 := by
  by_cases hj : j = i
  · subst hj
    simp [addScatter, count_mapAdd h]
  · simp [addScatter, mgt_setMgt_of_ne _ _ hj, hj, setMem]

end AddScatter

/-- A new scatter, before its owner counts. -/
theorem Inv.addUnused (h : s.Inv) (hfree : s.mem id = none) (hroom : none ∈ (s.mgt i).scmap)
    (hman : mms.manager = i) (hcnt : mms.userCnt = 0) : (s.addScatter i id mms).Inv := by
  -- nobody knows the address of the new scatter
  obtain ⟨hlist, htaken, hnot⟩ := h.fresh hfree
  have hmem {k : ℕ} (hk : k ≠ id) : (s.addScatter i id mms).mem k = s.mem k :=
    mem_setMem_of_ne s _ hk
  have hne {j : Fin 2} {k : ℕ} (hk : k ∈ (s.mgt j).scatterList) : k ≠ id := fun hid =>
    hlist j (hid ▸ hk)
  refine ⟨?_, h.lt, fun j => ?_, ?_, fun j k => ?_, ?_, h.owner, ?_, ?_⟩
  · intro j k hk
    rcases (mem_list_addScatter s i id mms j k).1 hk with hk | ⟨rfl, rfl⟩
    · obtain ⟨mms₁, hmms₁, hrest⟩ := h.listed hk
      exact ⟨mms₁, (hmem (hne hk)).trans hmms₁, hrest⟩
    · exact ⟨mms, mem_setMem_self _ _ _, hman, hcnt.trans (users_eq_zero hnot).symm⟩
  · by_cases hj : j = i
    · subst hj
      simpa [addScatter, nodup_append, hlist j] using ⟨h.nodup j, fun k hk => hne hk⟩
    · have hmgt : (s.addScatter i id mms).mgt j = s.mgt j := mgt_setMgt_of_ne _ _ hj
      rw [hmgt]
      exact h.nodup j
  · intro j k
    rw [← count_pos_iff, count_map_addScatter id mms hroom, mem_list_addScatter,
      monitor_addScatter, or_right_comm, ← h.mapped, ← count_pos_iff]
    split
    · next hnew => simp [hnew]
    · next hold => simp [hold]
  · rw [count_map_addScatter id mms hroom]
    split
    · next hnew =>
      have hmap : some k ∉ (s.mgt j).scmap := fun hk => by
        rw [hnew.2] at hk
        rcases h.mapped.1 hk with hk | hk
        · exact hlist j hk
        · exact htaken j (Monitor.taken_of_reaped hk)
      rw [count_eq_zero.2 hmap]
    · exact h.once j k
  · intro t₁ k ht₁ hold
    obtain ⟨j, hj, hjin⟩ := h.held ht₁ hold
    exact ⟨j, (mem_list_addScatter s i id mms j k).2 (.inl hj), hjin⟩
  · intro j k hk
    rw [monitor_addScatter] at hk
    obtain ⟨hnotin, mms₁, hmms₁, hrest⟩ := h.taken hk
    have hkid : k ≠ id := fun hid => htaken j (hid ▸ hk)
    refine ⟨fun hin => ?_, mms₁, (hmem hkid).trans hmms₁, hrest⟩
    rcases (mem_list_addScatter s i id mms j k).1 hin with hin | ⟨-, hid⟩
    · exact hnotin hin
    · exact hkid hid
  · intro j k hk
    rw [monitor_addScatter] at hk ⊢
    exact (h.less hk).imp_left fun hk => (mem_list_addScatter s i id mms j k).2 (.inl hk)

/-- A new scatter is its owner's. -/
theorem Inv.add (h : s.Inv) (ht : s.threads[n]? = some t) (hnone : t.held = none)
    (hheld : t'.held = some (.owner, id)) (hin : ∀ i, t'.MayBeIn i) (hfree : s.mem id = none)
    (hroom : none ∈ (s.mgt i).scmap) (hman : mms.manager = i) (hcnt : mms.userCnt = 1000) :
    ((s.addScatter i id mms).setThread n t').Inv := by
  let unused : UserScatter := { mms with userCnt := 0 }
  have hunused : (s.addScatter i id unused).Inv := h.addUnused hfree hroom hman rfl
  have hid := (mem_list_addScatter s i id unused i id).2 (.inr ⟨rfl, rfl⟩)
  have hmem : (s.addScatter i id unused).mem id = some unused := mem_setMem_self _ _ _
  have howned : (((s.addScatter i id unused).setMem id (some mms)).setThread n t').Inv :=
    hunused.acquire ht hmem rfl hnone hheld hin hid hcnt (show (0 : ℤ) + 1000 < 2 ^ 31 by decide)
      fun _ => rfl
  simpa [addScatter, setMem, setMgt] using howned

theorem Inv.allocNew (h : s.Inv) {max num : ℤ} (ht : s.threads[n]? = some (.allocNew i max num))
    {addr : Option ℕ} (hfree : ∀ id ∈ addr, s.mem id = none)
    (hroom : ∀ id ∈ addr, none ∈ (s.mgt i).scmap) : (s.allocNew n i max num addr).Inv := by
  rw [Users.allocNew.eq_def]
  split
  · exact h.goOn_none ht rfl rfl
  next id =>
  split
  · exact h.goOn_none ht rfl rfl
  · exact h.add ht rfl rfl (fun _ => trivial) (hfree id rfl) (hroom id rfl) rfl rfl

end Users

end CommonDrivers.Media.CodecMm
