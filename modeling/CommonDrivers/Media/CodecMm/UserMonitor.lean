import CommonDrivers.Media.CodecMm.UserCount

/-!
# The monitor frees no scatter that is used

The steps of the monitor of a manager keep `Users.Inv`: the scatter it takes from the list
has a counter of 0, and one of -100000 from then on, so that no keeper gets it, until it is
off the map and freed.
-/

namespace CommonDrivers.Media.CodecMm.Users

open List Function Option

variable {s s' : Users} {i : Fin 2} {id jiffies : ℕ} {mms mms' : UserScatter} {less : Option ℕ}

/-- The monitor of a manager changes what is the manager's: it takes scatters without users
    from its list. -/
theorem Inv.change (h : s.Inv) {m : UserMgt} (hthreads : s'.threads = s.threads)
    (hmgt : s'.mgt = update s.mgt i m)
    (hmem : ∀ {k mms}, s.mem k = some mms → k ∈ m.scatterList ∨ mms.manager ≠ i →
      ∃ mms', s'.mem k = some mms' ∧ mms'.manager = mms.manager ∧ mms'.userCnt = mms.userCnt)
    (hlist : m.scatterList.Sublist (s.mgt i).scatterList)
    (husers : ∀ k ∈ (s.mgt i).scatterList, k ∉ m.scatterList → s.users k = 0)
    (hmapped : ∀ {k}, some k ∈ m.scmap ↔ k ∈ m.scatterList ∨ m.monitor.reaped = some k)
    (honce : ∀ k, m.scmap.count (some k) ≤ 1)
    (htaken : ∀ {k}, m.monitor.taken = some k → k ∉ m.scatterList ∧
      ∃ mms, s'.mem k = some mms ∧ mms.manager = i ∧ mms.userCnt < 0)
    (hless : ∀ {k}, m.monitor.less = some k → k ∈ m.scatterList ∨ m.monitor.toFree = some k) :
    s'.Inv := by
  obtain rfl : s'.mgt i = m := hmgt ▸ update_self ..
  replace hmgt : ∀ j ≠ i, s'.mgt j = s.mgt j := fun j hj => hmgt ▸ update_of_ne hj ..
  have hsame (k : ℕ) : s'.users k = s.users k := by rw [users, hthreads, users]
  have hold {j : Fin 2} {k : ℕ} (hk : k ∈ (s'.mgt j).scatterList) : k ∈ (s.mgt j).scatterList := by
    by_cases hj : j = i
    · subst hj
      exact hlist.subset hk
    · rwa [hmgt j hj] at hk
  refine ⟨?_, fun k => ?_, fun j => ?_, ?_, fun j k => ?_, ?_, hthreads ▸ h.owner, ?_, ?_⟩
  · intro j k hk
    obtain ⟨mms, hmms, hman, hcnt⟩ := h.listed (hold hk)
    have hwhere : k ∈ (s'.mgt i).scatterList ∨ mms.manager ≠ i := by
      by_cases hj : j = i
      · exact .inl (hj ▸ hk)
      · exact .inr (hman ▸ hj)
    obtain ⟨mms', hmms', hman', hcnt'⟩ := hmem hmms hwhere
    exact ⟨mms', hmms', hman'.trans hman, hcnt'.trans (hcnt.trans (hsame k).symm)⟩
  · rw [hsame]
    exact h.lt k
  · by_cases hj : j = i
    · subst hj
      exact hlist.nodup (h.nodup j)
    · rw [hmgt j hj]
      exact h.nodup j
  · intro j k
    by_cases hj : j = i
    · subst hj
      exact hmapped
    · rw [hmgt j hj]
      exact h.mapped
  · by_cases hj : j = i
    · subst hj
      exact honce k
    · rw [hmgt j hj]
      exact h.once j k
  · intro t k ht hk
    rw [hthreads] at ht
    obtain ⟨j, hj, hjin⟩ := h.held ht hk
    refine ⟨j, ?_, hjin⟩
    by_cases hji : j = i
    · -- a scatter that leaves the list has no user, so that no thread holds it
      subst hji
      by_contra hgone
      exact not_holds_of_users (husers k hj hgone) ht hk
    · rwa [hmgt j hji]
  · intro j k hk
    by_cases hj : j = i
    · subst hj
      exact htaken hk
    rw [hmgt j hj] at hk ⊢
    obtain ⟨hnot, mms, hmms, hman, hneg⟩ := h.taken hk
    obtain ⟨mms', hmms', hman', hcnt'⟩ := hmem hmms (.inr (hman ▸ hj))
    exact ⟨hnot, mms', hmms', hman'.trans hman, hcnt' ▸ hneg⟩
  · intro j k hk
    by_cases hj : j = i
    · subst hj
      exact hless hk
    · rw [hmgt j hj] at hk ⊢
      exact h.less hk

/-- The monitor goes on, without a scatter to free. -/
theorem Inv.setMonitor (h : s.Inv) {mon : Monitor} (hreap : (s.mgt i).monitor.reaped = none)
    (htaken : mon.taken = none) (hless : ∀ {k}, mon.less = some k →
      k ∈ (s.mgt i).scatterList ∨ mon.toFree = some k) : (s.setMonitor i mon).Inv := by
  have hreap' : mon.reaped = none := by
    cases hmon : mon.reaped with
    | none => rfl
    | some id => exact absurd (htaken.symm.trans (Monitor.taken_of_reaped hmon)) (by simp)
  refine h.change (m := { s.mgt i with monitor := mon }) rfl rfl
    (fun {k mms} hk _ => ⟨mms, hk, rfl, rfl⟩) (List.Sublist.refl _)
    (fun k hk hnot => absurd hk hnot) ?_ (h.once i) ?_ hless
  · rw [hreap', ← hreap]
    exact h.mapped
  · intro k hk
    cases htaken.symm.trans hk

/-- What the loop of `codec_mm_scatter_scatter_clear` finds is in the list, and has no users
    if it is to be freed. -/
theorem clearLoop_spec {l : List ℕ} {toFree toFree' : Option (ℕ × UserScatter)} {cnt cnt' : ℕ}
    {P : ℕ × UserScatter → Prop} (hfree : ∀ f ∈ toFree, P f)
    (hl : ∀ k ∈ l, ∀ mms, s.mem k = some mms → mms.userCnt = 0 → P (k, mms))
    (h : s.clearLoop l toFree cnt = some (toFree', cnt', less)) :
    (∀ f ∈ toFree', P f) ∧ ∀ k ∈ less, k ∈ l := by
  induction l generalizing toFree cnt with
  | nil =>
    cases h
    exact ⟨hfree, fun k hk => nomatch hk⟩
  | cons id l ih =>
    obtain ⟨mms, hmms, hnext⟩ := bind_eq_some_iff.1 h
    dsimp only at hnext
    generalize hpick : (if mms.userCnt = 0 then
      (if ∀ f ∈ toFree, mms.tofreeJiffies < f.2.tofreeJiffies then some (id, mms) else toFree,
        cnt + 1) else (toFree, cnt)) = pick at hnext
    obtain ⟨toFree₁, cnt₁⟩ := pick
    have hfree₁ : ∀ f ∈ toFree₁, P f := by
      intro f hf
      split at hpick
      · next hzero =>
        split at hpick
        · cases hpick
          cases hf
          exact hl id mem_cons_self mms hmms hzero
        · cases hpick
          exact hfree f hf
      · cases hpick
        exact hfree f hf
    split at hnext
    · cases hnext
      refine ⟨hfree₁, fun k hk => ?_⟩
      cases hk
      exact mem_cons_self
    · obtain ⟨hP, hless⟩ := ih hfree₁ (fun k hk => hl k (mem_cons_of_mem _ hk)) hnext
      exact ⟨hP, fun k hk => mem_cons_of_mem _ (hless k hk)⟩

/-- The monitor takes a scatter without users from the list. -/
theorem Inv.reap (h : s.Inv) (hmon : (s.mgt i).monitor = .idle) (hid : id ∈ (s.mgt i).scatterList)
    (hmms : s.mem id = some mms) (hzero : mms.userCnt = 0) (hman : mms'.manager = mms.manager)
    (hneg : mms'.userCnt < 0) (hless : ∀ k ∈ less, k ∈ (s.mgt i).scatterList) :
    ((s.setMem id (some mms')).setMgt i
      { s.mgt i with
        scatterList := (s.mgt i).scatterList.erase id
        monitor := .reap id less }).Inv := by
  obtain ⟨mms₁, hmms₁, hman₁, hcnt₁⟩ := h.listed hid
  cases hmms.symm.trans hmms₁
  have hnot : id ∉ (s.mgt i).scatterList.erase id := (h.nodup i).not_mem_erase
  have herase {k : ℕ} (hk : k ≠ id) :
      k ∈ (s.mgt i).scatterList.erase id ↔ k ∈ (s.mgt i).scatterList := mem_erase_of_ne hk
  refine h.change rfl rfl ?_ erase_sublist ?_ ?_ (h.once i) ?_ ?_
  · intro k mms₁ hk hwhere
    have hkid : k ≠ id := by
      rintro rfl
      cases hmms.symm.trans hk
      exact hwhere.elim hnot fun hne => hne hman₁
    exact ⟨mms₁, (mem_setMem_of_ne s _ hkid).trans hk, rfl, rfl⟩
  · intro k hk hgone
    have hkid : k = id := by
      by_contra hne
      exact hgone ((herase hne).2 hk)
    rw [hkid, ← hcnt₁]
    exact hzero
  · intro k
    rw [h.mapped, hmon]
    by_cases hk : k = id
    · subst hk
      simp [hid, Monitor.reaped]
    · simp [herase hk, Monitor.reaped, Ne.symm hk]
  · intro k hk
    cases hk
    exact ⟨hnot, mms', mem_setMem_self _ _ _, hman.trans hman₁, hneg⟩
  · intro k hk
    by_cases hkid : k = id
    · exact .inr (congrArg some hkid.symm)
    · exact .inl ((herase hkid).2 (hless k hk))

theorem Inv.clear (h : s.Inv) (hmon : (s.mgt i).monitor = .idle) {force delayFreeOn : Bool}
    (hstep : s.clear i force delayFreeOn jiffies = some s') : s'.Inv := by
  obtain ⟨⟨toFree, cnt, less⟩, hloop, hnext⟩ := bind_eq_some_iff.1 hstep
  obtain ⟨hfree, hless⟩ := clearLoop_spec
    (P := fun f => f.1 ∈ (s.mgt i).scatterList ∧ s.mem f.1 = some f.2 ∧ f.2.userCnt = 0)
    (by simp) (fun k hk mms hmms hzero => ⟨hk, hmms, hzero⟩) hloop
  have hidle : (s.setMonitor i (.unused none less)).Inv :=
    h.setMonitor (by rw [hmon]; rfl) rfl fun hk => .inl (hless _ hk)
  dsimp only at hnext
  split at hnext
  · cases hnext
    exact hidle
  next id mms =>
  obtain ⟨hid, hmms, hzero⟩ := hfree (id, mms) rfl
  have hsub : atomicAdd (-100000) mms.userCnt = -100000 := by
    rw [hzero]
    decide
  rw [hsub] at hnext
  split at hnext
  · cases hnext
    refine h.reap hmon hid hmms hzero ?_ ?_ hless
    · rfl
    · exact (by decide : (-100000 : ℤ) < 0)
  · cases hnext
    exact hidle

theorem Inv.freeOnNouser (h : s.Inv) (hmon : (s.mgt i).monitor = .reap id less)
    (hstep : s.freeOnNouser i id less = some s') : s'.Inv := by
  obtain ⟨mms, hmms, hnext⟩ := bind_eq_some_iff.1 hstep
  have htaken : (s.mgt i).monitor.taken = some id := by rw [hmon]; rfl
  obtain ⟨hnot, mms₁, hmms₁, hman, hneg⟩ := h.taken htaken
  cases hmms.symm.trans hmms₁
  rw [if_neg (by omega), erase_of_not_mem hnot] at hnext
  cases hnext
  have hcount (k : ℕ) : (mapDel id (s.mgt i).scmap).count (some k) =
      (s.mgt i).scmap.count (some k) - if k = id then 1 else 0 := count_mapDel _ _ _
  refine h.change rfl rfl (fun {k mms} hk _ => ⟨mms, hk, rfl, rfl⟩) (List.Sublist.refl _)
    (fun k hk hgone => absurd hk hgone) ?_ (fun k => ?_) ?_ ?_
  · intro k
    have hmapped : some k ∈ (s.mgt i).scmap ↔ _ := h.mapped
    have honce := h.once i k
    rw [← count_pos_iff, hmon] at hmapped
    rw [← count_pos_iff]
    rw [hcount]
    by_cases hk : k = id
    · subst hk
      simp [Monitor.reaped, hnot]
      omega
    · simpa [Monitor.reaped, hk, Ne.symm hk] using hmapped
  · rw [hcount]
    exact (Nat.sub_le _ _).trans (h.once i k)
  · intro k hk
    cases hk
    exact ⟨hnot, mms, hmms, hman, hneg⟩
  · intro k hk
    have hless : (s.mgt i).monitor.less = some k → _ := h.less
    rw [hmon] at hless
    exact hless hk

theorem Inv.free (h : s.Inv) (hmon : (s.mgt i).monitor = .free id less)
    (hstep : s.free i id less = some s') : s'.Inv := by
  obtain ⟨mms, hmms, hnext⟩ := bind_eq_some_iff.1 hstep
  have htaken : (s.mgt i).monitor.taken = some id := by rw [hmon]; rfl
  obtain ⟨hnot, mms₁, hmms₁, hman, hneg⟩ := h.taken htaken
  cases hmms.symm.trans hmms₁
  cases hnext
  refine h.change rfl rfl ?_ (List.Sublist.refl _) (fun k hk hgone => absurd hk hgone) ?_
    (h.once i) nofun ?_
  · intro k mms₁ hk hwhere
    have hkid : k ≠ id := by
      rintro rfl
      cases hmms.symm.trans hk
      exact hwhere.elim hnot fun hne => hne hman
    exact ⟨mms₁, (mem_setMem_of_ne s _ hkid).trans hk, rfl, rfl⟩
  · intro k
    have hmapped : some k ∈ (s.mgt i).scmap ↔ _ := h.mapped
    rwa [hmon] at hmapped
  · intro k hk
    have hless : (s.mgt i).monitor.less = some k → _ := h.less
    rw [hmon] at hless
    exact hless hk

theorem freeUnusedPages_same (mms : UserScatter) : (freeUnusedPages mms).manager = mms.manager ∧
    (freeUnusedPages mms).userCnt = mms.userCnt := by
  rw [freeUnusedPages]
  split <;> exact ⟨rfl, rfl⟩

theorem Inv.freeUnused (h : s.Inv) {toFree less : Option ℕ}
    (hmon : (s.mgt i).monitor = .unused toFree less)
    (hstep : s.freeUnused i toFree less = some s') : s'.Inv := by
  have hreap : (s.mgt i).monitor.reaped = none := by rw [hmon]; rfl
  rw [Users.freeUnused.eq_def] at hstep
  split at hstep
  · cases hstep
    exact h.setMonitor hreap rfl nofun
  next id =>
  split at hstep
  · cases hstep
    exact h.setMonitor hreap rfl nofun
  obtain ⟨mms, hmms, hnext⟩ := bind_eq_some_iff.1 hstep
  cases hnext
  obtain ⟨hman, hcnt⟩ := freeUnusedPages_same mms
  have hset : (s.setMem id (some (freeUnusedPages mms))).Inv := by
    refine h.of_counts rfl ?_ h.lt h.held h.owner
    intro k mms₁ hk
    have hzero : (s.setMem id (some (freeUnusedPages mms))).users k - s.users k = 0 := sub_self _
    rw [hzero, add_zero]
    by_cases hkid : k = id
    · subst hkid
      cases hmms.symm.trans hk
      exact ⟨_, mem_setMem_self _ _ _, hman, hcnt⟩
    · exact ⟨mms₁, (mem_setMem_of_ne s _ hkid).trans hk, rfl, rfl⟩
  exact hset.setMonitor hreap rfl nofun

end CommonDrivers.Media.CodecMm.Users
