import CommonDrivers.Media.Rdma.Manager

/-!
# What a check of conflicts does

A check finds the entry of an address, or makes one at the place 0 for an item of another channel,
or finds nothing (`checkConflict_cases`). It changes nothing but the table of conflicts.
-/

namespace CommonDrivers.Rdma

open List

namespace Info

variable {P : Setup} {s : Info} {h adr i k : ℕ} {val : Word}

/-! ## Entries -/

theorem findEntry_spec (hk : s.findEntry adr = some k) :
    k < maxConflict ∧ (s.conflict k).1 = adr := by
  have hfound := find?_some hk
  exact ⟨mem_range.1 (mem_of_find?_eq_some hk), of_decide_eq_true hfound⟩

theorem findEntry_eq_none_iff :
    s.findEntry adr = none ↔ ∀ k < maxConflict, (s.conflict k).1 ≠ adr := by
  rw [findEntry, find?_eq_none]
  exact ⟨fun hno k hk heq => hno k (mem_range.2 hk) (decide_eq_true heq),
    fun hno k hk heq => hno k (mem_range.1 hk) (of_decide_eq_true heq)⟩

theorem findPlace_eq (s : Info) (i : ℕ) :
    s.findPlace i = if (s.conflict i).1 = 0 then some 0 else none := by
  rw [findPlace]
  split_ifs with hfree
  · simp [hfree, maxConflict, range_succ_eq_map]
  · simp [hfree]

/-! ## The check -/

/-- The queue of the channel has a write to the address. -/
def Queues (s : Info) (i adr : ℕ) : Prop := ∃ val, (adr, val) ∈ (s.ins i).queue

/-- The check looks at the channel, and can record a conflict with it. -/
def Looks (s : Info) (h i : ℕ) : Prop := (s.ins i).tableSize ≠ 0 ∧ i ≠ h ∧ (s.conflict i).1 = 0

theorem checkItem_cases (s : Info) (i adr : ℕ) (item : ℕ × Word) :
    checkItem i adr item (s, none) = ((s, none), false) ∧ ¬ (item.1 = adr ∧ (s.conflict i).1 = 0) ∨
    ∃ t, (item.1 = adr ∧ (s.conflict i).1 = 0 ∧ t = (s.setConflict 0 (adr, item.2), some item.2)) ∧
      checkItem i adr item (s, none) = (t, true) := by
  rw [checkItem]
  rw [findPlace_eq]
  split_ifs with hne hfree
  · exact .inl ⟨rfl, fun hm => hne hm.1⟩
  · exact .inr ⟨_, ⟨not_not.1 hne, hfree, rfl⟩, rfl⟩
  · exact .inl ⟨rfl, fun hm => hfree hm.2⟩

theorem checkChannel_cases (s : Info) (h adr i : ℕ) :
    checkChannel h adr i (s, none) = ((s, none), false) ∧ (s.Looks h i → ¬ s.Queues i adr) ∨
    ∃ t, (∃ val, s.Looks h i ∧ (adr, val) ∈ (s.ins i).queue ∧
      t = (s.setConflict 0 (adr, val), some val)) ∧ checkChannel h adr i (s, none) = (t, true) := by
  rw [checkChannel]
  split
  · next hskip =>
    refine .inl ⟨rfl, ?_⟩
    rintro ⟨hsize, hne, -⟩ ⟨val, hmem⟩
    rcases hskip with hzero | hnil | heq
    · exact hsize hzero
    · rw [hnil] at hmem
      cases hmem
    · exact hne heq
  · next hlook =>
    obtain ⟨hsize, -, hne⟩ : _ ∧ _ ∧ _ := by simpa only [not_or] using hlook
    rcases loop_cases fun item _ => checkItem_cases s i adr item with
      ⟨hloop, hall⟩ | ⟨item, hmem, t, ⟨rfl, hfree, ht⟩, hloop⟩
    · exact .inl ⟨hloop, fun hl ⟨val, hmem⟩ => hall _ hmem ⟨rfl, hl.2.2⟩⟩
    · exact .inr ⟨t, ⟨item.2, ⟨hsize, hne, hfree⟩, hmem, ht⟩, hloop⟩

/-- The three ways a check ends. -/
theorem checkConflict_cases (P : Setup) (s : Info) (h adr : ℕ) :
    (∃ k, s.findEntry adr = some k ∧ s.checkConflict P h adr = (s, some (s.conflict k).2)) ∨
    (s.findEntry adr = none ∧ s.checkConflict P h adr = (s, none) ∧
      ∀ i < P.channelNum, s.Looks h i → ¬ s.Queues i adr) ∨
    (s.findEntry adr = none ∧ ∃ i < P.channelNum, ∃ val, s.Looks h i ∧
      (adr, val) ∈ (s.ins i).queue ∧
      s.checkConflict P h adr = (s.setConflict 0 (adr, val), some val)) := by
  rw [checkConflict]
  cases hfind : s.findEntry adr with
  | some k => exact .inl ⟨k, rfl, rfl⟩
  | none =>
    rcases loop_cases fun i (_ : i ∈ range P.channelNum) => checkChannel_cases s h adr i with
      ⟨hloop, hall⟩ | ⟨i, hi, t, ⟨val, hlooks, hmem, rfl⟩, hloop⟩
    · refine .inr (.inl ⟨rfl, congrArg Prod.fst hloop, fun i hi => hall i ?_⟩)
      exact mem_range.2 hi
    · exact .inr (.inr ⟨rfl, i, mem_range.1 hi, val, hlooks, hmem,
        congrArg Prod.fst hloop⟩)

/-! ## What is left alone -/

/-- All but the table of conflicts is the same. -/
structure SameBut (s s' : Info) : Prop where
  ins : s'.ins = s.ins
  hw : s'.hw = s.hw
  lowlatency : s'.lowlatency = s.lowlatency
  detectCnt : s'.detectCnt = s.detectCnt

theorem checkConflict_same (P : Setup) (s : Info) (h adr : ℕ) :
    SameBut s (s.checkConflict P h adr).1 := by
  rcases checkConflict_cases P s h adr with ⟨k, -, heq⟩ | ⟨-, heq, -⟩ | ⟨-, i, -, val, -, -, heq⟩
  · rw [heq]
    exact ⟨rfl, rfl, rfl, rfl⟩
  · rw [heq]
    exact ⟨rfl, rfl, rfl, rfl⟩
  · rw [heq]
    exact ⟨rfl, rfl, rfl, rfl⟩

theorem updateConflict_same (s : Info) (adr : ℕ) (val : Word) :
    SameBut s (s.updateConflict adr val) := by
  rw [updateConflict]
  split <;> exact ⟨rfl, rfl, rfl, rfl⟩

/-- The state after the check and the update of a write. -/
theorem updateIf_same (P : Setup) (s : Info) (h adr : ℕ) (val : Word) :
    SameBut s (updateIf (s.checkConflict P h adr) adr val) := by
  have hcheck := checkConflict_same P s h adr
  rw [updateIf]
  split
  · have hupdate := updateConflict_same (s.checkConflict P h adr).1 adr val
    exact ⟨hupdate.ins.trans hcheck.ins, hupdate.hw.trans hcheck.hw,
      hupdate.lowlatency.trans hcheck.lowlatency, hupdate.detectCnt.trans hcheck.detectCnt⟩
  · exact hcheck

end Info

end CommonDrivers.Rdma
