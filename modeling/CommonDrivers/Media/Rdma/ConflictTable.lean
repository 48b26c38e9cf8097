import CommonDrivers.Media.Rdma.Shadow

/-!
# The table of conflicts

Where a second channel writes to a register that another one has queued, the register gets an entry
in the table of conflicts, with the value that was written last. `ConflictOk` is what the table is
for; `conflicts` has it for the runs whose steps are `ConflictFits`, with what a read gives then.

As the place for an entry is looked for at the number of the channel, and taken at 0, only the
place 0 is ever used. The steps that fit leave out

* a conflict while another register has the entry, as the entry is overwritten;
* bits that are put into an older value: a check takes the oldest item of another queue, and a
  mirror may be older than what another channel has written;
* a read of a register that only other channels have queued, as their queues are not looked at;
* a read of a register with an entry, or that nobody has queued, if it is in the mirror of the
  channel, as the mirror comes first;
* a done interrupt that finds the value in the register while it is still queued;
* a table with an older value that runs last, and a queue that goes without a table, as the entry
  then stays.
-/

namespace CommonDrivers.Rdma

open Function Option

namespace Info

variable {P : Setup} {s s' : Info} {h adr : ℕ} {val : Word} {latest : ℕ → Option Word} {trigger : ℕ}

/-! ## Runs of the channels -/

/-- What a register is to have: the value that was written last, on any channel. -/
def newest (s : Info) (latest : ℕ → Option Word) (adr : ℕ) : Word := (latest adr).getD (s.hw adr)

/-- The write that a step is to make: bits replace those of the newest value. -/
def written (P : Setup) (s : Info) (latest : ℕ → Option Word) : Op → Option (ℕ × Word)
  | .write h adr val => if (s.ins h).tableSize = 0 then none else some (adr, val)
  | .writeBits h adr val start len =>
    if (s.ins h).tableSize = 0 then none
    else some (adr, replaceBits (s.newest latest adr) val start len)
  | .config h trigger omitLock =>
    if s.HandsOver P h trigger omitLock ∧ (s.ins h).tableSize ≠ 0 then
      (detects P h).map fun reg => (reg, s.detectCnt + 1)
    else none
  | _ => none

/-- The value that was written last to each address, on any channel. -/
def latestStep (P : Setup) (s : Info) (latest : ℕ → Option Word) (op : Op) : ℕ → Option Word :=
  match s.written P latest op with
  | some (adr, val) => update latest adr (some val)
  | none => latest

/-- The address that has the entry. -/
def entryAdr (s : Info) : ℕ := (s.conflict 0).1

/-- The table that the hardware is to run has a write to the address. -/
def Hands (s : Info) (i adr : ℕ) : Prop := lastWrite (s.ins i).pending adr ≠ none

/-- A write fits: a conflict finds a free table, and a queue without room has no address with an
    entry, but for this one. -/
def WriteFits (P : Setup) (s : Info) (h adr : ℕ) : Prop := h < P.channelNum ∧ adr ≠ 0 ∧
    (s.entryAdr = adr ∨ s.entryAdr = 0 ∨ ∀ i ≠ h, lastWrite (s.ins i).queue adr = none) ∧
    (Room (s.ins h) ∨ s.entryAdr = adr ∨ s.entryAdr = 0 ∨
      lastWrite (s.ins h).queue s.entryAdr = none)

/-- A read fits: the register is queued on its own channel, or has an entry, or is not queued. -/
def ReadFits (P : Setup) (s : Info) (h adr : ℕ) : Prop :=
  adr ≠ 0 ∧ ((s.entryAdr ≠ adr ∧ lastWrite (s.ins h).queue adr ≠ none) ∨
    ((s.entryAdr = adr ∨ ∀ i, lastWrite (s.ins i).queue adr = none) ∧
      lastWrite (s.ins h).mirror adr = none ∧ s.lowlatencyVal P h adr = none))

/-- The bits of a register are put into its newest value: it has the entry, or all that the other
    channels have queued of it is the newest value, and is found before anything older. -/
def BitsFits (P : Setup) (s : Info) (latest : ℕ → Option Word) (h adr : ℕ) : Prop :=
  (s.entryAdr ≠ adr → ∀ i ≠ h, ∀ v, (adr, v) ∈ (s.ins i).queue → latest adr = some v) ∧
    (lastWrite (s.ins h).queue adr ≠ none ∨
      s.lowlatencyVal P h adr = none ∧ (s.entryAdr = adr ∨ (∃ i ≠ h, s.Queues i adr) ∨
        lastWrite (s.ins h).mirror adr = none ∧ s.hw adr = s.newest latest adr))

/-- The steps that the table of conflicts is kept by. -/
def ConflictFits (P : Setup) (s : Info) (latest : ℕ → Option Word) : Op → Prop
  | .write h adr _ => s.WriteFits P h adr
  | .writeBits h adr val start len =>
    s.WriteFits P h adr ∧ s.BitsFits P latest h adr ∧ start + len ≤ 32 ∧ val.toNat < 2 ^ len
  | .read h adr => s.ReadFits P h adr
  | .config h trigger omitLock =>
    (s.ins h).pending = [] ∧ (∀ reg ∈ detects P h, s.WriteFits P h reg) ∧
      (s.HandsOver P h trigger omitLock → Triggers P trigger) ∧
      (s.Configures P h → trigger = 0 → (s.ins h).queue = [] ∨ (!omitLock && (s.ins h).lockFlag))
  | .fire h => ∀ val, lastWrite (s.ins h).pending s.entryAdr = some val → s.entryAdr ≠ 0 →
      val = (s.conflict 0).2 ∨ (∃ i, lastWrite (s.ins i).queue s.entryAdr ≠ none) ∨
        ∃ i ≠ h, s.Hands i s.entryAdr
  | .isr => s.entryAdr ≠ 0 → s.hw s.entryAdr = (s.conflict 0).2 →
      ∀ i, lastWrite (s.ins i).queue s.entryAdr = none
  | .markLowlatency _ => True

/-- The states that a run reaches, and what was written last. -/
inductive ConflictRun (P : Setup) : Info → (ℕ → Option Word) → Prop
  | start {s : Info} : Fresh s → ConflictRun P s fun _ => none
  | step {s s' : Info} {latest : ℕ → Option Word} {op : Op} : ConflictRun P s latest →
      s.ConflictFits P latest op → s.step P op = some s' →
      ConflictRun P s' (s.latestStep P latest op)

/-! ## The invariant -/

structure ConflictInv (P : Setup) (s : Info) (latest : ℕ → Option Word) : Prop where
  /-- Only the place 0 is used. -/
  places : ∀ k ≠ 0, (s.conflict k).1 = 0
  entry : s.entryAdr ≠ 0 → latest s.entryAdr = some (s.conflict 0).2
  /-- A queue belongs to a channel that a check looks at. -/
  channel : ∀ i, (s.ins i).queue ≠ [] → i < P.channelNum ∧ (s.ins i).tableSize ≠ 0
  /-- What is queued last without an entry was written last. -/
  queued : ∀ i adr val, adr ≠ 0 → lastWrite (s.ins i).queue adr = some val → s.entryAdr ≠ adr →
    latest adr = some val
  /-- An entry is still queued, or to run, or in its register with an interrupt to come. -/
  waits : s.entryAdr ≠ 0 → (∃ i, lastWrite (s.ins i).queue s.entryAdr ≠ none) ∨
    (∃ i, s.Hands i s.entryAdr) ∨
      ((∃ i, (s.ins i).done = true) ∧ s.hw s.entryAdr = (s.conflict 0).2)

theorem Fresh.conflictInv (hs : Fresh s) : ConflictInv P s fun _ => none where
  places k _ := hs.conflict k
  entry hne := absurd (hs.conflict 0) hne
  channel i hne := absurd (hs.queue i) hne
  queued i adr val _ hlast _ := by
    rw [hs.queue i] at hlast
    cases hlast
  waits hne := absurd (hs.conflict 0) hne

theorem queues_iff {i : ℕ} : s.Queues i adr ↔ lastWrite (s.ins i).queue adr ≠ none := by
  rw [Ne, lastWrite_eq_none_iff, not_forall_not]
  rfl

/-! ## What a write does -/

theorem findEntry_of_zero (hadr : (s.conflict 0).1 = adr) : s.findEntry adr = some 0 := by
  simp [findEntry, maxConflict, List.range_succ_eq_map, hadr]

/-- What the check and the update of a write do: the address has the entry then, or no channel that
    the check can record a conflict with has it queued. -/
structure Checked (P : Setup) (s s' : Info) (h adr : ℕ) (val : Word) : Prop where
  places : ∀ k ≠ 0, s'.conflict k = s.conflict k
  entry : (s'.conflict 0 = (adr, val) ∧
      (s.entryAdr = adr ∨ ∃ i < P.channelNum, s.Looks h i ∧ s.Queues i adr)) ∨
    (s'.conflict 0 = s.conflict 0 ∧ s.entryAdr ≠ adr ∧
      ∀ i < P.channelNum, s.Looks h i → ¬ s.Queues i adr)

theorem checked_updateIf (hplaces : ∀ k ≠ 0, (s.conflict k).1 = 0) (hadr : adr ≠ 0) (P : Setup)
    (h : ℕ) (val : Word) : Checked P s (updateIf (s.checkConflict P h adr) adr val) h adr val := by
  rcases checkConflict_cases P s h adr with
    ⟨k, hk, heq⟩ | ⟨hnone, heq, hno⟩ | ⟨hnone, i, hi, v, hlooks, hmem, heq⟩
  · -- the entry is there
    obtain rfl : k = 0 := by
      by_contra hne
      exact hadr ((findEntry_spec hk).2.symm.trans (hplaces k hne))
    have hentry : s.entryAdr = adr := (findEntry_spec hk).2
    have hset : updateIf (s.checkConflict P h adr) adr val = s.setConflict 0 (adr, val) := by
      rw [heq]
      change s.updateConflict adr val = _
      rw [updateConflict, hk]
      exact congrArg (fun a => s.setConflict 0 (a, val)) hentry
    rw [hset]
    exact ⟨fun k hk => conflict_setConflict_of_ne s _ hk,
      .inl ⟨conflict_setConflict .., .inl hentry⟩⟩
  · rw [heq, updateIf]
    exact ⟨fun k _ => rfl, .inr ⟨rfl, findEntry_eq_none_iff.1 hnone 0 (by decide), hno⟩⟩
  · -- the entry is made, and gets the value
    have hzero : ((s.setConflict 0 (adr, v)).conflict 0).1 = adr := by rw [conflict_setConflict]
    have hset : updateIf (s.checkConflict P h adr) adr val =
        (s.setConflict 0 (adr, v)).setConflict 0 (adr, val) := by
      rw [heq]
      change (s.setConflict 0 (adr, v)).updateConflict adr val = _
      rw [updateConflict, findEntry_of_zero hzero]
      exact congrArg (fun a => (s.setConflict 0 (adr, v)).setConflict 0 (a, val)) hzero
    rw [hset]
    refine ⟨fun k hk => ?_, .inl ⟨conflict_setConflict .., .inr ⟨i, hi, hlooks, v, hmem⟩⟩⟩
    rw [conflict_setConflict_of_ne _ _ hk, conflict_setConflict_of_ne _ _ hk]

/-- A second check and update of the same write changes nothing. -/
theorem Checked.twice {u : Info} (hs : Checked P s u h adr val) (hins : u.ins = s.ins)
    (hs' : Checked P u s' h adr val) : Checked P s s' h adr val := by
  refine ⟨fun k hk => (hs'.places k hk).trans (hs.places k hk), ?_⟩
  rcases hs.entry with ⟨heq, hwhy⟩ | ⟨heq, hne, hno⟩
  · refine .inl ⟨?_, hwhy⟩
    rcases hs'.entry with ⟨heq', -⟩ | ⟨heq', -⟩
    · exact heq'
    · exact heq'.trans heq
  have hconflict : u.conflict = s.conflict := by
    funext k
    by_cases hk : k = 0
    · rw [hk, heq]
    · exact hs.places k hk
  have hlooks : ∀ i, u.Looks h i ↔ s.Looks h i := fun i => by rw [Looks, Looks, hins, hconflict]
  have hqueues : ∀ i, u.Queues i adr ↔ s.Queues i adr := fun i => by rw [Queues, Queues, hins]
  rcases hs'.entry with ⟨-, hentry | ⟨i, hi, hl, hq⟩⟩ | ⟨heq', -⟩
  · rw [entryAdr, hconflict] at hentry
    exact absurd hentry hne
  · exact absurd ((hqueues i).1 hq) (hno i hi ((hlooks i).1 hl))
  · exact .inr ⟨heq'.trans heq, hne, hno⟩

/-- A write of a channel, as its queue and the registers show it. -/
structure Wrote (s s' : Info) (h adr : ℕ) (val : Word) : Prop where
  other : ∀ i ≠ h, s'.ins i = s.ins i
  pending : (s'.ins h).pending = (s.ins h).pending
  done : (s'.ins h).done = (s.ins h).done
  tableSize : (s'.ins h).tableSize = (s.ins h).tableSize
  last : lastWrite (s'.ins h).queue adr = some val
  /-- The other registers stay, or the queue was written to them. -/
  rest : ∀ a ≠ adr,
    (lastWrite (s'.ins h).queue a = lastWrite (s.ins h).queue a ∧ s'.hw a = s.hw a) ∨
    (¬ Room (s.ins h) ∧ lastWrite (s'.ins h).queue a = none ∧
      s'.hw a = (lastWrite (s.ins h).queue a).getD (s.hw a))

theorem wrote_push (hpush : s.push h adr val = some s') :
    s'.conflict = s.conflict ∧ Wrote s s' h adr val := by
  rw [push] at hpush
  split at hpush
  · cases hpush
    refine ⟨rfl, fun i hi => ins_setIns_of_ne _ _ hi, ?_, ?_, ?_, ?_, fun a ha => .inl ⟨?_, rfl⟩⟩
    · rw [ins_setIns]
    · rw [ins_setIns]
    · rw [ins_setIns]
    · rw [ins_setIns, lastWrite_concat, if_pos rfl]
    · rw [ins_setIns, lastWrite_concat, if_neg (Ne.symm ha)]
  next hfull =>
  split at hpush
  · cases hpush
  cases hpush
  refine ⟨rfl, fun i hi => ins_setIns_of_ne _ _ hi, ?_, ?_, ?_, ?_,
    fun a ha => .inr ⟨hfull, ?_, replay_apply ..⟩⟩
  · rw [ins_setIns]
  · rw [ins_setIns]
  · rw [ins_setIns]
  · rw [ins_setIns]
    simp [lastWrite]
  · rw [ins_setIns]
    simp [lastWrite, Ne.symm ha]

theorem Wrote.of_same {u : Info} (hsame : SameBut s u) (hw : Wrote u s' h adr val) :
    Wrote s s' h adr val := by
  obtain ⟨hother, hpending, hdone, hsize, hlast, hrest⟩ := hw
  rw [hsame.ins] at hother hpending hdone hsize hrest
  rw [hsame.hw] at hrest
  exact ⟨hother, hpending, hdone, hsize, hlast, hrest⟩

theorem wrote_writeReg (hplaces : ∀ k ≠ 0, (s.conflict k).1 = 0) (hadr : adr ≠ 0)
    (hsize : (s.ins h).tableSize ≠ 0) (hstep : s.writeReg P h adr val = some s') :
    Checked P s s' h adr val ∧ Wrote s s' h adr val := by
  rw [writeReg, if_neg hsize] at hstep
  obtain ⟨hconflict, hwrote⟩ := wrote_push hstep
  have hcheck := checked_updateIf hplaces hadr P h val
  refine ⟨⟨?_, ?_⟩, hwrote.of_same (updateIf_same P s h adr val)⟩
  · rw [hconflict]
    exact hcheck.places
  · rw [hconflict]
    exact hcheck.entry

theorem wrote_writeRegBits (hplaces : ∀ k ≠ 0, (s.conflict k).1 = 0) (hadr : adr ≠ 0)
    (hsize : (s.ins h).tableSize ≠ 0) {start len : ℕ}
    (hstep : s.writeRegBits P h adr val start len = some s') :
    Checked P s s' h adr (s.bitsVal P h adr val start len) ∧
      Wrote s s' h adr (s.bitsVal P h adr val start len) := by
  rw [writeRegBits, if_neg hsize] at hstep
  dsimp only at hstep
  generalize s.bitsVal P h adr val start len = v at hstep ⊢
  have hcheck := checked_updateIf hplaces hadr P h v
  have hsame := updateIf_same P s h adr v
  generalize updateIf (s.checkConflict P h adr) adr v = u at hstep hcheck hsame
  split at hstep
  · next i hi =>
    cases hstep
    refine ⟨⟨hcheck.places, hcheck.entry⟩, fun i hi => ?_, ?_, ?_, ?_, ?_,
      fun a ha => .inl ⟨?_, congrFun hsame.hw a⟩⟩
    · rw [ins_setIns_of_ne _ _ hi, hsame.ins]
    · rw [ins_setIns]
    · rw [ins_setIns]
    · rw [ins_setIns]
    · rw [ins_setIns, lastWrite_set hi, if_pos rfl]
    · rw [ins_setIns, lastWrite_set hi, if_neg (Ne.symm ha)]
  · have hplaces' : ∀ k ≠ 0, (u.conflict k).1 = 0 := fun k hk => by
      rw [hcheck.places k hk, hplaces k hk]
    have hsize' : (u.ins h).tableSize ≠ 0 := by rwa [hsame.ins]
    obtain ⟨hcheck', hwrote⟩ := wrote_writeReg hplaces' hadr hsize' hstep
    exact ⟨hcheck.twice hsame.ins hcheck', hwrote.of_same hsame⟩

/-! ## The steps -/

/-- Every channel that has the address queued besides the one that writes is looked at. -/
theorem ConflictInv.looks (hs : ConflictInv P s latest) {i : ℕ} (hfree : s.entryAdr = 0)
    (hi : i ≠ h) (hq : lastWrite (s.ins i).queue adr ≠ none) : i < P.channelNum ∧ s.Looks h i := by
  have hne : (s.ins i).queue ≠ [] := fun hnil => hq (by rw [hnil]; rfl)
  obtain ⟨hlt, hsize⟩ := hs.channel i hne
  refine ⟨hlt, hsize, hi, ?_⟩
  by_cases hzero : i = 0
  · rw [hzero]
    exact hfree
  · exact hs.places i hzero

/-- The entry of another address is not overwritten. -/
theorem Checked.entryAdr_eq (hcheck : Checked P s s' h adr val) (hfits : s.WriteFits P h adr)
    (hne : s.entryAdr ≠ adr) (hused : s.entryAdr ≠ 0) : s'.conflict 0 = s.conflict 0 := by
  rcases hcheck.entry with ⟨-, hentry | ⟨i, -, hlooks, hq⟩⟩ | ⟨heq, -⟩
  · exact absurd hentry hne
  · rcases hfits.2.2.1 with hentry | hzero | hno
    · exact absurd hentry hne
    · exact absurd hzero hused
    · exact absurd (hno i hlooks.2.1) (queues_iff.1 hq)
  · exact heq

/-- An entry is not overwritten. -/
def Kept (s s' : Info) : Prop := s.entryAdr ≠ 0 → s'.entryAdr = s.entryAdr

theorem Kept.of_conflict (h : s'.conflict = s.conflict) : Kept s s' := fun _ =>
  congrArg (fun conflict => (conflict 0).1) h

theorem Checked.keeps (hcheck : Checked P s s' h adr val) (hfits : s.WriteFits P h adr) :
    Kept s s' := by
  intro hused
  by_cases hne : s.entryAdr = adr
  · rcases hcheck.entry with ⟨heq, -⟩ | ⟨heq, -⟩
    · rw [entryAdr, heq, hne]
    · exact congrArg Prod.fst heq
  · exact congrArg Prod.fst (hcheck.entryAdr_eq hfits hne hused)

theorem conflict_clearQueue (P : Setup) (s : Info) (h : ℕ) :
    (s.clearQueue P h).conflict = s.conflict := by
  rw [clearQueue]
  split <;> rfl

theorem conflict_submit (P : Setup) (s : Info) (h trigger : ℕ) :
    (s.submit P h trigger).conflict = s.conflict := by
  rw [submit]
  split
  · rfl
  split <;> rfl

section

variable (hs : ConflictInv P s latest)
include hs

/-- The value that bits are put into is the newest one. -/
theorem ConflictInv.bitsBase_eq (hfits : s.WriteFits P h adr) (hbits : s.BitsFits P latest h adr) :
    s.bitsBase P h adr (s.checkConflict P h adr).2 = s.newest latest adr := by
  obtain ⟨hothers, hown⟩ := hbits
  have hnewest : ∀ v, latest adr = some v → s.newest latest adr = v := fun v hv => by
    rw [newest, hv]
    rfl
  -- what a check has found is taken, unless the low-latency channel has something
  have hfound : ∀ v, latest adr = some v → s.bitsBase P h adr (some v) = s.newest latest adr := by
    intro v hv
    rw [bitsBase, hnewest v hv]
    cases hlast : lastWrite (s.ins h).queue adr with
    | some => rfl
    | none =>
      obtain ⟨hlow, -⟩ := hown.resolve_left fun hne => hne hlast
      simp [hlow]
  rcases checkConflict_cases P s h adr with
    ⟨k, hk, heq⟩ | ⟨hnone, heq, hno⟩ | ⟨hnone, i, -, v, hlooks, hmem, heq⟩
  · -- the entry has the value
    obtain rfl : k = 0 := by
      by_contra hne
      exact hfits.2.1 ((findEntry_spec hk).2.symm.trans (hs.places k hne))
    have hentry : s.entryAdr = adr := (findEntry_spec hk).2
    rw [heq]
    exact hfound _ (hentry ▸ hs.entry (hentry ▸ hfits.2.1))
  · have hentry : s.entryAdr ≠ adr := findEntry_eq_none_iff.1 hnone 0 (by decide)
    have hqueues : ¬ ∃ i ≠ h, s.Queues i adr := by
      rintro ⟨i, hi, hq⟩
      have hlast := queues_iff.1 hq
      obtain hzero | hnever := hfits.2.2.1.resolve_left hentry
      · obtain ⟨hlt, hlooks⟩ := hs.looks hzero hi hlast
        exact hno i hlt hlooks hq
      · exact hlast (hnever i hi)
    rw [heq, bitsBase]
    cases hlast : lastWrite (s.ins h).queue adr with
    | some v => exact (hnewest v (hs.queued h adr v hfits.2.1 hlast hentry)).symm
    | none =>
      obtain ⟨hlow, hrest⟩ := hown.resolve_left fun hne => hne hlast
      obtain ⟨hmirror, hhw⟩ := (hrest.resolve_left hentry).resolve_left hqueues
      simp [hmirror, hlow, hhw]
  · have hentry : s.entryAdr ≠ adr := findEntry_eq_none_iff.1 hnone 0 (by decide)
    rw [heq]
    exact hfound v (hothers hentry i hlooks.2.1 v hmem)

/-- What is queued last without an entry was written last, after a write. -/
theorem ConflictInv.queued_write (hfits : s.WriteFits P h adr) (hcheck : Checked P s s' h adr val)
    (hw : Wrote s s' h adr val) {i a : ℕ} {v : Word} (ha : a ≠ 0)
    (hlast : lastWrite (s'.ins i).queue a = some v) (hne : s'.entryAdr ≠ a) :
    update latest adr (some val) a = some v := by
  by_cases haadr : a = adr
  · subst haadr
    rw [update_self]
    by_cases hi : i = h
    · rw [hi, hw.last] at hlast
      exact hlast
    -- the other channel would have been recorded
    rw [hw.other i hi] at hlast
    have hq : lastWrite (s.ins i).queue a ≠ none := by
      rw [hlast]
      exact nofun
    rcases hcheck.entry with ⟨heq, -⟩ | ⟨heq, hother, hno⟩
    · rw [entryAdr, heq] at hne
      exact absurd rfl hne
    have hzero : s.entryAdr = 0 := by
      rcases hfits.2.2.1 with hentry | hzero | hnone
      · exact absurd hentry hother
      · exact hzero
      · exact absurd (hnone i hi) hq
    obtain ⟨hlt, hlooks⟩ := hs.looks hzero hi hq
    exact absurd (queues_iff.2 hq) (hno i hlt hlooks)
  · rw [update_of_ne haadr]
    have hlast' : lastWrite (s.ins i).queue a = some v := by
      by_cases hi : i = h
      · subst hi
        rcases hw.rest a haadr with ⟨hsame, -⟩ | ⟨-, hnone, -⟩
        · rw [← hsame, hlast]
        · cases hlast.symm.trans hnone
      · rw [← hw.other i hi, hlast]
    refine hs.queued i a v ha hlast' fun hentry => hne ?_
    have hkept := hcheck.entryAdr_eq hfits (hentry ▸ haadr) (hentry ▸ ha)
    rw [entryAdr, hkept]
    exact hentry

/-- An entry of another address still waits for what it has waited for before a write. -/
theorem ConflictInv.waits_write (hfits : s.WriteFits P h adr) (hw : Wrote s s' h adr val)
    (hne : s.entryAdr ≠ adr) (hused : s.entryAdr ≠ 0) :
    (∃ i, lastWrite (s'.ins i).queue s.entryAdr ≠ none) ∨ (∃ i, s'.Hands i s.entryAdr) ∨
      ((∃ i, (s'.ins i).done = true) ∧ s'.hw s.entryAdr = (s.conflict 0).2) := by
  -- a queue that is written to the registers has no address with an entry
  obtain ⟨hlast, hhw⟩ : lastWrite (s'.ins h).queue s.entryAdr =
      lastWrite (s.ins h).queue s.entryAdr ∧ s'.hw s.entryAdr = s.hw s.entryAdr := by
    rcases hw.rest _ hne with hsame | ⟨hfull, hnone, hhw⟩
    · exact hsame
    · have hlast := ((hfits.2.2.2.resolve_left hfull).resolve_left hne).resolve_left hused
      rw [hnone, hhw, hlast]
      exact ⟨rfl, rfl⟩
  rcases hs.waits hused with ⟨i, hq⟩ | ⟨i, hp⟩ | ⟨⟨i, hd⟩, hv⟩
  · refine .inl ⟨i, ?_⟩
    by_cases hi : i = h
    · rw [hi, hlast]
      rwa [hi] at hq
    · rwa [hw.other i hi]
  · refine .inr (.inl ⟨i, ?_⟩)
    rw [Hands]
    by_cases hi : i = h
    · rw [hi, hw.pending, ← hi]
      exact hp
    · rw [hw.other i hi]
      exact hp
  · refine .inr (.inr ⟨⟨i, ?_⟩, by rw [hhw, hv]⟩)
    by_cases hi : i = h
    · rw [hi, hw.done, ← hi, hd]
    · rw [hw.other i hi, hd]

theorem ConflictInv.write (hfits : s.WriteFits P h adr) (hsize : (s.ins h).tableSize ≠ 0)
    (hcheck : Checked P s s' h adr val) (hw : Wrote s s' h adr val) :
    ConflictInv P s' (update latest adr (some val)) where
  places k hk := by rw [hcheck.places k hk, hs.places k hk]
  entry hne := by
    rcases hcheck.entry with ⟨heq, -⟩ | ⟨heq, hother, -⟩
    · rw [entryAdr, heq, update_self]
    have hadr : s'.entryAdr = s.entryAdr := congrArg Prod.fst heq
    rw [hadr] at hne ⊢
    rw [heq, update_of_ne hother]
    exact hs.entry hne
  channel i hne := by
    by_cases hi : i = h
    · rw [hi, hw.tableSize]
      exact ⟨hfits.1, hsize⟩
    · rw [hw.other i hi] at hne ⊢
      exact hs.channel i hne
  queued i a v ha hlast hne := hs.queued_write hfits hcheck hw ha hlast hne
  waits hne := by
    rcases hcheck.entry with ⟨heq, -⟩ | ⟨heq, hother, -⟩
    · refine .inl ⟨h, ?_⟩
      rw [entryAdr, heq, hw.last]
      exact nofun
    have hadr : s'.entryAdr = s.entryAdr := congrArg Prod.fst heq
    rw [hadr] at hne ⊢
    rw [heq]
    exact hs.waits_write hfits hw hother hne

/-- A channel changes but for its writes: a write that it does not queue any more is handed over,
    and what was handed over stays. -/
theorem ConflictInv.of_channel {x : Ins} (hsize : x.tableSize = (s.ins h).tableSize)
    (hqueue : ∀ a v, lastWrite x.queue a = some v → lastWrite (s.ins h).queue a = some v)
    (hhands : ∀ a, lastWrite (s.ins h).queue a ≠ none → lastWrite x.queue a ≠ none ∨
      lastWrite x.pending a ≠ none)
    (hpending : ∀ a, lastWrite (s.ins h).pending a ≠ none → lastWrite x.pending a ≠ none)
    (hdone : x.done = (s.ins h).done) : ConflictInv P (s.setIns h x) latest where
  places := hs.places
  entry := hs.entry
  channel i hne := by
    by_cases hi : i = h
    · subst hi
      rw [ins_setIns] at hne ⊢
      rw [hsize]
      -- what is queued now was queued before
      refine hs.channel i fun hnil => ?_
      obtain ⟨item, l, hcons⟩ := List.exists_cons_of_ne_nil hne
      have hmem : (item.1, item.2) ∈ x.queue := hcons ▸ List.mem_cons_self
      have hlast : lastWrite x.queue item.1 ≠ none := fun hnone =>
        lastWrite_eq_none_iff.1 hnone item.2 hmem
      obtain ⟨v, hv⟩ := ne_none_iff_exists'.1 hlast
      have := hqueue _ _ hv
      rw [hnil] at this
      cases this
    · rw [ins_setIns_of_ne _ _ hi] at hne ⊢
      exact hs.channel i hne
  queued i a v ha hlast hne := by
    refine hs.queued i a v ha ?_ hne
    by_cases hi : i = h
    · subst hi
      rw [ins_setIns] at hlast
      exact hqueue a v hlast
    · rwa [ins_setIns_of_ne _ _ hi] at hlast
  waits hne := by
    -- the value is queued, handed over or written: a queued one may have been handed over
    rcases hs.waits hne with ⟨i, hq⟩ | ⟨i, hp⟩ | ⟨⟨i, hd⟩, hv⟩
    · by_cases hi : i = h
      · subst hi
        rcases hhands _ hq with hq' | hp'
        · exact .inl ⟨i, by rwa [ins_setIns]⟩
        · exact .inr (.inl ⟨i, by rwa [Hands, ins_setIns]⟩)
      · exact .inl ⟨i, by rwa [ins_setIns_of_ne _ _ hi]⟩
    · refine .inr (.inl ⟨i, ?_⟩)
      rw [Hands]
      by_cases hi : i = h
      · subst hi
        rw [ins_setIns]
        exact hpending _ hp
      · rw [ins_setIns_of_ne _ _ hi]
        exact hp
    · refine .inr (.inr ⟨⟨i, ?_⟩, hv⟩)
      by_cases hi : i = h
      · subst hi
        rw [ins_setIns, hdone, hd]
      · rw [ins_setIns_of_ne _ _ hi, hd]

omit hs in
theorem lastWrite_nil (a : ℕ) : lastWrite ([] : List (ℕ × Word)) a = none := rfl

theorem ConflictInv.clearQueue
    (hhands : ∀ a, lastWrite (s.ins h).queue a ≠ none → lastWrite (s.ins h).pending a ≠ none) :
    ConflictInv P (s.clearQueue P h) latest := by
  rw [Info.clearQueue]
  split
  · exact hs
  · exact hs.of_channel rfl (fun a v hlast => by cases hlast) (fun a ha => .inr (hhands a ha))
      (fun _ ha => ha) rfl

theorem ConflictInv.submit (hpending : (s.ins h).pending = []) (htrigger : Triggers P trigger) :
    ConflictInv P ((s.submit P h trigger).clearQueue P h) latest := by
  rw [Info.submit, if_pos htrigger]
  refine ConflictInv.clearQueue (hs.of_channel rfl (fun _ _ hlast => hlast)
    (fun _ ha => .inl ha) (fun a ha => ?_) rfl) fun a ha => ?_
  · rw [hpending, lastWrite_nil] at ha
    exact absurd rfl ha
  · rw [ins_setIns] at ha ⊢
    exact ha

theorem ConflictInv.writeDetect (hsize : (s.ins h).tableSize ≠ 0)
    (hfits : ∀ reg ∈ detects P h, s.WriteFits P h reg) (hstep : s.writeDetect P h = some s') :
    (s'.ins h).pending = (s.ins h).pending ∧ Kept s s' ∧ ConflictInv P s' (match (detects P h).map
        fun reg => (reg, s.detectCnt + 1) with
      | some (adr, val) => update latest adr (some val)
      | none => latest) := by
  rw [Info.writeDetect] at hstep
  cases hdetect : detects P h with
  | none =>
    rw [hdetect] at hstep
    cases hstep
    exact ⟨rfl, .of_conflict rfl, hs⟩
  | some reg =>
    rw [hdetect] at hstep
    have hreg := hfits reg hdetect
    have hs' : ConflictInv P { s with detectCnt := s.detectCnt + 1 } latest :=
      { hs with }
    obtain ⟨hcheck, hw⟩ := wrote_writeReg hs'.places hreg.2.1 hsize hstep
    exact ⟨hw.pending, hcheck.keeps hreg, hs'.write hreg hsize hcheck hw⟩

theorem ConflictInv.config {omitLock : Bool}
    (hfits : s.ConflictFits P latest (.config h trigger omitLock))
    (hstep : s.config P h trigger omitLock = some s') :
    Kept s s' ∧ ConflictInv P s' (s.latestStep P latest (.config h trigger omitLock)) := by
  obtain ⟨hpending, hdetect, htrigger, hstop⟩ := hfits
  rw [latestStep, written]
  rcases config_cases hstop with ⟨hno, hstay⟩ | ⟨hover, heq⟩
  · rw [if_neg fun hover => hno hover.1]
    have hs' : ConflictInv P (s.setIns h { s.ins h with mirror := [], pending := [] }) latest := by
      refine hs.of_channel rfl (fun _ _ hlast => hlast) (fun _ ha => .inl ha) (fun a ha => ?_) rfl
      rw [hpending, lastWrite_nil] at ha
      exact absurd rfl ha
    rcases hstay with heq | heq | ⟨hnil, heq⟩
    · exact some.inj (heq.symm.trans hstep) ▸ ⟨.of_conflict rfl, hs⟩
    · exact some.inj (heq.symm.trans hstep) ▸ ⟨.of_conflict rfl, hs'⟩
    cases heq.symm.trans hstep
    refine ⟨.of_conflict (conflict_clearQueue ..), hs'.clearQueue fun a ha => ?_⟩
    rw [ins_setIns] at ha
    rw [hnil, lastWrite_nil] at ha
    exact absurd rfl ha
  · have hsize := (hs.channel h hover.2.1).2
    rw [if_pos ⟨hover, hsize⟩]
    obtain ⟨u, hu, rfl⟩ := map_eq_some_iff.1 (heq.symm.trans hstep)
    obtain ⟨hsame, hkept, hs'⟩ := hs.writeDetect hsize hdetect hu
    refine ⟨fun hused => ?_, hs'.submit (hsame.trans hpending) (htrigger hover)⟩
    rw [entryAdr, conflict_clearQueue, conflict_submit]
    exact hkept hused

omit hs in
theorem fire_spec (hstep : s.fire h = some s') :
    s'.conflict = s.conflict ∧ s'.hw = replay s.hw (s.ins h).pending ∧
      (∀ i ≠ h, s'.ins i = s.ins i) ∧ s'.ins h = { s.ins h with pending := [], done := true } := by
  rw [Info.fire] at hstep
  split at hstep
  · cases hstep
  · cases hstep
    exact ⟨rfl, rfl, fun i hi => ins_setIns_of_ne _ _ hi, ins_setIns ..⟩

theorem ConflictInv.fire (hfits : s.ConflictFits P latest (.fire h)) (hstep : s.fire h = some s') :
    ConflictInv P s' latest := by
  obtain ⟨hconflict, hhw, hother, hself⟩ := fire_spec hstep
  have hqueue : ∀ i, (s'.ins i).queue = (s.ins i).queue ∧
      (s'.ins i).tableSize = (s.ins i).tableSize := fun i => by
    by_cases hi : i = h
    · rw [hi, hself]
      exact ⟨rfl, rfl⟩
    · rw [hother i hi]
      exact ⟨rfl, rfl⟩
  have hadr : s'.entryAdr = s.entryAdr := by rw [entryAdr, hconflict, entryAdr]
  refine ⟨?_, ?_, fun i hne => ?_, fun i a v ha hlast hne => ?_, fun hne => ?_⟩
  · rw [hconflict]
    exact hs.places
  · rw [hadr, hconflict]
    exact hs.entry
  · rw [(hqueue i).1] at hne
    rw [(hqueue i).2]
    exact hs.channel i hne
  · rw [(hqueue i).1] at hlast
    rw [hadr] at hne
    exact hs.queued i a v ha hlast hne
  rw [hadr] at hne ⊢
  rw [hconflict, hhw, replay_apply]
  have hdone : (s'.ins h).done = true := by rw [hself]
  have hhands : ∀ i ≠ h, s.Hands i s.entryAdr → s'.Hands i s.entryAdr := fun i hi hp => by
    rw [Hands, hother i hi]
    exact hp
  have hq' : ∀ i, lastWrite (s.ins i).queue s.entryAdr ≠ none →
      lastWrite (s'.ins i).queue s.entryAdr ≠ none := fun i hq => by rwa [(hqueue i).1]
  -- does the table of this channel have the address?
  cases hlast : lastWrite (s.ins h).pending s.entryAdr with
  | some v =>
    rcases hfits v hlast hne with hv | ⟨i, hq⟩ | ⟨i, hi, hp⟩
    · exact .inr (.inr ⟨⟨h, hdone⟩, hv⟩)
    · exact .inl ⟨i, hq' i hq⟩
    · exact .inr (.inl ⟨i, hhands i hi hp⟩)
  | none =>
    rcases hs.waits hne with ⟨i, hq⟩ | ⟨i, hp⟩ | ⟨-, hv⟩
    · exact .inl ⟨i, hq' i hq⟩
    · exact .inr (.inl ⟨i, hhands i (fun hi => hp (hi ▸ hlast)) hp⟩)
    · exact .inr (.inr ⟨⟨h, hdone⟩, hv⟩)

theorem ConflictInv.isr (hfits : s.ConflictFits P latest .isr) : ConflictInv P s.isr latest := by
  have hplaces : ∀ k ≠ 0, (s.isr.conflict k).1 = 0 := by
    intro k hk
    rw [Info.isr]
    dsimp only
    split
    · rfl
    · exact hs.places k hk
  -- the entry goes, or it is not yet in its register
  have hentry : s.isr.entryAdr = 0 ∧ s.hw s.entryAdr = (s.conflict 0).2 ∨
      s.isr.conflict 0 = s.conflict 0 ∧ (s.entryAdr ≠ 0 → s.hw s.entryAdr ≠ (s.conflict 0).2) := by
    rw [entryAdr, Info.isr]
    dsimp only
    split
    · next hgone => exact .inl ⟨rfl, hgone.2⟩
    · next hstays => exact .inr ⟨rfl, fun hne heq => hstays ⟨hne, heq⟩⟩
  rcases hentry with ⟨hzero, hv⟩ | ⟨hsame, hv⟩
  · refine ⟨hplaces, fun hne => absurd hzero hne, hs.channel, fun i a v ha hlast _ => ?_,
      fun hne => absurd hzero hne⟩
    refine hs.queued i a v ha hlast fun hadr => ?_
    -- nobody has the address of the entry queued
    have hnone := hfits (hadr ▸ ha) hv i
    rw [hadr] at hnone
    cases hlast.symm.trans hnone
  have hadr : s.isr.entryAdr = s.entryAdr := congrArg Prod.fst hsame
  refine ⟨hplaces, ?_, hs.channel, ?_, fun hne => ?_⟩
  · rw [hadr, hsame]
    exact hs.entry
  · rw [hadr]
    exact hs.queued
  rw [hadr] at hne ⊢
  rcases hs.waits hne with hq | hp | ⟨-, heq⟩
  · exact .inl hq
  · exact .inr (.inl hp)
  · exact absurd heq (hv hne)

/-- An entry goes with an interrupt only. -/
theorem ConflictInv.step {op : Op} (hfits : s.ConflictFits P latest op)
    (hstep : s.step P op = some s') :
    (op ≠ .isr → Kept s s') ∧ ConflictInv P s' (s.latestStep P latest op) := by
  cases op with
  | write h adr val =>
    rw [latestStep, written]
    by_cases hsize : (s.ins h).tableSize = 0
    · rw [if_pos hsize]
      rw [Info.step, writeReg, if_pos hsize] at hstep
      exact some.inj hstep ▸ ⟨fun _ => .of_conflict rfl, hs⟩
    · rw [if_neg hsize]
      obtain ⟨hcheck, hw⟩ := wrote_writeReg hs.places hfits.2.1 hsize hstep
      exact ⟨fun _ => hcheck.keeps hfits, hs.write hfits hsize hcheck hw⟩
  | writeBits h adr val start len =>
    rw [latestStep, written]
    by_cases hsize : (s.ins h).tableSize = 0
    · rw [if_pos hsize]
      rw [Info.step, writeRegBits, if_pos hsize] at hstep
      exact some.inj hstep ▸ ⟨fun _ => .of_conflict rfl, hs⟩
    · rw [if_neg hsize]
      obtain ⟨hfits, hbits, hlen, hval⟩ := hfits
      obtain ⟨hcheck, hw⟩ := wrote_writeRegBits hs.places hfits.2.1 hsize hstep
      rw [bitsVal, hs.bitsBase_eq hfits hbits, mergeBits_eq hlen hval] at hcheck hw
      exact ⟨fun _ => hcheck.keeps hfits, hs.write hfits hsize hcheck hw⟩
  | read h adr => exact some.inj hstep ▸ ⟨fun _ => .of_conflict rfl, hs⟩
  | config h trigger omitLock => exact (hs.config hfits hstep).imp_left fun hkept _ => hkept
  | fire h => exact ⟨fun _ => .of_conflict (fire_spec hstep).1, hs.fire hfits hstep⟩
  | isr => exact ⟨fun hisr => absurd rfl hisr, some.inj hstep ▸ hs.isr hfits⟩
  | markLowlatency h => exact some.inj hstep ▸ ⟨fun _ => .of_conflict rfl, { hs with }⟩

end

theorem ConflictRun.inv (hrun : ConflictRun P s latest) : ConflictInv P s latest := by
  induction hrun with
  | start hfresh => exact hfresh.conflictInv
  | step _ hfits hstep ih => exact (ih.step hfits hstep).2

/-! ## What the table is for -/

/-- Nothing is queued, handed over or to be acknowledged. -/
def Quiet (s : Info) : Prop :=
  ∀ i, (s.ins i).queue = [] ∧ (s.ins i).pending = [] ∧ (s.ins i).done = false

/-- The entries are of different addresses, have the values that were written last, and go. -/
structure ConflictOk (s : Info) (latest : ℕ → Option Word) : Prop where
  distinct : ∀ k l, (s.conflict k).1 ≠ 0 → (s.conflict k).1 = (s.conflict l).1 → k = l
  latest : ∀ k, (s.conflict k).1 ≠ 0 → latest (s.conflict k).1 = some (s.conflict k).2
  settled : s.Quiet → ∀ k, (s.conflict k).1 = 0

theorem ConflictInv.ok (hs : ConflictInv P s latest) : ConflictOk s latest where
  distinct k l hne heq := by
    have hzero : ∀ j, (s.conflict j).1 ≠ 0 → j = 0 := fun j hj => by
      by_contra hne
      exact hj (hs.places j hne)
    rw [hzero k hne, hzero l (heq ▸ hne)]
  latest k hne := by
    obtain rfl : k = 0 := by
      by_contra hk
      exact hne (hs.places k hk)
    exact hs.entry hne
  settled hquiet k := by
    by_cases hk : k = 0
    · subst hk
      by_contra hne
      rcases hs.waits hne with ⟨i, hq⟩ | ⟨i, hp⟩ | ⟨⟨i, hd⟩, -⟩
      · rw [(hquiet i).1] at hq
        exact hq rfl
      · rw [Hands, (hquiet i).2.1] at hp
        exact hp rfl
      · exact absurd (hd.symm.trans (hquiet i).2.2) nofun
    · exact hs.places k hk

theorem findEntry_of_entry (hplaces : ∀ k ≠ 0, (s.conflict k).1 = 0) (hadr : adr ≠ 0) :
    s.findEntry adr = if s.entryAdr = adr then some 0 else none := by
  split_ifs with hentry
  · exact findEntry_of_zero hentry
  refine findEntry_eq_none_iff.2 fun k _ heq => ?_
  by_cases hk : k = 0
  · subst hk
    exact hentry heq
  · exact hadr (heq.symm.trans (hplaces k hk))

/-- What a read that fits gives. -/
theorem ConflictInv.read (hs : ConflictInv P s latest) (hfits : s.ReadFits P h adr) :
    ((∃ i, lastWrite (s.ins i).queue adr ≠ none) → latest adr = some (s.readReg P h adr)) ∧
      (s.Quiet → s.readReg P h adr = s.hw adr) := by
  obtain ⟨hadr, ⟨hentry, hown⟩ | ⟨hwhere, hmirror, hlow⟩⟩ := hfits
  · -- the channel's own queue has it
    obtain ⟨v, hv⟩ := ne_none_iff_exists'.1 hown
    have hread : s.readReg P h adr = v := by
      rw [Info.readReg, findEntry_of_entry hs.places hadr, if_neg hentry]
      dsimp only [map_none, isSome_none]
      rw [if_neg Bool.false_ne_true, hv]
    rw [hread]
    refine ⟨fun _ => hs.queued h adr v hadr hv hentry, fun hquiet => ?_⟩
    rw [(hquiet h).1] at hv
    cases hv
  · by_cases hentry : s.entryAdr = adr
    · have hread : s.readReg P h adr = (s.conflict 0).2 := by
        rw [Info.readReg, findEntry_of_entry hs.places hadr, if_pos hentry]
        dsimp only [map_some, isSome_some]
        rw [if_pos rfl, hmirror, hlow]
        rfl
      rw [hread]
      refine ⟨fun _ => hentry ▸ hs.entry (hentry ▸ hadr), fun hquiet => ?_⟩
      exact absurd (hentry ▸ hs.ok.settled hquiet 0) hadr
    · have hnone := hwhere.resolve_left hentry
      refine ⟨fun h => h.elim fun i hq => absurd (hnone i) hq, fun _ => ?_⟩
      rw [Info.readReg, findEntry_of_entry hs.places hadr, if_neg hentry]
      dsimp only [map_none, isSome_none]
      rw [if_neg Bool.false_ne_true, hnone h, hmirror, hlow]
      rfl

/-- The table of conflicts in every state of a run, what a step leaves of it, and what a read
    gives. -/
theorem conflicts (hrun : ConflictRun P s latest) : ConflictOk s latest ∧
      (∀ op s', s.ConflictFits P latest op → s.step P op = some s' → op ≠ .isr →
        ∀ k, (s.conflict k).1 ≠ 0 → (s'.conflict k).1 = (s.conflict k).1) ∧
      ∀ h adr, s.ConflictFits P latest (.read h adr) →
        ((∃ i, s.Queues i adr) → latest adr = some (s.readReg P h adr)) ∧
          (s.Quiet → s.readReg P h adr = s.hw adr) := by
  have hs := hrun.inv
  refine ⟨hs.ok, fun op s' hfits hstep hisr k hne => ?_, fun h adr hfits => ?_⟩
  · obtain rfl : k = 0 := by
      by_contra hk
      exact hne (hs.places k hk)
    exact (hs.step hfits hstep).1 hisr hne
  · obtain ⟨hqueued, hquiet⟩ := hs.read hfits
    exact ⟨fun ⟨i, hq⟩ => hqueued ⟨i, queues_iff.1 hq⟩, hquiet⟩

/-- The steps one after the other, with what was written last. -/
def conflictRun (P : Setup) (s : Info) (latest : ℕ → Option Word) :
    List Op → Option (Info × (ℕ → Option Word))
  | [] => some (s, latest)
  | op :: ops =>
    match s.step P op with
    | none => none
    | some s' => s'.conflictRun P (s.latestStep P latest op) ops

/-- The first channel has queued a write to the register 5. -/
def oneQueued : Info := registered.setIns 1 { registered.ins 1 with queue := [(5, 0xf0)] }

/-- The first channel writes a register, the second one puts a bit into its value, and a third one
    reads it. -/
theorem conflicts_two_channels : ∃ s latest, ConflictRun chip s latest ∧ s.conflict 0 = (5, 0x1f0) ∧
      latest 5 = some 0x1f0 ∧ s.readReg chip 3 5 = 0x1f0 := by
  have hfirst : registered.ConflictFits chip (fun _ => none) (.write 1 5 0xf0) :=
    ⟨by decide, by decide, .inr (.inl rfl), .inl (by decide)⟩
  have hrun : ConflictRun chip oneQueued _ := .step (.start fresh_registered) hfirst rfl
  have hsecond : oneQueued.ConflictFits chip
      (registered.latestStep chip (fun _ => none) (.write 1 5 0xf0)) (.writeBits 2 5 1 8 1) := by
    refine ⟨⟨by decide, by decide, .inr (.inl rfl), .inl (by decide)⟩,
      ⟨fun _ i _ v hmem => ?_, .inr ⟨by decide, .inr (.inl ⟨1, by decide, 0xf0, by decide⟩)⟩⟩,
      by decide, by decide⟩
    by_cases hi : i = 1
    · subst hi
      cases List.mem_singleton.1 hmem
      rfl
    · rw [oneQueued, ins_setIns_of_ne _ _ hi] at hmem
      cases hmem
  have hrun' := ConflictRun.step hrun hsecond rfl
  have hlatest := ((conflicts hrun').2.2 3 5 ⟨by decide, .inr ⟨.inl rfl, rfl, rfl⟩⟩).1
    ⟨1, 0xf0, by decide⟩
  have hbits : replaceBits 0xf0 1 8 1 = 0x1f0 := by decide +kernel
  exact ⟨_, _, hrun', rfl, congrArg some hbits, (some.inj hlatest).symm.trans hbits⟩

/-- A conflict overwrites the entry of another register, with the other places free; a channel does
    not see the queue of another one, and prefers its own mirror to the entry; the entry stays
    where the older value comes to the hardware last; and bits are put into the oldest value. -/
theorem conflicts_lost :
    (∃ t ∈ registered.conflictRun chip (fun _ => none) [.write 1 5 1, .write 2 5 2, .write 1 6 3],
      (t.1.conflict 0).1 = 5 ∧ (t.1.conflict 1).1 = 0 ∧
        ∃ s' ∈ t.1.step chip (.write 2 6 4), (s'.conflict 0).1 = 6) ∧
    (∃ t ∈ registered.conflictRun chip (fun _ => none) [.write 1 5 1],
      (5, 1) ∈ (t.1.ins 1).queue ∧ t.2 5 ≠ some (t.1.readReg chip 2 5)) ∧
    (∃ t ∈ registered.conflictRun chip (fun _ => none) [.write 1 5 1, .config 1 1 false,
      .write 1 5 2, .write 2 5 3], (5, 3) ∈ (t.1.ins 2).queue ∧ t.1.conflict 0 = (5, 3) ∧
        t.2 5 ≠ some (t.1.readReg chip 1 5)) ∧
    (∃ t ∈ registered.conflictRun chip (fun _ => none) [.write 1 5 1, .write 2 5 2,
      .config 2 1 false, .fire 2, .config 1 1 false, .fire 1, .isr],
      (∀ i < chip.channelNum, (t.1.ins i).queue = [] ∧ (t.1.ins i).pending = [] ∧
        (t.1.ins i).done = false) ∧ t.1.conflict 0 = (5, 2) ∧ t.1.hw 5 = 1) ∧
    (∃ t ∈ registered.conflictRun chip (fun _ => none) [.write 1 5 0xf0, .write 1 5 0x0f,
      .writeBits 2 5 1 8 1], t.2 5 = some 0x10f ∧ t.1.conflict 0 = (5, 0x1f0)) := by
  decide +kernel

end Info

end CommonDrivers.Rdma
