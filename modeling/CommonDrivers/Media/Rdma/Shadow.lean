import CommonDrivers.Media.Rdma.Conflicts

/-!
# The registers behind one channel

While only one channel is used, its queue, its mirror and the registers together are to look like
registers that are written at once (the *plain* registers). The hardware runs each table once, at
any time before the next `rdma_config`.

`shadowed` says so for the runs whose steps are `ShadowFits`. Those leave out

* a queue without room while a table is still to run, as the queue is then written to the registers
  before that table, and the mirror is given up;
* bits of a value outside of the length that is given, as they are written, too;
* the address 0, as it is found in every free entry of the table of conflicts;
* a `rdma_config` that drops the queue: with the trigger 0, or one that the hardware does not take.
-/

namespace CommonDrivers.Rdma

open Function Option Info

/-! ## Bits -/

/-- The bits `[start, start + len)` are replaced by the low bits of a value. -/
def replaceBits (old val : Word) (start len : ℕ) : Word := BitVec.ofFnLE fun i : Fin 32 =>
    if start ≤ i ∧ i < start + len then val.getLsbD (i - start) else old.getLsbD i

theorem getLsbD_of_lt {val : Word} {len i : ℕ} (h : val.toNat < 2 ^ len) (hi : len ≤ i) :
    val.getLsbD i = false := by
  exact Nat.testBit_lt_two_pow (lt_of_lt_of_le h (Nat.pow_le_pow_right two_pos hi))

theorem mergeBits_eq {old val : Word} {start len : ℕ} (hlen : start + len ≤ 32)
    (hval : val.toNat < 2 ^ len) : mergeBits old val start len = replaceBits old val start len := by
  apply BitVec.eq_of_getLsbD_eq
  intro i hi
  have hspec : (replaceBits old val start len).getLsbD i =
      if start ≤ i ∧ i < start + len then val.getLsbD (i - start) else old.getLsbD i := by
    rw [replaceBits, BitVec.getLsbD_eq_getElem hi, BitVec.getLsbD_eq_getElem hi]
    simp
  have hmerge : (mergeBits old val start len).getLsbD i =
      (old.getLsbD i && !(decide (start ≤ i) && decide (i - start < len)) ||
        (decide (start ≤ i) && val.getLsbD (i - start))) := by
    have hi64 : i < 64 := by omega
    simp only [mergeBits, BitVec.getLsbD_setWidth, BitVec.getLsbD_or, BitVec.getLsbD_and,
      BitVec.getLsbD_not, BitVec.getLsbD_shiftLeft, BitVec.getLsbD_ofNat,
      Nat.testBit_two_pow_sub_one, hi, hi64, show i - start < 64 by omega, decide_true,
      Bool.true_and, ← not_lt, decide_not]
  rw [hspec, hmerge]
  by_cases hstart : start ≤ i
  · by_cases hend : i - start < len
    · simp [hstart, hend, show i < start + len by omega]
    · simp [hstart, hend, show ¬ i < start + len by omega, getLsbD_of_lt hval (not_lt.1 hend)]
  · simp [hstart]

namespace Info

variable {P : Setup} {s s' : Info} {h adr : ℕ} {val : Word} {plain : ℕ → Word} {trigger : ℕ}

/-! ## Runs of one channel -/

/-- Nothing is queued, handed over or in conflict yet. -/
structure Fresh (s : Info) : Prop where
  conflict : ∀ k, (s.conflict k).1 = 0
  queue : ∀ i, (s.ins i).queue = []
  mirror : ∀ i, (s.ins i).mirror = []
  pending : ∀ i, (s.ins i).pending = []

/-- The call is one of the channel. -/
def On (h : ℕ) : Op → Prop
  | .write h' _ _ => h' = h
  | .writeBits h' _ _ _ _ => h' = h
  | .read h' _ => h' = h
  | .config h' _ _ => h' = h
  | .fire h' => h' = h
  | .isr => True
  | .markLowlatency _ => True

/-- The hardware has run a table before the next `rdma_config`. -/
def HasRun (s : Info) : Op → Prop
  | .config h _ _ => (s.ins h).pending = []
  | _ => True

/-- `rdma_config` has something to hand over. -/
def HandsOver (P : Setup) (s : Info) (h trigger : ℕ) (omitLock : Bool) : Prop :=
  s.Configures P h ∧ (s.ins h).queue ≠ [] ∧ trigger ≠ 0 ∧ (!omitLock && (s.ins h).lockFlag) = false

instance (P : Setup) (s : Info) (h trigger : ℕ) (omitLock : Bool) :
    Decidable (s.HandsOver P h trigger omitLock) := inferInstanceAs (Decidable (_ ∧ _ ≠ [] ∧ _))

/-- The ways of `rdma_config`, if it drops no queue. -/
theorem config_cases {omitLock : Bool} (hstop : s.Configures P h → trigger = 0 →
      (s.ins h).queue = [] ∨ (!omitLock && (s.ins h).lockFlag) = true) :
    let u := s.setIns h { s.ins h with mirror := [], pending := [] }
    ¬ s.HandsOver P h trigger omitLock ∧ (s.config P h trigger omitLock = some s ∨
        s.config P h trigger omitLock = some u ∨
        (s.ins h).queue = [] ∧ s.config P h trigger omitLock = some (u.clearQueue P h)) ∨
      s.HandsOver P h trigger omitLock ∧ s.config P h trigger omitLock =
        (s.writeDetect P h).map fun s' => (s'.submit P h trigger).clearQueue P h := by
  rw [config]
  split
  · next hno => exact .inl ⟨fun hover => hno hover.1, .inl rfl⟩
  next hconf =>
  rw [not_not] at hconf
  split
  · next hstay =>
    refine .inl ⟨?_, .inr ?_⟩
    · rintro ⟨-, hne, htrigger, hlock⟩
      rcases hstay with hnil | hzero | hlocked
      · exact hne hnil
      · exact htrigger hzero
      · cases hlocked.symm.trans hlock
    split
    · exact .inl rfl
    next hlock =>
    refine .inr ⟨?_, rfl⟩
    rcases hstay with hnil | hzero | hlocked
    · exact hnil
    · exact (hstop hconf hzero).resolve_right hlock
    · exact absurd hlocked hlock
  · next hover =>
    rw [not_or, not_or, Bool.not_eq_true] at hover
    refine .inr ⟨⟨hconf, hover⟩, ?_⟩
    cases s.writeDetect P h <;> rfl

/-- The plain registers after the write that `rdma_config` makes by itself. -/
def plainDetect (P : Setup) (s : Info) (plain : ℕ → Word) (h : ℕ) : ℕ → Word :=
  match detects P h with
  | some reg => update plain reg (s.detectCnt + 1)
  | none => plain

/-- The plain registers after a step. The counter for the detection of the interrupt is one of the
    writes, too. -/
def plainStep (P : Setup) (s : Info) (plain : ℕ → Word) : Op → ℕ → Word
  | .write _ adr val => update plain adr val
  | .writeBits _ adr val start len =>
    update plain adr (replaceBits (plain adr) val start len)
  | .config h trigger omitLock =>
    if s.HandsOver P h trigger omitLock then s.plainDetect P plain h else plain
  | _ => plain

/-- The buffer holds an item, and is not emptied past a table that is still to run. -/
def Safe (x : Ins) : Prop := 2 ≤ x.tableSize / 4 ∧ (Room x ∨ x.pending = [])

/-- The steps that the plain registers are kept by. -/
def ShadowFits (P : Setup) (s : Info) : Op → Prop
  | .write h adr _ => adr ≠ 0 ∧ Safe (s.ins h)
  | .writeBits h adr val start len =>
    adr ≠ 0 ∧ start + len ≤ 32 ∧ val.toNat < 2 ^ len ∧ Safe (s.ins h)
  | .config h trigger omitLock =>
    (s.HandsOver P h trigger omitLock →
      (Triggers P trigger ∨ trigger = 0x101 ∨ trigger = 0x102) ∧ detects P h ≠ some 0) ∧
    (s.Configures P h → trigger = 0 → (s.ins h).queue = [] ∨ (!omitLock && (s.ins h).lockFlag))
  | _ => True

/-- The states that a run with the channel `h` reaches, and the plain registers then. -/
inductive Shadowed (P : Setup) (h : ℕ) : Info → (ℕ → Word) → Prop
  | start {s : Info} : Fresh s → Shadowed P h s s.hw
  | step {s s' : Info} {plain : ℕ → Word} {op : Op} : Shadowed P h s plain → On h op → s.HasRun op →
      s.ShadowFits P op → s.step P op = some s' → Shadowed P h s' (s.plainStep P plain op)

/-! ## The simulation -/

/-- What the channel shows of a register. -/
def view (s : Info) (h adr : ℕ) : Word :=
  (lastWrite (s.ins h).queue adr).getD ((lastWrite (s.ins h).mirror adr).getD (s.hw adr))

structure Sim (h : ℕ) (s : Info) (plain : ℕ → Word) : Prop where
  conflict : ∀ k, (s.conflict k).1 = 0
  queue : ∀ i ≠ h, (s.ins i).queue = []
  mirror : ∀ i ≠ h, (s.ins i).mirror = []
  view : ∀ adr, s.view h adr = plain adr
  /-- A table that is to run is the one in the mirror. -/
  toRun : (s.ins h).pending ≠ [] → (s.ins h).mirror = (s.ins h).pending
  /-- What is in the mirror of a table that has run is in the registers. -/
  hasRun : (s.ins h).pending = [] →
    ∀ adr, (lastWrite (s.ins h).mirror adr).getD (s.hw adr) = s.hw adr
  size : (s.ins h).queue ≠ [] → 2 ≤ (s.ins h).tableSize / 4

theorem Fresh.sim (hs : Fresh s) (h : ℕ) : Sim h s s.hw where
  conflict := hs.conflict
  queue i _ := hs.queue i
  mirror i _ := hs.mirror i
  view adr := by
    rw [Info.view, hs.queue, hs.mirror]
    rfl
  toRun hne := absurd (hs.pending h) hne
  hasRun _ adr := by
    rw [hs.mirror]
    rfl
  size hne := absurd (hs.queue h) hne

section

variable (hs : Sim h s plain)
include hs

/-- With one channel there are no conflicts. -/
theorem Sim.checkConflict (P : Setup) (hadr : adr ≠ 0) : s.checkConflict P h adr = (s, none) := by
  have hnone : s.findEntry adr = none :=
    findEntry_eq_none_iff.2 fun k _ heq => hadr (heq.symm.trans (hs.conflict k))
  rcases checkConflict_cases P s h adr with ⟨k, hk, -⟩ | ⟨-, heq, -⟩ | ⟨-, i, -, v, hlooks, hmem, -⟩
  · cases hnone.symm.trans hk
  · exact heq
  · rw [hs.queue i hlooks.2.1] at hmem
    cases hmem

theorem Sim.lowlatencyVal (P : Setup) (adr : ℕ) : s.lowlatencyVal P h adr = none := by
  rw [Info.lowlatencyVal]
  split
  · next hll =>
    rw [hs.mirror _ (Ne.symm hll.1)]
    rfl
  · rfl

theorem Sim.readReg (P : Setup) (hadr : adr ≠ 0) : s.readReg P h adr = plain adr := by
  have hnone : s.findEntry adr = none :=
    findEntry_eq_none_iff.2 fun k _ heq => hadr (heq.symm.trans (hs.conflict k))
  rw [Info.readReg, hnone, hs.lowlatencyVal P adr, ← hs.view adr, Info.view]
  cases lastWrite (s.ins h).queue adr with
  | some v => rfl
  | none =>
    cases lastWrite (s.ins h).mirror adr with
    | some | none => rfl

/-- The channel changes, the others do not. -/
theorem Sim.of_channel (hw : ℕ → Word) {x : Ins} {plain' : ℕ → Word}
    (hview : ∀ adr, (lastWrite x.queue adr).getD ((lastWrite x.mirror adr).getD (hw adr)) =
      plain' adr) (htoRun : x.pending ≠ [] → x.mirror = x.pending)
    (hhasRun : x.pending = [] → ∀ adr, (lastWrite x.mirror adr).getD (hw adr) = hw adr)
    (hsize : x.queue ≠ [] → 2 ≤ x.tableSize / 4) : Sim h ({ s with hw }.setIns h x) plain' := by
  have hself : ({ s with hw }.setIns h x).ins h = x := ins_setIns ..
  have hother : ∀ i ≠ h, ({ s with hw }.setIns h x).ins i = s.ins i := fun i hi =>
    ins_setIns_of_ne _ x hi
  refine ⟨hs.conflict, fun i hi => ?_, fun i hi => ?_, fun adr => ?_, ?_, ?_, ?_⟩
  · rw [hother i hi, hs.queue i hi]
  · rw [hother i hi, hs.mirror i hi]
  · rw [Info.view, hself]
    exact hview adr
  · rwa [hself]
  · rwa [hself]
  · rwa [hself]

/-! ## The steps -/

/-- The registers once the queue is written to them, if no table is to run. -/
theorem Sim.replay_queue (hpending : (s.ins h).pending = []) (adr : ℕ) :
    replay s.hw (s.ins h).queue adr = plain adr := by
  rw [replay_apply, ← hs.view adr, Info.view, hs.hasRun hpending adr]

theorem Sim.push (hsafe : Safe (s.ins h)) (adr : ℕ) (val : Word) :
    ∃ s', s.push h adr val = some s' ∧ Sim h s' (update plain adr val) ∧
      (s'.ins h).pending = (s.ins h).pending := by
  obtain ⟨hsize, hroom⟩ := hsafe
  by_cases hfits : Room (s.ins h)
  · refine ⟨_, if_pos hfits, hs.of_channel s.hw (fun a => ?_) hs.toRun hs.hasRun fun _ => hsize,
      by rw [ins_setIns]⟩
    rw [lastWrite_concat]
    by_cases ha : adr = a
    · subst ha
      rw [if_pos rfl, update_self]
      rfl
    · rw [if_neg ha, update_of_ne (Ne.symm ha)]
      exact hs.view a
  · have hpending := hroom.resolve_left hfits
    refine ⟨_, (if_neg hfits).trans (if_neg (not_lt.2 hsize)), hs.of_channel _ (fun a => ?_)
      (fun hne => absurd hpending hne) (fun _ a => rfl) fun _ => hsize,
      by rw [ins_setIns]⟩
    by_cases ha : adr = a
    · subst ha
      simp [lastWrite]
    · rw [update_of_ne (Ne.symm ha), ← hs.replay_queue hpending a]
      simp [lastWrite, ha]

theorem Sim.writeReg (P : Setup) (hadr : adr ≠ 0) (hsafe : Safe (s.ins h)) (val : Word) :
    ∃ s', s.writeReg P h adr val = some s' ∧ Sim h s' (update plain adr val) ∧
      (s'.ins h).pending = (s.ins h).pending := by
  have hsize : (s.ins h).tableSize ≠ 0 := by
    have := hsafe.1
    omega
  rw [Info.writeReg, if_neg hsize, hs.checkConflict P hadr]
  exact hs.push hsafe adr val

theorem Sim.bitsBase (P : Setup) (adr : ℕ) : s.bitsBase P h adr none = plain adr := by
  rw [Info.bitsBase, hs.lowlatencyVal P adr, ← hs.view adr, Info.view]
  cases lastWrite (s.ins h).queue adr with
  | some v => rfl
  | none =>
    cases lastWrite (s.ins h).mirror adr with
    | some | none => rfl

theorem Sim.writeRegBits (P : Setup) (hadr : adr ≠ 0) {start len : ℕ} (hlen : start + len ≤ 32)
    (hval : val.toNat < 2 ^ len) (hsafe : Safe (s.ins h)) :
    ∃ s', s.writeRegBits P h adr val start len = some s' ∧
      Sim h s' (update plain adr (replaceBits (plain adr) val start len)) := by
  have hsize : (s.ins h).tableSize ≠ 0 := by
    have := hsafe.1
    omega
  have hbits : s.bitsVal P h adr val start len = replaceBits (plain adr) val start len := by
    rw [bitsVal, hs.checkConflict P hadr, hs.bitsBase P adr, mergeBits_eq hlen hval]
  rw [Info.writeRegBits, if_neg hsize, hbits, hs.checkConflict P hadr]
  cases hi : lastIdx (s.ins h).queue adr with
  | none =>
    obtain ⟨s', heq, hsim, -⟩ := hs.writeReg P hadr hsafe _
    exact ⟨s', heq, hsim⟩
  | some i =>
    refine ⟨_, rfl, hs.of_channel s.hw (fun a => ?_) hs.toRun hs.hasRun fun _ => hsafe.1⟩
    rw [lastWrite_set hi]
    by_cases ha : adr = a
    · subst ha
      rw [if_pos rfl, update_self]
      rfl
    · rw [if_neg ha, update_of_ne (Ne.symm ha)]
      exact hs.view a

theorem Sim.clearQueue (P : Setup)
    (hview : ∀ adr, (lastWrite (s.ins h).mirror adr).getD (s.hw adr) = plain adr) :
    Sim h (s.clearQueue P h) plain := by
  rw [Info.clearQueue]
  split
  · exact hs
  · exact hs.of_channel s.hw hview hs.toRun hs.hasRun fun hne => absurd rfl hne

theorem Sim.writeDetect (hpending : (s.ins h).pending = []) (hqueue : (s.ins h).queue ≠ [])
    (hreg : detects P h ≠ some 0) : ∃ s', s.writeDetect P h = some s' ∧ (s'.ins h).pending = [] ∧
      Sim h s' (s.plainDetect P plain h) := by
  rw [Info.writeDetect, plainDetect]
  cases hdetect : detects P h with
  | none => exact ⟨s, rfl, hpending, hs⟩
  | some reg =>
    have hadr : reg ≠ 0 := fun heq => hreg (heq ▸ hdetect)
    have hs' : Sim h { s with detectCnt := s.detectCnt + 1 } plain :=
      { hs with }
    obtain ⟨s', heq, hsim, hsame⟩ :=
      hs'.writeReg P hadr ⟨hs.size hqueue, .inr hpending⟩ (s.detectCnt + 1)
    exact ⟨s', heq, hsame.trans hpending, hsim⟩

theorem Sim.submit (hpending : (s.ins h).pending = [])
    (htrigger : Triggers P trigger ∨ trigger = 0x101 ∨ trigger = 0x102) :
    Sim h ((s.submit P h trigger).clearQueue P h) plain := by
  rw [Info.submit]
  split
  · -- the queue goes to the mirror and to the hardware
    have hs' : Sim h (s.setIns h { s.ins h with
        mirror := (s.ins h).queue, pending := (s.ins h).queue }) plain := by
      refine hs.of_channel s.hw (fun a => ?_) (fun _ => rfl) (fun hnil a => ?_) hs.size
      · rw [← hs.view a, Info.view, hs.hasRun hpending a]
        cases lastWrite (s.ins h).queue a <;> rfl
      · change (s.ins h).queue = [] at hnil
        rw [hnil]
        rfl
    refine hs'.clearQueue P fun a => ?_
    rw [ins_setIns]
    change (lastWrite (s.ins h).queue a).getD (s.hw a) = plain a
    rw [← replay_apply, hs.replay_queue hpending a]
  · next hno =>
    rw [if_pos (htrigger.resolve_left hno)]
    -- the registers are written at once
    have hs' : Sim h ({ s with hw := replay s.hw (s.ins h).queue }.setIns h
        { s.ins h with mirror := [] }) plain := by
      refine hs.of_channel _ (fun a => ?_) (fun hne => absurd hpending hne) (fun _ a => rfl) hs.size
      rw [hs.replay_queue hpending a, ← hs.view a, Info.view]
      cases lastWrite (s.ins h).queue a <;> rfl
    refine hs'.clearQueue P fun a => ?_
    rw [ins_setIns]
    exact hs.replay_queue hpending a

theorem Sim.config {omitLock : Bool} (hpending : (s.ins h).pending = [])
    (hfits : s.ShadowFits P (.config h trigger omitLock)) :
    ∃ s', s.config P h trigger omitLock = some s' ∧
      Sim h s' (s.plainStep P plain (.config h trigger omitLock)) := by
  obtain ⟨hsubmit, hstop⟩ := hfits
  rw [plainStep]
  rcases config_cases hstop with ⟨hno, hstay⟩ | ⟨hover, heq⟩
  · rw [if_neg hno]
    have hs' : Sim h (s.setIns h { s.ins h with mirror := [], pending := [] }) plain := by
      refine hs.of_channel s.hw (fun a => ?_) (fun hne => absurd rfl hne) (fun _ a => rfl) hs.size
      rw [← hs.view a, Info.view, hs.hasRun hpending a]
      rfl
    rcases hstay with heq | heq | ⟨hnil, heq⟩
    · exact ⟨s, heq, hs⟩
    · exact ⟨_, heq, hs'⟩
    refine ⟨_, heq, hs'.clearQueue P fun a => ?_⟩
    rw [ins_setIns, ← hs.view a, Info.view, hs.hasRun hpending a, hnil]
    rfl
  · obtain ⟨htrigger, hreg⟩ := hsubmit hover
    obtain ⟨s', heq', hpending', hs'⟩ := hs.writeDetect hpending hover.2.1 hreg
    rw [if_pos hover, heq, heq']
    exact ⟨_, rfl, hs'.submit hpending' htrigger⟩

theorem Sim.fire (hstep : s.fire h = some s') : Sim h s' plain := by
  rw [Info.fire] at hstep
  split at hstep
  · cases hstep
  next hne =>
  cases hstep
  have hrun : ∀ a, replay s.hw (s.ins h).pending a =
      (lastWrite (s.ins h).mirror a).getD (s.hw a) := fun a => by
    rw [replay_apply, hs.toRun hne]
  refine hs.of_channel _ (fun a => ?_) (fun h => absurd rfl h) (fun _ a => ?_) hs.size
  · rw [hrun, ← hs.view a, Info.view]
    cases lastWrite (s.ins h).mirror a <;> rfl
  · rw [hrun]
    cases lastWrite (s.ins h).mirror a <;> rfl

theorem Sim.isr : Sim h s.isr plain := by
  refine ⟨fun k => ?_, hs.queue, hs.mirror, hs.view, hs.toRun, hs.hasRun, hs.size⟩
  rw [Info.isr]
  dsimp only
  rw [if_neg fun hne => hne.1 (hs.conflict k)]
  exact hs.conflict k

/-- No call but that of the hardware stores outside of the buffer. -/
theorem Sim.call {op : Op} (hon : On h op) (hrun : s.HasRun op) (hfits : s.ShadowFits P op)
    (hfire : op ≠ .fire h) : ∃ u, s.step P op = some u ∧ Sim h u (s.plainStep P plain op) := by
  cases op with
  | write h' adr val =>
    obtain rfl : h' = h := hon
    obtain ⟨u, heq, hu, -⟩ := hs.writeReg P hfits.1 hfits.2 val
    exact ⟨u, heq, hu⟩
  | writeBits h' adr val start len =>
    obtain rfl : h' = h := hon
    obtain ⟨hadr, hlen, hval, hsafe⟩ := hfits
    exact hs.writeRegBits P hadr hlen hval hsafe
  | read h' adr => exact ⟨s, rfl, hs⟩
  | config h' trigger omitLock =>
    obtain rfl : h' = h := hon
    exact hs.config hrun hfits
  | fire h' => exact absurd (congrArg Op.fire hon) hfire
  | isr => exact ⟨_, rfl, hs.isr⟩
  | markLowlatency h' =>
    exact ⟨_, rfl, hs.conflict, hs.queue, hs.mirror, hs.view, hs.toRun, hs.hasRun, hs.size⟩

theorem Sim.step {op : Op} (hon : On h op) (hrun : s.HasRun op) (hfits : s.ShadowFits P op)
    (hstep : s.step P op = some s') : Sim h s' (s.plainStep P plain op) := by
  rcases eq_or_ne op (.fire h) with rfl | hfire
  · exact hs.fire hstep
  · obtain ⟨u, heq, hu⟩ := hs.call hon hrun hfits hfire
    exact some.inj (heq.symm.trans hstep) ▸ hu

end

theorem Shadowed.sim (hrun : Shadowed P h s plain) : Sim h s plain := by
  induction hrun with
  | start hfresh => exact hfresh.sim h
  | step _ hon hran hfits hstep ih => exact ih.step hon hran hfits hstep

/-- Every read gives what the plain registers have, and so do the registers themselves once the last
    table has run and nothing is queued. -/
theorem shadowed (hrun : Shadowed P h s plain) : (∀ adr ≠ 0, s.readReg P h adr = plain adr) ∧
      ((s.ins h).pending = [] → (s.ins h).queue = [] → s.hw = plain) ∧
      ∀ op, On h op → s.HasRun op → s.ShadowFits P op → op ≠ .fire h → (s.step P op).isSome := by
  have hs := hrun.sim
  refine ⟨fun adr hadr => hs.readReg P hadr, fun hpending hqueue => ?_,
    fun op hon hran hfits hfire => ?_⟩
  · funext adr
    rw [← hs.view adr, Info.view, hs.hasRun hpending adr, hqueue]
    rfl
  · obtain ⟨u, heq, -⟩ := hs.call hon hran hfits hfire
    exact isSome_iff_exists.2 ⟨u, heq⟩

end Info

/-! ## Runs -/

/-- A chip with 8 channels. -/
def chip : Setup where
  channelNum := 8
  triggerMaskLen := 8
  enable _ := true
  readHandle := 7
  preVsyncHandle := 6
  detectReg := none
  channelNum_le := by decide

/-- The channels are registered with tables of 16 bytes, and all registers are 0. -/
def registered : Info where
  ins _ :=
    { registered := true, tableSize := 16, lockFlag := false, queue := [], mirror := [],
      pending := [], done := false }
  conflict _ := (0, 0)
  hw _ := 0
  lowlatency := 0
  detectCnt := 0

theorem fresh_registered : registered.Fresh where
  conflict _ := rfl
  queue _ := rfl
  mirror _ := rfl
  pending _ := rfl

namespace Info

/-- The steps one after the other, with the plain registers. -/
def shadowRun (P : Setup) (s : Info) (plain : ℕ → Word) : List Op → Option (Info × (ℕ → Word))
  | [] => some (s, plain)
  | op :: ops =>
    match s.step P op with
    | none => none
    | some s' => s'.shadowRun P (s.plainStep P plain op) ops

/-- The steps can be made one after the other, and are those that the plain registers are kept
    by. -/
def RunFits (P : Setup) (h : ℕ) (s : Info) : List Op → Prop
  | [] => True
  | op :: ops => (On h op ∧ s.HasRun op ∧ s.ShadowFits P op) ∧
    ∃ s' ∈ s.step P op, s'.RunFits P h ops

instance (x : Ins) : Decidable (Safe x) := inferInstanceAs (Decidable (_ ∧ _))

instance decidableFits (P : Setup) (h : ℕ) (s : Info) :
    (op : Op) → Decidable (On h op ∧ s.HasRun op ∧ s.ShadowFits P op)
  | .write h' .. => inferInstanceAs (Decidable (h' = h ∧ True ∧ _ ≠ 0 ∧ Safe _))
  | .writeBits h' .. =>
    inferInstanceAs (Decidable (h' = h ∧ True ∧ _ ≠ 0 ∧ _ ≤ 32 ∧ _ < 2 ^ _ ∧ Safe _))
  | .config h' .. => inferInstanceAs (Decidable (h' = h ∧ _ = [] ∧
      (HandsOver .. → (_ ∨ _ = 0x101 ∨ _ = 0x102) ∧ _ ≠ _) ∧ (Configures .. → _ = 0 → _ = [] ∨ _)))
  | .read h' .. | .fire h' => inferInstanceAs (Decidable (h' = h ∧ True ∧ True))
  | .isr | .markLowlatency _ => inferInstanceAs (Decidable (True ∧ True ∧ True))

instance decidableRunFits (P : Setup) (h : ℕ) :
    (ops : List Op) → (s : Info) → Decidable (s.RunFits P h ops)
  | [], _ => isTrue trivial
  | op :: ops, s =>
    have := decidableRunFits P h ops
    inferInstanceAs (Decidable (_ ∧ ∃ s' ∈ s.step P op, RunFits P h s' ops))

theorem RunFits.shadowedRun {ops : List Op} (hfits : s.RunFits P h ops)
    (hrun : Shadowed P h s plain) :
    ∃ t ∈ s.shadowRun P plain ops, Shadowed P h t.1 t.2 := by
  induction ops generalizing s plain with
  | nil => exact ⟨_, rfl, hrun⟩
  | cons op ops ih =>
    obtain ⟨⟨hon, hran, hstep⟩, s', hs', hrest⟩ := hfits
    rw [shadowRun, Option.mem_def.1 hs']
    exact ih hrest (hrun.step hon hran hstep hs')

/-- A table that is handed over and runs, bits in its value, a queue that is written to the
    registers for want of room, and a second table. -/
theorem shadowed_two_tables : ∃ s plain, Shadowed chip 1 s plain ∧ plain 5 = 0x107 ∧
    s.readReg chip 1 5 = 0x107 ∧ s.hw 5 = 0x107 := by
  let ops : List Op := [.write 1 5 7, .config 1 1 false, .fire 1, .writeBits 1 5 1 8 1,
    .write 1 6 2, .write 1 7 3, .config 1 1 false, .fire 1]
  have hfits : registered.RunFits chip 1 ops := by decide +kernel
  obtain ⟨t, ht, hrun⟩ := hfits.shadowedRun (.start fresh_registered)
  have hplain : ∀ t ∈ registered.shadowRun chip registered.hw ops,
      t.2 5 = 0x107 ∧ (t.1.ins 1).pending = [] ∧ (t.1.ins 1).queue = [] := by decide +kernel
  obtain ⟨hfive, hpending, hqueue⟩ := hplain t ht
  obtain ⟨hread, hhw, -⟩ := shadowed hrun
  exact ⟨t.1, t.2, hrun, hfive, (hread 5 (by decide)).trans hfive,
    (congrFun (hhw hpending hqueue) 5).trans hfive⟩

/-- Without room, a table that is still to run is not read any more, and runs after the writes that
    came later; and a value that is longer than its bits spills over. -/
theorem shadow_lost :
    (∃ t ∈ registered.shadowRun chip registered.hw [.write 1 5 1, .config 1 1 false, .write 1 6 2,
      .write 1 6 3, .write 1 7 4], t.1.readReg chip 1 5 ≠ t.2 5) ∧
    (∃ t ∈ registered.shadowRun chip registered.hw [.write 1 5 1, .config 1 1 false, .write 1 5 2,
      .write 1 5 3, .write 1 6 4, .fire 1, .config 1 1 false, .fire 1],
      (t.1.ins 1).pending = [] ∧ (t.1.ins 1).queue = [] ∧ t.1.hw 5 ≠ t.2 5) ∧
    (∃ t ∈ registered.shadowRun chip registered.hw [.writeBits 1 5 2 0 1],
      t.1.readReg chip 1 5 ≠ t.2 5) := by
  decide +kernel

end Info

end CommonDrivers.Rdma
