import CommonDrivers.Mtd.RsvSave

/-!
# Power cuts

The device is switched on and off: at a boot the area is scanned with a fresh `rsv_info`, and a
power cut may fall after any erase or program operation of a save or of a scan. The record of the
last save that completed is kept next to the state (`step`).

After every run in which the saves keep to a condition (`Fits`), a boot finds that record
(`crash_consistent`). The condition is about saves that start with `POWER_ABNORMAL_FLAG`: such a
save erases the block of the last record first, and a cut between this and the end of the save
loses it (`lost_record`).
-/

namespace CommonDrivers.Mtd

open Flash RsvState

/-- The driver has mounted the area, or the device is off. -/
inductive Sys where
  | on (info : RsvInfo) (mask : Finset ℕ) (cells : Cells Page)
  | off (cells : Cells Page)

/-- The contents of the device. -/
def Sys.cells : Sys → Cells Page
  | .on _ _ cells => cells
  | .off cells => cells

/-- What may happen; a cut falls after `j` of the operations that change the device. -/
inductive Event where
  | save (buf : List UInt8)
  | cutSave (buf : List UInt8) (j : ℕ)
  | boot
  | cutBoot (j : ℕ)

section

variable (mtd : MtdInfo) (blockCnt : ℕ) (area : RsvInfo)

/-- One event, with the record of the last save that completed. A save that is cut has completed if
    all its operations have been done. -/
def step : Sys → Option (List UInt8) → Event → Option (Sys × Option (List UInt8))
  | .on info mask c, last, .save buf =>
    (mesonRsvSave mtd blockCnt ⟨info, mask, .ofCells c []⟩ buf).map fun (ret, s) =>
      (.on s.info s.freenodebitmask s.nand.cells, if ret = .ok then some buf else last)
  | .on info mask c, last, .cutSave buf j =>
    (mesonRsvSave mtd blockCnt ⟨info, mask, .ofCells c []⟩ buf).map fun (ret, s) =>
      (.off (c.replay mtd.pagesPerBlk (s.nand.ops.take j)),
        if ret = .ok ∧ s.nand.ops.length ≤ j then some buf else last)
  | .off c, last, .boot =>
    (mesonRsvScan mtd blockCnt ⟨area, ∅, .ofCells c []⟩).map fun (_, s) =>
      (.on s.info s.freenodebitmask s.nand.cells, last)
  | .off c, last, .cutBoot j =>
    (mesonRsvScan mtd blockCnt ⟨area, ∅, .ofCells c []⟩).map fun (_, s) =>
      (.off (c.replay mtd.pagesPerBlk (s.nand.ops.take j)), last)
  | _, _, _ => none

/-- A save is of a record of the size of the area, its timestamp has 15 bits, and if the valid
    block has been found damaged, the save is not cut after its first operation and before its
    last. -/
def Fits : Sys → Event → Prop
  | .on info _ _, .save buf => buf.length = area.size ∧ info.validNode.timestamp + 1 < 2 ^ 15
  | .on info _ _, .cutSave buf j =>
    buf.length = area.size ∧ info.validNode.timestamp + 1 < 2 ^ 15 ∧
      (info.validNode.powerAbnormal = true → j = 0 ∨ savePages mtd area.size + 2 ≤ j)
  | _, _ => True

/-- The runs of the device, from an area without tags, in which each event satisfies the
    condition. -/
inductive Run (ok : Sys → Event → Prop) : Sys → Option (List UInt8) → Prop
  | init {c : Cells Page} (h : ∀ b, area.Has b → stamp mtd area c b = none) : Run ok (.off c) none
  | tail {sys sys' : Sys} {last last' : Option (List UInt8)} {e : Event} : Run ok sys last →
      ok sys e → step mtd blockCnt area sys last e = some (sys', last') → Run ok sys' last'

/-- A scan of the area followed by a read returns the record, or an error if there is none. -/
def Recovers (c : Cells Page) : Option (List UInt8) → Prop
  | none => ∃ ret s, mesonRsvScan mtd blockCnt ⟨area, ∅, .ofCells c []⟩ = some (ret, s) ∧
      s.mesonRsvRead mtd blockCnt = some (.failed, s, [])
  | some rec => ∃ s, mesonRsvScan mtd blockCnt ⟨area, ∅, .ofCells c []⟩ = some (.ok, s) ∧
      s.mesonRsvRead mtd blockCnt = some (.ok, s, rec)

/-- What a run keeps. -/
def Sys.Inv (last : Option (List UInt8)) : Sys → Prop
  | .on info mask c => Mounted mtd blockCnt area c [] ⟨info, mask, .ofCells c []⟩ last
  | .off c => Recoverable mtd area c last

end

section

variable {mtd : MtdInfo} {blockCnt : ℕ} {area : RsvInfo} {s : RsvState} {c : Cells Page}
  {ops : List (Op Page)} {last last' : Option (List UInt8)} {sys sys' : Sys} {e : Event}

/-- The record of the operations is of no use once the area is mounted. -/
theorem Mounted.forget (h : Mounted mtd blockCnt area c ops s last) :
    Mounted mtd blockCnt area c [] ⟨s.info, s.freenodebitmask, .ofCells c []⟩ last := by
  refine ⟨h.is, rfl, ⟨h.ok.linked, h.ok.within⟩, h.all, h.ecc, ?_⟩
  cases last with
  | none | some => exact h.knows

theorem Sys.Inv.recoverable (h : sys.Inv mtd blockCnt area last) :
    Recoverable mtd area sys.cells last := by
  cases sys with
  | on info mask c => exact Mounted.recoverable h
  | off c => exact h

/-- A cut in a save. -/
theorem Mounted.cut {info : RsvInfo} {mask : Finset ℕ} {buf : List UInt8} {j : ℕ} {ret : Ret}
    (hs : area.Sound mtd blockCnt)
    (h : Mounted mtd blockCnt area c [] ⟨info, mask, .ofCells c []⟩ last)
    (hfit : Fits mtd area (.on info mask c) (.cutSave buf j))
    (hsave : mesonRsvSave mtd blockCnt ⟨info, mask, .ofCells c []⟩ buf = some (ret, s)) :
    Recoverable mtd area (c.replay mtd.pagesPerBlk (s.nand.ops.take j))
      (if ret = .ok ∧ s.nand.ops.length ≤ j then some buf else last) := by
  obtain ⟨hbuf, hts, hcut⟩ := hfit
  obtain ⟨es, s', hsave', hm, hlen, hpart⟩ := h.save hs hbuf hts
  rw [hsave'] at hsave
  obtain ⟨rfl, rfl⟩ := Prod.mk.inj (Option.some.inj hsave)
  have hops : s'.nand.ops = es := by
    rw [hm.nand]
    rfl
  rw [hops]
  rcases Nat.lt_or_ge j es.length with hlt | hge
  · rw [if_neg fun hdone => hlt.not_ge hdone.2]
    refine hpart j hlt fun hp => (hcut hp).resolve_right fun hle => ?_
    rw [hlen hp] at hlt
    omega
  · rw [if_pos ⟨rfl, hge⟩, List.take_of_length_le hge]
    exact hm.recoverable

section

variable (hf : area = .fresh area.startBlock area.endBlock area.size area.name)
include hf

/-- An area as `meson_rsv_init` sets it up, at a boot. -/
theorem unmounted_fresh : Unmounted blockCnt area c [] ⟨area, ∅, .ofCells c []⟩ := by
  rw [hf]
  exact ⟨⟨rfl, rfl, rfl, rfl⟩, rfl,
    ⟨List.nodup_nil, fun _ hi => (nomatch hi), fun i => by simp [RsvInfo.nodes, RsvInfo.fresh],
      fun _ hi => (nomatch hi)⟩, ⟨rfl, neg_one_lt_zero⟩, rfl, rfl, rfl, rfl⟩

variable (hs : area.Sound mtd blockCnt)
include hs

/-- A recoverable area recovers. -/
theorem Recoverable.recovers (h : Recoverable mtd area c last) :
    Recovers mtd blockCnt area c last := by
  obtain ⟨es, s, hscan, hm, -⟩ := (unmounted_fresh hf).mesonRsvScan hs h
  cases last with
  | none => exact ⟨_, s, hscan, hm.read_none⟩
  | some rec => exact ⟨s, hscan, hm.read hs⟩

theorem Sys.Inv.step (h : sys.Inv mtd blockCnt area last) (hfit : Fits mtd area sys e)
    (hstep : Mtd.step mtd blockCnt area sys last e = some (sys', last')) :
    sys'.Inv mtd blockCnt area last' := by
  cases sys with
  | on info mask c =>
    cases e with
    | save buf =>
      obtain ⟨⟨ret, s⟩, hsave, heq⟩ := Option.map_eq_some_iff.1 hstep
      cases heq
      obtain ⟨es, s', hsave', hm, -⟩ := Mounted.save hs h hfit.1 hfit.2
      rw [hsave'] at hsave
      cases hsave
      rw [if_pos rfl, hm.nand]
      exact hm.forget
    | cutSave buf j =>
      obtain ⟨⟨ret, s⟩, hsave, heq⟩ := Option.map_eq_some_iff.1 hstep
      cases heq
      exact Mounted.cut hs h hfit hsave
    | boot | cutBoot => cases hstep
  | off c =>
    obtain ⟨es, s', hscan, hm, hpart⟩ := (unmounted_fresh hf).mesonRsvScan hs h
    cases e with
    | save | cutSave => cases hstep
    | boot =>
      rw [Mtd.step, hscan] at hstep
      cases hstep
      rw [hm.nand]
      exact hm.forget
    | cutBoot j =>
      rw [Mtd.step, hscan] at hstep
      cases hstep
      have hops : s'.nand.ops = es := by
        rw [hm.nand]
        rfl
      rw [hops]
      exact hpart j

theorem Run.inv (h : Run mtd blockCnt area (Fits mtd area) sys last) :
    sys.Inv mtd blockCnt area last := by
  induction h with
  | init hc =>
    intro b t hb hst
    rw [hc b hb] at hst
    cases hst
  | tail _ hfit hstep ih => exact ih.step hf hs hfit hstep

end

/-- After every run whose events keep to the condition, a scan followed by a read returns the
    record of the last save that completed; and while the device is on, a save of a record
    completes. -/
theorem crash_consistent (hs : area.Sound mtd blockCnt)
    (hf : area = .fresh area.startBlock area.endBlock area.size area.name)
    (h : Run mtd blockCnt area (Fits mtd area) sys last) :
    Recovers mtd blockCnt area sys.cells last ∧ ∀ buf, Fits mtd area sys (.save buf) →
        ∀ info mask c, sys = .on info mask c →
          ∃ s, mesonRsvSave mtd blockCnt ⟨info, mask, .ofCells c []⟩ buf = some (.ok, s) := by
  have hinv := h.inv hf hs
  refine ⟨hinv.recoverable.recovers hf hs, ?_⟩
  rintro buf hfit info mask c rfl
  obtain ⟨es, s, hsave, -⟩ := Mounted.save hs hinv hfit.1 hfit.2
  exact ⟨s, hsave⟩

end

/-! ## Runs on a small device -/

instance (mtd : MtdInfo) (area : RsvInfo) (sys : Sys) (e : Event) :
    Decidable (Fits mtd area sys e) :=
  match sys, e with
  | .on _ _ _, .save _ => inferInstanceAs (Decidable (_ ∧ _))
  | .on _ _ _, .cutSave _ _ => inferInstanceAs (Decidable (_ ∧ _ ∧ (_ → _)))
  | .on _ _ _, .boot => inferInstanceAs (Decidable True)
  | .on _ _ _, .cutBoot _ => inferInstanceAs (Decidable True)
  | .off _, _ => inferInstanceAs (Decidable True)

/-- The events of a list, as long as they satisfy the condition. -/
def steps (mtd : MtdInfo) (blockCnt : ℕ) (area : RsvInfo) (ok : Sys → Event → Prop)
    [∀ sys e, Decidable (ok sys e)] :
    List Event → Sys × Option (List UInt8) → Option (Sys × Option (List UInt8))
  | [], p => some p
  | e :: es, p =>
    if ok p.1 e then (step mtd blockCnt area p.1 p.2 e).bind (steps mtd blockCnt area ok es)
    else none

theorem Run.steps {mtd : MtdInfo} {blockCnt : ℕ} {area : RsvInfo} {ok : Sys → Event → Prop}
    [∀ sys e, Decidable (ok sys e)] {es : List Event} {p p' : Sys × Option (List UInt8)}
    (h : Run mtd blockCnt area ok p.1 p.2) (hs : Mtd.steps mtd blockCnt area ok es p = some p') :
    Run mtd blockCnt area ok p'.1 p'.2 := by
  induction es generalizing p with
  | nil =>
    cases hs
    exact h
  | cons e es ih =>
    rw [Mtd.steps] at hs
    split at hs
    · next hok =>
      obtain ⟨p₁, hstep, hs⟩ := Option.bind_eq_some_iff.1 hs
      exact ih (h.tail hok hstep) hs
    · cases hs

/-- Pages of one byte, four to a block. -/
def fourPages : MtdInfo := ⟨0, 2⟩

/-- Two blocks for records of two pages. -/
def twoBlocks : RsvInfo := .fresh 24 26 2 0x6e656e76

theorem twoBlocks_sound : twoBlocks.Sound fourPages 48 :=
  ⟨⟨by decide, by decide, .inr (.inr (by decide))⟩, by decide, by decide, by decide,
    .inr (by decide), by decide, by decide⟩

theorem run_blank (ok : Sys → Event → Prop) :
    Run fourPages 48 twoBlocks ok (.off fun _ => none) none := .init fun _ _ => rfl

/-- A save that is cut after the first page leaves the record of the save before. -/
theorem crash_consistent_twoBlocks : ∃ sys,
    Run fourPages 48 twoBlocks (Fits fourPages twoBlocks) sys (some [1, 2]) ∧
      Recovers fourPages 48 twoBlocks sys.cells (some [1, 2]) := by
  have hrun : (steps fourPages 48 twoBlocks (Fits fourPages twoBlocks)
      [.boot, .save [1, 2], .cutSave [3, 4] 1] (.off fun _ => none, none)).map (·.2) =
      some (some [1, 2]) := by decide +kernel
  obtain ⟨⟨sys, last⟩, hsteps, hlast⟩ := Option.map_eq_some_iff.1 hrun
  obtain rfl : last = some [1, 2] := hlast
  have hr := (run_blank _).steps hsteps
  exact ⟨sys, hr, (crash_consistent twoBlocks_sound rfl hr).1⟩

/-- A save is cut after its first page, and so is the next one, after its first operation: it has
    erased the block of the last record that was complete, and no record is left. -/
theorem lost_record : ∃ sys, Run fourPages 48 twoBlocks (fun _ _ => True) sys (some [1, 2]) ∧
    ¬Recovers fourPages 48 twoBlocks sys.cells (some [1, 2]) := by
  have hrun : (steps fourPages 48 twoBlocks (fun _ _ => True)
      [.boot, .save [1, 2], .cutSave [3, 4] 1, .boot, .cutSave [5, 6] 1]
      (.off fun _ => none, none)).map (fun p => (p.2,
        (mesonRsvScan fourPages 48 ⟨twoBlocks, ∅, .ofCells p.1.cells []⟩).map (·.1))) =
      some (some [1, 2], some .failed) := by decide +kernel
  obtain ⟨⟨sys, last⟩, hsteps, heq⟩ := Option.map_eq_some_iff.1 hrun
  obtain ⟨hlast, hscan⟩ := Prod.mk.inj heq
  obtain rfl : last = some [1, 2] := hlast
  refine ⟨sys, (run_blank _).steps hsteps, ?_⟩
  rintro ⟨s, hs, -⟩
  rw [hs] at hscan
  cases hscan

end CommonDrivers.Mtd
