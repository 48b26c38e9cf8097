import CommonDrivers.Mtd.RsvRecords

/-!
# Scanning a reserved area

The first loop of `meson_rsv_scan` sorts the blocks of the area: the one with the newest stamp
becomes the valid one, and the others go to the free list (`Unmounted.scanBlocks`). The second
looks for the last complete record of the valid block; if there is none, the block is erased and
the scan starts again.

On a device that does not fail, the scan of a recoverable area returns with the area mounted
(`Unmounted.scan`): its record can be read, and no fragment is left in another block.
-/

namespace CommonDrivers.Mtd

open Flash RsvState

/-! ## The first loop of a scan -/

/-- The description of the area is the same, whatever has been found in it. -/
structure RsvInfo.Is (area info : RsvInfo) : Prop where
  startBlock : info.startBlock = area.startBlock
  endBlock : info.endBlock = area.endBlock
  size : info.size = area.size
  name : info.name = area.name

section

open List Finset

variable {mtd : MtdInfo} {blockCnt : ℕ} {area : RsvInfo} {s s' : RsvState} {c : Cells Page}
  {ops : List (Op Page)} {k : ℕ}

theorem RsvInfo.Is.sameArea (h : area.Is s.info) (hs : SameArea s s') : area.Is s'.info :=
  ⟨hs.startBlock.trans h.startBlock, hs.endBlock.trans h.endBlock, hs.size.trans h.size,
    hs.name.trans h.name⟩

theorem RsvInfo.Is.oobOf (h : area.Is s.info) (page : Option Page) :
    RsvState.oobOf s.info page = RsvState.oobOf area page := by
  rw [RsvState.oobOf, RsvState.oobOf, h.name]

theorem RsvInfo.Is.placed (h : area.Is s.info) (hp : area.Placed) : s.info.Placed := by
  refine ⟨?_, ?_, ?_⟩
  · rw [h.startBlock, h.endBlock]
    exact hp.lt
  · rw [h.endBlock]
    exact hp.le
  · rw [h.startBlock, h.endBlock, h.name]
    exact hp.bbt

/-- There is a node for a block as long as the lists have fewer blocks than the pool has nodes. -/
theorem exists_link (blk ec : ℤ) (hlt : s.freenodebitmask.card < blockCnt) :
    ∃ s', s.link blockCnt blk ec = .ok s' := by
  rw [← card_range blockCnt] at hlt
  obtain ⟨i, hi, hmask⟩ := exists_mem_notMem_of_card_lt_card hlt
  have hfound : ((List.range blockCnt).find? (· ∉ s.freenodebitmask)).isSome = true :=
    find?_isSome.2 ⟨i, List.mem_range.2 (Finset.mem_range.1 hi), decide_eq_true hmask⟩
  obtain ⟨j, hj⟩ := Option.isSome_iff_exists.1 hfound
  rw [link, getFreeNode, hj]
  exact ⟨_, rfl⟩

/-- The blocks of an area are not more than its range has. -/
theorem RsvState.Ok.length_blocks_le {lo hi : ℤ} (h : s.Ok blockCnt ∅ lo hi) :
    s.info.blocks.length ≤ (hi - lo).toNat := by
  have hsub : s.info.blocks.toFinset ⊆ Finset.Ico lo hi := by
    intro b hb
    exact mem_Ico.2 (h.within.inside b (mem_toFinset.1 hb))
  calc s.info.blocks.length
      = s.info.blocks.toFinset.card := (toFinset_card_of_nodup h.within.nodup).symm
    _ ≤ (Finset.Ico lo hi).card := card_le_card hsub
    _ = (hi - lo).toNat := Int.card_Ico lo hi

/-- Every node in use is one of the free list. -/
theorem RsvState.Ok.card_le {lo hi : ℤ} (h : s.Ok blockCnt ∅ lo hi) :
    s.freenodebitmask.card ≤ s.info.freeNode.length := by
  have hmask : s.freenodebitmask = s.info.nodes.toFinset := by
    ext i
    rw [h.linked.mem_iff, mem_toFinset]
    exact or_iff_right (notMem_empty i)
  rw [hmask]
  exact (toFinset_card_le _).trans (length_map _).le

/-- The nodes in use are not more than the blocks of the area, without the valid one. -/
theorem RsvState.Ok.card_lt {lo hi : ℤ} (h : s.Ok blockCnt ∅ lo hi) :
    s.freenodebitmask.card + (if 0 ≤ s.info.validNode.phyBlkAddr then 1 else 0) ≤
      (hi - lo).toNat := by
  have hle := h.length_blocks_le
  have hcard := h.card_le
  rw [RsvInfo.blocks, length_append, length_map] at hle
  split_ifs at hle ⊢ with hpos
  · rw [length_singleton] at hle
    omega
  · omega

/-- What sorting a block does to the valid node: it stays, or the block takes its place. -/
theorem sortBlock_chosen {blk : ℤ} {page : Option Page}
    (h : s.sortBlock blockCnt blk page = .ok s') :
    (RsvState.oobOf s.info page = none ∧ s'.info.valid = s.info.valid ∧
      s'.info.validNode = s.clearStatus.info.validNode) ∨
    (∃ oob, RsvState.oobOf s.info page = some oob ∧ s'.info.valid = true ∧
      (0 ≤ s.info.validNode.phyBlkAddr ∧ (oob.timestamp : ℤ) ≤ s.info.validNode.timestamp ∧
          s'.info.validNode = s.clearStatus.info.validNode ∨
        (s.info.validNode.phyBlkAddr < 0 ∨ s.info.validNode.timestamp < oob.timestamp) ∧
          s'.info.validNode = ⟨oob.ec, blk, 0, oob.timestamp, false, false⟩)) := by
  rw [sortBlock] at h
  dsimp only at h
  split at h
  · next oob hoob =>
    refine .inr ⟨oob, hoob, ?_⟩
    split at h
    · next hpos =>
      split at h
      · next hnew =>
        split at h
        · cases h
        next s₁ hlink =>
        cases h
        obtain ⟨index, mask, -, rfl⟩ := link_eq_ok hlink
        exact ⟨rfl, .inr ⟨.inr hnew, rfl⟩⟩
      · next hold =>
        obtain ⟨index, mask, -, rfl⟩ := link_eq_ok h
        exact ⟨rfl, .inl ⟨hpos, not_lt.1 hold, rfl⟩⟩
    · next hneg =>
      cases h
      exact ⟨rfl, .inr ⟨.inl (not_le.1 hneg), rfl⟩⟩
  · next hoob =>
    obtain ⟨index, mask, -, rfl⟩ := link_eq_ok h
    exact .inl ⟨hoob, rfl, rfl⟩

/-- A block is sorted as long as there is a node for it. -/
theorem exists_sortBlock (blk : ℤ) (page : Option Page)
    (hlt : s.freenodebitmask.card < blockCnt) : ∃ s', s.sortBlock blockCnt blk page = .ok s' := by
  rw [sortBlock]
  dsimp only
  split
  · split
    · split
      · obtain ⟨s₁, hlink⟩ := exists_link (s := s.clearStatus.markValid)
          s.clearStatus.markValid.info.validNode.phyBlkAddr
          s.clearStatus.markValid.info.validNode.ec hlt
        rw [hlink]
        exact ⟨_, rfl⟩
      · exact exists_link _ _ hlt
    · exact ⟨_, rfl⟩
  · exact exists_link _ _ hlt

/-- Of the blocks between the bounds, `blk` has the newest stamp, if any block has one. -/
structure Newest (st : ℤ → Option ℕ) (lo hi : ℤ) (found : Bool) (blk timestamp : ℤ) : Prop where
  none : found = false → ∀ b, lo ≤ b → b < hi → st b = none
  some : found = true → ∃ t : ℕ, timestamp = t ∧ st blk = some t ∧
    ∀ b t', lo ≤ b → b < hi → st b = some t' → t' ≤ t

namespace Newest

variable {st : ℤ → Option ℕ} {lo hi blk ts : ℤ} {found : Bool}

/-- The next block has no stamp, or is not newer. -/
theorem keep (h : Newest st lo hi found blk ts) (hst : ∀ t ∈ st hi, found = true ∧ (t : ℤ) ≤ ts) :
    Newest st lo (hi + 1) found blk ts where
  none hf b hb hb' := by
    rcases (Int.lt_add_one_iff.1 hb').eq_or_lt with rfl | hb'
    · exact Option.eq_none_iff_forall_not_mem.2 fun t ht =>
        Bool.false_ne_true (hf.symm.trans (hst t ht).1)
    · exact h.none hf b hb hb'
  some hf := by
    obtain ⟨t, hts, hblk, hmax⟩ := h.some hf
    refine ⟨t, hts, hblk, fun b t' hb hb' hbt => ?_⟩
    rcases (Int.lt_add_one_iff.1 hb').eq_or_lt with rfl | hb'
    · have := (hst t' hbt).2
      omega
    · exact hmax b t' hb hb' hbt

/-- The next block is newer, or the first with a stamp. -/
theorem replace (h : Newest st lo hi found blk ts) {t : ℕ} (hst : st hi = .some t)
    (hlt : found = true → ts < t) : Newest st lo (hi + 1) true hi t where
  none hf := by cases hf
  some _ := by
    refine ⟨t, rfl, hst, fun b t' hb hb' hbt => ?_⟩
    rcases (Int.lt_add_one_iff.1 hb').eq_or_lt with rfl | hb'
    · rw [hst] at hbt
      exact (Option.some.inj hbt).ge
    cases found with
    | false =>
      rw [h.none rfl b hb hb'] at hbt
      cases hbt
    | true =>
      obtain ⟨t₀, hts, -, hmax⟩ := h.some rfl
      have hle := hmax b t' hb hb' hbt
      have := hlt rfl
      omega

end Newest

variable (mtd blockCnt area) in
/-- The blocks of the area before block `k` have been sorted: the valid one has the newest
    stamp. -/
structure Scanned (c : Cells Page) (ops : List (Op Page)) (k : ℕ) (s : RsvState) : Prop where
  is : area.Is s.info
  nand : s.nand = .ofCells c ops
  ok : s.Ok blockCnt ∅ area.startBlock k
  all : ∀ b : ℤ, area.startBlock ≤ b → b < k → b ∈ s.info.blocks
  status : s.info.validNode.powerAbnormal = false ∧ s.info.validNode.eccAbnormal = false
  invalid : s.info.valid = false → s.info.validNode.phyBlkAddr < 0 ∧ s.info.validNode.timestamp = 0
  page : s.info.valid = true → s.info.validNode.phyPageAddr = 0
  newest : Newest (stamp mtd area c) area.startBlock k s.info.valid s.info.validNode.phyBlkAddr
    s.info.validNode.timestamp

theorem read_scanOob {size tries k : ℕ} : scanOob mtd size tries (.ofCells c ops)
    (k * mtd.erasesize) = (some (c (k * mtd.pagesPerBlk)), .ofCells c ops) := by
  have hdiv : k * mtd.erasesize / mtd.writesize = k * mtd.pagesPerBlk := by
    rw [MtdInfo.erasesize, mul_left_comm]
    exact Nat.mul_div_cancel_left _ mtd.writesize_pos
  rw [scanOob.eq_def]
  simp only [hdiv, Device.read_ofCells, Nat.cast_mul]

namespace Scanned

variable (h : Scanned mtd blockCnt area c ops k s)
include h

theorem clearStatus_validNode : s.clearStatus.info.validNode = s.info.validNode := by
  have hclear : ∀ v : ValidNode, v.powerAbnormal = false → v.eccAbnormal = false →
      { v with powerAbnormal := false, eccAbnormal := false } = v := by
    rintro ⟨⟩ rfl rfl
    rfl
  exact hclear _ h.status.1 h.status.2

/-- What the sorting of a block does to the newest stamp. -/
theorem newest_sortBlock (hsort : s.sortBlock blockCnt k (c (k * mtd.pagesPerBlk)) = .ok s') :
    (s'.info.validNode.powerAbnormal = false ∧ s'.info.validNode.eccAbnormal = false) ∧
      (s'.info.valid = false → s'.info.validNode.phyBlkAddr < 0 ∧ s'.info.validNode.timestamp = 0) ∧
      (s'.info.valid = true → s'.info.validNode.phyPageAddr = 0) ∧
      Newest (stamp mtd area c) area.startBlock (k + 1) s'.info.valid
        s'.info.validNode.phyBlkAddr s'.info.validNode.timestamp := by
  have hstamp : stamp mtd area c k =
      (RsvState.oobOf s.info (c (k * mtd.pagesPerBlk))).map OobInfo.timestamp := by
    rw [stamp, h.is.oobOf]
  have hchosen := sortBlock_chosen hsort
  rw [h.clearStatus_validNode] at hchosen
  rcases hchosen with ⟨hoob, hv, hnode⟩ | ⟨oob, hoob, hv, ⟨hpos, hold, hnode⟩ | ⟨hnew, hnode⟩⟩
  · -- the block has no tag
    rw [hoob] at hstamp
    rw [hv, hnode]
    refine ⟨h.status, h.invalid, h.page, h.newest.keep fun t ht => ?_⟩
    cases hstamp.symm.trans ht
  · -- the block is not newer than the valid one
    have hvalid : s.info.valid = true :=
      Bool.of_not_eq_false fun hf => absurd (h.invalid hf).1 hpos.not_gt
    rw [hoob] at hstamp
    rw [hv.trans hvalid.symm, hnode]
    refine ⟨h.status, h.invalid, h.page, h.newest.keep fun t ht => ⟨hvalid, ?_⟩⟩
    cases hstamp.symm.trans ht
    exact hold
  · rw [hoob] at hstamp
    rw [hv, hnode]
    refine ⟨⟨rfl, rfl⟩, fun hf => (by cases hf), fun _ => rfl, h.newest.replace hstamp fun hf => ?_⟩
    exact hnew.resolve_left (h.ok.within.valid hf).not_gt

variable (hs : area.Sound mtd blockCnt) (hk : area.startBlock ≤ k)
include hs hk

/-- On a device that does not fail, a block is sorted by the tag of its first page. -/
theorem scanBlock_eq (hlt : k < area.endBlock) :
    s.scanBlock mtd blockCnt k = s.sortBlock blockCnt k (c (k * mtd.pagesPerBlk)) := by
  have hle := hs.le
  rw [scanBlock, (h.is.placed hs.toPlaced).skipBbtBlocks (h.is.startBlock ▸ hk)
    (h.is.endBlock ▸ hlt), s16_natCast (by omega), h.nand, read_scanOob]
  rw [← h.nand]

theorem step (hlt : k < area.endBlock) :
    ∃ s', s.scanBlock mtd blockCnt k = .ok s' ∧ Scanned mtd blockCnt area c ops (k + 1) s' := by
  have hcard : s.freenodebitmask.card < blockCnt := by
    have h₁ := h.ok.card_lt
    have h₂ := hs.nodes
    omega
  obtain ⟨s', hsort⟩ := exists_sortBlock k (c (k * mtd.pagesPerBlk)) hcard
  have hscan := (h.scanBlock_eq hs hk hlt).trans hsort
  have hsorted := h.ok.sortBlock (Int.natCast_nonneg k) (c (k * mtd.pagesPerBlk))
  rw [hsort] at hsorted
  obtain ⟨-, hperm, hsame, hnand, -⟩ := hsorted
  have hok := RsvState.Ok.scanBlock mtd (h.is.placed hs.toPlaced) (h.is.startBlock ▸ hk)
    (h.is.endBlock ▸ hlt) (h.is.startBlock.symm ▸ h.ok)
  rw [hscan, h.is.startBlock] at hok
  obtain ⟨hstatus, hinvalid, hpage, hnewest⟩ := h.newest_sortBlock hsort
  refine ⟨s', hscan, h.is.sameArea hsame, hnand.trans h.nand, hok.1, fun b hb hbk => ?_, hstatus,
    hinvalid, hpage, ?_⟩
  · refine hperm.mem_iff.2 (mem_cons.2 ?_)
    rw [Nat.cast_succ] at hbk
    rcases (Int.lt_add_one_iff.1 hbk).eq_or_lt with heq | hbk
    · exact .inl heq
    · exact .inr (h.all b hb hbk)
  · exact hnewest

/-- The loop over the blocks from `k` on. -/
theorem foldlM {n : ℕ} (hn : k + n = area.endBlock) :
    ∃ s', (List.range' k n).foldlM (scanBlock mtd blockCnt) s = .ok s' ∧
      Scanned mtd blockCnt area c ops area.endBlock s' := by
  induction n generalizing s k with
  | zero =>
    obtain rfl : k = area.endBlock := hn
    exact ⟨s, rfl, h⟩
  | succ n ih =>
    obtain ⟨s₁, hscan, h₁⟩ := h.step hs hk (by omega)
    obtain ⟨s₂, hfold, h₂⟩ := ih h₁ (by omega) (by omega)
    rw [range'_succ, foldlM_cons, hscan]
    exact ⟨s₂, hfold, h₂⟩

end Scanned

variable (blockCnt area) in
/-- The area is ready to be scanned: nothing of it is known. -/
structure Unmounted (c : Cells Page) (ops : List (Op Page)) (s : RsvState) : Prop where
  is : area.Is s.info
  nand : s.nand = .ofCells c ops
  linked : Linked blockCnt ∅ s.info.nodes s.freenodebitmask
  unlisted : s.Unlisted
  valid : s.info.valid = false
  timestamp : s.info.validNode.timestamp = 0
  status : s.info.validNode.powerAbnormal = false ∧ s.info.validNode.eccAbnormal = false

/-- The first loop of a scan sorts all blocks of the area. -/
theorem Unmounted.scanBlocks (hs : area.Sound mtd blockCnt) (h : Unmounted blockCnt area c ops s) :
    ∃ s', s.scanBlocks mtd blockCnt = .ok s' ∧
      Scanned mtd blockCnt area c ops area.endBlock s' := by
  have hlt := hs.lt
  rw [RsvState.scanBlocks, h.is.startBlock, h.is.endBlock, max_eq_right (by omega)]
  refine Scanned.foldlM ?_ hs le_rfl (by omega)
  have hblocks := h.unlisted.blocks
  have hno : s.info.valid ≠ true := ne_true_of_eq_false h.valid
  refine ⟨h.is, h.nand, ⟨h.linked, ?_, ?_, fun hv => absurd hv hno⟩, fun b hb hb' => by omega,
    h.status, fun _ => ⟨h.unlisted.blk, h.timestamp⟩, fun hv => absurd hv hno, ?_,
    fun hv => absurd hv hno⟩
  · rw [hblocks]
    exact nodup_nil
  · rw [hblocks]
    exact fun b hb => nomatch hb
  · omega

end

/-! ## The pages of the valid block -/

section

open List Option Nat

variable {mtd : MtdInfo} {c : Cells Page} {pgs : List Page} {good : Finset ℕ}

/-- The loop over the pages of a block stops at the first erased one. -/
theorem scanPages_holds (info : RsvInfo) (mask : Finset ℕ) (ops : List (Op Page)) (bad : Bool)
    (good : Finset ℕ) (h : c.Holds mtd.pagesPerBlk info.validNode.phyBlkAddr pgs)
    (htags : ∀ p ∈ pgs, p.oob.name = info.name) (hlen : pgs.length ≤ mtd.pagesPerBlk)
    (h256 : mtd.pagesPerBlk ≤ 256) {i left : ℕ} (hi : i ≤ pgs.length)
    (hleft : i + left = mtd.pagesPerBlk) :
    ∃ g, scanPages mtd i left ⟨⟨info, mask, .ofCells c ops⟩, bad, good⟩ =
        some ⟨setPage ⟨info, mask, .ofCells c ops⟩
          (if i < pgs.length then pgs.length - 1 else info.validNode.phyPageAddr), bad, g⟩ ∧
      ∀ j, j ∈ g ↔ j ∈ good ∨ i ≤ j ∧ j < pgs.length := by
  induction left generalizing i info good with
  | zero =>
    rw [if_neg (by omega)]
    refine ⟨good, rfl, fun j => ?_⟩
    rw [or_iff_left]
    omega
  | succ left ih =>
    have hpage := h i (by omega)
    rw [scanPages, Device.read_ofCells, hpage]
    dsimp only
    rcases hi.eq_or_lt with rfl | hlt
    · -- the first erased page
      rw [List.getElem?_eq_none le_rfl, if_neg (lt_irrefl _)]
      refine ⟨good, rfl, fun j => ?_⟩
      rw [or_iff_left]
      omega
    have htag := oobOf_some (htags _ (getElem_mem hlt))
    rw [List.getElem?_eq_getElem hlt, htag, isSome_some, if_pos rfl, if_neg (by omega),
      if_pos hlt]
    obtain ⟨g, hscan, hg⟩ := ih (setPage ⟨info, mask, .ofCells c ops⟩ i).info
      (insert i good) (i := i + 1) h htags (by omega) (by omega)
    refine ⟨g, hscan.trans ?_, fun j => ?_⟩
    · -- the page is that of the last round, this one or a later one
      rcases lt_or_ge (i + 1) pgs.length with hlt' | hge
      · rw [if_pos hlt']
        rfl
      · have hi' : (pgs.length : ℤ) - 1 = i := by omega
        rw [if_neg hge.not_gt, hi']
        rfl
    rw [hg, Finset.mem_insert]
    constructor
    · rintro ((rfl | hj) | ⟨hj, hj'⟩)
      · exact .inr ⟨le_rfl, hlt⟩
      · exact .inl hj
      · exact .inr ⟨by omega, hj'⟩
    rintro (hj | ⟨hj, hj'⟩)
    · exact .inl (.inr hj)
    · rcases hj.eq_or_lt with rfl | hj
      · exact .inl (.inl rfl)
      · exact .inr ⟨hj, hj'⟩

theorem allGood_true {i left : ℕ} (h256 : i + left ≤ 256)
    (h : ∀ j, i ≤ j → j < i + left → j ∈ good) : allGood good i left = some true := by
  induction left generalizing i with
  | zero => rfl
  | succ left ih =>
    rw [allGood, if_neg (by omega), if_pos (h i le_rfl (by omega))]
    exact ih (by omega) fun j hj hj' => h j (by omega) (by omega)

theorem allGood_false {i left j : ℕ} (h256 : i + left ≤ 256) (hi : i ≤ j) (hj : j < i + left)
    (h : j ∉ good) : allGood good i left = some false := by
  induction left generalizing i with
  | zero => omega
  | succ left ih =>
    rw [allGood, if_neg (by omega)]
    split
    · next hmem =>
      have hne : i ≠ j := fun he => h (he ▸ hmem)
      exact ih (by omega) (by omega) (by omega)
    · rfl

/-- The pages marked good are those of the first `k` records, and some that are not a whole
    record. -/
structure GoodRecords (n k : ℕ) (good : Finset ℕ) : Prop where
  mem : ∀ j < k * n, j ∈ good
  notMem : ∀ i, k ≤ i → i * n + (n - 1) ∉ good

/-- One round of the loop over the records. -/
theorem GoodRecords.checkGood {n k i : ℕ} {p : Pages} (h : GoodRecords n k p.good) (hn : 0 < n)
    (h256 : i * n + n ≤ 256) : RsvState.checkGood n p i =
      some (if i < k then ⟨p.state.setPage (n + i * n - 1), false, p.good⟩ else p) := by
  rw [RsvState.checkGood]
  split_ifs with hik
  · rw [allGood_true h256 fun j _ hj => h.mem j ?_]
    calc j < i * n + n := hj
      _ = (i + 1) * n := (succ_mul i n).symm
      _ ≤ k * n := mul_le_mul_right n hik
  · rw [allGood_false h256 (le_add_right _ _) (by omega) (h.notMem i (not_lt.1 hik))]

/-- The loop over the records finds the last complete one. -/
theorem GoodRecords.foldlM {n k q : ℕ} {p : Pages} (h : GoodRecords n k p.good) (hn : 0 < n)
    (hq : q * n ≤ 256) : (List.range q).foldlM (RsvState.checkGood n) p =
      some (if min q k = 0 then p
        else ⟨p.state.setPage (((min q k * n : ℕ) : ℤ) - 1), false, p.good⟩) := by
  induction q with
  | zero =>
    rfl
  | succ q ih =>
    rw [succ_mul] at hq
    rw [range_succ, foldlM_append, ih (by omega), bind_eq_bind, bind_some,
      foldlM_cons, GoodRecords.checkGood (k := k) (by split_ifs <;> exact h) hn hq,
      bind_eq_bind, bind_some, foldlM_nil]
    rcases lt_or_ge q k with hlt | hge
    · have hmin : min (q + 1) k = q + 1 := by omega
      have hpage : (n : ℤ) + q * n - 1 = ((q + 1) * n : ℕ) - 1 := by
        push_cast
        ring
      rw [if_pos hlt, hmin, if_neg (succ_ne_zero q), hpage]
      split_ifs <;> rfl
    · have hmin : min (q + 1) k = min q k := by omega
      rw [if_neg hge.not_gt, hmin]
      rfl

end

section

open Nat

variable {mtd : MtdInfo} {blockCnt : ℕ} {area : RsvInfo} {s : RsvState} {c : Cells Page} {b : ℤ}
  {ops : List (Op Page)} {pgs : List Page} {t k m : ℕ} {bad : Bool} {good g : Finset ℕ}

/-- Marks left from a block without a complete record do no harm. -/
def Stale (n : ℕ) (good : Finset ℕ) : Prop := ∀ j ∈ good, j + 1 < n

theorem Holding.goodRecords (h : Holding mtd area c b pgs t k m)
    (hst : Stale (savePages mtd area.size) good)
    (hg : ∀ j, j ∈ g ↔ j ∈ good ∨ 0 ≤ j ∧ j < pgs.length) :
    GoodRecords (savePages mtd area.size) k g := by
  have hlen := h.length
  have hlt := h.lt
  constructor
  · intro j hj
    exact (hg j).2 (.inr ⟨zero_le j, by omega⟩)
  intro i hi hmem
  have hki := mul_le_mul_right (savePages mtd area.size) hi
  rcases (hg _).1 hmem with hmem | ⟨-, hmem⟩
  · have := hst _ hmem
    omega
  · omega

section

variable (hs : area.Sound mtd blockCnt)
include hs

theorem checkLast_holding (h : Holding mtd area c b pgs t k m) :
    checkLast (savePages mtd area.size) ⟨s.setPage (pgs.length - 1), bad, g⟩ =
      if m = 0 then ⟨s.setPage (pgs.length - 1), bad, g⟩
      else ⟨(s.setPage (pgs.length - 1)).setPower, true, g⟩ := by
  have h256 := hs.pages
  have hle := h.le
  have hpage : u32 ((s.setPage (pgs.length - 1)).info.validNode.phyPageAddr + 1) = pgs.length := by
    change u32 ((pgs.length : ℤ) - 1 + 1) = _
    rw [sub_add_cancel]
    exact u32_natCast (by omega)
  have hmod : pgs.length % savePages mtd area.size = m := by
    rw [h.length, mul_add_mod_of_lt h.lt]
  rw [checkLast]
  rw [hpage, hmod, ite_not]

/-- The last complete record of the block is found, if there is one. -/
theorem findGood_holding (h : Holding mtd area c b pgs t k m) {p : Pages}
    (hg : GoodRecords (savePages mtd area.size) k p.good) :
    findGood mtd (savePages mtd area.size) p = some (if k = 0 then p
      else ⟨p.state.setPage (((k * savePages mtd area.size : ℕ) : ℤ) - 1), false, p.good⟩) := by
  have hn := savePages_pos mtd area.size
  have hle : k ≤ mtd.pagesPerBlk / savePages mtd area.size := by
    refine (le_div_iff_mul_le hn).2 ?_
    have := h.le
    have := h.length
    omega
  have hq := (div_mul_le_self mtd.pagesPerBlk (savePages mtd area.size)).trans hs.pages
  rw [findGood, hg.foldlM hn hq, min_eq_right hle]

theorem scanPageNum_setPage (his : area.Is s.info) (page : ℤ) :
    scanPageNum mtd (s.setPage page).info.size = savePages mtd area.size := by
  rw [← hs.scanPageNum_eq, ← his.size]
  rfl

theorem checkRecords_fragment (his : area.Is s.info) (h : Holding mtd area c b pgs t 0 m)
    (hm : m ≠ 0) (hg : GoodRecords (savePages mtd area.size) 0 g) :
    checkRecords mtd ⟨s.setPage (pgs.length - 1), bad, g⟩ =
      some ⟨(s.setPage (pgs.length - 1)).setPower, true, g⟩ := by
  rw [checkRecords]
  rw [scanPageNum_setPage hs his, checkLast_holding hs h, if_neg hm, if_pos rfl,
    findGood_holding hs h hg, if_pos rfl]

theorem checkRecords_current (his : area.Is s.info) (h : Holding mtd area c b pgs t (k + 1) m)
    (hg : GoodRecords (savePages mtd area.size) (k + 1) g) :
    checkRecords mtd ⟨s.setPage (pgs.length - 1), bad, g⟩ =
      some ⟨if m = 0 then s.setPage ((((k + 1) * savePages mtd area.size : ℕ) : ℤ) - 1)
        else (s.setPage ((((k + 1) * savePages mtd area.size : ℕ) : ℤ) - 1)).setPower,
        false, g⟩ := by
  rw [checkRecords]
  rw [scanPageNum_setPage hs his, checkLast_holding hs h]
  rcases eq_or_ne m 0 with rfl | hm
  · rw [if_pos rfl, if_pos rfl, findGood_holding hs h hg, if_neg (succ_ne_zero k)]
    have hlen : pgs.length = (k + 1) * savePages mtd area.size := h.length
    rw [hlen]
    cases bad <;> rfl
  · rw [if_neg hm, if_neg hm, if_pos rfl, findGood_holding hs h hg, if_neg (succ_ne_zero k)]
    rfl

end

end

/-! ## The result of a scan -/

section

variable (mtd : MtdInfo) (blockCnt : ℕ) (area : RsvInfo)

/-- What is known of the last record. -/
def Knows (c : Cells Page) (s : RsvState) : Option (List UInt8) → Prop
  | none => s.info.valid = false ∧ s.info.validNode.phyBlkAddr < 0 ∧
      s.info.validNode.timestamp = 0 ∧ s.info.validNode.powerAbnormal = false ∧
      ∀ b, area.Has b → stamp mtd area c b = none
  | some rec => s.info.valid = true ∧ ∃ t k m : ℕ,
      Current mtd area c s.info.validNode.phyBlkAddr t k m rec ∧
      s.info.validNode.phyPageAddr = (k * savePages mtd area.size : ℕ) ∧
      s.info.validNode.timestamp = t ∧ s.info.validNode.powerAbnormal = decide (m ≠ 0) ∧
      ∀ b t', area.Has b → b ≠ s.info.validNode.phyBlkAddr → stamp mtd area c b = some t' → t' < t

/-- The area has been scanned: its lists have all blocks, and the place of the last record is
    known. -/
structure Mounted (c : Cells Page) (ops : List (Op Page)) (s : RsvState)
    (last : Option (List UInt8)) : Prop where
  is : area.Is s.info
  nand : s.nand = .ofCells c ops
  ok : s.Ok blockCnt ∅ area.startBlock area.endBlock
  all : ∀ b, area.Has b → b ∈ s.info.blocks
  ecc : s.info.validNode.eccAbnormal = false
  knows : Knows mtd area c s last

end

section

open List Option Nat Finset

variable {mtd : MtdInfo} {blockCnt : ℕ} {area : RsvInfo} {s s' : RsvState} {c : Cells Page} {b : ℤ}
  {ops : List (Op Page)} {t k m : ℕ} {bad : Bool} {good : Finset ℕ} {rec : List UInt8}
  {last : Option (List UInt8)} {v : ℤ}

/-- The valid block of a scanned area is one of its blocks. -/
theorem RsvState.Ok.has (h : s.Ok blockCnt ∅ area.startBlock area.endBlock)
    (hv : s.info.valid = true) : area.Has s.info.validNode.phyBlkAddr := by
  refine h.within.inside _ (mem_append_left _ ?_)
  rw [if_pos (h.within.valid hv)]
  exact .head _

theorem Fragment.lt_size (h : Fragment mtd area c b) : mtd.writesize < area.size := by
  obtain ⟨pgs, t, m, hm, hh⟩ := h
  by_contra hge
  have hlt := hh.lt
  rw [savePages_eq_one (not_lt.1 hge)] at hlt
  omega

/-- A valid area is given up: its valid block is erased. -/
theorem mesonFreeRsvInfo_of_valid (hv : s.info.valid = true) (hn : s.nand = .ofCells c ops) :
    (s.mesonFreeRsvInfo mtd blockCnt).nand =
        .ofCells (c.apply mtd.pagesPerBlk (.erase s.info.validNode.phyBlkAddr))
          (ops ++ [.erase s.info.validNode.phyBlkAddr]) ∧
      (s.mesonFreeRsvInfo mtd blockCnt).info.valid = false ∧
      (s.mesonFreeRsvInfo mtd blockCnt).info.validNode = .freed := by
  rw [mesonFreeRsvInfo, if_pos hv]
  rw [hn, Device.erase_ofCells]
  exact ⟨rfl, rfl, rfl⟩

theorem scanRet_of_valid (hv : s.info.valid = true) (g : Finset ℕ) :
    scanRet ⟨s, false, g⟩ = (.ok, s) := by
  rw [scanRet]
  rw [hv]
  rfl

section

variable (hs : area.Sound mtd blockCnt) (h : Scanned mtd blockCnt area c ops area.endBlock s)
  (hv : s.info.valid = true)
include hs h hv

/-- The scan of a block that holds a fragment only. -/
theorem Scanned.fragment (hst : Stale (savePages mtd area.size) good)
    (hf : Fragment mtd area c s.info.validNode.phyBlkAddr) :
    ∃ p g, scanPages mtd 0 mtd.pagesPerBlk ⟨s, bad, good⟩ = some p ∧
      ∃ p', checkRecords mtd p = some p' ∧ p'.bad = true ∧ p'.good = g ∧
        Stale (savePages mtd area.size) g ∧ Unmounted blockCnt area
          (c.apply mtd.pagesPerBlk (.erase s.info.validNode.phyBlkAddr))
          (ops ++ [.erase s.info.validNode.phyBlkAddr])
          (p'.state.clearStatus.mesonFreeRsvInfo mtd blockCnt) := by
  obtain ⟨pgs, t, m, hm, hh⟩ := hf
  have hlen := hh.length
  have hlt := hh.lt
  obtain ⟨info, mask, nand⟩ := s
  obtain rfl : nand = .ofCells c ops := h.nand
  obtain ⟨g, hscan, hg⟩ := scanPages_holds info mask ops bad good hh.holds
    (fun p hp => (hh.tags p hp).1.trans h.is.name.symm) hh.le hs.pages (zero_le _)
    (zero_add mtd.pagesPerBlk)
  rw [if_pos (by omega)] at hscan
  refine ⟨_, g, hscan, _, checkRecords_fragment hs h.is hh hm.ne' (hh.goodRecords hst hg), rfl, rfl,
    fun j hj => ?_, ?_⟩
  · rcases (hg j).1 hj with hj | ⟨-, hj⟩
    · exact hst j hj
    · omega
  have hok : (setPower (setPage ⟨info, mask, .ofCells c ops⟩ (pgs.length - 1))).clearStatus.Ok
      blockCnt ∅ area.startBlock area.endBlock := h.ok.sameLists { SameLists.refl _ with }
  obtain ⟨hok', hsame, hu⟩ := hok.mesonFreeRsvInfo mtd
  obtain ⟨hnand, hvalid, hnode⟩ := mesonFreeRsvInfo_of_valid
    (s := (setPower (setPage ⟨info, mask, .ofCells c ops⟩ (pgs.length - 1))).clearStatus) hv rfl
  refine ⟨h.is.sameArea { hsame with }, hnand, hok'.linked, hu hv, hvalid, ?_, ?_⟩
  · rw [hnode]
    rfl
  · rw [hnode]
    exact ⟨rfl, rfl⟩

variable (hc : Current mtd area c s.info.validNode.phyBlkAddr t k m rec)
include hc

omit hs in
/-- The state in which a scan leaves an area with its record. -/
theorem Scanned.mounted
    (hold : ∀ b t', area.Has b → b ≠ s.info.validNode.phyBlkAddr →
      stamp mtd area c b = some t' → t' < t) :
    Mounted mtd blockCnt area c ops (if m = 0 then s.setPage (k * savePages mtd area.size : ℕ)
      else (s.setPage (k * savePages mtd area.size : ℕ)).setPower) (some rec) := by
  have hts : s.info.validNode.timestamp = t := by
    obtain ⟨t', hts, hst, -⟩ := h.newest.some hv
    rw [hc.stamp_eq] at hst
    rw [hts, some.inj hst]
  rcases eq_or_ne m 0 with rfl | hm
  · have hl : SameLists s (s.setPage (k * savePages mtd area.size : ℕ)) := sameLists_setPage s _
    exact ⟨h.is.sameArea hl.toSameArea, h.nand, h.ok.sameLists hl,
      fun b hb => hl.blocks ▸ h.all b hb.1 hb.2, h.status.2,
      hv, t, k, 0, hc, rfl, hts, h.status.1, hold⟩
  rw [if_neg hm]
  have hl : SameLists s (s.setPage (k * savePages mtd area.size : ℕ)).setPower :=
    { SameLists.refl s with }
  exact ⟨h.is.sameArea hl.toSameArea, h.nand, h.ok.sameLists hl,
    fun b hb => hl.blocks ▸ h.all b hb.1 hb.2, h.status.2,
    hv, t, k, m, hc, rfl, hts, (decide_eq_true hm).symm, hold⟩

/-- The last round of a scan. -/
theorem Scanned.scanExt_current {s₀ : RsvState} {fuel : ℕ} (hb : s₀.scanBlocks mtd blockCnt = .ok s)
    (hst : Stale (savePages mtd area.size) good) (hbad : bad = true → mtd.writesize < area.size) :
    scanExt mtd blockCnt (fuel + 1) ⟨s₀, bad, good⟩ = some (.ok,
      if m = 0 then s.setPage (k * savePages mtd area.size : ℕ)
        else (s.setPage (k * savePages mtd area.size : ℕ)).setPower) := by
  obtain ⟨pgs, hh, -⟩ := hc.pgs
  have hlen := hh.length
  have hn := savePages_pos mtd area.size
  rw [succ_mul] at hlen
  obtain ⟨info, mask, nand⟩ := s
  obtain rfl : nand = .ofCells c ops := h.nand
  obtain ⟨g, hscan, hg⟩ := scanPages_holds info mask ops bad good hh.holds
    (fun p hp => (hh.tags p hp).1.trans h.is.name.symm) hh.le hs.pages (zero_le _)
    (zero_add mtd.pagesPerBlk)
  rw [if_pos (by omega)] at hscan
  rw [scanExt, hb]
  dsimp only
  rw [if_pos hv, hscan, bind_eq_bind, bind_some, h.is.size]
  rcases lt_or_ge mtd.writesize area.size with hlt | hge
  · -- from the last page of the record to its first
    have hpage : (((k + 1) * savePages mtd area.size : ℕ) : ℤ) - 1 +
        (1 - savePages mtd area.size) = (k * savePages mtd area.size : ℕ) := by
      push_cast
      ring
    rw [if_pos hlt, checkRecords_current hs h.is hh (hh.goodRecords hst hg), bind_some,
      if_neg Bool.false_ne_true]
    rcases eq_or_ne m 0 with rfl | hm
    · rw [if_pos rfl, if_pos rfl, ← hpage]
      refine congrArg some (scanRet_of_valid (s := setPage _ _) ?_ g)
      exact hv
    · rw [if_neg hm, if_neg hm, ← hpage]
      refine congrArg some (scanRet_of_valid (s := advance _ _) ?_ g)
      exact hv
  · -- a record of one page is complete
    have hone := savePages_eq_one hge
    have hm := hh.lt
    obtain rfl : bad = false := Bool.eq_false_iff.2 fun ht => absurd (hbad ht) hge.not_gt
    have hpage : (pgs.length : ℤ) - 1 = (k * savePages mtd area.size : ℕ) := by omega
    rw [if_neg hge.not_gt, if_pos (by omega), hpage]
    refine congrArg some (scanRet_of_valid (s := setPage _ _) ?_ g)
    exact hv

end

theorem agreeOn_erase (h : b ≠ v) : AgreeOn mtd b c (c.apply mtd.pagesPerBlk (.erase v)) :=
  fun _ hp => Cells.apply_erase_of_ne h hp

theorem of_stamp_erase (h : stamp mtd area (c.apply mtd.pagesPerBlk (.erase v)) b = some t) :
    b ≠ v ∧ AgreeOn mtd b c (c.apply mtd.pagesPerBlk (.erase v)) ∧ stamp mtd area c b = some t := by
  have hne : b ≠ v := by
    rintro rfl
    cases h.symm.trans (Holding.nil_stamp (Cells.holds_erase _ c b))
  exact ⟨hne, agreeOn_erase hne, (agreeOn_erase hne).stamp.symm.trans h⟩

variable (mtd area c) in
/-- The blocks of the area that have a stamp. -/
noncomputable def stamped : Finset ℤ :=
  (Finset.Ico (area.startBlock : ℤ) area.endBlock).filter fun b => (stamp mtd area c b).isSome

/-- Erasing a block with a stamp leaves one less. -/
theorem card_stamped_erase (hv : area.Has v) (hst : stamp mtd area c v = some t) :
    (stamped mtd area (c.apply mtd.pagesPerBlk (.erase v))).card < (stamped mtd area c).card := by
  refine Finset.card_lt_card (Finset.ssubset_iff_subset_ne.2 ⟨fun b hb => ?_, fun he => ?_⟩)
  · obtain ⟨hmem, hsome⟩ := Finset.mem_filter.1 hb
    obtain ⟨t', ht'⟩ := Option.isSome_iff_exists.1 hsome
    exact mem_filter.2 ⟨hmem, isSome_iff_exists.2 ⟨t', (of_stamp_erase ht').2.2⟩⟩
  have hmem : v ∈ stamped mtd area c :=
    mem_filter.2 ⟨mem_Ico.2 hv, isSome_iff_exists.2 ⟨t, hst⟩⟩
  rw [← he] at hmem
  obtain ⟨t', ht'⟩ := Option.isSome_iff_exists.1 (Finset.mem_filter.1 hmem).2
  exact (of_stamp_erase ht').1 rfl

/-- Erasing a block that does not hold the record. -/
theorem Recoverable.erase_none (h : Recoverable mtd area c none) (v : ℤ) :
    Recoverable mtd area (c.apply mtd.pagesPerBlk (.erase v)) none := by
  intro b t hb hst
  obtain ⟨-, hagree, hst⟩ := of_stamp_erase hst
  exact hagree.fragment (h b t hb hst)

theorem Current.recoverable_erase (hb : area.Has b) (hc : Current mtd area c b t k m rec)
    (hv : v ≠ b) (hold : ∀ b' t', area.Has b' → b' ≠ b → stamp mtd area c b' = some t' →
      t' < t ∨ t < t' ∧ Fragment mtd area c b') :
    Recoverable mtd area (c.apply mtd.pagesPerBlk (.erase v)) (some rec) := by
  refine ⟨b, t, k, m, hb, (agreeOn_erase hv.symm).current hc, fun b' t' hb' hne hst => ?_⟩
  obtain ⟨-, hagree, hst⟩ := of_stamp_erase hst
  exact (hold b' t' hb' hne hst).imp id (And.imp id hagree.fragment)

/-- The newest block of a recoverable area has the record, or a fragment, that can be erased. -/
theorem Recoverable.newest {v ts : ℤ} (hr : Recoverable mtd area c last) (hv : area.Has v)
    (h : Newest (stamp mtd area c) area.startBlock area.endBlock true v ts) :
    (∃ rec t k m, last = some rec ∧ Current mtd area c v t k m rec ∧
      ∀ b t', area.Has b → b ≠ v → stamp mtd area c b = some t' → t' < t) ∨
    (Fragment mtd area c v ∧ Recoverable mtd area (c.apply mtd.pagesPerBlk (.erase v)) last) := by
  obtain ⟨t₀, -, hst, hmax⟩ := h.some rfl
  cases last with
  | none => exact .inr ⟨hr v t₀ hv hst, hr.erase_none v⟩
  | some rec =>
    obtain ⟨b, t, k, m, hb, hc, hold⟩ := hr
    have hle : t ≤ t₀ := hmax b t hb.1 hb.2 (hc.stamp_eq)
    rcases eq_or_ne v b with rfl | hne
    · refine .inl ⟨rec, t, k, m, rfl, hc, fun b' t' hb' hne' hst' => ?_⟩
      have heq := some.inj (hst.symm.trans (hc.stamp_eq))
      have hle' := hmax b' t' hb'.1 hb'.2 hst'
      exact (hold b' t' hb' hne' hst').resolve_right fun hf => by omega
    · refine .inr ⟨?_, hc.recoverable_erase hb hne hold⟩
      exact ((hold v t₀ hv hne hst).resolve_left (by omega)).2

/-- A scan of a recoverable area that nothing is known of. -/
theorem Unmounted.scanExt {fuel : ℕ} (hs : area.Sound mtd blockCnt)
    (h : Unmounted blockCnt area c ops s) (hst : Stale (savePages mtd area.size) good)
    (hbad : bad = true → mtd.writesize < area.size) (hr : Recoverable mtd area c last)
    (hfuel : (stamped mtd area c).card < fuel) :
    ∃ es s', RsvState.scanExt mtd blockCnt fuel ⟨s, bad, good⟩ =
        some (if last.isSome then .ok else .failed, s') ∧
      Mounted mtd blockCnt area (c.replay mtd.pagesPerBlk es) (ops ++ es) s' last ∧
      ∀ j, Recoverable mtd area (c.replay mtd.pagesPerBlk (es.take j)) last := by
  induction fuel generalizing c ops s bad good with
  | zero => omega
  | succ fuel ih =>
    obtain ⟨s₁, hb, hsc⟩ := h.scanBlocks hs
    rcases hv : s₁.info.valid with - | -
    · -- no block has a stamp
      have hnone := hsc.newest.none hv
      obtain rfl : last = none := by
        cases last with
        | none => rfl
        | some rec =>
          obtain ⟨b, t, k, m, hb, hc, -⟩ := hr
          have := hnone b hb.1 hb.2
          rw [hc.stamp_eq] at this
          cases this
      refine ⟨[], s₁, ?_, ⟨hsc.is, ?_, hsc.ok, fun b hb => hsc.all b hb.1 hb.2, hsc.status.2, hv,
        (hsc.invalid hv).1, (hsc.invalid hv).2, hsc.status.1, fun b hb => hnone b hb.1 hb.2⟩, ?_⟩
      · rw [RsvState.scanExt, hb]
        dsimp only
        rw [hv, if_neg Bool.false_ne_true, scanRet]
        rw [hv]
        rfl
      · rw [append_nil]
        exact hsc.nand
      · intro j
        rw [take_nil]
        exact hr
    · have hhas := hsc.ok.has hv
      have hnewest := hsc.newest
      rw [hv] at hnewest
      rcases hr.newest hhas hnewest with
        ⟨rec, t, k, m, rfl, hc, hold⟩ | ⟨hf, hr'⟩
      · refine ⟨[], _, hsc.scanExt_current hs hv hc hb hst hbad, ?_, fun j => ?_⟩
        · rw [append_nil]
          exact hsc.mounted hv hc hold
        · rw [take_nil]
          exact hr
      -- the block with the fragment is erased, and the scan starts again
      obtain ⟨t, -, hstv, -⟩ := hnewest.some rfl
      obtain ⟨p, g, hscan, p', hcheck, hbad', rfl, hst', hun⟩ := hsc.fragment hs hv hst hf
      have hcard := card_stamped_erase hhas hstv
      obtain ⟨es, s', hext, hm, hall⟩ := ih hun hst' (fun _ => hf.lt_size) hr' (by omega)
      refine ⟨.erase s₁.info.validNode.phyBlkAddr :: es, s', ?_, ?_, fun j => ?_⟩
      · rw [RsvState.scanExt, hb]
        dsimp only
        rw [if_pos hv, hscan, bind_eq_bind, bind_some, hsc.is.size,
          if_pos hf.lt_size, hcheck, bind_some, hbad', if_pos rfl]
        exact hext
      · rw [append_cons]
        exact hm
      · cases j with
        | zero => exact hr
        | succ j => exact hall j

/-- `meson_rsv_scan` of a recoverable area that nothing is known of. A power cut may fall after any
    of its operations. -/
theorem Unmounted.mesonRsvScan (hs : area.Sound mtd blockCnt) (h : Unmounted blockCnt area c ops s)
    (hr : Recoverable mtd area c last) :
    ∃ es s', s.mesonRsvScan mtd blockCnt = some (if last.isSome then .ok else .failed, s') ∧
      Mounted mtd blockCnt area (c.replay mtd.pagesPerBlk es) (ops ++ es) s' last ∧
      ∀ j, Recoverable mtd area (c.replay mtd.pagesPerBlk (es.take j)) last := by
  refine h.scanExt hs (fun j hj => absurd hj (notMem_empty j)) (fun hf => (by cases hf)) hr ?_
  have hcard := card_filter_le (Finset.Ico (area.startBlock : ℤ) area.endBlock)
    fun b => (stamp mtd area c b).isSome
  rw [Int.card_Ico] at hcard
  rw [h.is.startBlock, h.is.endBlock, stamped]
  omega

end

end CommonDrivers.Mtd
