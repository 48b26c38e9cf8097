import CommonDrivers.Mtd.Rsv

/-!
# The block lists of the reserved areas

The blocks an area knows are its valid block and those in its free list (`RsvInfo.blocks`). A save
permutes them, a scan of an area without lists collects them one by one, and so they stay distinct
and inside the area (`Within`); the nodes of the free lists are those marked in the mask of
the pool (`Linked`).

There is one lemma for each function: the linking of a node (`RsvState.link_spec`), the rotation
of a full block (`RsvState.Ok.rotate`), a save (`RsvState.Ok.mesonRsvSave`), a scan of an area
without lists (`RsvState.Ok.scanExt`), and a read in which no page fails
(`RsvState.sameLists_mesonRsvRead`).
-/

namespace CommonDrivers.Mtd

open List Option Finset RsvInfo

/-! ## The nodes of a free list -/

/-- The mask has the nodes of a list, which are distinct nodes of the pool, and the nodes of the
    other lists. -/
structure Linked (blockCnt : ℕ) (others : Finset ℕ) (l : List ℕ) (mask : Finset ℕ) : Prop where
  nodup : l.Nodup
  notMem : ∀ i ∈ l, i ∉ others
  mem_iff : ∀ i, i ∈ mask ↔ i ∈ others ∨ i ∈ l
  lt : ∀ i ∈ l, i < blockCnt

namespace Linked

variable {blockCnt i : ℕ} {others mask mask' : Finset ℕ} {l : List ℕ}

theorem of_getFreeNode (h : getFreeNode blockCnt mask = some (i, mask')) :
    i ∉ mask ∧ i < blockCnt ∧ mask' = insert i mask := by
  rw [getFreeNode] at h
  split at h
  · cases h
  next j hj =>
  cases h
  refine ⟨?_, List.mem_range.1 (mem_of_find?_eq_some hj), rfl⟩
  simpa using find?_some hj

/-- A node taken from the pool goes to the end of the list. -/
theorem snoc (h : Linked blockCnt others l mask)
    (hget : getFreeNode blockCnt mask = some (i, mask')) :
    Linked blockCnt others (l ++ [i]) mask' := by
  obtain ⟨hi, hlt, rfl⟩ := of_getFreeNode hget
  have hnot := (not_congr (h.mem_iff i)).1 hi
  push Not at hnot
  refine ⟨?_, ?_, fun j => ?_, ?_⟩
  · exact nodup_append.2 ⟨h.nodup, nodup_singleton i,
      fun a ha b hb hab => hnot.2 (List.mem_singleton.1 hb ▸ hab ▸ ha)⟩
  · intro j hj
    rcases mem_append.1 hj with hj | hj
    · exact h.notMem j hj
    · rw [List.mem_singleton.1 hj]
      exact hnot.1
  · rw [mem_insert, h.mem_iff, mem_append, List.mem_singleton]
    tauto
  · intro j hj
    rcases mem_append.1 hj with hj | hj
    · exact h.lt j hj
    · rw [List.mem_singleton.1 hj]
      exact hlt

/-- The first node of the list goes back to the pool. -/
theorem tail {node : FreeNode} (h : Linked blockCnt others (node.index :: l) mask) :
    Linked blockCnt others l (releaseFreeNode blockCnt mask node) := by
  have hnd := nodup_cons.1 h.nodup
  refine ⟨hnd.2, fun j hj => h.notMem j (.tail _ hj), fun j => ?_, fun j hj => h.lt j (.tail _ hj)⟩
  rw [releaseFreeNode, if_neg (h.lt _ (.head _)).not_gt, mem_erase, h.mem_iff, List.mem_cons]
  constructor
  · rintro ⟨hne, hj | rfl | hj⟩
    · exact .inl hj
    · exact absurd rfl hne
    · exact .inr hj
  · rintro (hj | hj)
    · exact ⟨fun he => h.notMem _ (.head _) (he ▸ hj), .inl hj⟩
    · exact ⟨fun he => hnd.1 (he ▸ hj), .inr (.inr hj)⟩

/-- All nodes of the list go back to the pool. -/
theorem releaseAll {nodes : List FreeNode}
    (h : Linked blockCnt others (nodes.map FreeNode.index) mask) :
    Linked blockCnt others [] (nodes.foldl (releaseFreeNode blockCnt) mask) := by
  induction nodes generalizing mask with
  | nil => exact h
  | cons node nodes ih => exact ih h.tail

theorem perm {l' : List ℕ} (h : Linked blockCnt others l mask) (hp : l'.Perm l) :
    Linked blockCnt others l' mask :=
  ⟨hp.nodup_iff.2 h.nodup, fun i hi => h.notMem i (hp.mem_iff.1 hi),
    fun i => (h.mem_iff i).trans (or_congr_right hp.mem_iff.symm),
    fun i hi => h.lt i (hp.mem_iff.1 hi)⟩

/-- The nodes of one list next to those of the others. -/
theorem append_iff {rest : List ℕ} : Linked blockCnt ∅ (l ++ rest) mask ↔
    Linked blockCnt rest.toFinset l mask ∧ rest.Nodup ∧ ∀ i ∈ rest, i < blockCnt := by
  constructor
  · intro h
    obtain ⟨hl, hrest, hdisj⟩ := nodup_append.1 h.nodup
    refine ⟨⟨hl, fun i hi hr => hdisj i hi i (List.mem_toFinset.1 hr) rfl, fun i => ?_,
      fun i hi => h.lt i (mem_append_left _ hi)⟩, hrest, fun i hi => h.lt i (mem_append_right _ hi)⟩
    rw [h.mem_iff, mem_append, List.mem_toFinset]
    exact (or_iff_right (notMem_empty i)).trans or_comm
  rintro ⟨h, hrest, hlt⟩
  refine ⟨nodup_append.2 ⟨h.nodup, hrest, fun i hi j hj hij =>
    h.notMem i hi (List.mem_toFinset.2 (hij ▸ hj))⟩, fun i _ => notMem_empty i,
    fun i => ?_, fun i hi => ?_⟩
  · rw [h.mem_iff, mem_append, List.mem_toFinset]
    exact or_comm.trans (or_iff_right (notMem_empty i)).symm
  · exact (mem_append.1 hi).elim (h.lt i) (hlt i)

end Linked

/-! ## The blocks of an area -/

/-- The blocks an area knows: the valid one, if there is one, and those in its free list. -/
def RsvInfo.blocks (r : RsvInfo) : List ℤ :=
  (if 0 ≤ r.validNode.phyBlkAddr then [r.validNode.phyBlkAddr] else []) ++
    r.freeNode.map FreeNode.phyBlkAddr

/-- The nodes of the free list of an area. -/
def RsvInfo.nodes (r : RsvInfo) : List ℕ := r.freeNode.map FreeNode.index

/-- The blocks of the area are distinct and lie between the bounds. -/
structure RsvInfo.Within (lo hi : ℤ) (r : RsvInfo) : Prop where
  nodup : r.blocks.Nodup
  inside : ∀ b ∈ r.blocks, lo ≤ b ∧ b < hi
  valid : r.valid = true → 0 ≤ r.validNode.phyBlkAddr

/-- The area has blocks, its block numbers are `s16` values, and it does not meet the blocks that
    `skip_bbt_blocks` passes over. -/
structure RsvInfo.Placed (r : RsvInfo) : Prop where
  lt : r.startBlock < r.endBlock
  le : r.endBlock ≤ 2 ^ 15
  bbt : r.name = bbtNandMagic ∨ r.endBlock ≤ bbtStartBlock ∨
    bbtStartBlock + bbtTotalBlocks ≤ r.startBlock

theorem s16_natCast {n : ℕ} (h : n < 2 ^ 15) : s16 n = n := by
  rw [s16, Int.bmod]
  omega

theorem RsvInfo.Placed.skipBbtBlocks {r : RsvInfo} (h : r.Placed) {start : ℕ}
    (hs : r.startBlock ≤ start) (he : start < r.endBlock) :
    RsvState.skipBbtBlocks r start = start := by
  rw [RsvState.skipBbtBlocks, if_neg]
  rintro ⟨hname, h₁, h₂⟩
  rcases h.bbt with hb | hb | hb
  · exact hname hb
  · omega
  · omega

namespace RsvInfo.Within

variable {lo hi hi' : ℤ} {r r' : RsvInfo}

/-- Only the blocks and the `valid` field matter. -/
theorem of_perm (h : r.Within lo hi) (hp : r'.blocks.Perm r.blocks)
    (hv : r'.valid = true → 0 ≤ r'.validNode.phyBlkAddr) : r'.Within lo hi :=
  ⟨hp.nodup_iff.2 h.nodup, fun b hb => h.inside b (hp.mem_iff.1 hb), hv⟩

/-- A block after all others is new. -/
theorem of_perm_cons (h : r.Within lo hi) (hle : lo ≤ hi) (hp : r'.blocks.Perm (hi :: r.blocks))
    (hv : r'.valid = true → 0 ≤ r'.validNode.phyBlkAddr) : r'.Within lo (hi + 1) := by
  refine ⟨hp.nodup_iff.2 (nodup_cons.2 ⟨fun hb => (h.inside _ hb).2.false, h.nodup⟩),
    fun b hb => ?_, hv⟩
  rcases List.mem_cons.1 (hp.mem_iff.1 hb) with rfl | hb
  · exact ⟨hle, Int.lt_succ b⟩
  · exact ⟨(h.inside b hb).1, (h.inside b hb).2.trans (Int.lt_succ hi)⟩

theorem mono (h : r.Within lo hi) (hle : hi ≤ hi') : r.Within lo hi' :=
  { h with inside := fun b hb => ⟨(h.inside b hb).1, (h.inside b hb).2.trans_le hle⟩ }

end RsvInfo.Within

/-! ## What each function keeps -/

namespace RsvState

variable {mtd : MtdInfo} {blockCnt : ℕ} {others : Finset ℕ} {lo hi : ℤ} {s s' s'' : RsvState}
  {ret : Ret} {buf : List UInt8} {r : Except RsvState RsvState} {blk : ℤ} {page : Option Page}
  {i : ℤ}

/-- The lists of the area are in order; the other lists have the nodes `others`. -/
structure Ok (blockCnt : ℕ) (others : Finset ℕ) (lo hi : ℤ) (s : RsvState) : Prop where
  linked : Linked blockCnt others s.info.nodes s.freenodebitmask
  within : s.info.Within lo hi

/-- The area is the same one, whatever it holds. -/
structure SameArea (s s' : RsvState) : Prop where
  startBlock : s'.info.startBlock = s.info.startBlock
  endBlock : s'.info.endBlock = s.info.endBlock
  size : s'.info.size = s.info.size
  name : s'.info.name = s.info.name

/-- The area is the same one with the same lists. -/
structure SameLists (s s' : RsvState) : Prop extends SameArea s s' where
  freeNode : s'.info.freeNode = s.info.freeNode
  mask : s'.freenodebitmask = s.freenodebitmask
  blk : s'.info.validNode.phyBlkAddr = s.info.validNode.phyBlkAddr
  valid : s'.info.valid = s.info.valid

theorem SameArea.trans (h : SameArea s s') (h' : SameArea s' s'') : SameArea s s'' :=
  ⟨h'.startBlock.trans h.startBlock, h'.endBlock.trans h.endBlock, h'.size.trans h.size,
    h'.name.trans h.name⟩

theorem SameLists.refl (s : RsvState) : SameLists s s := ⟨⟨rfl, rfl, rfl, rfl⟩, rfl, rfl, rfl, rfl⟩

theorem SameLists.trans (h : SameLists s s') (h' : SameLists s' s'') : SameLists s s'' :=
  ⟨h.toSameArea.trans h'.toSameArea, h'.freeNode.trans h.freeNode, h'.mask.trans h.mask,
    h'.blk.trans h.blk, h'.valid.trans h.valid⟩

theorem SameLists.blocks (h : SameLists s s') : s'.info.blocks = s.info.blocks := by
  rw [RsvInfo.blocks, RsvInfo.blocks, h.blk, h.freeNode]

theorem Ok.sameLists (h : s.Ok blockCnt others lo hi) (hs : SameLists s s') :
    s'.Ok blockCnt others lo hi := by
  constructor
  · rw [nodes, hs.freeNode, hs.mask]
    exact h.linked
  · refine h.within.of_perm (hs.blocks ▸ Perm.refl _) ?_
    rw [hs.valid, hs.blk]
    exact h.within.valid

theorem link_eq_ok {blk ec : ℤ} (h : s.link blockCnt blk ec = .ok s') :
    ∃ index mask, getFreeNode blockCnt s.freenodebitmask = some (index, mask) ∧ s' = { s with
        freenodebitmask := mask
        info := { s.info with freeNode := s.info.freeNode ++ [⟨index, ec, blk⟩] } } := by
  rw [link] at h
  split at h
  · cases h
  · next index mask hget => exact ⟨index, mask, hget, (Except.ok.inj h).symm⟩

theorem link_eq_error {blk ec : ℤ} (h : s.link blockCnt blk ec = .error s') : s' = s := by
  rw [link] at h
  split at h
  · exact (Except.error.inj h).symm
  · cases h

/-- Linking a node changes the free list only. -/
theorem link_spec {blk ec : ℤ} (h : s.link blockCnt blk ec = .ok s')
    (hl : Linked blockCnt others s.info.nodes s.freenodebitmask) :
    Linked blockCnt others s'.info.nodes s'.freenodebitmask ∧
      s'.info.blocks = s.info.blocks ++ [blk] ∧ SameArea s s' ∧
      s'.info.validNode = s.info.validNode ∧ s'.info.valid = s.info.valid ∧ s'.nand = s.nand := by
  obtain ⟨index, mask, hget, rfl⟩ := link_eq_ok h
  refine ⟨?_, ?_, ⟨rfl, rfl, rfl, rfl⟩, rfl, rfl, rfl⟩
  · have := hl.snoc hget
    rwa [nodes, map_append]
  · rw [RsvInfo.blocks, RsvInfo.blocks, map_append, append_assoc]
    rfl

/-- Taking the first block drops the valid block and puts the first of the free list in its
    place. -/
theorem takeFirst_spec (h : s.takeFirst blockCnt = some s')
    (hl : Linked blockCnt others s.info.nodes s.freenodebitmask)
    (hpos : ∀ x ∈ s.info.freeNode, 0 ≤ x.phyBlkAddr) :
    Linked blockCnt others s'.info.nodes s'.freenodebitmask ∧
      s'.info.blocks = s.info.freeNode.map FreeNode.phyBlkAddr ∧ SameArea s s' ∧
      0 ≤ s'.info.validNode.phyBlkAddr := by
  rw [takeFirst] at h
  split at h
  · cases h
  next node rest heq =>
  cases h
  have hnode : 0 ≤ node.phyBlkAddr := hpos node (heq ▸ .head _)
  refine ⟨?_, ?_, ⟨rfl, rfl, rfl, rfl⟩, hnode⟩
  · rw [nodes, heq] at hl
    exact hl.tail
  · rw [RsvInfo.blocks, if_pos hnode, heq]
    rfl

theorem sameLists_nand (s : RsvState) (nand : Nand) : SameLists s { s with nand } :=
  { SameLists.refl s with }

theorem sameLists_setPage (s : RsvState) (page : ℤ) : SameLists s (s.setPage page) :=
  { SameLists.refl s with }

theorem sameLists_countErase (s : RsvState) : SameLists s s.countErase :=
  { SameLists.refl s with }

theorem sameLists_eraseDamaged (mtd : MtdInfo) (s : RsvState) (i : ℤ) :
    SameLists s (s.eraseDamaged mtd i) := by
  rw [eraseDamaged]
  split
  · exact (sameLists_nand s _).trans (sameLists_countErase _)
  · exact .refl s

section

variable (h : s.Ok blockCnt others lo hi)
include h

/-- Writing the record marks the area as valid, and leaves the lists as they are. -/
theorem Ok.saveWrite (hpos : 0 ≤ s.info.validNode.phyBlkAddr) (mtd : MtdInfo) (buf : List UInt8) :
    (s.saveWrite mtd buf).2.Ok blockCnt others lo hi ∧ SameArea s (s.saveWrite mtd buf).2 := by
  have hsame : SameLists s (mesonRsvWrite mtd s buf).2 := { SameLists.refl s with }
  rw [RsvState.saveWrite]
  split
  · next s₁ hw =>
    rw [hw] at hsame
    exact ⟨h.sameLists hsame, hsame.toSameArea⟩
  next s₁ hw =>
  rw [hw] at hsame
  have hok := h.sameLists hsame
  exact ⟨⟨hok.linked, hok.within.nodup, hok.within.inside, fun _ => hsame.blk ▸ hpos⟩,
    { hsame.toSameArea with }⟩

variable (hlo : 0 ≤ lo)
include hlo

/-- The blocks in the free list are blocks of the area. -/
theorem Ok.free_nonneg : ∀ x ∈ s.info.freeNode, 0 ≤ x.phyBlkAddr := by
  intro x hx
  have hmem : x.phyBlkAddr ∈ s.info.blocks := mem_append_right _ (mem_map_of_mem hx)
  exact hlo.trans (h.within.inside _ hmem).1

/-- Without a valid block, the first free one is taken. -/
theorem Ok.takeFirst (ht : s.takeFirst blockCnt = some s') :
    s'.Ok blockCnt others lo hi ∧ SameArea s s' ∧ 0 ≤ s'.info.validNode.phyBlkAddr := by
  obtain ⟨hl, hb, hsame, hpos⟩ := takeFirst_spec ht h.linked (h.free_nonneg hlo)
  have hsub : s'.info.blocks.Sublist s.info.blocks := by
    rw [hb, RsvInfo.blocks]
    exact sublist_append_right _ _
  exact ⟨⟨hl, hsub.nodup h.within.nodup, fun b hb => h.within.inside b (hsub.subset hb),
    fun _ => hpos⟩, hsame, hpos⟩

/-- The valid block goes to the end of the free list, and the first block of that list takes its
    place. -/
theorem Ok.rotate (hv : s.info.valid = true) {ec : ℤ}
    (hlink : s.link blockCnt s.info.validNode.phyBlkAddr ec = .ok s')
    (ht : s'.takeFirst blockCnt = some s'') :
    s''.Ok blockCnt others lo hi ∧ SameArea s s'' ∧ 0 ≤ s''.info.validNode.phyBlkAddr ∧
      s''.info.blocks.Perm s.info.blocks := by
  have hblk := h.within.valid hv
  obtain ⟨hl, hb, hsame, hnode, -, -⟩ := link_spec hlink h.linked
  -- the blocks in the longer list are still blocks of the area
  have hfree : s'.info.freeNode.map FreeNode.phyBlkAddr =
      s.info.freeNode.map FreeNode.phyBlkAddr ++ [s.info.validNode.phyBlkAddr] := by
    obtain ⟨index, mask, -, rfl⟩ := link_eq_ok hlink
    exact map_append
  have hpos : ∀ x ∈ s'.info.freeNode, 0 ≤ x.phyBlkAddr := by
    intro x hx
    have hmem : x.phyBlkAddr ∈ s'.info.freeNode.map FreeNode.phyBlkAddr := mem_map_of_mem hx
    rw [hfree] at hmem
    rcases mem_append.1 hmem with hmem | hmem
    · exact hlo.trans (h.within.inside _ (mem_append_right _ hmem)).1
    · rw [List.mem_singleton.1 hmem]
      exact hblk
  obtain ⟨hl', hb', hsame', hpos'⟩ := takeFirst_spec ht hl hpos
  have hperm : s''.info.blocks.Perm s.info.blocks := by
    rw [hb', hfree, RsvInfo.blocks, if_pos hblk]
    exact perm_append_comm
  exact ⟨⟨hl', h.within.of_perm hperm fun _ => hpos'⟩, hsame.trans hsame', hpos', hperm⟩

theorem Ok.place (hp : s.place mtd blockCnt i = some r) :
    match r with
    | .ok s' => s'.Ok blockCnt others lo hi ∧ SameArea s s' ∧ 0 ≤ s'.info.validNode.phyBlkAddr
    | .error s' => SameLists s s' := by
  rw [RsvState.place] at hp
  split at hp
  · next hv =>
    have hadv := sameLists_setPage s (s.info.validNode.phyPageAddr + i)
    dsimp only at hp
    split at hp
    · have hsame := hadv.trans (sameLists_eraseDamaged mtd (s.advance i) i)
      split at hp
      · next s₁ hlink =>
        cases hp
        exact link_eq_error hlink ▸ hsame
      next s₁ hlink =>
      split at hp
      · cases hp
      obtain ⟨s₂, ht, rfl⟩ := map_eq_some_iff.1 hp
      have hok := h.sameLists hsame
      obtain ⟨hok', hsame', hpos, -⟩ := hok.rotate hlo (hsame.valid.trans hv) hlink ht
      exact ⟨hok', hsame.toSameArea.trans hsame', hpos⟩
    · cases hp
      exact ⟨h.sameLists hadv, hadv.toSameArea, h.within.valid hv⟩
  · obtain ⟨s₂, ht, rfl⟩ := map_eq_some_iff.1 hp
    exact h.takeFirst hlo ht

theorem Ok.reSearch {fuel : ℕ}
    (hr : RsvState.reSearch mtd blockCnt i buf fuel s = some (ret, s')) :
    s'.Ok blockCnt others lo hi ∧ SameArea s s' := by
  induction fuel generalizing s with
  | zero => cases hr
  | succ fuel ih =>
    rw [RsvState.reSearch] at hr
    split at hr
    · cases hr
    · next s₁ hp =>
      cases hr
      exact ⟨h.sameLists (h.place hlo hp), (h.place hlo hp).toSameArea⟩
    next s₁ hp =>
    obtain ⟨hok, hsame, hpos⟩ := h.place hlo hp
    split at hr
    · split at hr
      · next nand _ =>
        have hl := (sameLists_nand s₁ nand).trans (sameLists_setPage _ (mtd.pagesPerBlk - i))
        obtain ⟨hok', hsame'⟩ := ih (hok.sameLists hl) hr
        exact ⟨hok', (hsame.trans hl.toSameArea).trans hsame'⟩
      split at hr
      · cases hr
        exact ⟨hok.sameLists (sameLists_nand s₁ _), { hsame with }⟩
      next nand _ =>
      have hl := (sameLists_nand s₁ nand).trans (sameLists_countErase _)
      have hw := (hok.sameLists hl).saveWrite hpos mtd buf
      rw [some.inj hr] at hw
      exact ⟨hw.1, (hsame.trans hl.toSameArea).trans hw.2⟩
    · have hw := hok.saveWrite hpos mtd buf
      rw [some.inj hr] at hw
      exact ⟨hw.1, hsame.trans hw.2⟩

/-- A save keeps the lists in order. -/
theorem Ok.mesonRsvSave (hr : s.mesonRsvSave mtd blockCnt buf = some (ret, s')) :
    s'.Ok blockCnt others lo hi ∧ SameArea s s' := by
  have hstart : SameLists s (s.startSave mtd) := by
    rw [startSave]
    split
    · exact sameLists_setPage s _
    · exact .refl s
  obtain ⟨hok, hsame⟩ := (h.sameLists hstart).reSearch hlo hr
  exact ⟨hok, hstart.toSameArea.trans hsame⟩

end

/-- An area without lists. -/
structure Unlisted (s : RsvState) : Prop where
  freeNode : s.info.freeNode = []
  blk : s.info.validNode.phyBlkAddr < 0

theorem Unlisted.blocks (h : s.Unlisted) : s.info.blocks = [] := by
  rw [RsvInfo.blocks, h.freeNode, if_neg h.blk.not_ge]
  rfl

/-- `meson_free_rsv_info` releases the nodes and forgets a valid block. -/
theorem Ok.mesonFreeRsvInfo (mtd : MtdInfo) (h : s.Ok blockCnt others lo hi) :
    (s.mesonFreeRsvInfo mtd blockCnt).Ok blockCnt others lo hi ∧
      SameArea s (s.mesonFreeRsvInfo mtd blockCnt) ∧
      (s.info.valid = true → (s.mesonFreeRsvInfo mtd blockCnt).Unlisted) := by
  rw [RsvState.mesonFreeRsvInfo]
  split
  · refine ⟨⟨h.linked.releaseAll, nodup_nil, fun b hb => ?_, fun hv => ?_⟩,
      ⟨rfl, rfl, rfl, rfl⟩, fun _ => ⟨rfl, neg_one_lt_zero⟩⟩
    · cases hb
    · cases hv
  next hv =>
  have hsub : (RsvInfo.blocks { s.info with freeNode := [] }).Sublist s.info.blocks :=
    (Sublist.refl _).append (nil_sublist _)
  exact ⟨⟨h.linked.releaseAll, hsub.nodup h.within.nodup,
    fun b hb => h.within.inside b (hsub.subset hb), h.within.valid⟩, ⟨rfl, rfl, rfl, rfl⟩,
    fun hv' => absurd hv' hv⟩

/-! ## Scanning an area without lists -/

/-- The valid block is a block of the area. -/
theorem setValid_blocks (hblk : 0 ≤ blk) (oob : OobInfo) :
    (s.setValid blk oob).info.blocks = blk :: s.info.freeNode.map FreeNode.phyBlkAddr := by
  rw [RsvInfo.blocks]
  exact if_pos (c := 0 ≤ blk) hblk ▸ rfl

/-- A block that is sorted is added to the blocks of the area. One that finds no node leaves the
    lists as they are. -/
theorem Ok.sortBlock (hblk : 0 ≤ blk) (page : Option Page) (hok : s.Ok blockCnt others lo hi) :
    match s.sortBlock blockCnt blk page with
    | .ok s' => Linked blockCnt others s'.info.nodes s'.freenodebitmask ∧
        s'.info.blocks.Perm (blk :: s.info.blocks) ∧ SameArea s s' ∧ s'.nand = s.nand ∧
        (s'.info.valid = true → 0 ≤ s'.info.validNode.phyBlkAddr)
    | .error s' => s'.Ok blockCnt others lo hi ∧ SameArea s s' := by
  -- the `valid` field may be set, but only with a valid block there
  have hmark : 0 ≤ s.info.validNode.phyBlkAddr →
      s.clearStatus.markValid.Ok blockCnt others lo hi ∧ SameArea s s.clearStatus.markValid :=
    fun hpos => ⟨⟨hok.linked, hok.within.nodup, hok.within.inside, fun _ => hpos⟩,
      ⟨rfl, rfl, rfl, rfl⟩⟩
  have hl := hok.linked
  generalize h : s.sortBlock blockCnt blk page = r
  rw [RsvState.sortBlock] at h
  dsimp only at h
  split at h
  · next oob _ =>
    split at h
    · next hpos =>
      split at h
      · -- the block is newer than the valid one, which goes to the free list
        split at h <;> subst h
        · next s₁ hlink => exact link_eq_error hlink ▸ hmark hpos
        next s₁ hlink =>
        obtain ⟨hl', -, hsame, -, -, hn⟩ := link_spec hlink hl
        obtain ⟨index, mask, -, rfl⟩ := link_eq_ok hlink
        refine ⟨hl', ?_, { hsame with }, hn, fun _ => hblk⟩
        rw [setValid_blocks hblk, RsvInfo.blocks,
          if_pos (show 0 ≤ s.info.validNode.phyBlkAddr from hpos)]
        refine .cons blk ?_
        rw [map_append]
        exact perm_append_comm
      · cases r with
        | error => exact link_eq_error h ▸ hmark hpos
        | ok s' =>
          obtain ⟨hl', hb, hsame, hnode, -, hn⟩ := link_spec h hl
          refine ⟨hl', hb ▸ perm_append_comm, { hsame with }, hn, fun _ => ?_⟩
          rw [hnode]
          exact hpos
    · next hneg =>
      subst h
      refine ⟨hl, ?_, ⟨rfl, rfl, rfl, rfl⟩, rfl, fun _ => hblk⟩
      rw [setValid_blocks hblk, RsvInfo.blocks,
        if_neg (show ¬0 ≤ s.info.validNode.phyBlkAddr from hneg)]
      exact .refl _
  · cases r with
    | error =>
      rw [link_eq_error h]
      exact ⟨hok.sameLists { SameLists.refl s with }, ⟨rfl, rfl, rfl, rfl⟩⟩
    | ok s' =>
      obtain ⟨hl', hb, hsame, hnode, hv, hn⟩ := link_spec h hl
      refine ⟨hl', hb ▸ perm_append_comm, { hsame with }, hn, ?_⟩
      rw [hnode, hv]
      exact hok.within.valid

theorem SameArea.placed (h : SameArea s s') (hp : s.info.Placed) : s'.info.Placed := by
  refine ⟨?_, ?_, ?_⟩
  · rw [h.startBlock, h.endBlock]
    exact hp.lt
  · rw [h.endBlock]
    exact hp.le
  · rw [h.startBlock, h.endBlock, h.name]
    exact hp.bbt

/-- Scanning one block adds it to the blocks of the area, or passes over it. -/
theorem Ok.scanBlock (mtd : MtdInfo) {k : ℕ} (hp : s.info.Placed) (hk : s.info.startBlock ≤ k)
    (hlt : k < s.info.endBlock) (h : s.Ok blockCnt others s.info.startBlock k) :
    match s.scanBlock mtd blockCnt k with
    | .ok s' | .error s' =>
      s'.Ok blockCnt others s.info.startBlock (k + 1 : ℕ) ∧ SameArea s s' := by
  have hle := hp.le
  generalize hr : s.scanBlock mtd blockCnt k = r
  rw [RsvState.scanBlock] at hr
  rw [hp.skipBbtBlocks hk hlt, s16_natCast (by omega)] at hr
  split at hr
  · subst hr
    exact ⟨⟨h.linked, h.within.mono (by omega)⟩, ⟨rfl, rfl, rfl, rfl⟩⟩
  next page nand _ =>
  have hok := h.sameLists (sameLists_nand s nand)
  have hsort := hok.sortBlock (Int.natCast_nonneg k) page
  rw [hr] at hsort
  cases r with
  | ok s' =>
    obtain ⟨hl, hb, hsame, -, hv⟩ := hsort
    exact ⟨⟨hl, hok.within.of_perm_cons (by exact_mod_cast hk) hb hv⟩, { hsame with }⟩
  | error s' => exact ⟨⟨hsort.1.linked, hsort.1.within.mono (by omega)⟩, { hsort.2 with }⟩

/-- Scanning the blocks from `k` on. -/
theorem Ok.foldlM_scanBlock {n k : ℕ} (hp : s.info.Placed) (hk : s.info.startBlock ≤ k)
    (hlt : k + n ≤ s.info.endBlock) (h : s.Ok blockCnt others s.info.startBlock k) :
    match (range' k n).foldlM (RsvState.scanBlock mtd blockCnt) s with
    | .ok s' | .error s' =>
      s'.Ok blockCnt others s.info.startBlock s.info.endBlock ∧ SameArea s s' := by
  induction n generalizing s k with
  | zero =>
    exact ⟨⟨h.linked, h.within.mono (by exact_mod_cast hlt)⟩, ⟨rfl, rfl, rfl, rfl⟩⟩
  | succ n ih =>
    have hscan := h.scanBlock mtd hp hk (by omega)
    rw [range'_succ, foldlM_cons]
    generalize s.scanBlock mtd blockCnt k = r at hscan ⊢
    obtain _ | s₁ := r
    · exact ⟨⟨hscan.1.linked, hscan.1.within.mono (by omega)⟩, hscan.2⟩
    obtain ⟨hok, hsame⟩ := hscan
    rw [← hsame.startBlock] at hok
    have hrest := ih (hsame.placed hp) (by rw [hsame.startBlock]; omega)
      (by rw [hsame.endBlock]; omega) hok
    rw [hsame.startBlock, hsame.endBlock] at hrest
    dsimp only [bind, Except.bind]
    generalize List.foldlM (RsvState.scanBlock mtd blockCnt) s₁ _ = r at hrest ⊢
    cases r <;> exact ⟨hrest.1, hsame.trans hrest.2⟩

/-- The first loop of a scan, on an area without lists. -/
theorem Ok.scanBlocks (mtd : MtdInfo) (hp : s.info.Placed)
    (h : s.Ok blockCnt others s.info.startBlock s.info.endBlock) (hu : s.Unlisted) :
    match s.scanBlocks mtd blockCnt with
    | .ok s' | .error s' =>
      s'.Ok blockCnt others s.info.startBlock s.info.endBlock ∧ SameArea s s' := by
  have hlt := hp.lt
  refine Ok.foldlM_scanBlock hp le_rfl (by omega) ⟨h.linked, ?_, ?_, h.within.valid⟩
  · rw [hu.blocks]
    exact nodup_nil
  · rw [hu.blocks]
    exact fun b hb => nomatch hb

theorem sameLists_scanPages {i left : ℕ} {p p' : Pages}
    (h : scanPages mtd i left p = some p') : SameLists p.state p'.state := by
  induction left generalizing i p with
  | zero =>
    cases h
    exact .refl _
  | succ left ih =>
    rw [scanPages] at h
    split at h
    · next nand _ =>
      have hs : SameLists p.state (setEcc { p.state with nand }) := { SameLists.refl p.state with }
      exact hs.trans (ih h)
    next page nand _ =>
    have hn := sameLists_nand p.state nand
    dsimp only at h
    split at h
    · split at h
      · cases h
      · exact (hn.trans (sameLists_setPage _ _)).trans (ih h)
    · cases h
      exact hn

theorem sameLists_foldlM_checkGood {pageNum : ℕ} {l : List ℕ} {p p' : Pages}
    (h : l.foldlM (checkGood pageNum) p = some p') : SameLists p.state p'.state := by
  induction l generalizing p with
  | nil =>
    cases h
    exact .refl _
  | cons i l ih =>
    obtain ⟨p₁, h₁, h₂⟩ := bind_eq_some_iff.1 h
    refine .trans ?_ (ih h₂)
    rw [checkGood] at h₁
    split at h₁
    · cases h₁
    · cases h₁
      exact .refl _
    · cases h₁
      exact sameLists_setPage _ _

theorem sameLists_checkRecords {p p' : Pages} (h : checkRecords mtd p = some p') :
    SameLists p.state p'.state := by
  rw [checkRecords] at h
  have hlast : SameLists p.state (checkLast (scanPageNum mtd p.state.info.size) p).state := by
    rw [checkLast]
    split
    · exact { SameLists.refl p.state with }
    · exact .refl _
  split at h
  · exact hlast.trans (sameLists_foldlM_checkGood h)
  · cases h
    exact hlast

/-- A scan of an area without lists leaves the lists in order. Where it finds no complete record,
    it starts again, without lists. -/
theorem Ok.scanExt {fuel : ℕ} {p : Pages} (hp : p.state.info.Placed)
    (h : p.state.Ok blockCnt others p.state.info.startBlock p.state.info.endBlock)
    (hu : p.state.Unlisted) (hr : RsvState.scanExt mtd blockCnt fuel p = some (ret, s')) :
    s'.Ok blockCnt others p.state.info.startBlock p.state.info.endBlock ∧ SameArea p.state s' := by
  induction fuel generalizing p with
  | zero => cases hr
  | succ fuel ih =>
    have hscan := Ok.scanBlocks mtd hp h hu
    rw [RsvState.scanExt] at hr
    split at hr
    · next s₁ hb =>
      cases hr
      rwa [hb] at hscan
    next s₁ hb =>
    rw [hb] at hscan
    obtain ⟨hok, hsame⟩ := hscan
    split at hr
    · next hv =>
      obtain ⟨p₁, hp₁, hr⟩ := bind_eq_some_iff.1 hr
      have hs₁ := sameLists_scanPages hp₁
      split at hr
      · obtain ⟨p₂, hp₂, hr⟩ := bind_eq_some_iff.1 hr
        have hs₂ := hs₁.trans (sameLists_checkRecords hp₂)
        split at hr
        · -- no complete record: the area is given up and scanned again
          have hc : SameLists p₂.state p₂.state.clearStatus := { SameLists.refl p₂.state with }
          have hs₃ := hs₂.trans hc
          obtain ⟨hok', hsame', hu'⟩ := (hok.sameLists hs₃).mesonFreeRsvInfo mtd
          have hall := (hsame.trans hs₃.toSameArea).trans hsame'
          rw [← hall.startBlock, ← hall.endBlock] at hok' ⊢
          have := ih (p := ⟨_, true, p₂.good⟩) (hall.placed hp) hok' (hu' (hs₃.valid.trans hv)) hr
          exact ⟨this.1, hall.trans this.2⟩
        · cases hr
          have hs₃ := hs₂.trans (sameLists_setPage p₂.state
            (p₂.state.info.validNode.phyPageAddr + (1 - savePages mtd s₁.info.size)))
          exact ⟨hok.sameLists hs₃, hsame.trans hs₃.toSameArea⟩
      · cases hr
        exact ⟨hok.sameLists hs₁, hsame.trans hs₁.toSameArea⟩
    · cases hr
      exact ⟨hok, hsame⟩

/-! ## Reading without an error -/

/-- None of the next `n` operations fails. -/
def Quiet (n : ℕ) (s : RsvState) : Prop := ∀ f ∈ s.nand.fails.take n, f = false

theorem length_readBytes (len : ℕ) (page : Option Page) : (readBytes len page).length = len := by
  rw [readBytes, length_take, length_append, length_replicate]
  omega

theorem Quiet.read {n : ℕ} (h : s.Quiet (n + 1)) (page : ℤ) :
    ∃ nand, s.nand.read page = (some (s.nand.cells page), nand) ∧
      RsvState.Quiet n { s with nand } := by
  rw [Flash.Device.read, Flash.Device.next]
  rcases hf : s.nand.fails with - | ⟨f, fs⟩
  · refine ⟨s.nand, rfl, ?_⟩
    rw [Quiet, hf, take_nil]
    exact fun f hf => nomatch hf
  · rw [Quiet, hf, take_succ_cons] at h
    obtain rfl := h f (.head _)
    exact ⟨_, rfl, fun g hg => h g (.tail _ hg)⟩

/-- Without a read that fails, the area is not scanned. -/
theorem sameLists_readPages {fuel n : ℕ} {page : ℤ} {buf buf' : List UInt8}
    (hn : s.info.size ≤ buf.length + n * mtd.writesize) (hq : s.Quiet n)
    (h : readPages mtd blockCnt fuel s page buf = some (ret, s', buf')) : SameLists s s' := by
  induction fuel generalizing s n page buf with
  | zero => cases h
  | succ fuel ih =>
    rw [readPages] at h
    split at h
    · next hlt =>
      -- some pages are left to read
      obtain ⟨n, rfl⟩ : ∃ m, n = m + 1 := by
        refine Nat.exists_eq_succ_of_ne_zero ?_
        rintro rfl
        omega
      obtain ⟨nand, hread, hq'⟩ := hq.read page
      rw [hread] at h
      refine (sameLists_nand s nand).trans (ih ?_ hq' h)
      rw [length_append, length_readBytes]
      rw [add_mul, one_mul] at hn
      dsimp only
      omega
    · obtain ⟨rfl, rfl, -⟩ := Prod.mk.inj (some.inj h) |>.imp id Prod.mk.inj
      exact .refl _

/-- The number of pages `meson_rsv_read` reads. -/
def readCount (mtd : MtdInfo) (s : RsvState) : ℕ :=
  (s.info.size + mtd.writesize - 1) / mtd.writesize

theorem sameLists_mesonRsvRead (hq : s.info.valid = true → s.Quiet (s.readCount mtd))
    (h : s.mesonRsvRead mtd blockCnt = some (ret, s', buf)) : SameLists s s' := by
  rw [mesonRsvRead] at h
  split at h
  · next hv =>
    refine sameLists_readPages ?_ (hq hv) h
    have hW : 0 < mtd.writesize := Nat.two_pow_pos _
    have := Nat.lt_div_mul_add hW (a := s.info.size + mtd.writesize - 1)
    rw [readCount, length_nil]
    omega
  · obtain ⟨rfl, rfl, -⟩ := Prod.mk.inj (some.inj h) |>.imp id Prod.mk.inj
    exact .refl _

end RsvState

end CommonDrivers.Mtd
