import CommonDrivers.Mtd.RsvLists

/-!
# The reserved areas of one handler

The areas of a handler share one pool of nodes. In a run of the functions on its areas the block
lists of all areas stay in order, as long as each scan starts with an area that has no lists yet
(`Handler.lists_in_order`).

A scan that starts with the lists of an earlier scan links every block a second time, the valid
block included. `meson_rsv_read` does this after a read that fails (`Handler.relinked_blocks`).
-/

namespace CommonDrivers.Mtd

open List Option

/-- The areas of the handler, with the pool they share and the device. -/
structure Handler where
  areas : List RsvInfo
  freenodebitmask : Finset ℕ
  nand : Nand

/-- The functions an area is used with. -/
inductive Call where
  | scan
  | save (buf : List UInt8)
  | read
  | free

/-- What a call leaves of the state. -/
def RsvState.call (mtd : MtdInfo) (blockCnt : ℕ) (s : RsvState) : Call → Option RsvState
  | .scan => (s.mesonRsvScan mtd blockCnt).map (·.2)
  | .save buf => (s.mesonRsvSave mtd blockCnt buf).map (·.2)
  | .read => (s.mesonRsvRead mtd blockCnt).map (·.2.1)
  | .free => some (s.mesonFreeRsvInfo mtd blockCnt)

/-- The call starts without lists if it scans, and does not scan if it reads. -/
def RsvState.Clean (mtd : MtdInfo) (s : RsvState) : Call → Prop
  | .scan => s.Unlisted
  | .read => s.info.valid = true → s.Quiet (s.readCount mtd)
  | .save _ => True
  | .free => True

/-- A call keeps the lists of the area in order. -/
theorem RsvState.Ok.call {mtd : MtdInfo} {blockCnt : ℕ} {others : Finset ℕ} {s s' : RsvState}
    {c : Call} (hp : s.info.Placed)
    (h : s.Ok blockCnt others s.info.startBlock s.info.endBlock) (hc : s.Clean mtd c)
    (hr : s.call mtd blockCnt c = some s') :
    s'.Ok blockCnt others s'.info.startBlock s'.info.endBlock ∧ SameArea s s' := by
  suffices hs : s'.Ok blockCnt others s.info.startBlock s.info.endBlock ∧ SameArea s s' by
    refine ⟨?_, hs.2⟩
    rw [hs.2.startBlock, hs.2.endBlock]
    exact hs.1
  cases c with
  | scan =>
    obtain ⟨⟨ret, s₁⟩, hres, rfl⟩ := map_eq_some_iff.1 hr
    exact Ok.scanExt (p := ⟨s, false, ∅⟩) hp h hc hres
  | save buf =>
    obtain ⟨⟨ret, s₁⟩, hres, rfl⟩ := map_eq_some_iff.1 hr
    exact h.mesonRsvSave (Int.natCast_nonneg _) hres
  | read =>
    obtain ⟨⟨ret, s₁, buf⟩, hres, rfl⟩ := map_eq_some_iff.1 hr
    have hsame := sameLists_mesonRsvRead hc hres
    exact ⟨h.sameLists hsame, hsame.toSameArea⟩
  | free =>
    cases hr
    exact ⟨(h.mesonFreeRsvInfo mtd).1, (h.mesonFreeRsvInfo mtd).2.1⟩

namespace Handler

variable {mtd : MtdInfo} {blockCnt a : ℕ} {c : Call} {h h' h₀ : Handler} {r : RsvInfo}

/-- The state a call on the area starts from. -/
def state (h : Handler) (r : RsvInfo) : RsvState := ⟨r, h.freenodebitmask, h.nand⟩

/-- A call on the area with the number `a`. -/
def call (mtd : MtdInfo) (blockCnt : ℕ) (h : Handler) (a : ℕ) (c : Call) : Option Handler := do
  let r ← h.areas[a]?
  let s ← (h.state r).call mtd blockCnt c
  some ⟨h.areas.set a s.info, s.freenodebitmask, s.nand⟩

/-- A call that keeps to the condition. -/
def Clean (mtd : MtdInfo) (h : Handler) (a : ℕ) (c : Call) : Prop :=
  ∀ r, h.areas[a]? = some r → (h.state r).Clean mtd c

/-- A run: each call satisfies the condition. -/
inductive Run (mtd : MtdInfo) (blockCnt : ℕ) (ok : Handler → ℕ → Call → Prop) :
    Handler → Handler → Prop
  | refl (h : Handler) : Run mtd blockCnt ok h h
  | tail {h₀ h h' : Handler} {a : ℕ} {c : Call} : Run mtd blockCnt ok h₀ h → ok h a c →
      h.call mtd blockCnt a c = some h' → Run mtd blockCnt ok h₀ h'

/-- The handler as `meson_rsv_init` sets it up. -/
structure Init (h : Handler) : Prop where
  mask : h.freenodebitmask = ∅
  areas : ∀ r ∈ h.areas, r = .fresh r.startBlock r.endBlock r.size r.name

/-- The block lists are in order: the blocks in the free list of an area are distinct and not its
    valid block, all blocks are inside the area, and the mask has the nodes that are linked, each
    of them once. -/
structure ListsInOrder (h : Handler) : Prop where
  distinct : ∀ r ∈ h.areas, (r.freeNode.map FreeNode.phyBlkAddr).Nodup
  valid : ∀ r ∈ h.areas, r.valid = true →
    r.validNode.phyBlkAddr ∉ r.freeNode.map FreeNode.phyBlkAddr
  free_inside : ∀ r ∈ h.areas, ∀ x ∈ r.freeNode,
    r.startBlock ≤ x.phyBlkAddr ∧ x.phyBlkAddr < r.endBlock
  valid_inside : ∀ r ∈ h.areas, r.valid = true →
    r.startBlock ≤ r.validNode.phyBlkAddr ∧ r.validNode.phyBlkAddr < r.endBlock
  nodes : (h.areas.flatMap RsvInfo.nodes).Nodup
  mask : ∀ i, i ∈ h.freenodebitmask ↔ i ∈ h.areas.flatMap RsvInfo.nodes

/-- What a run keeps. -/
structure Inv (blockCnt : ℕ) (h : Handler) : Prop where
  linked : Linked blockCnt ∅ (h.areas.flatMap RsvInfo.nodes) h.freenodebitmask
  within : ∀ r ∈ h.areas, r.Within r.startBlock r.endBlock
  placed : ∀ r ∈ h.areas, r.Placed

theorem Init.inv (hi : h.Init) (hp : ∀ r ∈ h.areas, r.Placed) : h.Inv blockCnt := by
  have hnodes : h.areas.flatMap RsvInfo.nodes = [] := by
    refine flatMap_eq_nil_iff.2 fun r hr => ?_
    rw [hi.areas r hr]
    rfl
  refine ⟨?_, fun r hr => ?_, hp⟩
  · rw [hnodes, hi.mask]
    exact ⟨nodup_nil, fun _ hi => (nomatch hi), fun i => by simp, fun _ hi => (nomatch hi)⟩
  · rw [hi.areas r hr]
    exact ⟨nodup_nil, fun b hb => (by cases hb), fun hv => (by cases hv)⟩

theorem Inv.step (hi : h.Inv blockCnt) (hc : h.Clean mtd a c)
    (hcall : h.call mtd blockCnt a c = some h') : h'.Inv blockCnt := by
  obtain ⟨r, hr, hcall⟩ := bind_eq_some_iff.1 hcall
  obtain ⟨s, hs, hcall⟩ := bind_eq_some_iff.1 hcall
  cases hcall
  obtain ⟨hlt, hget⟩ := List.getElem?_eq_some_iff.1 hr
  have hmem : r ∈ h.areas := hget ▸ getElem_mem hlt
  -- the area that is called, next to the others
  have hperm : h.areas.Perm (r :: h.areas.eraseIdx a) :=
    hget ▸ (getElem_cons_eraseIdx_perm hlt).symm
  have hperm' := set_perm_cons_eraseIdx hlt s.info
  obtain ⟨hl, hrest⟩ :=
    Linked.append_iff.1 (hi.linked.perm (hperm.symm.flatMap_right RsvInfo.nodes))
  obtain ⟨hok, hsame⟩ := RsvState.Ok.call (s := h.state r) (hi.placed r hmem)
    ⟨hl, hi.within r hmem⟩ (hc r hr) hs
  refine ⟨(Linked.append_iff.2 ⟨hok.linked, hrest⟩).perm (hperm'.flatMap_right RsvInfo.nodes),
    fun r' hr' => ?_, fun r' hr' => ?_⟩
  · rcases mem_cons.1 (hperm'.mem_iff.1 hr') with rfl | hr'
    · exact hok.within
    · exact hi.within r' (hperm.mem_iff.2 (.tail _ hr'))
  · rcases mem_cons.1 (hperm'.mem_iff.1 hr') with rfl | hr'
    · exact hsame.placed (hi.placed r hmem)
    · exact hi.placed r' (hperm.mem_iff.2 (.tail _ hr'))

theorem Inv.run (hr : Run mtd blockCnt (Clean mtd) h₀ h) (hi : h₀.Inv blockCnt) :
    h.Inv blockCnt := by
  induction hr with
  | refl => exact hi
  | tail _ hc hs ih => exact ih.step hc hs

theorem Inv.listsInOrder (hi : h.Inv blockCnt) : h.ListsInOrder where
  distinct r hr := ((sublist_append_right _ _).nodup (hi.within r hr).nodup)
  valid r hr hv := by
    have hnd := (hi.within r hr).nodup
    rw [RsvInfo.blocks, if_pos ((hi.within r hr).valid hv)] at hnd
    exact (nodup_cons.1 hnd).1
  free_inside r hr x hx := (hi.within r hr).inside _ (mem_append_right _ (List.mem_map_of_mem hx))
  valid_inside r hr hv := by
    refine (hi.within r hr).inside _ (mem_append_left _ ?_)
    rw [if_pos ((hi.within r hr).valid hv)]
    exact .head _
  nodes := hi.linked.nodup
  mask i := (hi.linked.mem_iff i).trans (or_iff_right (Finset.notMem_empty i))

/-- In a run from the start in which each scan of an area starts without lists, and no read of a
    page fails in `meson_rsv_read`, the block lists are in order in every state. -/
theorem lists_in_order (hp : ∀ r ∈ h₀.areas, r.Placed) (hi : h₀.Init)
    (hr : Run mtd blockCnt (Clean mtd) h₀ h) : h.ListsInOrder :=
  (Inv.run hr (hi.inv hp)).listsInOrder

/-- Pages of one byte, two to a block. -/
def smallMtd : MtdInfo := ⟨0, 1⟩

/-- One area of two erased blocks for records of one byte. -/
def oneArea (fails : List Bool) : Handler :=
  ⟨[.fresh 24 26 1 0x6e656e76], ∅, ⟨fun _ => none, fails, []⟩⟩

theorem oneArea_placed (fails : List Bool) : ∀ r ∈ (oneArea fails).areas, r.Placed := by
  intro r hr
  obtain rfl := mem_singleton.1 hr
  exact ⟨by decide, by decide, .inr (.inr (by decide))⟩

theorem oneArea_init (fails : List Bool) : (oneArea fails).Init := by
  refine ⟨rfl, fun r hr => ?_⟩
  obtain rfl := mem_singleton.1 hr
  rfl

/-- A scan and a save. -/
theorem lists_in_order_oneArea : ∃ h, Run smallMtd 48 (Clean smallMtd) (oneArea []) h ∧
    h.areas.map RsvInfo.valid = [true] ∧ h.ListsInOrder := by
  have hrun : (do
      let h₁ ← (oneArea []).call smallMtd 48 0 .scan
      let h₂ ← h₁.call smallMtd 48 0 (.save [7])
      some (h₂.areas.map RsvInfo.valid)) = some [true] := by decide +kernel
  obtain ⟨h₁, hscan, hrun⟩ := bind_eq_some_iff.1 hrun
  obtain ⟨h₂, hsave, hrun⟩ := bind_eq_some_iff.1 hrun
  have hclean : (oneArea []).Clean smallMtd 0 .scan := by
    intro r hr
    cases hr
    exact ⟨rfl, neg_one_lt_zero⟩
  have hr : Run smallMtd 48 (Clean smallMtd) (oneArea []) h₂ :=
    .tail (c := .save [7]) (.tail (.refl _) hclean hscan) (fun _ _ => trivial) hsave
  exact ⟨h₂, hr, some.inj hrun, lists_in_order (oneArea_placed []) (oneArea_init []) hr⟩

/-- After a scan and a save, the page of the record cannot be read: the area is scanned again with
    its lists, and the free list has block 25 twice, and the valid block. -/
theorem relinked_blocks : ∃ h, Run smallMtd 48 (fun _ _ _ => True)
    (oneArea [false, false, false, false, false, true]) h ∧
    h.areas.map (fun r => (r.validNode.phyBlkAddr, r.freeNode.map FreeNode.phyBlkAddr)) =
      [(24, [25, 24, 25])] ∧ ¬h.ListsInOrder := by
  have hrun : (do
      let h₁ ← (oneArea [false, false, false, false, false, true]).call smallMtd 48 0 .scan
      let h₂ ← h₁.call smallMtd 48 0 (.save [7])
      let h₃ ← h₂.call smallMtd 48 0 .read
      some (h₃.areas.map fun r => (r.validNode.phyBlkAddr, r.freeNode.map FreeNode.phyBlkAddr))) =
      some [(24, [25, 24, 25])] := by decide +kernel
  obtain ⟨h₁, hscan, hrun⟩ := bind_eq_some_iff.1 hrun
  obtain ⟨h₂, hsave, hrun⟩ := bind_eq_some_iff.1 hrun
  obtain ⟨h₃, hread, hrun⟩ := bind_eq_some_iff.1 hrun
  have hareas := some.inj hrun
  refine ⟨h₃, .tail (.tail (.tail (.refl _) trivial hscan) trivial hsave) trivial hread, hareas,
    fun hord => ?_⟩
  obtain ⟨r, hr⟩ := exists_mem_of_ne_nil h₃.areas fun hnil => by rw [hnil] at hareas; cases hareas
  have hblocks := List.mem_map_of_mem
    (f := fun r : RsvInfo => (r.validNode.phyBlkAddr, r.freeNode.map FreeNode.phyBlkAddr)) hr
  rw [hareas] at hblocks
  have hnd := hord.distinct r hr
  rw [(Prod.mk.inj (mem_singleton.1 hblocks)).2] at hnd
  exact absurd hnd (by decide)

end Handler

end CommonDrivers.Mtd
