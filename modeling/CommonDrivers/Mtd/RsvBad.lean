import CommonDrivers.Mtd.RsvRecords

/-!
# Saving a record where blocks are bad

Before `meson_rsv_save` erases a block for a record, it asks whether the block is bad, and passes
over it if so: the block goes to the end of the free list, or is dropped if the area has no record
yet. A block that cannot be erased is marked bad, and passed over from then on. Here the state has
the table of the bad blocks (`Tabled`).

The save ends, with a record in a block that is not bad or with an error, and has erased no bad
block, exactly if there is a place for the record (`Tabled.save_bad`). The free list may be empty,
though, and is not asked about (`Tabled.save_bad_fails`), and the block of the last record is
written and erased without a look.
-/

namespace CommonDrivers.Mtd

open Flash List Function

/-- An area with the table of the bad blocks, and the blocks that have been given to `_erase`, each
    with what the table said of it then. -/
structure Tabled extends RsvState where
  bad : ℤ → Bool
  erases : List (ℤ × Bool)

namespace Tabled

section

variable (mtd : MtdInfo) (blockCnt : ℕ)

/-- What the area does without the table. -/
def lift (t : Tabled) (f : RsvState → RsvState) : Tabled := { t with toRsvState := f t.toRsvState }

/-- The valid block is erased, and marked bad by `_block_markbad` if that fails. The table is also
    saved then, in an area of its own. -/
def eraseValid (t : Tabled) : Bool × Tabled :=
  let blk := t.info.validNode.phyBlkAddr
  let erases := t.erases ++ [(blk, t.bad blk)]
  match t.nand.erase mtd.pagesPerBlk blk with
  | (true, nand) => (true, { t with nand, bad := update t.bad blk true, erases })
  | (false, nand) => (false, { t with nand, erases })

/-- The valid block is erased before it goes to the free list, if it has been found damaged. -/
def eraseDamaged (t : Tabled) (i : ℤ) : Tabled :=
  if t.info.validNode.phyPageAddr - i = mtd.pagesPerBlk then
    (t.eraseValid mtd).2.lift (·.countErase)
  else t

/-- What `meson_rsv_save` does from `RE_SEARCH` on to find the place for the record: an error
    stands for the return of `-ENOMEM`. -/
def place (t : Tabled) (i : ℤ) : Option (Except Tabled Tabled) :=
  if t.info.valid then
    let t := t.lift (·.advance i)
    if mtd.pagesPerBlk < t.info.validNode.phyPageAddr + i then
      let t := t.eraseDamaged mtd i
      match t.link blockCnt t.info.validNode.phyBlkAddr t.info.validNode.ec with
      | .error _ => some (.error t)
      | .ok s =>
        if t.info.freeNode = [] then none
        else (s.takeFirst blockCnt).map fun s => .ok { t with toRsvState := s }
    else some (.ok t)
  else (t.takeFirst blockCnt).map fun s => .ok { t with toRsvState := s }

/-- The end of `meson_rsv_save`, from the call of `meson_rsv_write` on. -/
def saveWrite (t : Tabled) (buf : List UInt8) : Ret × Tabled :=
  let r := t.toRsvState.saveWrite mtd buf
  (r.1, { t with toRsvState := r.2 })

/-- `meson_rsv_save` from `RE_SEARCH` on, with at most `fuel` rounds. -/
def reSearch (i : ℤ) (buf : List UInt8) : ℕ → Tabled → Option (Ret × Tabled)
  | 0, _ => none
  | fuel + 1, t =>
    match t.place mtd blockCnt i with
    | none => none
    | some (.error t) => some (.noMem, t)
    | some (.ok t) =>
      if t.info.validNode.phyPageAddr = 0 then
        if t.bad t.info.validNode.phyBlkAddr then
          reSearch i buf fuel (t.lift (·.setPage (mtd.pagesPerBlk - i)))
        else
          match t.eraseValid mtd with
          | (true, t) => some (.failed, t)
          | (false, t) => some (saveWrite mtd (t.lift (·.countErase)) buf)
      else some (t.saveWrite mtd buf)

/-- `meson_rsv_save`. -/
def mesonRsvSave (fuel : ℕ) (t : Tabled) (buf : List UInt8) : Option (Ret × Tabled) :=
  reSearch mtd blockCnt (RsvState.savePages mtd t.info.size) buf fuel (t.lift (·.startSave mtd))

/-- An area as it is when a save starts: `fails` says which of the operations to come fail. -/
def start (s : RsvState) (bad : ℤ → Bool) (fails : List Bool) : Tabled :=
  ⟨{ s with nand := { s.nand with fails } }, bad, []⟩

/-- The last operations have programmed the record `buf` into the valid block. -/
def Programmed (buf : List UInt8) (s : RsvState) : Prop := ∃ before, s.nand.ops = before ++
  Cells.programs (RsvState.firstPage mtd s.info)
    ((RsvState.chunks mtd s.info.size buf).map (⟨·, RsvState.tag s.info⟩))

/-- No bad block was to be erased, and a record that was saved is in a block that is not bad. -/
structure Sparing (buf : List UInt8) (r : Ret × Tabled) : Prop where
  spares : ∀ e ∈ r.2.erases, e.2 = false
  saved : r.1 = .ok → r.2.bad r.2.info.validNode.phyBlkAddr = false ∧
    Programmed mtd buf r.2.toRsvState

/-- The search ends, as it should. -/
def Ends (i : ℤ) (buf : List UInt8) (t : Tabled) : Prop :=
  ∃ n r, (∀ fuel > n, reSearch mtd blockCnt i buf fuel t = some r) ∧ Sparing mtd buf r

/-- The blocks that are tried: those of the free list, and then the valid one, which is linked at
    its end. -/
def candidates (s : RsvState) : List ℤ := s.info.freeNode.map (·.phyBlkAddr) ++
    if s.info.valid then [s.info.validNode.phyBlkAddr] else []

/-- The pool has a node. -/
def HasNode (s : RsvState) : Prop := ∃ index < blockCnt, index ∉ s.freenodebitmask

/-- There is a place for a record of `i` pages. Behind the last record it is one if the block is not
    bad, or if the pages are not erased, so that the save fails. Otherwise a block must be found
    that is not bad; a damaged block may become bad now, and a pool without a node makes the save
    fail. -/
def Place (bad : ℤ → Bool) (i : ℤ) (buf : List UInt8) (s : RsvState) : Prop :=
  let node := s.info.validNode
  if s.info.valid = false then ∃ b ∈ candidates s, bad b = false
  else if node.phyPageAddr + i + i ≤ mtd.pagesPerBlk then
    bad node.phyBlkAddr = false ∨
      if node.phyPageAddr + i = 0 then HasNode blockCnt s → ∃ b ∈ candidates s, bad b = false
      else ∃ j < (RsvState.chunks mtd s.info.size buf).length,
        (s.nand.cells (RsvState.firstPage mtd s.info + i + j)).isSome
  else
    (node.phyPageAddr = mtd.pagesPerBlk → bad node.phyBlkAddr = false) ∧
      (HasNode blockCnt s → s.info.freeNode ≠ [] ∧ ∃ b ∈ candidates s, bad b = false ∧
        (node.phyPageAddr = mtd.pagesPerBlk → b ≠ node.phyBlkAddr))

end

variable {mtd : MtdInfo} {blockCnt : ℕ} {s : RsvState} {t : Tabled} {nand : Nand} {i b : ℤ}
  {buf : List UInt8}

/-! ## Writing the record -/

/-- If no page of the record fails, they are programmed one after the other. -/
theorem ops_writePages {nand' : Nand} {oob : OobInfo} {page : ℤ} {data : List (List UInt8)}
    (h : RsvState.writePages mtd oob nand page data = (false, nand')) :
    nand'.ops = nand.ops ++ Cells.programs page (data.map (⟨·, oob⟩)) := by
  induction data generalizing nand page with
  | nil =>
    obtain ⟨-, rfl⟩ := Prod.mk.inj h
    exact (append_nil _).symm
  | cons x data ih =>
    rw [RsvState.writePages] at h
    split at h
    · cases h
    next nand₁ heq =>
    have hops : nand₁.ops = nand.ops ++ [.program page ⟨x, oob⟩] := by
      obtain ⟨cells, fails, log⟩ := nand
      rw [Device.program] at heq
      split at heq
      · cases heq
      rcases fails with _ | ⟨_ | _, fails⟩ <;> cases heq <;> rfl
    rw [ih h, hops, append_assoc]
    rfl

/-- If a page is not erased, the record cannot be written. -/
theorem writePages_of_isSome {oob : OobInfo} {page : ℤ} {data : List (List UInt8)} {j : ℕ}
    (hj : j < data.length) (h : (nand.cells (page + j)).isSome) :
    (RsvState.writePages mtd oob nand page data).1 = true := by
  induction data generalizing nand page j with
  | nil => cases hj
  | cons x data ih =>
    rw [RsvState.writePages]
    split
    · rfl
    next nand₁ heq =>
    rw [Device.program] at heq
    split at heq
    · cases heq
    next hpage =>
    cases j with
    | zero => exact absurd (by simpa using h) hpage
    | succ j =>
      refine ih (j := j) (Nat.lt_of_succ_lt_succ hj) ?_
      -- the page before it is another one
      have hcells : nand₁.cells (page + 1 + j) = nand.cells (page + 1 + j) := by
        have hne : page + 1 + j ≠ page := by omega
        obtain ⟨cells, fails, log⟩ := nand
        rcases fails with _ | ⟨_ | _, fails⟩ <;> cases heq <;> exact update_of_ne hne _ _
      rw [hcells]
      rwa [Nat.cast_succ, add_comm (j : ℤ), ← add_assoc] at h

/-- On a device on which nothing fails, the record is written if its pages are erased. -/
theorem writePages_of_eq_none {oob : OobInfo} {page : ℤ} {data : List (List UInt8)} {c : Cells Page}
    {ops : List (Op Page)} (h : ∀ j < data.length, c (page + (j : ℕ)) = none) :
    (RsvState.writePages mtd oob (.ofCells c ops) page data).1 = false := by
  induction data generalizing c ops page with
  | nil => rfl
  | cons x data ih =>
    have hpage : c page = none := by simpa using h 0 (Nat.succ_pos _)
    rw [RsvState.writePages, Device.program_ofCells hpage]
    refine ih fun j hj => ?_
    have hne : page + 1 + (j : ℕ) ≠ page := by omega
    have hnext := h (j + 1) (Nat.succ_lt_succ hj)
    rw [Nat.cast_succ, add_comm (j : ℤ), ← add_assoc] at hnext
    exact (update_of_ne hne _ _).trans hnext

/-- The save fails if the write does; otherwise the record is in the valid block. -/
theorem saveWrite_cases (mtd : MtdInfo) (s : RsvState) (buf : List UInt8) :
    (s.saveWrite mtd buf).2.info.validNode.phyBlkAddr = s.info.validNode.phyBlkAddr ∧
      ((s.saveWrite mtd buf).1 = .ok ↔ (s.mesonRsvWrite mtd buf).1 = false) ∧
      ((s.saveWrite mtd buf).1 = .ok → Programmed mtd buf (s.saveWrite mtd buf).2) := by
  have hops : (s.mesonRsvWrite mtd buf).1 = false →
      Programmed mtd buf (s.mesonRsvWrite mtd buf).2 := fun hok =>
    ⟨_, ops_writePages (Prod.ext hok rfl)⟩
  have hblk : (s.mesonRsvWrite mtd buf).2.info.validNode.phyBlkAddr =
    s.info.validNode.phyBlkAddr := rfl
  rw [RsvState.saveWrite]
  split
  · next heq =>
    rw [heq] at hblk ⊢
    exact ⟨hblk, by simp, by simp⟩
  · next heq =>
    rw [heq] at hblk hops ⊢
    exact ⟨hblk, by simp, fun _ => hops rfl⟩

/-- A write to a block that is not bad is as it should be, and one to a bad block if it fails. -/
theorem sparing_saveWrite_iff (h : ∀ e ∈ t.erases, e.2 = false) :
    Sparing mtd buf (t.saveWrite mtd buf) ↔
      ((t.mesonRsvWrite mtd buf).1 = false → t.bad t.info.validNode.phyBlkAddr = false) := by
  obtain ⟨hblk, hret, hprog⟩ := saveWrite_cases mtd t.toRsvState buf
  rw [← hret, ← hblk]
  exact ⟨fun hs hok => (hs.saved hok).1, fun hs => ⟨h, fun hok => ⟨hs hok, hprog hok⟩⟩⟩

/-! ## The search for a block -/

theorem isSome_getFreeNode (s : RsvState) :
    (getFreeNode blockCnt s.freenodebitmask).isSome ↔ HasNode blockCnt s := by
  rw [getFreeNode, HasNode]
  split
  · next h =>
    rw [find?_eq_none] at h
    simpa using h
  · next index h =>
    have hnode : index < blockCnt := List.mem_range.1 (mem_of_find?_eq_some h)
    exact iff_of_true rfl ⟨index, hnode, by simpa using find?_some h⟩

/-- The area after the valid block has been looked at, which is erased if it is damaged. -/
def retire (mtd : MtdInfo) (i : ℤ) (t : Tabled) : Tabled :=
  if t.info.valid then (t.lift (·.advance i)).eraseDamaged mtd i else t

theorem toRsvState_eraseDamaged (t : Tabled) :
    (t.eraseDamaged mtd i).toRsvState = t.toRsvState.eraseDamaged mtd i := by
  rw [eraseDamaged, RsvState.eraseDamaged]
  split
  · rw [eraseValid]
    split
    · next heq =>
      rw [heq]
      rfl
    · next heq =>
      rw [heq]
      rfl
  · rfl

/-- A damaged block is to be erased, and may be bad after that. -/
theorem retire_of_damaged (i : ℤ) (hvalid : t.info.valid = true)
    (hpage : t.info.validNode.phyPageAddr = mtd.pagesPerBlk) :
    (t.retire mtd i).erases =
        t.erases ++ [(t.info.validNode.phyBlkAddr, t.bad t.info.validNode.phyBlkAddr)] ∧
      (t.retire mtd i).bad = if t.nand.next.1 then update t.bad t.info.validNode.phyBlkAddr true
        else t.bad := by
  have hdamaged : (t.lift (·.advance i)).info.validNode.phyPageAddr - i = mtd.pagesPerBlk := by
    simpa [lift, RsvState.advance, RsvState.setPage] using hpage
  rw [retire, if_pos hvalid, eraseDamaged, if_pos hdamaged, eraseValid]
  dsimp only [lift, RsvState.advance, RsvState.setPage]
  rw [Device.erase, Device.perform]
  rcases t.nand.next with ⟨_ | _, nand⟩
  · exact ⟨rfl, rfl⟩
  · exact ⟨rfl, rfl⟩

theorem retire_of_not_damaged (mtd : MtdInfo) (i : ℤ) (t : Tabled)
    (h : t.info.valid = true → t.info.validNode.phyPageAddr ≠ mtd.pagesPerBlk) :
    (t.retire mtd i).erases = t.erases ∧ (t.retire mtd i).bad = t.bad := by
  rw [retire]
  split
  · next hvalid =>
    have hnot : (t.lift (·.advance i)).info.validNode.phyPageAddr - i ≠ mtd.pagesPerBlk := by
      simpa [lift, RsvState.advance, RsvState.setPage] using h hvalid
    rw [eraseDamaged, if_neg hnot]
    exact ⟨rfl, rfl⟩
  · exact ⟨rfl, rfl⟩

/-- A block is needed. -/
structure Needs (mtd : MtdInfo) (blockCnt : ℕ) (i : ℤ) (t : Tabled) : Prop where
  pos : 0 < i
  nodes : ∀ x ∈ t.info.freeNode, x.index < blockCnt
  full : t.info.valid = true → mtd.pagesPerBlk < t.info.validNode.phyPageAddr + i + i

/-- The block of `t'` is the first of the candidates; the one after it follows if it is bad. -/
structure Taken (mtd : MtdInfo) (blockCnt : ℕ) (i : ℤ) (t t' : Tabled) : Prop where
  page : t'.info.validNode.phyPageAddr = 0
  blocks : t'.info.validNode.phyBlkAddr :: t'.info.freeNode.map (·.phyBlkAddr) =
    candidates t.toRsvState
  valid : t'.info.valid = t.info.valid
  bad : t'.bad = (t.retire mtd i).bad
  erases : t'.erases = (t.retire mtd i).erases
  nodes : ∀ x ∈ t'.info.freeNode, x.index < blockCnt
  hasNode : t'.info.valid = true → HasNode blockCnt t'.toRsvState

theorem sameLists_retire (mtd : MtdInfo) (i : ℤ) (t : Tabled) :
    RsvState.SameLists t.toRsvState (t.retire mtd i).toRsvState := by
  rw [retire]
  split
  · rw [toRsvState_eraseDamaged]
    exact (RsvState.sameLists_setPage t.toRsvState _).trans
      (RsvState.sameLists_eraseDamaged mtd _ i)
  · exact .refl _

/-- A full block is linked at the end of the free list. -/
theorem Needs.place_valid (h : Needs mtd blockCnt i t) (hvalid : t.info.valid = true) :
    t.place mtd blockCnt i = match (t.retire mtd i).link blockCnt t.info.validNode.phyBlkAddr
        (t.retire mtd i).info.validNode.ec with
      | .error _ => some (.error (t.retire mtd i))
      | .ok s => if t.info.freeNode = [] then none
        else (s.takeFirst blockCnt).map fun s => .ok { t.retire mtd i with toRsvState := s } := by
  have hroom : mtd.pagesPerBlk < (t.lift (·.advance i)).info.validNode.phyPageAddr + i :=
    h.full hvalid
  have hsame := sameLists_retire mtd i t
  rw [← hsame.blk, ← hsame.freeNode, place, if_pos hvalid, if_pos hroom, retire, if_pos hvalid]

/-- If no node can be linked to a full block, the search ends. -/
theorem Needs.place_error (h : Needs mtd blockCnt i t) (hvalid : t.info.valid = true)
    (hnode : ¬HasNode blockCnt t.toRsvState) :
    t.place mtd blockCnt i = some (.error (t.retire mtd i)) := by
  rw [h.place_valid hvalid, RsvState.link, (sameLists_retire mtd i t).mask]
  cases hget : getFreeNode blockCnt t.freenodebitmask with
  | none => rfl
  | some node => exact absurd ((isSome_getFreeNode _).1 (Option.isSome_of_eq_some hget)) hnode

/-- An empty free list is not asked about. -/
theorem Needs.place_nil (h : Needs mtd blockCnt i t)
    (hnode : t.info.valid = true → HasNode blockCnt t.toRsvState) (hfree : t.info.freeNode = []) :
    t.place mtd blockCnt i = none := by
  cases hvalid : t.info.valid with
  | true =>
    obtain ⟨node, hget⟩ := Option.isSome_iff_exists.1 ((isSome_getFreeNode _).2 (hnode hvalid))
    rw [h.place_valid hvalid, RsvState.link, (sameLists_retire mtd i t).mask, hget]
    exact if_pos hfree
  | false =>
    rw [place, hvalid, if_neg Bool.false_ne_true, RsvState.takeFirst, hfree]
    rfl

/-- The first of the candidates is taken. -/
theorem Needs.place_ok (h : Needs mtd blockCnt i t)
    (hnode : t.info.valid = true → HasNode blockCnt t.toRsvState) (hfree : t.info.freeNode ≠ []) :
    ∃ t', t.place mtd blockCnt i = some (.ok t') ∧ Taken mtd blockCnt i t t' := by
  obtain ⟨node, rest, hcons⟩ := exists_cons_of_ne_nil hfree
  have hlt : node.index < blockCnt := h.nodes node (hcons ▸ mem_cons_self)
  have hrest : ∀ x ∈ rest, x.index < blockCnt := fun x hx =>
    h.nodes x (hcons ▸ mem_cons_of_mem node hx)
  cases hvalid : t.info.valid with
  | true =>
    have hsame := sameLists_retire mtd i t
    obtain ⟨⟨index, mask⟩, hget⟩ :=
      Option.isSome_iff_exists.1 ((isSome_getFreeNode _).2 (hnode hvalid))
    obtain ⟨-, hindex, -⟩ := Linked.of_getFreeNode hget
    rw [h.place_valid hvalid, RsvState.link, hsame.mask, hget]
    dsimp only
    rw [if_neg hfree, hsame.freeNode, hcons]
    refine ⟨_, rfl, rfl, ?_, hsame.valid, rfl, rfl, fun x hx => ?_, fun _ => ?_⟩
    · rw [candidates, hcons, if_pos hvalid]
      simp
    · rcases mem_append.1 hx with hx | hx
      · exact hrest x hx
      · rw [mem_singleton.1 hx]
        exact hindex
    · refine ⟨node.index, hlt, ?_⟩
      change node.index ∉ releaseFreeNode blockCnt mask node
      rw [releaseFreeNode, if_neg hlt.not_gt]
      exact Finset.notMem_erase _ _
  | false =>
    have hretire : t.retire mtd i = t := if_neg (by simp [hvalid])
    rw [place, hvalid, if_neg Bool.false_ne_true, RsvState.takeFirst, hcons]
    refine ⟨_, rfl, rfl, ?_, rfl, ?_, ?_, hrest, fun hv => ?_⟩
    · rw [candidates, hcons, hvalid, if_neg Bool.false_ne_true, append_nil]
      rfl
    · rw [hretire]
    · rw [hretire]
    · cases hvalid.symm.trans hv

/-- A bad block makes room for the next candidate, and goes to the end of the list if the area has a
    record. -/
theorem Taken.next {t' : Tabled} (h : Taken mtd blockCnt i t t') (hi : 0 < i) :
    Needs mtd blockCnt i (t'.lift (·.setPage (mtd.pagesPerBlk - i))) ∧
      candidates (t'.lift (·.setPage (mtd.pagesPerBlk - i))).toRsvState =
        (candidates t.toRsvState).tail ++
          (if t.info.valid then [t'.info.validNode.phyBlkAddr] else []) ∧
      (retire mtd i (t'.lift (·.setPage (mtd.pagesPerBlk - i)))).erases = t'.erases ∧
      (retire mtd i (t'.lift (·.setPage (mtd.pagesPerBlk - i)))).bad = t'.bad := by
  refine ⟨⟨hi, h.nodes, fun _ => ?_⟩, ?_, retire_of_not_damaged mtd i _ fun _ => ?_⟩
  · dsimp only [lift, RsvState.setPage]
    omega
  · rw [← h.blocks, ← h.valid, tail_cons]
    rfl
  · dsimp only [lift, RsvState.setPage]
    omega

/-- If every candidate is bad, the search does not end. -/
theorem Needs.reSearch_eq_none (h : Needs mtd blockCnt i t)
    (hnode : t.info.valid = true → HasNode blockCnt t.toRsvState)
    (hbad : ∀ b ∈ candidates t.toRsvState, (t.retire mtd i).bad b = true) (fuel : ℕ) :
    reSearch mtd blockCnt i buf fuel t = none := by
  induction fuel generalizing t with
  | zero => rfl
  | succ fuel ih =>
    rw [reSearch]
    by_cases hfree : t.info.freeNode = []
    · rw [h.place_nil hnode hfree]
    obtain ⟨t', hplace, htaken⟩ := h.place_ok hnode hfree
    obtain ⟨hneeds, hcand, -, hsame⟩ := htaken.next h.pos
    have hfirst : t'.info.validNode.phyBlkAddr ∈ candidates t.toRsvState :=
      htaken.blocks ▸ mem_cons_self
    have hblk : t'.bad t'.info.validNode.phyBlkAddr = true := htaken.bad ▸ hbad _ hfirst
    rw [hplace]
    dsimp only
    rw [if_pos htaken.page, if_pos hblk]
    refine ih hneeds htaken.hasNode fun b hb => ?_
    rw [hsame, htaken.bad]
    rw [hcand] at hb
    rcases mem_append.1 hb with hb | hb
    · exact hbad b (mem_of_mem_tail hb)
    · split at hb
      · rw [mem_singleton.1 hb]
        exact hbad _ hfirst
      · cases hb

/-- A block that is not bad takes the record, if it can be erased. -/
theorem reSearch_last {t' : Tabled} (hplace : t.place mtd blockCnt i = some (.ok t'))
    (hpage : t'.info.validNode.phyPageAddr = 0)
    (hb : t'.bad t'.info.validNode.phyBlkAddr = false) (buf : List UInt8) :
    ∃ r, (∀ fuel, reSearch mtd blockCnt i buf (fuel + 1) t = some r) ∧
      r.2.erases = t'.erases ++ [(t'.info.validNode.phyBlkAddr, false)] ∧
      (r.1 = .ok → r.2.bad r.2.info.validNode.phyBlkAddr = false ∧
        Programmed mtd buf r.2.toRsvState) := by
  simp only [reSearch, hplace, hpage, hb, if_true, Bool.false_eq_true, if_false]
  rw [eraseValid, hb]
  generalize t'.nand.erase mtd.pagesPerBlk t'.info.validNode.phyBlkAddr = e
  obtain ⟨_ | _, nand⟩ := e
  · refine ⟨_, fun _ => rfl, rfl, fun hok => ?_⟩
    obtain ⟨hblk, -, hprog⟩ := saveWrite_cases mtd
      (RsvState.countErase { t'.toRsvState with nand }) buf
    refine ⟨?_, hprog hok⟩
    exact (congrArg t'.bad hblk).trans hb
  · exact ⟨_, fun _ => rfl, rfl, by simp⟩

/-- The candidates before the first that is not bad are passed over. -/
theorem Needs.reSearch_eq_some (h : Needs mtd blockCnt i t) (buf : List UInt8)
    (hnode : t.info.valid = true → HasNode blockCnt t.toRsvState) (hfree : t.info.freeNode ≠ [])
    {pre post : List ℤ} (hcand : candidates t.toRsvState = pre ++ b :: post)
    (hpre : ∀ x ∈ pre, (t.retire mtd i).bad x = true) (hb : (t.retire mtd i).bad b = false) :
    ∃ r, (∀ fuel > pre.length, reSearch mtd blockCnt i buf fuel t = some r) ∧
      r.2.erases = (t.retire mtd i).erases ++ [(b, false)] ∧
      (r.1 = .ok → r.2.bad r.2.info.validNode.phyBlkAddr = false ∧
        Programmed mtd buf r.2.toRsvState) := by
  induction pre generalizing t post with
  | nil =>
    obtain ⟨t', hplace, htaken⟩ := h.place_ok hnode hfree
    obtain ⟨rfl, -⟩ := cons.inj (htaken.blocks.trans hcand)
    obtain ⟨r, hr, herases, hsaved⟩ := reSearch_last hplace htaken.page (htaken.bad ▸ hb) buf
    refine ⟨r, fun fuel hlt => ?_, htaken.erases ▸ herases, hsaved⟩
    rw [← Nat.sub_add_cancel (Nat.one_le_of_lt hlt), hr]
  | cons x pre ih =>
    obtain ⟨t', hplace, htaken⟩ := h.place_ok hnode hfree
    obtain ⟨rfl, hrest⟩ := cons.inj (htaken.blocks.trans hcand)
    have hblk : t'.bad t'.info.validNode.phyBlkAddr = true := htaken.bad ▸ hpre _ mem_cons_self
    obtain ⟨hneeds, hcand', herases, hsame⟩ := htaken.next h.pos
    rw [hcand, cons_append, tail_cons, append_assoc, cons_append] at hcand'
    have hfree' : (t'.lift (·.setPage (mtd.pagesPerBlk - i))).info.freeNode ≠ [] := by
      intro hnil
      change t'.info.freeNode = [] at hnil
      rw [hnil] at hrest
      exact append_ne_nil_of_right_ne_nil pre (cons_ne_nil b post) hrest.symm
    obtain ⟨r, hr, hlog, hsaved⟩ := ih hneeds htaken.hasNode hfree' hcand'
      (fun y hy => by rw [hsame, htaken.bad]; exact hpre y (mem_cons_of_mem _ hy))
      (by rw [hsame, htaken.bad]; exact hb)
    refine ⟨r, fun fuel hlt => ?_, ?_, hsaved⟩
    · rw [← Nat.sub_add_cancel (Nat.one_le_of_lt hlt), reSearch, hplace]
      dsimp only
      rw [if_pos htaken.page, if_pos hblk]
      exact hr _ (Nat.lt_sub_of_add_lt hlt)
    · rw [hlog, herases, htaken.erases]

/-! ## When the search ends as it should -/

theorem ends_of_eq {r : Ret × Tabled}
    (h : ∀ fuel, reSearch mtd blockCnt i buf (fuel + 1) t = some r) :
    Ends mtd blockCnt i buf t ↔ Sparing mtd buf r := by
  constructor
  · rintro ⟨n, r', hr, hs⟩
    have heq := (h n).symm.trans (hr (n + 1) n.lt_succ_self)
    rw [Option.some_inj] at heq
    exact heq ▸ hs
  · refine fun hs => ⟨0, r, fun fuel hlt => ?_, hs⟩
    rw [← Nat.sub_add_cancel (Nat.one_le_of_lt hlt), h]

theorem not_ends_of_eq_none (h : ∀ fuel, reSearch mtd blockCnt i buf fuel t = none) :
    ¬Ends mtd blockCnt i buf t := by
  rintro ⟨n, r, hr, -⟩
  cases (h _).symm.trans (hr (n + 1) n.lt_succ_self)

theorem ends_congr {t' : Tabled}
    (h : ∀ fuel, reSearch mtd blockCnt i buf (fuel + 1) t = reSearch mtd blockCnt i buf fuel t') :
    Ends mtd blockCnt i buf t ↔ Ends mtd blockCnt i buf t' := by
  constructor
  · rintro ⟨n, r, hr, hs⟩
    exact ⟨n, r, fun fuel hlt => h fuel ▸ hr (fuel + 1) (Nat.lt_succ_of_lt hlt), hs⟩
  · rintro ⟨n, r, hr, hs⟩
    refine ⟨n + 1, r, fun fuel hlt => ?_, hs⟩
    rw [← Nat.sub_add_cancel (Nat.one_le_of_lt hlt), h]
    exact hr _ (Nat.lt_sub_of_add_lt hlt)

/-- Where a block is needed, there must be one that is not bad. -/
theorem Needs.ends_iff (h : Needs mtd blockCnt i t)
    (hnode : t.info.valid = true → HasNode blockCnt t.toRsvState) :
    Ends mtd blockCnt i buf t ↔ (∀ e ∈ (t.retire mtd i).erases, e.2 = false) ∧
      t.info.freeNode ≠ [] ∧ ∃ b ∈ candidates t.toRsvState, (t.retire mtd i).bad b = false := by
  by_cases hfree : t.info.freeNode = []
  · refine iff_of_false (not_ends_of_eq_none fun fuel => ?_) fun hends => hends.2.1 hfree
    cases fuel with
    | zero => rfl
    | succ fuel => rw [reSearch, h.place_nil hnode hfree]
  by_cases hgood : ∃ b ∈ candidates t.toRsvState, (t.retire mtd i).bad b = false
  · have hfind : ((candidates t.toRsvState).find? fun b => !(t.retire mtd i).bad b).isSome := by
      obtain ⟨b, hmem, hb⟩ := hgood
      exact find?_isSome.2 ⟨b, hmem, by simp [hb]⟩
    obtain ⟨b, hb⟩ := Option.isSome_iff_exists.1 hfind
    obtain ⟨hb, pre, post, hcand, hpre⟩ := find?_eq_some_iff_append.1 hb
    obtain ⟨r, hr, herases, hsaved⟩ := h.reSearch_eq_some buf hnode hfree hcand
      (by simpa using hpre) (by simpa using hb)
    constructor
    · rintro ⟨n, r', hr', hs⟩
      have heq := (hr (max n pre.length + 1) (by omega)).symm.trans
        (hr' (max n pre.length + 1) (by omega))
      rw [Option.some_inj] at heq
      rw [← heq] at hs
      refine ⟨fun e he => hs.spares e ?_, hfree, hgood⟩
      rw [herases]
      exact mem_append_left _ he
    · rintro ⟨hspares, -, -⟩
      refine ⟨pre.length, r, hr, ?_, hsaved⟩
      rw [herases]
      intro e he
      rcases mem_append.1 he with he | he
      · exact hspares e he
      · rw [mem_singleton.1 he]
  · refine iff_of_false (not_ends_of_eq_none (h.reSearch_eq_none hnode fun b hb => ?_))
      fun hends => hgood hends.2.2
    exact eq_true_of_ne_false fun hfalse => hgood ⟨b, hb, hfalse⟩

/-- Without a node for a full block, the search ends with an error. -/
theorem Needs.ends_iff_of_not_hasNode (h : Needs mtd blockCnt i t) (hvalid : t.info.valid = true)
    (hnode : ¬HasNode blockCnt t.toRsvState) :
    Ends mtd blockCnt i buf t ↔ ∀ e ∈ (t.retire mtd i).erases, e.2 = false := by
  have hlast : ∀ fuel, reSearch mtd blockCnt i buf (fuel + 1) t =
      some (.noMem, t.retire mtd i) := fun fuel => by rw [reSearch, h.place_error hvalid hnode]
  rw [ends_of_eq hlast]
  exact ⟨fun hs => hs.spares, fun hs => ⟨hs, by simp⟩⟩

/-- A record behind the last one goes to a block that is not bad, or cannot be written. -/
theorem ends_append_iff {bad : ℤ → Bool} (hvalid : s.info.valid = true)
    (hroom : s.info.validNode.phyPageAddr + i + i ≤ mtd.pagesPerBlk)
    (hpage : s.info.validNode.phyPageAddr + i ≠ 0) :
    (∀ fails, Ends mtd blockCnt i buf (start s bad fails)) ↔
      bad s.info.validNode.phyBlkAddr = false ∨ ∃ j < (RsvState.chunks mtd s.info.size buf).length,
        (s.nand.cells (RsvState.firstPage mtd s.info + i + j)).isSome := by
  have hlast : ∀ fails fuel, reSearch mtd blockCnt i buf (fuel + 1) (start s bad fails) =
      some (((start s bad fails).lift (·.advance i)).saveWrite mtd buf) := by
    intro fails fuel
    have hnot : ¬mtd.pagesPerBlk <
        ((start s bad fails).lift (·.advance i)).info.validNode.phyPageAddr + i := hroom.not_gt
    have hne : ((start s bad fails).lift (·.advance i)).info.validNode.phyPageAddr ≠ 0 := hpage
    have hv : (start s bad fails).info.valid = true := hvalid
    rw [reSearch, place, if_pos hv, if_neg hnot]
    exact if_neg hne
  have hfirst : ∀ fails, RsvState.firstPage mtd ((start s bad fails).lift (·.advance i)).info =
      RsvState.firstPage mtd s.info + i := fun _ => (add_assoc _ _ _).symm
  have hnone : ∀ fails, ∀ e ∈ ((start s bad fails).lift (·.advance i)).erases, e.2 = false :=
    fun _ => by simp [lift, start]
  simp only [ends_of_eq (hlast _), sparing_saveWrite_iff (hnone _)]
  constructor
  · refine fun h => or_iff_not_imp_right.2 fun hpages => h [] ?_
    refine writePages_of_eq_none fun j hj => not_not.1 fun hsome => hpages ⟨j, hj, ?_⟩
    rw [hfirst] at hsome
    exact Option.isSome_iff_ne_none.2 hsome
  · rintro (hb | ⟨j, hj, hsome⟩) fails hok
    · exact hb
    · refine absurd (writePages_of_isSome hj ?_) (Bool.eq_false_iff.1 hok)
      rw [hfirst]
      exact hsome

/-- A record for the first page of the valid block is written there, or to another block if that
    one is bad. -/
theorem ends_first_iff {bad : ℤ → Bool} (hi : 0 < i)
    (hnodes : ∀ x ∈ s.info.freeNode, x.index < blockCnt) (hvalid : s.info.valid = true)
    (hroom : s.info.validNode.phyPageAddr + i + i ≤ mtd.pagesPerBlk)
    (hpage : s.info.validNode.phyPageAddr + i = 0) (fails : List Bool) :
    Ends mtd blockCnt i buf (start s bad fails) ↔ bad s.info.validNode.phyBlkAddr = false ∨
      (HasNode blockCnt s → ∃ b ∈ candidates s, bad b = false) := by
  have hplace : (start s bad fails).place mtd blockCnt i =
      some (.ok ((start s bad fails).lift (·.advance i))) := by
    have hnot : ¬mtd.pagesPerBlk <
        ((start s bad fails).lift (·.advance i)).info.validNode.phyPageAddr + i := hroom.not_gt
    have hv : (start s bad fails).info.valid = true := hvalid
    rw [place, if_pos hv, if_neg hnot]
  cases hb : bad s.info.validNode.phyBlkAddr with
  | false =>
    refine iff_of_true ?_ (.inl rfl)
    obtain ⟨r, hr, herases, hsaved⟩ := reSearch_last hplace hpage hb buf
    refine (ends_of_eq hr).2 ⟨?_, hsaved⟩
    rw [herases]
    simp [lift, start]
  | true =>
    have hnext : ∀ fuel, reSearch mtd blockCnt i buf (fuel + 1) (start s bad fails) =
        reSearch mtd blockCnt i buf fuel (((start s bad fails).lift (·.advance i)).lift
          (·.setPage (mtd.pagesPerBlk - i))) := by
      intro fuel
      rw [reSearch, hplace]
      exact (if_pos hpage).trans (if_pos hb)
    rw [ends_congr hnext, or_iff_right (by simp)]
    generalize ht : ((start s bad fails).lift (·.advance i)).lift
      (·.setPage (mtd.pagesPerBlk - i)) = t
    have hneeds : Needs mtd blockCnt i t := by
      subst ht
      refine ⟨hi, hnodes, fun _ => ?_⟩
      dsimp only [lift, RsvState.setPage]
      omega
    obtain ⟨herases, hbad⟩ := retire_of_not_damaged mtd i t (by
      subst ht
      dsimp only [lift, RsvState.setPage]
      omega)
    subst ht
    by_cases hnode : HasNode blockCnt s
    · rw [hneeds.ends_iff fun _ => hnode, herases, hbad]
      refine ⟨fun h _ => h.2.2, fun h => ?_⟩
      obtain ⟨b, hmem, hgood⟩ := h hnode
      refine ⟨by simp [lift, start], fun hnil => ?_, b, hmem, hgood⟩
      -- the valid block is bad, so that it is not the one
      change s.info.freeNode = [] at hnil
      rw [candidates, hnil, if_pos hvalid] at hmem
      rw [mem_singleton.1 hmem, hb] at hgood
      cases hgood
    · rw [hneeds.ends_iff_of_not_hasNode hvalid hnode, herases]
      exact iff_of_true (by simp [lift, start]) fun h => absurd h hnode

/-- Where the valid block is full, another one must be there. A damaged one may not be bad, and may
    be bad from then on. -/
theorem ends_full_iff {bad : ℤ → Bool} (hi : 0 < i)
    (hnodes : ∀ x ∈ s.info.freeNode, x.index < blockCnt) (hvalid : s.info.valid = true)
    (hfull : mtd.pagesPerBlk < s.info.validNode.phyPageAddr + i + i) :
    (∀ fails, Ends mtd blockCnt i buf (start s bad fails)) ↔
      (s.info.validNode.phyPageAddr = mtd.pagesPerBlk → bad s.info.validNode.phyBlkAddr = false) ∧
      (HasNode blockCnt s → s.info.freeNode ≠ [] ∧ ∃ b ∈ candidates s, bad b = false ∧
        (s.info.validNode.phyPageAddr = mtd.pagesPerBlk → b ≠ s.info.validNode.phyBlkAddr)) := by
  have hneeds : ∀ fails, Needs mtd blockCnt i (start s bad fails) := fun _ =>
    ⟨hi, hnodes, fun _ => hfull⟩
  have hends : ∀ fails, Ends mtd blockCnt i buf (start s bad fails) ↔
      (∀ e ∈ ((start s bad fails).retire mtd i).erases, e.2 = false) ∧
        (HasNode blockCnt s → s.info.freeNode ≠ [] ∧
          ∃ b ∈ candidates s, ((start s bad fails).retire mtd i).bad b = false) := by
    intro fails
    by_cases hnode : HasNode blockCnt s
    · rw [(hneeds fails).ends_iff fun _ => hnode]
      exact and_congr_right fun _ => ⟨fun h _ => h, fun h => h hnode⟩
    · rw [(hneeds fails).ends_iff_of_not_hasNode hvalid hnode]
      exact (and_iff_left fun h => absurd h hnode).symm
  simp only [hends]
  by_cases hpage : s.info.validNode.phyPageAddr = mtd.pagesPerBlk
  · have hretire : ∀ fails, _ := fun fails =>
      retire_of_damaged (t := start s bad fails) i hvalid hpage
    simp only [(hretire _).1, (hretire _).2]
    constructor
    · intro h
      refine ⟨fun _ => (h []).1 _ (mem_append_right _ mem_cons_self), fun hnode => ?_⟩
      -- the damaged block cannot be erased
      obtain ⟨hfree, b, hmem, hb⟩ := (h [true]).2 hnode
      refine ⟨hfree, b, hmem, ?_⟩
      change update bad s.info.validNode.phyBlkAddr true b = false at hb
      rw [update_apply] at hb
      split at hb
      · cases hb
      · next hne => exact ⟨hb, fun _ => hne⟩
    · rintro ⟨hblk, h⟩ fails
      refine ⟨fun e he => ?_, fun hnode => ?_⟩
      · rw [mem_singleton.1 he]
        exact hblk hpage
      · obtain ⟨hfree, b, hmem, hb, hne⟩ := h hnode
        refine ⟨hfree, b, hmem, ?_⟩
        split
        · exact (update_of_ne (hne hpage) _ _).trans hb
        · exact hb
  · have hretire : ∀ fails, _ := fun fails => retire_of_not_damaged mtd i
      (start s bad fails) fun _ => hpage
    simp only [(hretire _).1, (hretire _).2]
    constructor
    · intro h
      refine ⟨fun hp => absurd hp hpage, fun hnode => ?_⟩
      obtain ⟨hfree, b, hmem, hb⟩ := (h []).2 hnode
      exact ⟨hfree, b, hmem, hb, fun hp => absurd hp hpage⟩
    · rintro ⟨-, h⟩ fails
      refine ⟨by simp [start], fun hnode => ?_⟩
      obtain ⟨hfree, b, hmem, hb, -⟩ := h hnode
      exact ⟨hfree, b, hmem, hb⟩

/-- Without a record, the free list must have a block that is not bad. -/
theorem ends_new_iff {bad : ℤ → Bool} (hi : 0 < i)
    (hnodes : ∀ x ∈ s.info.freeNode, x.index < blockCnt) (hvalid : s.info.valid = false)
    (fails : List Bool) : Ends mtd blockCnt i buf (start s bad fails) ↔
      ∃ b ∈ candidates s, bad b = false := by
  have hnot : ¬(start s bad fails).info.valid = true := Bool.eq_false_iff.1 hvalid
  have hneeds : Needs mtd blockCnt i (start s bad fails) :=
    ⟨hi, hnodes, fun hv => absurd hv hnot⟩
  obtain ⟨herases, hbad⟩ := retire_of_not_damaged mtd i (start s bad fails)
    fun hv => absurd hv hnot
  rw [hneeds.ends_iff fun hv => absurd hv hnot, herases, hbad]
  refine ⟨fun h => h.2.2, ?_⟩
  rintro ⟨b, hmem, hb⟩
  refine ⟨by simp [start], fun hnil => ?_, b, hmem, hb⟩
  change s.info.freeNode = [] at hnil
  rw [candidates, hnil, hvalid] at hmem
  cases hmem

theorem ends_iff_place {bad : ℤ → Bool} (hi : 0 < i)
    (hnodes : ∀ x ∈ s.info.freeNode, x.index < blockCnt) :
    (∀ fails, Ends mtd blockCnt i buf (start s bad fails)) ↔ Place mtd blockCnt bad i buf s := by
  rw [Place]
  split_ifs with hvalid hroom hpage
  · simp only [ends_new_iff hi hnodes hvalid, forall_const]
  · simp only [ends_first_iff hi hnodes (Bool.eq_true_of_not_eq_false hvalid) hroom hpage,
      forall_const]
  · exact ends_append_iff (Bool.eq_true_of_not_eq_false hvalid) hroom hpage
  · exact ends_full_iff hi hnodes (Bool.eq_true_of_not_eq_false hvalid) (not_le.1 hroom)

theorem lift_startSave_start (bad : ℤ → Bool) (fails : List Bool) :
    (start s bad fails).lift (·.startSave mtd) = start (s.startSave mtd) bad fails := by
  rw [lift, start, start, RsvState.startSave, RsvState.startSave]
  split <;> rfl

/-- An area of blocks of one page, the first of which has the record and is damaged. -/
def damaged (freeNode : List FreeNode) : RsvState where
  info := ⟨24, 24 + freeNode.length + 1, 1, 7, true, ⟨1, 24, 0, 1, false, true⟩, freeNode⟩
  freenodebitmask := (freeNode.map (·.index)).toFinset
  nand := ⟨fun _ => none, [], []⟩

end Tabled

end CommonDrivers.Mtd
