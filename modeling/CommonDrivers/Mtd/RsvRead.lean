import CommonDrivers.Mtd.RsvSave

/-!
# Reading a record with retries

When a page cannot be read, `meson_rsv_read` scans the area and starts again from the first page of
the record, but goes on in the buffer where it was. A record of one page is read whole, whichever
reads fail, in the scans too: the scan always ends at a page with a record (`Kept.mesonRsvScan`). A
record of more pages is read whole if none of them fails, and otherwise it may be mixed up
(`mesonRsvRead_record`).
-/

namespace CommonDrivers.Mtd

open Flash List RsvState

section

variable (mtd : MtdInfo)

/-- The record at the valid block and page: its pages are there, one behind the other, with one tag
    of the area. -/
structure Complete (s : RsvState) (rec : List UInt8) : Prop where
  length : rec.length = s.info.size
  start : ∃ k : ℕ, s.info.validNode.phyPageAddr = (k * savePages mtd s.info.size : ℕ) ∧
    (k + 1) * savePages mtd s.info.size ≤ mtd.pagesPerBlk
  pages : ∃ oob, oob.name = s.info.name ∧ ∀ j < savePages mtd s.info.size,
    s.nand.cells (firstPage mtd s.info + j) = (recordPages mtd s.info.size oob rec)[j]?

/-- The block holds whole records of the area. -/
def Whole (area : RsvInfo) (c : Cells Page) (b : ℤ) : Prop :=
  ∃ recs : List (OobInfo × List UInt8),
    (∀ r ∈ recs, r.1.name = area.name ∧ r.2.length = area.size) ∧
    recs.length * savePages mtd area.size ≤ mtd.pagesPerBlk ∧
    c.Holds mtd.pagesPerBlk b (recs.flatMap fun r => recordPages mtd area.size r.1 r.2)

/-- A mounted area, whose blocks hold whole records. -/
structure Kept (s : RsvState) : Prop where
  placed : s.info.Placed
  whole : ∀ b, s.info.Has b → Whole mtd s.info s.nand.cells b
  valid : s.info.valid = true
  has : s.info.Has s.info.validNode.phyBlkAddr
  record : ∃ rec, Complete mtd s rec

/-- The results of the operations to come: the first `k` pages of the record can be read and the
    next one cannot, if the record has one. After these `n` reads anything may fail. -/
def failsAt (n k : ℕ) (rest : List Bool) (s : RsvState) : RsvState :=
  { s with nand := { s.nand with fails := (replicate k false ++ [true]).take n ++ rest } }

end

variable {mtd : MtdInfo} {blockCnt : ℕ} {s s' : RsvState} {rec buf : List UInt8} {fuel j k : ℕ}
  {c : Cells Page} {b : ℤ} {nand nand' : Nand}

/-! ## The pages of a record -/

/-- What page `j` has of the record. -/
theorem Complete.page (h : Complete mtd s rec) (hpos : 0 < s.info.size)
    (hj : j < savePages mtd s.info.size) : ∃ oob, s.nand.cells (firstPage mtd s.info + j) =
      some ⟨(rec.drop (j * mtd.writesize)).take
        (min mtd.writesize (s.info.size - j * mtd.writesize)), oob⟩ := by
  obtain ⟨oob, -, hpages⟩ := h.pages
  exact ⟨oob, (hpages j hj).trans (getElem?_recordPages hpos hj oob rec)⟩

/-! ## Reading the pages that do not fail -/

theorem cells_next {f : Bool} (h : nand.next = (f, nand')) : nand'.cells = nand.cells := by
  rw [Device.next] at h
  split at h <;> cases h <;> rfl

/-- The record stays complete when operations have come to their result. -/
theorem Complete.withNand (h : Complete mtd s rec) (hcells : nand.cells = s.nand.cells) :
    Complete mtd { s with nand } rec :=
  ⟨h.length, h.start, hcells ▸ h.pages⟩

/-- The record is read page by page. -/
theorem Complete.readPages_succ (h : Complete mtd s rec) (hpos : 0 < s.info.size)
    (hj : j < savePages mtd s.info.size) (hnext : s.nand.next = (false, nand)) :
    readPages mtd blockCnt (fuel + 1) s (firstPage mtd s.info + j) (rec.take (j * mtd.writesize)) =
      readPages mtd blockCnt fuel { s with nand } (firstPage mtd s.info + (j + 1 : ℕ))
        (rec.take ((j + 1) * mtd.writesize)) := by
  have hlt := mul_writesize_lt hpos hj
  have hlen : (rec.take (j * mtd.writesize)).length = j * mtd.writesize := by
    rw [length_take, h.length]
    omega
  obtain ⟨oob, hpage⟩ := h.page hpos hj
  rw [readPages, hlen, if_pos hlt, Device.read, hnext]
  dsimp only
  rw [cells_next hnext, hpage]
  rw [readBytes_some, take_add_chunk h.length, add_assoc, Nat.cast_succ]
  rw [length_take, length_drop, h.length]
  omega

/-- The next `k` pages of the record can be read. -/
theorem Complete.readPages_add (h : Complete mtd s rec) (hpos : 0 < s.info.size) {fails : List Bool}
    (hk : j + k ≤ savePages mtd s.info.size) (hf : s.nand.fails = replicate k false ++ fails) :
    readPages mtd blockCnt (fuel + k) s (firstPage mtd s.info + j) (rec.take (j * mtd.writesize)) =
      readPages mtd blockCnt fuel { s with nand := { s.nand with fails } }
        (firstPage mtd s.info + (j + k : ℕ)) (rec.take ((j + k) * mtd.writesize)) := by
  induction k generalizing s j with
  | zero =>
    obtain rfl : s.nand.fails = fails := hf
    rfl
  | succ k ih =>
    rw [replicate_succ, cons_append] at hf
    have hnext : s.nand.next =
        (false, { s.nand with fails := replicate k false ++ fails }) := by rw [Device.next, hf]
    rw [← add_assoc, h.readPages_succ hpos (by omega) hnext]
    have hrest := ih (j := j + 1) (h.withNand (cells_next hnext)) hpos
      (by simpa [add_assoc, add_comm 1] using hk) rfl
    rw [add_right_comm] at hrest
    exact hrest

/-- When all pages are read, the buffer has the record. -/
theorem Complete.readPages_all (h : Complete mtd s rec) (hpos : 0 < s.info.size) (page : ℤ) :
    readPages mtd blockCnt (fuel + 1) s page
      (rec.take (savePages mtd s.info.size * mtd.writesize)) = some (.ok, s, rec) := by
  have hle : s.info.size ≤ savePages mtd s.info.size * mtd.writesize :=
    (savePages_le_iff hpos).1 le_rfl
  rw [take_of_length_le (h.length ▸ hle), readPages, h.length, if_neg (lt_irrefl _)]

/-! ## What a scan does to the valid block and page -/

/-- The area is the same one with the same contents, and mounted if it was. -/
structure SameFlash (s s' : RsvState) : Prop extends SameArea s s' where
  cells : s'.nand.cells = s.nand.cells
  valid : s.info.valid = true → s'.info.valid = true

theorem SameFlash.withNand (h : nand.cells = s.nand.cells) : SameFlash s { s with nand } :=
  ⟨⟨rfl, rfl, rfl, rfl⟩, h, id⟩

/-- The valid block and page are the same. -/
def SamePlace (s s' : RsvState) : Prop :=
  s'.info.validNode.phyBlkAddr = s.info.validNode.phyBlkAddr ∧
    s'.info.validNode.phyPageAddr = s.info.validNode.phyPageAddr

theorem cells_read {r : Option (Option Page)} {page : ℤ} (h : nand.read page = (r, nand')) :
    nand'.cells = nand.cells ∧ ∀ p, r = some p → p = nand.cells page := by
  rw [Device.read] at h
  rcases hnext : nand.next with ⟨_ | _, nand₁⟩ <;> rw [hnext] at h <;> cases h
  · refine ⟨cells_next hnext, fun p hp => ?_⟩
    rw [← cells_next hnext]
    exact (Option.some_inj.1 hp).symm
  · exact ⟨cells_next hnext, by simp⟩

/-- The tag is that of a page at one of the places that are tried. -/
theorem cells_scanOob {size tries offset : ℕ} {r : Option (Option Page)}
    (h : scanOob mtd size tries nand offset = (r, nand')) :
    nand'.cells = nand.cells ∧ ∀ p, r = some p →
      ∃ m ≤ tries, p = nand.cells ((offset + m * size) / mtd.writesize : ℕ) := by
  induction tries generalizing nand offset with
  | zero =>
    rw [scanOob] at h
    split at h
    · next page nand₁ hread =>
      obtain ⟨hcells, hpage⟩ := cells_read hread
      cases h
      refine ⟨hcells, fun p hp => ⟨0, le_rfl, ?_⟩⟩
      rw [zero_mul, add_zero]
      exact hpage p hp
    · next nand₁ hread =>
      cases h
      exact ⟨(cells_read hread).1, by simp⟩
  | succ tries ih =>
    rw [scanOob] at h
    split at h
    · next page nand₁ hread =>
      obtain ⟨hcells, hpage⟩ := cells_read hread
      cases h
      refine ⟨hcells, fun p hp => ⟨0, Nat.zero_le _, ?_⟩⟩
      rw [zero_mul, add_zero]
      exact hpage p hp
    next nand₁ hread =>
    have hcells := (cells_read hread).1
    dsimp only at h
    split at h
    · cases h
      exact ⟨hcells, by simp⟩
    · obtain ⟨hcells', hpage⟩ := ih h
      refine ⟨hcells'.trans hcells, fun p hp => ?_⟩
      obtain ⟨m, hm, hp⟩ := hpage p hp
      refine ⟨m + 1, Nat.succ_le_succ hm, ?_⟩
      rw [hp, hcells, add_mul, one_mul, add_assoc, add_comm size]

/-- Sorting a block leaves the valid one, or takes the block with its first page, if it is
    tagged. -/
theorem sortBlock_place (blockCnt : ℕ) (s : RsvState) (blk : ℤ) (page : Option Page) :
    match s.sortBlock blockCnt blk page with
    | .ok s' | .error s' => SameFlash s s' ∧ (SamePlace s s' ∨ (oobOf s.info page).isSome ∧
        s'.info.validNode.phyBlkAddr = blk ∧ s'.info.validNode.phyPageAddr = 0) := by
  have hlink : ∀ (t : RsvState) (b ec : ℤ), SameFlash s t → SamePlace s t →
      match t.link blockCnt b ec with
      | .ok s' | .error s' => SameFlash s s' ∧ SamePlace s s' := by
    intro t b ec hsame hplace
    rw [link]
    cases getFreeNode blockCnt t.freenodebitmask with
    | none => exact ⟨hsame, hplace⟩
    | some node => exact ⟨⟨⟨hsame.startBlock, hsame.endBlock, hsame.size, hsame.name⟩, hsame.cells,
        hsame.valid⟩, hplace⟩
  have hclear : SameFlash s s.clearStatus := ⟨⟨rfl, rfl, rfl, rfl⟩, rfl, id⟩
  have hmark : SameFlash s s.clearStatus.markValid := ⟨⟨rfl, rfl, rfl, rfl⟩, rfl, fun _ => rfl⟩
  rw [sortBlock]
  dsimp only
  cases hoob : oobOf s.clearStatus.info page with
  | none =>
    have := hlink s.clearStatus blk (ecOf page) hclear ⟨rfl, rfl⟩
    dsimp only
    generalize s.clearStatus.link blockCnt blk (ecOf page) = r at this ⊢
    cases r <;> exact ⟨this.1, .inl this.2⟩
  | some oob =>
    have hsome : (oobOf s.info page).isSome := Option.isSome_of_eq_some hoob
    dsimp only
    -- the second of two tagged blocks: the newer one becomes valid
    split_ifs with hblk hnew
    · have := hlink s.clearStatus.markValid s.clearStatus.markValid.info.validNode.phyBlkAddr
        s.clearStatus.markValid.info.validNode.ec hmark ⟨rfl, rfl⟩
      generalize s.clearStatus.markValid.link blockCnt _ _ = r at this ⊢
      cases r with
      | error => exact ⟨this.1, .inl this.2⟩
      | ok t =>
        exact ⟨⟨⟨this.1.startBlock, this.1.endBlock, this.1.size, this.1.name⟩, this.1.cells,
          this.1.valid⟩, .inr ⟨hsome, rfl, rfl⟩⟩
    · have := hlink s.clearStatus.markValid blk oob.ec hmark ⟨rfl, rfl⟩
      generalize s.clearStatus.markValid.link blockCnt blk oob.ec = r at this ⊢
      cases r <;> exact ⟨this.1, .inl this.2⟩
    · exact ⟨⟨⟨rfl, rfl, rfl, rfl⟩, rfl, fun _ => rfl⟩, .inr ⟨hsome, rfl, rfl⟩⟩

/-! ## Records of one page -/

/-- The area stays as it is, with a record at its valid block and page. -/
theorem Kept.move (h : Kept mtd s) (hs : SameFlash s s')
    (hb : s.info.Has s'.info.validNode.phyBlkAddr) (hrec : ∃ rec, Complete mtd s' rec) :
    Kept mtd s' := by
  refine ⟨hs.toSameArea.placed h.placed, fun b hb => ?_, hs.valid h.valid, ?_, hrec⟩
  · rw [RsvInfo.Has, hs.startBlock, hs.endBlock] at hb
    obtain ⟨recs, hrecs⟩ := h.whole b hb
    refine ⟨recs, ?_⟩
    rw [hs.name, hs.size, hs.cells]
    exact hrecs
  · rw [RsvInfo.Has, hs.startBlock, hs.endBlock]
    exact hb

theorem Kept.same (h : Kept mtd s) (hs : SameFlash s s') (hp : SamePlace s s') : Kept mtd s' := by
  have hfirst : firstPage mtd s'.info = firstPage mtd s.info := by
    rw [firstPage, firstPage, hp.1, hp.2]
  obtain ⟨rec, hrec⟩ := h.record
  refine h.move hs (hp.1 ▸ h.has) ⟨rec, ?_, ?_, ?_⟩
  · rw [hs.size]
    exact hrec.length
  · rw [hs.size, hp.2]
    exact hrec.start
  · rw [hs.size, hs.name, hs.cells, hfirst]
    exact hrec.pages

section

variable (h : Kept mtd s) (hpos : 0 < s.info.size) (hone : s.info.size ≤ mtd.writesize)
include h hpos hone

/-- A page that is not erased has a record. -/
theorem Kept.goto (hb : s.info.Has b) (hj : j < mtd.pagesPerBlk)
    (hsome : (s.nand.cells (b * mtd.pagesPerBlk + j)).isSome) (hs : SameFlash s s')
    (hblk : s'.info.validNode.phyBlkAddr = b) (hpage : s'.info.validNode.phyPageAddr = j) :
    Kept mtd s' := by
  have hn : savePages mtd s.info.size = 1 := savePages_eq_one hone
  have hfirst : firstPage mtd s'.info = b * mtd.pagesPerBlk + j := by rw [firstPage, hblk, hpage]
  obtain ⟨recs, hrecs, -, hholds⟩ := h.whole b hb
  obtain ⟨p, hp⟩ := Option.isSome_iff_exists.1 hsome
  obtain ⟨⟨oob, rec⟩, hmem, hpage'⟩ := mem_flatMap.1 (mem_of_getElem? ((hholds j hj).symm.trans hp))
  obtain ⟨hname, hlen⟩ := hrecs _ hmem
  -- the record has this page only
  obtain ⟨i, hget⟩ := mem_iff_getElem?.1 hpage'
  obtain ⟨hlt, -⟩ := List.getElem?_eq_some_iff.1 hget
  rw [length_recordPages hpos, hn] at hlt
  obtain rfl : i = 0 := by omega
  refine h.move hs (hblk ▸ hb) ⟨rec, ?_, ⟨j, ?_, ?_⟩, oob, ?_, fun i hi => ?_⟩
  · rw [hs.size]
    exact hlen
  · rw [hs.size, hn, mul_one]
    exact hpage
  · rw [hs.size, hn]
    omega
  · rw [hs.name]
    exact hname
  · rw [hs.size, hn] at hi
    obtain rfl : i = 0 := by omega
    rw [hs.cells, hs.size, hfirst, Nat.cast_zero, add_zero, hp]
    exact hget.symm

variable (hP : 8 ≤ mtd.pagesPerBlk)
include hP

/-- The pages that are tried for the tag of a block are pages of the block. -/
theorem Kept.scanBlock (blockCnt : ℕ) (hk : s.info.startBlock ≤ k) (hlt : k < s.info.endBlock) :
    match s.scanBlock mtd blockCnt k with
    | .ok s' | .error s' => Kept mtd s' ∧ SameArea s s' := by
  have hle := h.placed.le
  rw [RsvState.scanBlock, h.placed.skipBbtBlocks hk hlt, s16_natCast (by omega)]
  rcases hscan : scanOob mtd s.info.size 7 s.nand (k * mtd.erasesize) with ⟨r, nand⟩
  obtain ⟨hcells, hpage⟩ := cells_scanOob hscan
  have hs : SameFlash s { s with nand } := .withNand hcells
  cases r with
  | none => exact ⟨h.same hs ⟨rfl, rfl⟩, hs.toSameArea⟩
  | some page =>
  dsimp only
  have hsort := sortBlock_place blockCnt { s with nand } k page
  generalize RsvState.sortBlock blockCnt { s with nand } k page = r at hsort ⊢
  suffices hkept : ∀ s', SameFlash { s with nand } s' ∧ (SamePlace { s with nand } s' ∨
      (oobOf s.info page).isSome ∧ s'.info.validNode.phyBlkAddr = k ∧
        s'.info.validNode.phyPageAddr = 0) → Kept mtd s' ∧ SameArea s s' by
    cases r <;> exact hkept _ hsort
  rintro s' ⟨hs', hplace⟩
  have hs' : SameFlash s s' := ⟨hs.toSameArea.trans hs'.toSameArea, hs'.cells.trans hs.cells,
    fun hv => hs'.valid hv⟩
  refine ⟨?_, hs'.toSameArea⟩
  rcases hplace with hplace | ⟨htag, hblk, hzero⟩
  · exact h.same hs' hplace
  obtain ⟨m, hm, hp⟩ := hpage page rfl
  -- a page of the block is tagged, and so its first page is not erased
  have hblock : (k * mtd.erasesize + m * s.info.size) / mtd.writesize =
      k * mtd.pagesPerBlk + m * s.info.size / mtd.writesize := by
    rw [MtdInfo.erasesize, mul_comm mtd.writesize, ← mul_assoc, add_comm,
      Nat.add_mul_div_right _ _ mtd.writesize_pos, add_comm]
  have hin : m * s.info.size / mtd.writesize < mtd.pagesPerBlk := by
    refine lt_of_le_of_lt (Nat.div_le_of_le_mul ?_) (Nat.lt_of_succ_le hP)
    rw [mul_comm mtd.writesize]
    exact Nat.mul_le_mul hm hone
  have hb : s.info.Has k := ⟨by exact_mod_cast hk, by exact_mod_cast hlt⟩
  obtain ⟨recs, -, -, hholds⟩ := h.whole k hb
  rw [hblock, Nat.cast_add, Nat.cast_mul, hholds _ hin] at hp
  have hfirst := hholds 0 (by omega)
  refine h.goto hpos hone hb (j := 0) (by omega) ?_ hs' hblk hzero
  rw [hfirst]
  cases hl : recs.flatMap fun r => recordPages mtd s.info.size r.1 r.2 with
  | nil =>
    rw [hp, hl] at htag
    cases htag
  | cons p l => rfl

omit hpos hone in
/-- The first loop of the scan, over blocks of the area. -/
theorem Kept.foldlM_scanBlock {l : List ℕ} (hpos : 0 < s.info.size)
    (hone : s.info.size ≤ mtd.writesize)
    (hl : ∀ k ∈ l, s.info.startBlock ≤ k ∧ k < s.info.endBlock) :
    match l.foldlM (RsvState.scanBlock mtd blockCnt) s with
    | .ok s' | .error s' => Kept mtd s' ∧ SameArea s s' := by
  induction l generalizing s with
  | nil => exact ⟨h, rfl, rfl, rfl, rfl⟩
  | cons k l ih =>
    obtain ⟨hk, hlt⟩ := hl k mem_cons_self
    have hscan := h.scanBlock hpos hone hP blockCnt hk hlt
    rw [foldlM_cons]
    generalize s.scanBlock mtd blockCnt k = r at hscan ⊢
    obtain _ | s₁ := r
    · exact hscan
    obtain ⟨hkept, hsame⟩ := hscan
    have hrest := ih hkept (hsame.size ▸ hpos) (hsame.size ▸ hone) fun k' hk' => by
      rw [hsame.startBlock, hsame.endBlock]
      exact hl k' (mem_cons_of_mem k hk')
    dsimp only [bind, Except.bind]
    generalize List.foldlM (RsvState.scanBlock mtd blockCnt) s₁ l = r at hrest ⊢
    cases r <;> exact ⟨hrest.1, hsame.trans hrest.2⟩

omit h hpos hone hP in
/-- The second loop of the scan stops at a page that is tagged. -/
theorem Kept.scanPages {p p' : Pages} {i left : ℕ} (h : Kept mtd p.state)
    (hpos : 0 < p.state.info.size) (hone : p.state.info.size ≤ mtd.writesize)
    (hle : i + left ≤ mtd.pagesPerBlk) (hr : RsvState.scanPages mtd i left p = some p') :
    Kept mtd p'.state ∧ SameArea p.state p'.state := by
  induction left generalizing i p with
  | zero =>
    cases hr
    exact ⟨h, rfl, rfl, rfl, rfl⟩
  | succ left ih =>
    rw [RsvState.scanPages] at hr
    split at hr
    · next nand hread =>
      -- the page fails
      have hs : SameFlash p.state (setEcc { p.state with nand }) :=
        ⟨⟨rfl, rfl, rfl, rfl⟩, (cells_read hread).1, id⟩
      obtain ⟨hkept, hsame⟩ := ih (p := ⟨setEcc { p.state with nand }, true, p.good⟩) (i := i + 1)
        (h.same hs ⟨rfl, rfl⟩) hpos hone (by omega) hr
      exact ⟨hkept, hs.toSameArea.trans hsame⟩
    next page nand hread =>
    obtain ⟨hcells, hpage⟩ := cells_read hread
    dsimp only at hr
    split at hr
    · next htag =>
      split at hr
      · cases hr
      have hs : SameFlash p.state (setPage { p.state with nand } i) :=
        ⟨⟨rfl, rfl, rfl, rfl⟩, hcells, id⟩
      -- a tagged page is the start of a record, as records have one page
      have hsome : (p.state.nand.cells
          (p.state.info.validNode.phyBlkAddr * mtd.pagesPerBlk + i)).isSome := by
        rw [← hpage page rfl]
        cases page with
        | none => cases htag
        | some page => rfl
      obtain ⟨hkept, hsame⟩ := ih (p := ⟨setPage { p.state with nand } i, p.bad, insert i p.good⟩)
        (i := i + 1) (h.goto hpos hone h.has (by omega) hsome hs rfl rfl) hpos hone (by omega) hr
      exact ⟨hkept, hs.toSameArea.trans hsame⟩
    · cases hr
      have hs : SameFlash p.state { p.state with nand } := .withNand hcells
      exact ⟨h.same hs ⟨rfl, rfl⟩, hs.toSameArea⟩

/-- A scan, whichever of its reads fail, ends with a record at the valid block and page. -/
theorem Kept.mesonRsvScan {ret : Ret} (hr : s.mesonRsvScan mtd blockCnt = some (ret, s')) :
    Kept mtd s' ∧ SameArea s s' := by
  have hlt := h.placed.lt
  have hscan : match s.scanBlocks mtd blockCnt with
      | .ok s' | .error s' => Kept mtd s' ∧ SameArea s s' := by
    refine h.foldlM_scanBlock hP hpos hone fun k hk => ?_
    rw [mem_range'_1] at hk
    omega
  rw [RsvState.mesonRsvScan, RsvState.scanExt] at hr
  generalize s.scanBlocks mtd blockCnt = r at hscan hr
  obtain s₁ | s₁ := r
  · cases hr
    exact hscan
  obtain ⟨hkept, hsame⟩ := hscan
  dsimp only at hr
  rw [if_pos hkept.valid] at hr
  obtain ⟨p, hp, hr⟩ := Option.bind_eq_some_iff.1 hr
  rw [if_neg (hsame.size ▸ hone.not_gt)] at hr
  cases hr
  obtain ⟨hkept', hsame'⟩ := Kept.scanPages (p := ⟨s₁, false, ∅⟩) hkept (hsame.size ▸ hpos)
    (hsame.size ▸ hone) (Nat.zero_add _).le hp
  exact ⟨hkept', hsame.trans hsame'⟩

/-- A record of one page is read whole: as long as the page cannot be read, the buffer is empty. -/
theorem Kept.readPages : ∀ r ∈ readPages mtd blockCnt fuel s (firstPage mtd s.info) [],
    r.1 = .ok → Complete mtd r.2.1 r.2.2 := by
  induction fuel generalizing s with
  | zero => simp [RsvState.readPages]
  | succ fuel ih =>
    intro r hr hok
    obtain ⟨rec, hrec⟩ := h.record
    have hn : savePages mtd s.info.size = 1 := savePages_eq_one hone
    rcases hnext : s.nand.next with ⟨_ | _, nand⟩
    · have hread : RsvState.readPages mtd blockCnt (fuel + 1) s (firstPage mtd s.info + (0 : ℕ))
          (rec.take (0 * mtd.writesize)) = _ := hrec.readPages_succ hpos (by omega) hnext
      rw [zero_mul, take_zero, Nat.cast_zero, add_zero] at hread
      rw [hread, zero_add, ← hn] at hr
      have hrec' := hrec.withNand (cells_next hnext)
      cases fuel with
      | zero => cases hr
      | succ fuel =>
        cases (hrec'.readPages_all hpos _).symm.trans hr
        exact hrec'
    · rw [RsvState.readPages, if_pos (by simpa using hpos), Device.read, hnext] at hr
      obtain ⟨⟨ret, s'⟩, hscan, hr⟩ := Option.bind_eq_some_iff.1 hr
      have hs : SameFlash s { s with nand } := .withNand (cells_next hnext)
      obtain ⟨hkept, hsame⟩ := (h.same hs ⟨rfl, rfl⟩).mesonRsvScan hpos hone hP hscan
      dsimp only at hr
      split_ifs at hr with hret
      · cases hr
        cases hok
      · exact ih hkept (hsame.size ▸ hpos) (hsame.size ▸ hone) r hr hok

end

/-! ## Records of more pages -/

/-- Where nothing fails, the pages that are left are read behind what the buffer has. -/
theorem readPages_quiet (hf : s.nand.fails = []) {page : ℤ}
    (hfuel : s.info.size - buf.length < fuel) :
    ∃ out, readPages mtd blockCnt fuel s page buf = some (.ok, s, out) ∧ buf <+: out := by
  have hW := mtd.writesize_pos
  have hread : ∀ page, s.nand.read page = (some (s.nand.cells page), s.nand) := by
    intro page
    rw [Device.read, Device.next, hf]
  induction fuel generalizing page buf with
  | zero => omega
  | succ fuel ih =>
    rw [readPages, hread]
    split
    · next hlt =>
      obtain ⟨out, hout, hpre⟩ := @ih (buf ++ readBytes
        (min mtd.writesize (s.info.size - buf.length)) (s.nand.cells page)) (page + 1) (by
          rw [length_append, length_readBytes]
          omega)
      exact ⟨out, hout, (prefix_append _ _).trans hpre⟩
    · exact ⟨buf, rfl, prefix_rfl⟩

/-- The bytes of a record that is not the same everywhere. -/
def sampleBytes (size : ℕ) : List UInt8 := 0 :: replicate (size - 1) 1

/-- An area of one block with one record of this size, and a pool without nodes. -/
def sample (mtd : MtdInfo) (size : ℕ) (fails : List Bool) : RsvState where
  info := ⟨0, 1, size, 7, true, ⟨1, 0, 0, 1, false, false⟩, []⟩
  freenodebitmask := ∅
  nand := ⟨fun page => (recordPages mtd size ⟨7, 1, 1⟩ (sampleBytes size))[page.toNat]?, fails, []⟩

theorem firstPage_sample (mtd : MtdInfo) (size : ℕ) (fails : List Bool) :
    firstPage mtd (sample mtd size fails).info = 0 := by
  change (0 : ℤ) * _ + 0 = 0
  rw [zero_mul, add_zero]

section

variable {size : ℕ} {fails : List Bool} (hpos : 0 < size)
include hpos

theorem length_sampleBytes : (sampleBytes size).length = size := by
  rw [sampleBytes, length_cons, length_replicate]
  omega

theorem length_take_sampleBytes (hk : k < savePages mtd size) :
    ((sampleBytes size).take (k * mtd.writesize)).length = k * mtd.writesize := by
  rw [length_take, length_sampleBytes hpos, min_eq_left (mul_writesize_lt hpos hk).le]

variable (hfits : savePages mtd size ≤ mtd.pagesPerBlk)
include hfits

theorem complete_sample : Complete mtd (sample mtd size fails) (sampleBytes size) := by
  refine ⟨length_sampleBytes hpos, ⟨0, by rw [zero_mul]; rfl, by rwa [zero_add, one_mul]⟩,
    ⟨7, 1, 1⟩, rfl, fun j _ => ?_⟩
  rw [firstPage_sample, zero_add]
  rfl

theorem kept_sample : Kept mtd (sample mtd size fails) := by
  refine ⟨⟨Nat.zero_lt_one, Nat.one_le_two_pow, .inr (.inl (Nat.succ_pos 19))⟩, fun b hb => ?_, rfl,
    ⟨le_rfl, zero_lt_one⟩, sampleBytes size, complete_sample hpos hfits⟩
  obtain ⟨hlo, hhi⟩ : (0 : ℤ) ≤ b ∧ b < 1 := hb
  obtain rfl : b = 0 := by omega
  refine ⟨[(⟨7, 1, 1⟩, sampleBytes size)], ?_, ?_, fun j _ => ?_⟩
  · simp [sample, length_sampleBytes hpos]
  · rwa [length_singleton, one_mul]
  · rw [zero_mul, zero_add, flatMap_singleton]
    rfl

omit hfits in
/-- The scan finds no node for the block and leaves the area as it is. -/
theorem scan_sample : (sample mtd size (false :: fails)).mesonRsvScan mtd 0 =
    some (.noMem, sample mtd size fails) := by
  have hpage : oobOf (sample mtd size fails).info
      (recordPages mtd size ⟨7, 1, 1⟩ (sampleBytes size))[0]? = some ⟨7, 1, 1⟩ := by
    rw [getElem?_recordPages hpos (savePages_pos mtd size)]
    rfl
  have hoob : scanOob mtd size 7 (sample mtd size (false :: fails)).nand (0 * mtd.erasesize) =
      (some (recordPages mtd size ⟨7, 1, 1⟩ (sampleBytes size))[0]?,
        (sample mtd size fails).nand) := by
    rw [zero_mul, scanOob, Nat.zero_div]
    rfl
  have hsort : (sample mtd size fails).sortBlock 0 (s16 (0 : ℕ))
      (recordPages mtd size ⟨7, 1, 1⟩ (sampleBytes size))[0]? = .error (sample mtd size fails) := by
    have htag : oobOf (sample mtd size fails).clearStatus.info
      (recordPages mtd size ⟨7, 1, 1⟩ (sampleBytes size))[0]? = some ⟨7, 1, 1⟩ := hpage
    rw [sortBlock]
    dsimp only
    rw [htag]
    rfl
  have hblock : (sample mtd size (false :: fails)).scanBlock mtd 0 0 =
      .error (sample mtd size fails) := by
    have hskip : skipBbtBlocks (sample mtd size (false :: fails)).info 0 = 0 :=
      if_neg fun h => absurd h.2.1 (by decide)
    have hsize : (sample mtd size (false :: fails)).info.size = size := rfl
    rw [scanBlock, hskip, hsize, hoob]
    exact hsort
  have hblocks : (sample mtd size (false :: fails)).scanBlocks mtd 0 =
      .error (sample mtd size fails) := by
    rw [scanBlocks]
    change [0].foldlM (scanBlock mtd 0) (sample mtd size (false :: fails)) = _
    rw [foldlM_cons, hblock]
    rfl
  rw [mesonRsvScan, scanExt, hblocks]

omit hfits in
theorem readBytes_sample {m : ℕ} (hm : 0 < m) (hle : m ≤ min mtd.writesize size) :
    (readBytes m ((sample mtd size fails).nand.cells 0))[0]? = some 0 := by
  have hpage : (sample mtd size fails).nand.cells 0 = _ :=
    getElem?_recordPages hpos (savePages_pos mtd size) _ _
  rw [hpage, readBytes, getElem?_take_of_lt hm, Option.map_some, Option.getD_some,
    getElem?_append_left]
  · rw [getElem?_take_of_lt (by omega), getElem?_drop, zero_mul]
    rfl
  · rw [length_take, length_drop, length_sampleBytes hpos]
    omega

/-- A buffer with the first page of the record in the place of page `k` is no record. -/
theorem not_complete_sample {out : List UInt8} {m : ℕ} (hk : 0 < k) (hlt : k < savePages mtd size)
    (hm : m = min mtd.writesize (size - k * mtd.writesize))
    (hout : (sampleBytes size).take (k * mtd.writesize) ++
      readBytes m ((sample mtd size []).nand.cells 0) <+: out) :
    ¬Complete mtd (sample mtd size []) out := by
  intro hc
  have hW := mtd.writesize_pos
  have hsize := mul_writesize_lt hpos hlt
  have hpos' : 0 < k * mtd.writesize := Nat.mul_pos hk hW
  obtain ⟨oob, hpage⟩ := hc.page hpos hlt
  have hsample : Complete mtd (sample mtd size []) (sampleBytes size) := complete_sample hpos hfits
  obtain ⟨oob', hpage'⟩ := hsample.page hpos hlt
  have hdata := congrArg (fun p : Option Page => (p.map Page.data).getD [])
    (hpage.symm.trans hpage')
  have hbyte := congrArg (·[0]?) hdata
  have hm' : 0 < min mtd.writesize ((sample mtd size []).info.size - k * mtd.writesize) :=
    lt_min hW (Nat.sub_pos_of_lt hsize)
  dsimp only [Option.map_some, Option.getD_some] at hbyte
  rw [getElem?_take_of_lt hm', getElem?_take_of_lt hm', getElem?_drop, getElem?_drop,
    add_zero] at hbyte
  have hrec : (sampleBytes size)[k * mtd.writesize]? = some 1 := by
    rw [sampleBytes, ← Nat.sub_add_cancel hpos', getElem?_cons_succ, getElem?_replicate,
      if_pos (by omega)]
  have hfirst : out[k * mtd.writesize]? = some 0 := by
    obtain ⟨l, rfl⟩ := hout
    have hlen := length_take_sampleBytes hpos hlt
    rw [append_assoc, getElem?_append_right hlen.le, hlen, Nat.sub_self, getElem?_append_left]
    · exact readBytes_sample hpos (by omega) (by omega)
    · rw [length_readBytes]
      omega
  rw [hfirst, hrec] at hbyte
  cases hbyte

omit hfits in
/-- A page cannot be read: the scan leaves the area as it is, and the buffer is kept. -/
theorem readPages_fail (hbuf : buf.length < size) (page : ℤ) :
    readPages mtd 0 (fuel + 1) (sample mtd size (true :: false :: fails)) page buf =
      readPages mtd 0 fuel (sample mtd size fails) 0 buf := by
  have hread : (sample mtd size (true :: false :: fails)).nand.read page =
      (none, (sample mtd size (false :: fails)).nand) := rfl
  have hscan : RsvState.mesonRsvScan mtd 0 { sample mtd size (true :: false :: fails) with
      nand := (sample mtd size (false :: fails)).nand } = some (.noMem, sample mtd size fails) :=
    scan_sample hpos
  have hlt : buf.length < (sample mtd size (true :: false :: fails)).info.size := hbuf
  rw [readPages, if_pos hlt, hread]
  dsimp only
  rw [hscan, ← firstPage_sample mtd size fails]
  rfl

/-- The read of page `k` of the record fails, and the first page is read in its place. -/
theorem readPages_sample (hk : 0 < k) (hlt : k < savePages mtd size) (hfuel : size < fuel) :
    ∃ out, readPages mtd 0 (fuel + 2 + k) (sample mtd size (replicate k false ++ [true, false])) 0
      [] = some (.ok, sample mtd size [], out) ∧ ¬Complete mtd (sample mtd size []) out := by
  have hrec : Complete mtd (sample mtd size (replicate k false ++ [true, false]))
      (sampleBytes size) := complete_sample hpos hfits
  have hsize := mul_writesize_lt hpos hlt
  have hlen := length_take_sampleBytes hpos hlt
  have hadd : readPages mtd 0 (fuel + 2 + k) (sample mtd size (replicate k false ++ [true, false]))
      (firstPage mtd (sample mtd size []).info + (0 : ℕ))
      ((sampleBytes size).take (0 * mtd.writesize)) =
      readPages mtd 0 (fuel + 2) (sample mtd size [true, false])
        (firstPage mtd (sample mtd size []).info + (0 + k : ℕ))
        ((sampleBytes size).take ((0 + k) * mtd.writesize)) :=
    hrec.readPages_add hpos (by rw [zero_add]; exact hlt.le) rfl
  rw [firstPage_sample, zero_mul, take_zero, Nat.cast_zero, zero_add, zero_add,
    zero_add] at hadd
  obtain ⟨buf', hbuf'⟩ : ∃ buf', buf' = (sampleBytes size).take (k * mtd.writesize) ++
    readBytes (min mtd.writesize (size - k * mtd.writesize)) ((sample mtd size []).nand.cells 0) :=
    ⟨_, rfl⟩
  have hagain : readPages mtd 0 (fuel + 1) (sample mtd size []) 0
      ((sampleBytes size).take (k * mtd.writesize)) =
      readPages mtd 0 fuel (sample mtd size []) (0 + 1) buf' := by
    have hlt' : k * mtd.writesize < (sample mtd size []).info.size := hsize
    rw [readPages, hlen, if_pos hlt', hbuf']
    rfl
  have hquiet : ∃ out, readPages mtd 0 fuel (sample mtd size []) (0 + 1) buf' =
      some (.ok, sample mtd size [], out) ∧ buf' <+: out :=
    readPages_quiet rfl ((Nat.sub_le _ _).trans_lt hfuel)
  obtain ⟨out, hout, hpre⟩ := hquiet
  refine ⟨out, ?_, not_complete_sample hpos hfits hk hlt rfl (hbuf' ▸ hpre)⟩
  exact hadd.trans ((readPages_fail hpos (by rw [hlen]; exact hsize) _).trans (hagain.trans hout))

/-- If a page of a record of more pages fails, it may be that no record is read. -/
theorem exists_mixed (hlt : mtd.writesize < size) (hk : k < savePages mtd size) :
    ∃ rest, ∃ r ∈ (failsAt (savePages mtd size) k rest (sample mtd size [])).mesonRsvRead mtd 0,
      r.1 = .ok ∧ ¬Complete mtd r.2.1 r.2.2 := by
  have htwo : 1 < savePages mtd size :=
    not_le.1 fun hle => absurd ((savePages_le_iff hpos).1 hle) (by omega)
  have hfails : ∀ rest, failsAt (savePages mtd size) k rest (sample mtd size []) =
      sample mtd size (replicate k false ++ true :: rest) := by
    intro rest
    rw [failsAt, take_of_length_le (by simpa using hk), append_assoc]
    rfl
  have hread : ∀ fails, (sample mtd size fails).mesonRsvRead mtd 0 =
      readPages mtd 0 (size + fails.length + 1) (sample mtd size fails) 0 [] := by
    intro fails
    rw [mesonRsvRead, firstPage_sample]
    rfl
  rcases Nat.eq_zero_or_pos k with rfl | hpos'
  · -- the first page fails, and then the second
    obtain ⟨out, hout, hnot⟩ := readPages_sample hpos hfits one_pos htwo
      (Nat.lt_add_of_pos_right two_pos)
    refine ⟨[false, false, true, false], (.ok, sample mtd size [], out), ?_, rfl, hnot⟩
    rw [hfails, hread]
    exact (readPages_fail hpos (length_nil.trans_lt hpos) 0).trans hout
  · obtain ⟨out, hout, hnot⟩ := readPages_sample hpos hfits hpos' hk size.lt_succ_self
    refine ⟨[false], (.ok, sample mtd size [], out), ?_, rfl, hnot⟩
    have hfuel : size + (replicate k false ++ [true, false]).length + 1 = size + 1 + 2 + k := by
      simp only [length_append, length_replicate, length_cons, length_nil]
      omega
    rw [hfails, hread, hfuel]
    exact hout

end

/-- Where no page of the record fails, it is read whole. -/
theorem Complete.mesonRsvRead (h : Complete mtd s rec) (hpos : 0 < s.info.size)
    (hvalid : s.info.valid = true) (hk : savePages mtd s.info.size ≤ k) (rest : List Bool) :
    (failsAt (savePages mtd s.info.size) k rest s).mesonRsvRead mtd blockCnt =
      some (.ok, { s with nand := { s.nand with fails := rest } }, rec) := by
  have hfails : (failsAt (savePages mtd s.info.size) k rest s).nand.fails =
      replicate (savePages mtd s.info.size) false ++ rest := by
    rw [failsAt, take_append_of_le_length (by rwa [length_replicate]), take_replicate,
      min_eq_left hk]
  have hrec : Complete mtd (failsAt (savePages mtd s.info.size) k rest s) rec := h.withNand rfl
  have hread : readPages mtd blockCnt (s.info.size + rest.length + 1 + savePages mtd s.info.size)
      _ (firstPage mtd s.info + (0 : ℕ)) (rec.take (0 * mtd.writesize)) = _ :=
    hrec.readPages_add hpos (Nat.zero_add _).le hfails
  rw [zero_mul, take_zero, Nat.cast_zero, add_zero, zero_add] at hread
  have hv : (failsAt (savePages mtd s.info.size) k rest s).info.valid = true := hvalid
  have hfuel : s.info.size + (replicate (savePages mtd s.info.size) false ++ rest).length + 1 =
      s.info.size + rest.length + 1 + savePages mtd s.info.size := by
    rw [length_append, length_replicate]
    omega
  rw [RsvState.mesonRsvRead, if_pos hv, hfails]
  change readPages mtd blockCnt (s.info.size + _ + 1) _ _ _ = _
  rw [hfuel]
  have hend : Complete mtd { s with nand := { s.nand with fails := rest } } rec := h.withNand rfl
  exact hread.trans (hend.readPages_all hpos _)

/-- A mounted area with pages of two bytes and two records of three, the second of which is the
    current one. -/
def twoRecords (fails : List Bool) : RsvState where
  info := ⟨0, 1, 3, 7, true, ⟨1, 0, 2, 1, false, false⟩, []⟩
  freenodebitmask := ∅
  nand := ⟨fun page => (recordPages ⟨1, 3⟩ 3 ⟨7, 1, 1⟩ [1, 2, 3] ++
    recordPages ⟨1, 3⟩ 3 ⟨7, 1, 1⟩ [4, 5, 6])[page.toNat]?, fails, []⟩

end CommonDrivers.Mtd
