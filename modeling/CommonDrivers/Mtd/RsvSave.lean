import CommonDrivers.Mtd.RsvScan

/-!
# Saving and reading a record

On a device that does not fail, `meson_rsv_read` returns the record of a mounted area
(`Mounted.read`), and `meson_rsv_save` writes a new one (`Mounted.save`), behind the last one or to
the first block of the free list.

A power cut in a save leaves the area recoverable, with the record it had before, unless the
valid block has been found damaged: this block is erased before the new record is written.
-/

namespace CommonDrivers.Mtd

open Flash RsvState List Option Nat Cells

section

variable {mtd : MtdInfo} {blockCnt : ℕ} {area : RsvInfo} {s : RsvState} {c : Cells Page} {b : ℤ}
  {ops : List (Op Page)} {t k m : ℕ} {rec buf : List UInt8} {last : Option (List UInt8)}
  {pgs : List Page} {oob : OobInfo}

/-! ## Reading -/

/-- The part of the record on page `j`. -/
theorem take_add_chunk (hrec : rec.length = area.size) (j : ℕ) :
    rec.take (j * mtd.writesize) ++ (rec.drop (j * mtd.writesize)).take
        (min mtd.writesize (area.size - j * mtd.writesize)) =
      rec.take ((j + 1) * mtd.writesize) := by
  have hlen : (rec.drop (j * mtd.writesize)).length = area.size - j * mtd.writesize := by
    rw [length_drop, hrec]
  rw [← hlen, ← take_eq_take_min, ← take_add, succ_mul]

theorem readBytes_some {p : Page} {len : ℕ} (h : p.data.length = len) :
    readBytes len (some p) = p.data := by
  rw [readBytes, map_some, getD_some, take_left' h]

/-- The pages of the record are read one after the other. -/
theorem readPages_record (hs : area.Sound mtd blockCnt) (his : area.Is s.info)
    (hn : s.nand = .ofCells c ops) (hrec : rec.length = area.size) {page : ℤ}
    (h : ∀ j < savePages mtd area.size, ∃ p, c (page + j) = some p ∧
      (chunks mtd area.size rec)[j]? = some p.data) (fuel j left : ℕ)
    (hj : j + left = savePages mtd area.size) (hfuel : left < fuel) :
    readPages mtd blockCnt fuel s (page + j) (rec.take (j * mtd.writesize)) =
      some (.ok, s, rec) := by
  induction left generalizing j fuel with
  | zero =>
    obtain ⟨fuel, rfl⟩ := exists_eq_succ_of_ne_zero hfuel.ne'
    obtain rfl : j = savePages mtd area.size := hj
    rw [take_of_length_le (hrec ▸ (savePages_le_iff hs.pos).1 le_rfl), readPages, his.size,
      if_neg (by rw [hrec]; exact lt_irrefl _)]
  | succ left ih =>
    obtain ⟨fuel, rfl⟩ := exists_eq_succ_of_ne_zero (Nat.ne_of_gt (zero_lt_of_lt hfuel))
    have hlt : j * mtd.writesize < area.size := mul_writesize_lt hs.pos (by omega)
    obtain ⟨p, hp, hdata⟩ := h j (by omega)
    rw [getElem?_chunks hs.pos rec (by omega)] at hdata
    have hdata := some.inj hdata
    have hlen : (rec.take (j * mtd.writesize)).length = j * mtd.writesize := by
      rw [length_take, hrec]
      omega
    have hplen : p.data.length = min mtd.writesize (area.size - j * mtd.writesize) := by
      rw [← hdata, length_take, length_drop, hrec]
      omega
    rw [readPages, his.size, hlen, if_pos hlt, hn, Device.read_ofCells, hp]
    dsimp only
    rw [← hn, readBytes_some hplen, ← hdata, take_add_chunk hrec, add_assoc, ← cast_succ]
    exact ih _ _ (by omega) (by omega)

theorem Current.pages (h : Current mtd area c b t k m rec) : ∀ j < savePages mtd area.size,
      ∃ p, c (b * mtd.pagesPerBlk + (k * savePages mtd area.size : ℕ) + j) = some p ∧
        (chunks mtd area.size rec)[j]? = some p.data := by
  intro j hj
  obtain ⟨pgs, hh, hd⟩ := h.pgs
  have hlen := hh.length
  have hle := hh.le
  rw [succ_mul] at hlen
  have hlt : k * savePages mtd area.size + j < pgs.length := by omega
  refine ⟨pgs[k * savePages mtd area.size + j], ?_, ?_⟩
  · rw [add_assoc, ← cast_add, hh.holds _ (by omega), List.getElem?_eq_getElem hlt]
  · rw [← hd, List.getElem?_map, List.getElem?_take_of_lt hj, List.getElem?_drop,
      List.getElem?_eq_getElem hlt, map_some]

/-- `meson_rsv_read` of a mounted area. -/
theorem Mounted.read (hs : area.Sound mtd blockCnt)
    (h : Mounted mtd blockCnt area c ops s (some rec)) :
    s.mesonRsvRead mtd blockCnt = some (.ok, s, rec) := by
  obtain ⟨hv, t, k, m, hc, hpage, -⟩ := h.knows
  rw [mesonRsvRead, if_pos hv, firstPage, hpage, h.is.size]
  -- every page takes a byte at least
  have hn := savePages_pos mtd area.size
  have hfuel : savePages mtd area.size - 1 < area.size :=
    (Nat.le_mul_of_pos_right _ mtd.writesize_pos).trans_lt (mul_writesize_lt hs.pos (by omega))
  have hread := readPages_record hs h.is h.nand hc.length hc.pages
    (area.size + s.nand.fails.length + 1) 0 _ (Nat.zero_add _) (by omega)
  rw [cast_zero, add_zero, Nat.zero_mul, take_zero] at hread
  exact hread

theorem Mounted.read_none (h : Mounted mtd blockCnt area c ops s none) :
    s.mesonRsvRead mtd blockCnt = some (.failed, s, []) := by
  rw [mesonRsvRead, h.knows.1, if_neg Bool.false_ne_true]

/-! ## Writing the pages of a record -/

/-- The pages of a record with their tags. -/
def recordPages (mtd : MtdInfo) (size : ℕ) (oob : OobInfo) (buf : List UInt8) : List Page :=
  (chunks mtd size buf).map fun data => ⟨data, oob⟩

theorem length_recordPages {size : ℕ} (hpos : 0 < size) (oob : OobInfo) (buf : List UInt8) :
    (recordPages mtd size oob buf).length = savePages mtd size := by
  rw [recordPages, length_map, length_chunks hpos]

theorem getElem?_recordPages {size j : ℕ} (hpos : 0 < size) (hj : j < savePages mtd size)
    (oob : OobInfo) (buf : List UInt8) : (recordPages mtd size oob buf)[j]? =
      some ⟨(buf.drop (j * mtd.writesize)).take (min mtd.writesize (size - j * mtd.writesize)),
        oob⟩ := by
  rw [recordPages, getElem?_map, getElem?_chunks hpos buf hj]
  rfl

theorem map_data_recordPages (size : ℕ) (oob : OobInfo) (buf : List UInt8) :
    (recordPages mtd size oob buf).map Page.data = chunks mtd size buf := by
  rw [recordPages, List.map_map]
  exact List.map_id _

theorem oob_of_mem_recordPages {size : ℕ} {p : Page} (h : p ∈ recordPages mtd size oob buf) :
    p.oob = oob := by
  obtain ⟨data, -, rfl⟩ := List.mem_map.1 h
  rfl

/-- The pages are programmed one after the other, behind what the block holds. -/
theorem writePages_holds (ops : List (Op Page)) (oob : OobInfo) (ds : List (List UInt8))
    (h : c.Holds mtd.pagesPerBlk b pgs) (hle : pgs.length + ds.length ≤ mtd.pagesPerBlk) :
    writePages mtd oob (.ofCells c ops) (b * mtd.pagesPerBlk + pgs.length) ds = (false, .ofCells
        (c.replay mtd.pagesPerBlk (programs (b * mtd.pagesPerBlk + pgs.length)
          (ds.map fun data => ⟨data, oob⟩))) (ops ++ programs (b * mtd.pagesPerBlk + pgs.length)
          (ds.map fun data => ⟨data, oob⟩))) := by
  induction ds generalizing c ops pgs with
  | nil =>
    rw [writePages, map_nil, programs, append_nil]
    rfl
  | cons d ds ih =>
    rw [length_cons] at hle
    have hfree : c (b * mtd.pagesPerBlk + pgs.length) = none := by
      rw [h _ (by omega), List.getElem?_eq_none le_rfl]
    rw [writePages, Device.program_ofCells hfree]
    dsimp only
    have hlen : ((pgs ++ [(⟨d, oob⟩ : Page)]).length : ℤ) = pgs.length + 1 := by
      rw [length_append, length_singleton, cast_succ]
    have hrest := ih (ops ++ [.program (b * mtd.pagesPerBlk + pgs.length) ⟨d, oob⟩])
      (h.program ⟨d, oob⟩) (by rw [length_append, length_singleton]; omega)
    rw [hlen, ← add_assoc] at hrest
    rw [hrest, append_assoc]
    rfl

/-- What `meson_rsv_save` leaves after the pages have been written. -/
def saved (s : RsvState) : RsvState :=
  { s with info := { s.info with
      valid := true
      validNode := { s.info.validNode with powerAbnormal := false, eccAbnormal := false } } }

theorem saveWrite_holds (hs : area.Sound mtd blockCnt) (his : area.Is s.info)
    (hn : s.nand = .ofCells c ops) (h : c.Holds mtd.pagesPerBlk s.info.validNode.phyBlkAddr pgs)
    (hpage : s.info.validNode.phyPageAddr = pgs.length)
    (hle : pgs.length + savePages mtd area.size ≤ mtd.pagesPerBlk) (buf : List UInt8) :
    saveWrite mtd s buf = (.ok, saved ⟨s.info, s.freenodebitmask, .ofCells
      (c.replay mtd.pagesPerBlk (programs (firstPage mtd s.info)
        (recordPages mtd area.size (tag s.info) buf))) (ops ++ programs (firstPage mtd s.info)
        (recordPages mtd area.size (tag s.info) buf))⟩) := by
  have hwrite := writePages_holds ops (tag s.info) (chunks mtd area.size buf) h
    (by rw [length_chunks hs.pos]; exact hle)
  rw [← hpage] at hwrite
  rw [saveWrite, mesonRsvWrite, hn, his.size, firstPage, hwrite]
  rfl

/-! ## Saving to a new block -/

/-- The operations that write pages to a new block. -/
def newBlock (mtd : MtdInfo) (b : ℤ) (pgs : List Page) : List (Op Page) :=
  .erase b :: programs (b * mtd.pagesPerBlk) pgs

theorem agreeOn_newBlock {b' : ℤ} (hne : b' ≠ b) (hle : pgs.length ≤ mtd.pagesPerBlk) :
    AgreeOn mtd b' c (c.replay mtd.pagesPerBlk (newBlock mtd b pgs)) := by
  intro page hp
  have hprog := replay_programs_of_ne (c := c.apply mtd.pagesPerBlk (.erase b)) (k := 0)
    hne hp (by omega : 0 + pgs.length ≤ _)
  rw [cast_zero, add_zero] at hprog
  exact hprog.trans (apply_erase_of_ne hne hp)

theorem holds_newBlock (c : Cells Page) (b : ℤ) (pgs : List Page) :
    (c.replay mtd.pagesPerBlk (newBlock mtd b pgs)).Holds mtd.pagesPerBlk b pgs := by
  have h := (holds_erase mtd.pagesPerBlk c b).replay_programs pgs
  rw [length_nil, cast_zero, add_zero, nil_append] at h
  exact h

theorem take_newBlock (b : ℤ) (pgs : List Page) (j : ℕ) :
    (newBlock mtd b pgs).take (j + 1) = newBlock mtd b (pgs.take j) := by
  rw [newBlock, take_succ_cons, take_programs]
  rfl

theorem length_newBlock (b : ℤ) (pgs : List Page) :
    (newBlock mtd b pgs).length = pgs.length + 1 := by
  rw [newBlock, length_cons, length_programs]

variable (mtd area) in
/-- Whatever part of a record with the stamp `t` is written to the block `b`, the last record can
    be found again. -/
def SafeFrom (c : Cells Page) (b : ℤ) (t : ℕ) : Option (List UInt8) → Prop
  | none => ∀ b', area.Has b' → b' ≠ b → stamp mtd area c b' = none
  | some rec => ∃ b₀ t₀ k m, area.Has b₀ ∧ b₀ ≠ b ∧ t₀ < t ∧ Current mtd area c b₀ t₀ k m rec ∧
      ∀ b' t', area.Has b' → b' ≠ b₀ → b' ≠ b → stamp mtd area c b' = some t' → t' < t₀

theorem SafeFrom.frame {c' : Cells Page} (h : SafeFrom mtd area c b t last)
    (hc : ∀ b', b' ≠ b → AgreeOn mtd b' c c') : SafeFrom mtd area c' b t last := by
  cases last with
  | none =>
    intro b' hb' hne
    rw [(hc b' hne).stamp]
    exact h b' hb' hne
  | some rec =>
    obtain ⟨b₀, t₀, k, m, hb₀, hne₀, hlt, hcur, hold⟩ := h
    refine ⟨b₀, t₀, k, m, hb₀, hne₀, hlt, (hc b₀ hne₀).current hcur, fun b' t' hb' hn₀ hn hst => ?_⟩
    rw [(hc b' hn).stamp] at hst
    exact hold b' t' hb' hn₀ hn hst

/-- A part of a record is a fragment, if there is a page of it at all. -/
theorem Holding.fragment_of_stamp {t' : ℕ} (h : Holding mtd area c b pgs t 0 m)
    (hst : stamp mtd area c b = some t') : t' = t ∧ Fragment mtd area c b := by
  have hlen := h.length
  rw [zero_mul, zero_add] at hlen
  rcases Nat.eq_zero_or_pos m with rfl | hm
  · have hnil := h.holds
    rw [eq_nil_of_length_eq_zero hlen] at hnil
    rw [Holding.nil_stamp hnil] at hst
    cases hst
  · rw [h.stamp_eq (hlen ▸ hm)] at hst
    exact ⟨(some.inj hst).symm, pgs, t, m, hm, h⟩

theorem SafeFrom.recoverable (h : SafeFrom mtd area c b t last)
    (hb : Holding mtd area c b pgs t 0 m) : Recoverable mtd area c last := by
  cases last with
  | none =>
    intro b' t' hb' hst
    rcases eq_or_ne b' b with rfl | hne
    · exact (hb.fragment_of_stamp hst).2
    · rw [h b' hb' hne] at hst
      cases hst
  | some rec =>
    obtain ⟨b₀, t₀, k, m, hb₀, hne₀, hlt, hcur, hold⟩ := h
    refine ⟨b₀, t₀, k, m, hb₀, hcur, fun b' t' hb' hn₀ hst => ?_⟩
    rcases eq_or_ne b' b with rfl | hne
    · obtain ⟨rfl, hfrag⟩ := hb.fragment_of_stamp hst
      exact .inr ⟨hlt, hfrag⟩
    · exact .inl (hold b' t' hb' hn₀ hne hst)

/-- The tag of the record of a save that is not too late. -/
theorem tag_timestamp (h : s.info.validNode.timestamp = t) (hlt : t < 2 ^ 15) :
    (tag s.info).timestamp = t := by
  rw [tag]
  dsimp only
  omega

section

variable (hs : area.Sound mtd blockCnt)
include hs

variable (mtd area) in
/-- A part of the pages of a record. -/
theorem holding_part (hname : oob.name = area.name) (buf : List UInt8) {j : ℕ}
    (hj : j < savePages mtd area.size) :
    Holding mtd area (c.replay mtd.pagesPerBlk (newBlock mtd b
      ((recordPages mtd area.size oob buf).take j))) b
      ((recordPages mtd area.size oob buf).take j) oob.timestamp 0 j := by
  have hlen : ((recordPages mtd area.size oob buf).take j).length = j := by
    rw [length_take, length_recordPages hs.pos]
    omega
  refine ⟨holds_newBlock _ _ _, fun p hp => ?_, ?_, hj, ?_⟩
  · rw [oob_of_mem_recordPages (mem_of_mem_take hp)]
    exact ⟨hname, rfl⟩
  · omega
  · have := hs.savePages_le
    omega

/-- A save to a new block that is cut short leaves the last record. -/
theorem SafeFrom.cut (h : SafeFrom mtd area c b oob.timestamp last)
    (hr : Recoverable mtd area c last) (hname : oob.name = area.name) (buf : List UInt8) {j : ℕ}
    (hj : j < (newBlock mtd b (recordPages mtd area.size oob buf)).length) :
    Recoverable mtd area (c.replay mtd.pagesPerBlk
      ((newBlock mtd b (recordPages mtd area.size oob buf)).take j)) last := by
  cases j with
  | zero => exact hr
  | succ j =>
    rw [length_newBlock, length_recordPages hs.pos] at hj
    rw [take_newBlock]
    have hpart := holding_part mtd area (c := c) (b := b) hs hname buf (j := j) (by omega)
    refine SafeFrom.recoverable (h.frame fun b' hne => agreeOn_newBlock hne hpart.le) hpart

/-- The whole record in a new block. -/
theorem current_newBlock (c : Cells Page) (b : ℤ) (oob : OobInfo) (hname : oob.name = area.name)
    (hbuf : buf.length = area.size) :
    Current mtd area (c.replay mtd.pagesPerBlk
      (newBlock mtd b (recordPages mtd area.size oob buf))) b oob.timestamp 0 0 buf := by
  have hlen : (recordPages mtd area.size oob buf).length = _ := length_recordPages hs.pos oob buf
  refine ⟨⟨_, ⟨holds_newBlock _ _ _, fun p hp => ?_, ?_, savePages_pos mtd _, ?_⟩, ?_⟩, hbuf⟩
  · rw [oob_of_mem_recordPages hp]
    exact ⟨hname, rfl⟩
  · rw [hlen, zero_add, one_mul, add_zero]
  · rw [hlen]
    exact hs.savePages_le
  · rw [zero_mul, drop_zero, take_of_length_le hlen.le, map_data_recordPages]

/-- The operations of a save for which a new block has been taken. -/
def newRecord (mtd : MtdInfo) (area : RsvInfo) (s : RsvState) (buf : List UInt8) : List (Op Page) :=
  newBlock mtd s.info.validNode.phyBlkAddr (recordPages mtd area.size (tag s.countErase.info) buf)

/-- The end of a save for which a new block has been taken. -/
theorem reSearch_new {i : ℤ} {fuel : ℕ} {s₁ : RsvState}
    (hplace : s.place mtd blockCnt i = some (.ok s₁)) (his : area.Is s₁.info)
    (hn : s₁.nand = .ofCells c ops) (hpage : s₁.info.validNode.phyPageAddr = 0) (buf : List UInt8) :
    reSearch mtd blockCnt i buf (fuel + 1) s = some (.ok, saved ⟨s₁.countErase.info,
      s₁.freenodebitmask, .ofCells (c.replay mtd.pagesPerBlk (newRecord mtd area s₁ buf))
        (ops ++ newRecord mtd area s₁ buf)⟩) := by
  rw [reSearch, hplace]
  dsimp only
  rw [if_pos hpage, hn, Device.next_ofCells]
  have hfirst : firstPage mtd s₁.countErase.info =
      s₁.info.validNode.phyBlkAddr * mtd.pagesPerBlk := by
    change _ * _ + s₁.info.validNode.phyPageAddr = _
    rw [hpage, add_zero]
    rfl
  have hle := hs.savePages_le
  rw [← Nat.zero_add (savePages mtd area.size)] at hle
  have hwrite := saveWrite_holds (s := ⟨s₁.countErase.info, s₁.freenodebitmask, .ofCells
      (c.apply mtd.pagesPerBlk (.erase s₁.info.validNode.phyBlkAddr))
      (ops ++ [.erase s₁.info.validNode.phyBlkAddr])⟩)
    hs { his with } rfl (holds_erase _ c _) hpage hle buf
  rw [hfirst, append_assoc] at hwrite
  exact congrArg some hwrite

variable (mtd blockCnt area) in
/-- A new block has been taken for a record: it is not the block of the last record, and gets a
    newer stamp than all others. -/
structure Taken (c : Cells Page) (ops : List (Op Page)) (t : ℕ) (s : RsvState) : Prop where
  is : area.Is s.info
  nand : s.nand = .ofCells c ops
  ok : s.Ok blockCnt ∅ area.startBlock area.endBlock
  nonneg : 0 ≤ s.info.validNode.phyBlkAddr
  all : ∀ b, area.Has b → b ∈ s.info.blocks
  page : s.info.validNode.phyPageAddr = 0
  timestamp : s.info.validNode.timestamp = t
  lt : t < 2 ^ 15
  old : ∀ b t', area.Has b → b ≠ s.info.validNode.phyBlkAddr → stamp mtd area c b = some t' → t' < t

/-- The record has been written to the new block. -/
theorem Taken.mounted (h : Taken mtd blockCnt area c ops t s) (hbuf : buf.length = area.size) :
    Mounted mtd blockCnt area (c.replay mtd.pagesPerBlk (newRecord mtd area s buf))
      (ops ++ newRecord mtd area s buf) (saved ⟨s.countErase.info, s.freenodebitmask, .ofCells
        (c.replay mtd.pagesPerBlk (newRecord mtd area s buf))
        (ops ++ newRecord mtd area s buf)⟩) (some buf) := by
  have hlen : (recordPages mtd area.size (tag s.countErase.info) buf).length = _ :=
    length_recordPages hs.pos _ buf
  have hcur := current_newBlock hs c s.info.validNode.phyBlkAddr (tag s.countErase.info)
    h.is.name hbuf
  rw [tag_timestamp (s := s.countErase) h.timestamp h.lt] at hcur
  refine ⟨{ h.is with }, rfl, ⟨h.ok.linked, h.ok.within.nodup, h.ok.within.inside,
    fun _ => h.nonneg⟩, h.all, rfl, rfl, t, 0, 0, hcur, ?_, h.timestamp, rfl,
    fun b t' hb hne hst => ?_⟩
  · rw [Nat.zero_mul]
    exact h.page
  · have hagree := agreeOn_newBlock (c := c) (show b ≠ s.info.validNode.phyBlkAddr from hne)
      (hlen.trans_le hs.savePages_le)
    exact h.old b t' hb hne (hagree.stamp.symm.trans hst)

/-- A save for which a new block has been taken. -/
theorem Taken.save {i : ℤ} {s₁ : RsvState} (h : Taken mtd blockCnt area c ops t s₁)
    (hplace : s.place mtd blockCnt i = some (.ok s₁)) (hbuf : buf.length = area.size) (fuel : ℕ) :
    ∃ es s', reSearch mtd blockCnt i buf (fuel + 1) s = some (.ok, s') ∧
      Mounted mtd blockCnt area (c.replay mtd.pagesPerBlk es) (ops ++ es) s' (some buf) ∧
      es.length = savePages mtd area.size + 1 ∧
      ∀ last, SafeFrom mtd area c s₁.info.validNode.phyBlkAddr t last →
        Recoverable mtd area c last → ∀ j < es.length,
          Recoverable mtd area (c.replay mtd.pagesPerBlk (es.take j)) last := by
  refine ⟨_, _, reSearch_new hs hplace h.is h.nand h.page buf, h.mounted hs hbuf, ?_,
    fun last hsafe hr j hj => ?_⟩
  · rw [newRecord, length_newBlock, length_recordPages hs.pos]
  · rw [← tag_timestamp (s := s₁.countErase) h.timestamp h.lt] at hsafe
    exact hsafe.cut hs hr h.is.name buf hj

/-! ## Taking a new block -/

omit hs in
theorem takeFirst_eq (blockCnt : ℕ) {node : FreeNode} {rest : List FreeNode}
    (h : s.info.freeNode = node :: rest) : ∃ s', s.takeFirst blockCnt = some s' ∧
      s'.nand = s.nand ∧ s'.info.validNode.phyBlkAddr = node.phyBlkAddr ∧
      s'.info.validNode.phyPageAddr = 0 ∧
      s'.info.validNode.timestamp = s.info.validNode.timestamp + 1 := by
  rw [takeFirst, h]
  exact ⟨_, rfl, rfl, rfl, rfl, rfl⟩

omit hs in
/-- A block other than the valid one is in the free list. -/
theorem mem_free_of_ne (h : b ∈ s.info.blocks) (hne : b ≠ s.info.validNode.phyBlkAddr) :
    b ∈ s.info.freeNode.map FreeNode.phyBlkAddr := by
  refine (mem_append.1 h).resolve_left fun hmem => hne ?_
  split_ifs at hmem
  · exact mem_singleton.1 hmem
  · cases hmem

/-- The free list of a mounted area is not empty: it has a block besides the valid one. -/
theorem exists_free (hall : ∀ b, area.Has b → b ∈ s.info.blocks) :
    ∃ node rest, s.info.freeNode = node :: rest := by
  have htwo := hs.two
  obtain ⟨b, hb, hne⟩ : ∃ b, area.Has b ∧ b ≠ s.info.validNode.phyBlkAddr := by
    rcases eq_or_ne (area.startBlock : ℤ) s.info.validNode.phyBlkAddr with heq | hne
    · exact ⟨area.startBlock + 1, ⟨by omega, by omega⟩, by omega⟩
    · exact ⟨area.startBlock, ⟨le_rfl, by omega⟩, hne⟩
  have hmem := mem_free_of_ne (hall b hb) hne
  cases hf : s.info.freeNode with
  | nil =>
    rw [hf] at hmem
    cases hmem
  | cons node rest => exact ⟨node, rest, rfl⟩

/-- Without a record, the first block of the free list is taken. -/
theorem Mounted.takeFirst (h : Mounted mtd blockCnt area c ops s none) :
    ∃ s₁, s.takeFirst blockCnt = some s₁ ∧ Taken mtd blockCnt area c ops 1 s₁ := by
  obtain ⟨node, rest, hfree⟩ := exists_free hs h.all
  obtain ⟨s₁, htake, hnand, hblk, hpage, hts⟩ := takeFirst_eq blockCnt hfree
  obtain ⟨hv, hneg, hts₀, -, hnone⟩ := h.knows
  have hlo : (0 : ℤ) ≤ area.startBlock := Int.natCast_nonneg _
  obtain ⟨hok, hsame, hpos⟩ := h.ok.takeFirst hlo htake
  obtain ⟨-, hblocks, -⟩ := takeFirst_spec htake h.ok.linked (h.ok.free_nonneg hlo)
  refine ⟨s₁, htake, h.is.sameArea hsame, hnand.trans h.nand, hok, hpos, fun b hb => ?_, hpage, ?_,
    by norm_num, fun b t' hb _ hst => ?_⟩
  · rw [hblocks]
    have hb₀ := hb.1
    exact mem_free_of_ne (h.all b hb) (by omega)
  · rw [hts, hts₀]
    rfl
  · rw [hnone b hb] at hst
    cases hst

/-- The valid block goes to the end of the free list, and the first block of the list is taken. -/
theorem exists_rotate (his : area.Is s.info) (hn : s.nand = .ofCells c ops)
    (hok : s.Ok blockCnt ∅ area.startBlock area.endBlock)
    (hall : ∀ b, area.Has b → b ∈ s.info.blocks) (hv : s.info.valid = true)
    (hts : s.info.validNode.timestamp = t) (hlt : t + 1 < 2 ^ 15)
    (hold : ∀ b t', area.Has b → stamp mtd area c b = some t' → t' ≤ t) :
    ∃ s₂ s₁, s.link blockCnt s.info.validNode.phyBlkAddr s.info.validNode.ec = .ok s₂ ∧
      s.info.freeNode ≠ [] ∧ s₂.takeFirst blockCnt = some s₁ ∧
      Taken mtd blockCnt area c ops (t + 1) s₁ ∧
      s₁.info.validNode.phyBlkAddr ≠ s.info.validNode.phyBlkAddr := by
  have hpos := hok.within.valid hv
  have hcard := hok.card_lt
  rw [if_pos hpos] at hcard
  have hnodes := hs.nodes
  have hroom : s.freenodebitmask.card < blockCnt := by omega
  obtain ⟨s₂, hlink⟩ := exists_link s.info.validNode.phyBlkAddr s.info.validNode.ec hroom
  obtain ⟨node, rest, hfree⟩ := exists_free hs hall
  obtain ⟨index, mask, -, hs₂⟩ := link_eq_ok hlink
  have hfree₂ : s₂.info.freeNode =
      node :: (rest ++ [⟨index, s.info.validNode.ec, s.info.validNode.phyBlkAddr⟩]) := by
    rw [hs₂]
    rw [hfree]
    rfl
  obtain ⟨s₁, htake, hnand, hblk, hpage, hts₁⟩ := takeFirst_eq blockCnt hfree₂
  obtain ⟨hok₁, hsame, hpos₁, hperm⟩ := hok.rotate (Int.natCast_nonneg _) hv hlink htake
  refine ⟨s₂, s₁, hlink, ?_, htake, ⟨his.sameArea hsame, ?_, hok₁, hpos₁,
    fun b hb => hperm.mem_iff.2 (hall b hb), hpage, ?_, hlt, fun b t' hb _ hst => ?_⟩, ?_⟩
  · rw [hfree]
    exact cons_ne_nil _ _
  · rw [hnand, hs₂]
    exact hn
  · rw [hts₁, hs₂, cast_succ, ← hts]
  · exact lt_succ_of_le (hold b t' hb hst)
  · -- the valid block is not in the free list
    rw [hblk]
    intro heq
    have hnodup := hok.within.nodup
    rw [RsvInfo.blocks, if_pos hpos, hfree, map_cons, heq] at hnodup
    exact (nodup_cons.1 hnodup).1 (.head _)

/-! ## Saving behind the last record -/

end

theorem Mounted.recoverable (h : Mounted mtd blockCnt area c ops s last) :
    Recoverable mtd area c last := by
  cases last with
  | none =>
    intro b t hb hst
    rw [h.knows.2.2.2.2 b hb] at hst
    cases hst
  | some rec =>
    obtain ⟨hv, t, k, m, hc, -, -, -, hold⟩ := h.knows
    exact ⟨_, t, k, m, h.ok.has hv, hc, fun b t' hb hne hst => .inl (hold b t' hb hne hst)⟩

/-- Pages written behind the last record. -/
theorem Holding.append {pgs xs : List Page} (h : Holding mtd area c b pgs t k 0) (k' j : ℕ)
    (htags : ∀ p ∈ xs, p.oob.name = area.name ∧ p.oob.timestamp = t)
    (hlen : pgs.length + xs.length = k' * savePages mtd area.size + j)
    (hj : j < savePages mtd area.size) (hle : pgs.length + xs.length ≤ mtd.pagesPerBlk) :
    Holding mtd area (c.replay mtd.pagesPerBlk
      (programs (b * mtd.pagesPerBlk + pgs.length) xs)) b (pgs ++ xs) t k' j := by
  refine ⟨h.holds.replay_programs xs, fun p hp => ?_, ?_, hj, ?_⟩
  · exact (mem_append.1 hp).elim (h.tags p) (htags p)
  · rw [length_append, hlen]
  · rw [length_append]
    exact hle

variable (mtd area) in
/-- The pages of the record are behind those of the last one. -/
structure Behind (c : Cells Page) (b : ℤ) (t k : ℕ) (rec : List UInt8) (pgs xs : List Page)
    (buf : List UInt8) : Prop where
  holding : Holding mtd area c b pgs t (k + 1) 0
  last : ((pgs.drop (k * savePages mtd area.size)).take (savePages mtd area.size)).map Page.data =
    chunks mtd area.size rec
  tags : ∀ p ∈ xs, p.oob.name = area.name ∧ p.oob.timestamp = t
  length : xs.length = savePages mtd area.size
  data : xs.map Page.data = chunks mtd area.size buf
  le : pgs.length + savePages mtd area.size ≤ mtd.pagesPerBlk

namespace Behind

variable {pgs xs : List Page}

variable (h : Behind mtd area c b t k rec pgs xs buf)
include h

/-- The length of what the block holds. -/
theorem length_eq : pgs.length = k * savePages mtd area.size + savePages mtd area.size := by
  rw [h.holding.length, succ_mul, add_zero]

/-- A part of the new record leaves the last one as it is. -/
theorem part (hrec : rec.length = area.size) {j : ℕ} (hj : j < savePages mtd area.size) :
    Current mtd area (c.replay mtd.pagesPerBlk
      (programs (b * mtd.pagesPerBlk + pgs.length) (xs.take j))) b t k j rec := by
  have hlen : (xs.take j).length = j := by
    rw [length_take, h.length]
    omega
  have hpgs := h.length_eq
  have hle := h.le
  refine ⟨⟨_, h.holding.append (k + 1) j (fun p hp => h.tags p (mem_of_mem_take hp)) ?_
    hj ?_, ?_⟩, hrec⟩
  · rw [hlen, hpgs, succ_mul]
  · omega
  · rw [drop_append_of_le_length (by omega), take_append_of_le_length, h.last]
    rw [length_drop]
    omega

/-- The whole of the new record. -/
theorem whole (hbuf : buf.length = area.size) : Current mtd area (c.replay mtd.pagesPerBlk
      (programs (b * mtd.pagesPerBlk + pgs.length) xs)) b t (k + 1) 0 buf := by
  have hpgs := h.length_eq
  have hle := h.le
  have hlen := h.length
  refine ⟨⟨_, h.holding.append (k + 1 + 1) 0 h.tags ?_ (savePages_pos mtd _) ?_, ?_⟩, hbuf⟩
  · rw [hlen, hpgs, succ_mul, succ_mul, add_zero]
  · omega
  · have hdrop : (k + 1) * savePages mtd area.size = pgs.length := by rw [hpgs, succ_mul]
    rw [hdrop, drop_left, take_of_length_le hlen.le, h.data]

/-- The other blocks stay as they are. -/
theorem agreeOn {b' : ℤ} (hne : b' ≠ b) (j : ℕ) : AgreeOn mtd b' c (c.replay mtd.pagesPerBlk
      (programs (b * mtd.pagesPerBlk + pgs.length) (xs.take j))) := by
  intro page hp
  have hle := h.le
  have hxs := h.length
  exact replay_programs_of_ne hne hp (by rw [length_take]; omega)

end Behind

variable (mtd blockCnt area) in
/-- What a save does: it writes the record, and a power cut at any point leaves the last one, unless
    the valid block was damaged. -/
def Saves (c : Cells Page) (ops : List (Op Page)) (s : RsvState) (last : Option (List UInt8))
    (buf : List UInt8) : Prop := ∃ es s', s.mesonRsvSave mtd blockCnt buf = some (.ok, s') ∧
    Mounted mtd blockCnt area (c.replay mtd.pagesPerBlk es) (ops ++ es) s' (some buf) ∧
    (s.info.validNode.powerAbnormal = true → es.length = savePages mtd area.size + 2) ∧
    ∀ j < es.length, (s.info.validNode.powerAbnormal = true → j = 0) →
      Recoverable mtd area (c.replay mtd.pagesPerBlk (es.take j)) last

theorem startSave_of_clean (h : Mounted mtd blockCnt area c ops s last)
    (hp : s.info.validNode.powerAbnormal = false) : s.startSave mtd = s := by
  rw [startSave, hp, h.ecc]
  rfl

/-- The place of a record, if the valid block is given up. -/
theorem place_rotate {i : ℤ} {s₀ s₁ s₂ : RsvState} (hv : s.info.valid = true)
    (hfull : (mtd.pagesPerBlk : ℤ) < (s.advance i).info.validNode.phyPageAddr + i)
    (hs₀ : (s.advance i).eraseDamaged mtd i = s₀)
    (hlink : s₀.link blockCnt s₀.info.validNode.phyBlkAddr s₀.info.validNode.ec = .ok s₂)
    (hfree : s₀.info.freeNode ≠ []) (htake : s₂.takeFirst blockCnt = some s₁) :
    s.place mtd blockCnt i = some (.ok s₁) := by
  rw [place, if_pos hv]
  dsimp only
  rw [if_pos hfull, hs₀, hlink]
  dsimp only
  rw [if_neg hfree, htake]
  rfl

section

variable (hs : area.Sound mtd blockCnt)
include hs

/-- The first record of the area. -/
theorem Mounted.save_first (h : Mounted mtd blockCnt area c ops s none)
    (hbuf : buf.length = area.size) : Saves mtd blockCnt area c ops s none buf := by
  obtain ⟨hv, -, -, hp, hnone⟩ := h.knows
  obtain ⟨s₁, htake, htaken⟩ := h.takeFirst hs
  have hplace : s.place mtd blockCnt (savePages mtd area.size) = some (.ok s₁) := by
    rw [place, hv, if_neg Bool.false_ne_true, htake]
    rfl
  obtain ⟨es, s', hres, hm, -, hcut⟩ := htaken.save hs hplace hbuf s.nand.fails.length
  refine ⟨es, s', ?_, hm, fun hp' => ?_, fun j hj _ => ?_⟩
  · rw [mesonRsvSave, startSave_of_clean h hp, h.is.size]
    exact hres
  · rw [hp] at hp'
    cases hp'
  · exact hcut none (fun b hb _ => hnone b hb) h.recoverable j hj

/-- There is room for a record behind the last one. -/
structure Room (mtd : MtdInfo) (area : RsvInfo) (c : Cells Page) (s : RsvState) (t k : ℕ)
    (rec : List UInt8) : Prop where
  valid : s.info.valid = true
  current : Current mtd area c s.info.validNode.phyBlkAddr t k 0 rec
  page : s.info.validNode.phyPageAddr = (k * savePages mtd area.size : ℕ)
  timestamp : s.info.validNode.timestamp = t
  power : s.info.validNode.powerAbnormal = false
  old : ∀ b t', area.Has b → b ≠ s.info.validNode.phyBlkAddr → stamp mtd area c b = some t' → t' < t
  le : k * savePages mtd area.size + savePages mtd area.size + savePages mtd area.size ≤
    mtd.pagesPerBlk

section

variable (h : Mounted mtd blockCnt area c ops s (some rec)) (hlt : t + 1 < 2 ^ 15)
include h hlt

/-- A record is written behind the last one. -/
theorem Room.exists_behind (hr : Room mtd area c s t k rec) (buf : List UInt8) :
    ∃ pgs xs, Behind mtd area c s.info.validNode.phyBlkAddr t k rec pgs xs buf ∧
      s.mesonRsvSave mtd blockCnt buf = some (.ok,
        saved ⟨(s.advance (savePages mtd area.size)).info, s.freenodebitmask, .ofCells
          (c.replay mtd.pagesPerBlk
            (programs (s.info.validNode.phyBlkAddr * mtd.pagesPerBlk + pgs.length) xs))
          (ops ++ programs (s.info.validNode.phyBlkAddr * mtd.pagesPerBlk + pgs.length) xs)⟩) := by
  have hn := savePages_pos mtd area.size
  have hroom := hr.le
  obtain ⟨pgs, hh, hdata⟩ := hr.current.pgs
  have hlen : pgs.length = k * savePages mtd area.size + savePages mtd area.size := by
    rw [hh.length, succ_mul, add_zero]
  -- the state in which the pages are written
  have hadv : (s.advance (savePages mtd area.size)).info.validNode.phyPageAddr = pgs.length := by
    change s.info.validNode.phyPageAddr + _ = _
    rw [hr.page, hlen, cast_add]
  have hfirst : firstPage mtd (s.advance (savePages mtd area.size)).info =
      s.info.validNode.phyBlkAddr * mtd.pagesPerBlk + pgs.length := by
    rw [firstPage, hadv]
    rfl
  refine ⟨pgs, recordPages mtd area.size (tag (s.advance (savePages mtd area.size)).info) buf,
    ⟨hh, hdata, fun p hp => ?_, length_recordPages hs.pos _ _, map_data_recordPages _ _ _,
      by omega⟩, ?_⟩
  · rw [oob_of_mem_recordPages hp]
    exact ⟨h.is.name, tag_timestamp (s := s.advance _) hr.timestamp (by omega)⟩
  have hplace : s.place mtd blockCnt (savePages mtd area.size) =
      some (.ok (s.advance (savePages mtd area.size))) := by
    rw [place, if_pos hr.valid]
    dsimp only
    rw [hadv, if_neg (by omega)]
  have hwrite := saveWrite_holds (s := s.advance (savePages mtd area.size)) hs { h.is with }
    h.nand hh.holds hadv (by omega) buf
  rw [hfirst] at hwrite
  rw [mesonRsvSave, startSave_of_clean h hr.power, h.is.size, reSearch, hplace]
  dsimp only
  rw [hadv, if_neg (by omega), hwrite]
  rfl

/-- A save behind the last record. -/
theorem Room.save (hr : Room mtd area c s t k rec) (hbuf : buf.length = area.size) :
    Saves mtd blockCnt area c ops s (some rec) buf := by
  obtain ⟨pgs, xs, hb, hsave⟩ := hr.exists_behind hs h hlt buf
  have hhas := h.ok.has hr.valid
  have hxs : xs.take xs.length = xs := take_length
  refine ⟨_, _, hsave, ⟨{ h.is with }, rfl, ?_, h.all, rfl, rfl, t, k + 1, 0,
    hb.whole hbuf, ?_, hr.timestamp, rfl, fun b t' hb' hne hst => ?_⟩,
    fun hp => ?_, fun j hj _ => ?_⟩
  · exact ⟨h.ok.linked, h.ok.within.nodup, h.ok.within.inside, fun _ => h.ok.within.valid hr.valid⟩
  · change s.info.validNode.phyPageAddr + _ = _
    rw [hr.page, succ_mul, cast_add]
  · have hagree := hb.agreeOn (show b ≠ s.info.validNode.phyBlkAddr from hne) xs.length
    rw [hxs] at hagree
    exact hr.old b t' hb' hne (hagree.stamp.symm.trans hst)
  · rw [hr.power] at hp
    cases hp
  · rw [length_programs, hb.length] at hj
    rw [take_programs]
    refine ⟨_, t, k, j, hhas, hb.part hr.current.length hj, fun b t' hb' hne hst => .inl ?_⟩
    exact hr.old b t' hb' hne ((hb.agreeOn hne j).stamp.symm.trans hst)

/-! ## Saving when the valid block is full or damaged -/

variable (hv : s.info.valid = true) (hts : s.info.validNode.timestamp = t)
  (hold : ∀ b t', area.Has b → b ≠ s.info.validNode.phyBlkAddr →
    stamp mtd area c b = some t' → t' < t) (hbuf : buf.length = area.size)
include hv hts hold hbuf

/-- A save when the valid block is full. -/
theorem Mounted.save_full (hc : Current mtd area c s.info.validNode.phyBlkAddr t k 0 rec)
    (hpage : s.info.validNode.phyPageAddr = (k * savePages mtd area.size : ℕ))
    (hp : s.info.validNode.powerAbnormal = false) (hfull : mtd.pagesPerBlk <
      k * savePages mtd area.size + savePages mtd area.size + savePages mtd area.size) :
    Saves mtd blockCnt area c ops s (some rec) buf := by
  have hn := savePages_pos mtd area.size
  have hl := sameLists_setPage s (s.info.validNode.phyPageAddr + (savePages mtd area.size : ℕ))
  -- the valid block holds a record, and so its page is not the end of the block
  obtain ⟨pgs, hh, -⟩ := hc.pgs
  have hlen := hh.length
  have hle := hh.le
  rw [succ_mul] at hlen
  have hadv : (s.advance (savePages mtd area.size)).info.validNode.phyPageAddr =
      (k * savePages mtd area.size + savePages mtd area.size : ℕ) := by
    change s.info.validNode.phyPageAddr + _ = _
    rw [hpage, cast_add]
  have herase : (s.advance (savePages mtd area.size)).eraseDamaged mtd (savePages mtd area.size) =
      s.advance (savePages mtd area.size) := by
    rw [eraseDamaged, hadv, if_neg (by omega)]
  have hle' : ∀ b t', area.Has b → stamp mtd area c b = some t' → t' ≤ t := by
    intro b t' hb hst
    rcases eq_or_ne b s.info.validNode.phyBlkAddr with rfl | hne
    · rw [hc.stamp_eq] at hst
      exact (some.inj hst).ge
    · exact (hold b t' hb hne hst).le
  obtain ⟨s₂, s₁, hlink, hfree, htake, htaken, hne⟩ := exists_rotate
    (s := s.advance (savePages mtd area.size)) hs (h.is.sameArea hl.toSameArea) h.nand
    (h.ok.sameLists hl) (fun b hb => hl.blocks ▸ h.all b hb) hv hts hlt hle'
  have hplace := place_rotate hv (by rw [hadv]; omega) herase hlink hfree htake
  obtain ⟨es, s', hres, hm, -, hcut⟩ := htaken.save hs hplace hbuf s.nand.fails.length
  refine ⟨es, s', ?_, hm, fun hp' => ?_, fun j hj _ => ?_⟩
  · rw [mesonRsvSave, startSave_of_clean h hp, h.is.size]
    exact hres
  · rw [hp] at hp'
    cases hp'
  · refine hcut (some rec) ⟨_, t, k, 0, h.ok.has hv, hne.symm, lt_succ_self t, hc, ?_⟩
      h.recoverable j hj
    exact fun b' t' hb' hne' _ hst => hold b' t' hb' hne' hst

/-- A save when the valid block is damaged: it is erased first. -/
theorem Mounted.save_damaged (hp : s.info.validNode.powerAbnormal = true) :
    Saves mtd blockCnt area c ops s (some rec) buf := by
  have hn := savePages_pos mtd area.size
  have hstart : s.startSave mtd = s.setPage mtd.pagesPerBlk := by
    rw [startSave, hp]
    rfl
  -- the valid block has been erased
  let s₀ : RsvState :=
    ⟨((s.setPage mtd.pagesPerBlk).advance (savePages mtd area.size)).countErase.info,
      s.freenodebitmask, .ofCells (c.apply mtd.pagesPerBlk (.erase s.info.validNode.phyBlkAddr))
        (ops ++ [.erase s.info.validNode.phyBlkAddr])⟩
  have herase : ((s.setPage mtd.pagesPerBlk).advance (savePages mtd area.size)).eraseDamaged mtd
      (savePages mtd area.size) = s₀ := by
    have hn₀ : ((s.setPage mtd.pagesPerBlk).advance (savePages mtd area.size)).nand =
      .ofCells c ops := h.nand
    rw [eraseDamaged, if_pos (by change (mtd.pagesPerBlk : ℤ) + _ - _ = _; omega), hn₀,
      Device.erase_ofCells]
    rfl
  have hl : SameLists s s₀ := { SameLists.refl s with }
  have hle : ∀ b t', area.Has b → stamp mtd area
      (c.apply mtd.pagesPerBlk (.erase s.info.validNode.phyBlkAddr)) b = some t' → t' ≤ t := by
    intro b t' hb hst
    obtain ⟨hne, -, hst⟩ := of_stamp_erase hst
    exact (hold b t' hb hne hst).le
  obtain ⟨s₂, s₁, hlink, hfree, htake, htaken, -⟩ := exists_rotate (s := s₀) hs
    (h.is.sameArea hl.toSameArea) rfl (h.ok.sameLists hl) (fun b hb => hl.blocks ▸ h.all b hb) hv
    hts hlt hle
  have hplace := place_rotate (s := s.setPage mtd.pagesPerBlk) hv
    (by change (mtd.pagesPerBlk : ℤ) < mtd.pagesPerBlk + _ + _; omega) herase hlink hfree htake
  obtain ⟨es, s', hres, hm, hlen, -⟩ := htaken.save hs hplace hbuf s.nand.fails.length
  refine ⟨.erase s.info.validNode.phyBlkAddr :: es, s', ?_, ?_, fun _ => ?_, fun j _ hj => ?_⟩
  · rw [mesonRsvSave, hstart, h.is.size]
    exact hres
  · rw [append_cons]
    exact hm
  · rw [length_cons, hlen]
  · rw [hj hp]
    exact h.recoverable

end

/-- `meson_rsv_save` of a mounted area, unless its timestamp is about to overflow. -/
theorem Mounted.save (h : Mounted mtd blockCnt area c ops s last) (hbuf : buf.length = area.size)
    (hlt : s.info.validNode.timestamp + 1 < 2 ^ 15) : Saves mtd blockCnt area c ops s last buf := by
  cases last with
  | none => exact h.save_first hs hbuf
  | some rec =>
    obtain ⟨hv, t, k, m, hc, hpage, hts, hp, hold⟩ := h.knows
    have hlt' : t + 1 < 2 ^ 15 := by omega
    rcases eq_or_ne m 0 with rfl | hm
    · rcases Nat.lt_or_ge mtd.pagesPerBlk (k * savePages mtd area.size + savePages mtd area.size +
        savePages mtd area.size) with hfull | hroom
      · exact h.save_full hs hlt' hv hts hold hbuf hc hpage hp hfull
      · exact Room.save hs h hlt' ⟨hv, hc, hpage, hts, hp, hold, hroom⟩ hbuf
    · exact h.save_damaged hs hlt' hv hts hold hbuf (hp.trans (decide_eq_true hm))

end

end

end CommonDrivers.Mtd
