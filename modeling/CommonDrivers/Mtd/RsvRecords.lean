import CommonDrivers.Mtd.RsvLists

/-!
# The records of a reserved area

What the pages of an area hold, on a device on which nothing fails.

* The block `b` is stamped (`stamp`) if its first page has the tag of the area.
* A block of the area with a record and a part of the next (`Holding`) is what saves leave behind,
  cut short or not; without a complete record it is a fragment (`Fragment`).
* `Recoverable`: one block holds the last record, and every other block has no stamp, an older one,
  or a newer one and only a fragment.
-/

namespace CommonDrivers.Mtd

open Flash RsvState

/-- What an area must be like for its records to be found again: it has two blocks at least, and
    enough nodes for them; its records have whole pages, or only one, and fit into a block; and
    the pages of a block fit into `good_addr`. -/
structure RsvInfo.Sound (mtd : MtdInfo) (blockCnt : ℕ) (r : RsvInfo) : Prop extends r.Placed where
  two : r.startBlock + 2 ≤ r.endBlock
  nodes : r.endBlock - r.startBlock ≤ blockCnt
  pos : 0 < r.size
  whole : r.size ≤ mtd.writesize ∨ mtd.writesize ∣ r.size
  fits : r.size ≤ mtd.erasesize
  pages : mtd.pagesPerBlk ≤ 256

/-! ## The pages of a record -/

section

variable {mtd : MtdInfo} {blockCnt size j : ℕ} {r : RsvInfo}

theorem MtdInfo.writesize_pos (mtd : MtdInfo) : 0 < mtd.writesize := Nat.two_pow_pos _

theorem savePages_eq_one (hge : size ≤ mtd.writesize) : savePages mtd size = 1 :=
  if_neg hge.not_gt

theorem savePages_pos (mtd : MtdInfo) (size : ℕ) : 0 < savePages mtd size := by
  have hW := mtd.writesize_pos
  rw [savePages]
  split
  · exact Nat.div_pos (by omega) hW
  · exact one_pos

section

variable (hpos : 0 < size)
include hpos

/-- Both ways to round the size give the same number of pages. -/
theorem count_eq_savePages : (size + mtd.writesize - 1) / mtd.writesize = savePages mtd size := by
  rcases Nat.lt_or_ge mtd.writesize size with hlt | hge
  · rw [savePages, if_pos hlt]
  · rw [savePages_eq_one hge]
    exact Nat.div_eq_of_lt_le (by omega) (by omega)

theorem savePages_le_iff : savePages mtd size ≤ j ↔ size ≤ j * mtd.writesize := by
  have hW := mtd.writesize_pos
  rw [← count_eq_savePages hpos, Nat.div_le_iff_le_mul hW]
  omega

/-- The part of the record before page `j`. -/
theorem mul_writesize_lt (hj : j < savePages mtd size) : j * mtd.writesize < size :=
  not_le.1 fun hle => hj.not_ge ((savePages_le_iff hpos).2 hle)

theorem length_chunks (buf : List UInt8) : (chunks mtd size buf).length = savePages mtd size := by
  rw [chunks, List.length_map, List.length_range, count_eq_savePages hpos]

/-- What goes to page `j` of the record. -/
theorem getElem?_chunks (buf : List UInt8) (hj : j < savePages mtd size) :
    (chunks mtd size buf)[j]? = some ((buf.drop (j * mtd.writesize)).take
      (min mtd.writesize (size - j * mtd.writesize))) := by
  rw [chunks, List.getElem?_map, List.getElem?_range ((count_eq_savePages hpos).symm ▸ hj)]
  rfl

end

namespace RsvInfo.Sound

variable (h : r.Sound mtd blockCnt)
include h

theorem scanPageNum_eq : scanPageNum mtd r.size = savePages mtd r.size := by
  have hW := mtd.writesize_pos
  have hpos := savePages_pos mtd r.size
  rcases Nat.lt_or_ge mtd.writesize r.size with hlt | hge
  · -- a record of more than one page has whole pages
    have hdiv : r.size / mtd.writesize = savePages mtd r.size := by
      obtain ⟨q, hq⟩ := h.whole.resolve_left hlt.not_ge
      rw [← count_eq_savePages h.pos, hq, Nat.mul_div_cancel_left _ hW, Nat.add_sub_assoc hW,
        Nat.mul_add_div hW, Nat.div_eq_of_lt (by omega), add_zero]
    rw [scanPageNum, hdiv]
    omega
  · rw [scanPageNum, savePages_eq_one hge]
    have := Nat.div_le_div_right (c := mtd.writesize) hge
    rw [Nat.div_self hW] at this
    omega

/-- A record fits into a block. -/
theorem savePages_le : savePages mtd r.size ≤ mtd.pagesPerBlk :=
  (savePages_le_iff h.pos).2 (h.fits.trans_eq (mul_comm _ _))

end RsvInfo.Sound

end

/-! ## What a block holds -/

section

variable (mtd : MtdInfo) (area : RsvInfo)

/-- The timestamp of a block: that of its first page, if this has the tag of the area. -/
def stamp (c : Cells Page) (b : ℤ) : Option ℕ :=
  (oobOf area (c (b * mtd.pagesPerBlk))).map OobInfo.timestamp

/-- The block holds `k` records and `m` pages of one more, all tagged with the timestamp `t`. -/
structure Holding (c : Cells Page) (b : ℤ) (pgs : List Page) (t k m : ℕ) : Prop where
  holds : c.Holds mtd.pagesPerBlk b pgs
  tags : ∀ p ∈ pgs, p.oob.name = area.name ∧ p.oob.timestamp = t
  length : pgs.length = k * savePages mtd area.size + m
  lt : m < savePages mtd area.size
  le : pgs.length ≤ mtd.pagesPerBlk

/-- The block holds the first pages of a record. -/
def Fragment (c : Cells Page) (b : ℤ) : Prop := ∃ pgs t m, 0 < m ∧ Holding mtd area c b pgs t 0 m

/-- The block holds `k` records, then the given one, and `m` pages of one more. -/
structure Current (c : Cells Page) (b : ℤ) (t k m : ℕ) (rec : List UInt8) : Prop where
  pgs : ∃ pgs, Holding mtd area c b pgs t (k + 1) m ∧
    ((pgs.drop (k * savePages mtd area.size)).take (savePages mtd area.size)).map Page.data =
      chunks mtd area.size rec
  length : rec.length = area.size

/-- The block is one of the area. -/
def RsvInfo.Has (area : RsvInfo) (b : ℤ) : Prop := area.startBlock ≤ b ∧ b < area.endBlock

/-- The record can be found again: every block but the one that holds it has no stamp, an older
    one, or a newer one and only a fragment. -/
def Recoverable (c : Cells Page) : Option (List UInt8) → Prop
  | none => ∀ b t, area.Has b → stamp mtd area c b = some t → Fragment mtd area c b
  | some rec => ∃ b t k m, area.Has b ∧ Current mtd area c b t k m rec ∧
      ∀ b' t', area.Has b' → b' ≠ b → stamp mtd area c b' = some t' →
        t' < t ∨ t < t' ∧ Fragment mtd area c b'

end

section

variable {mtd : MtdInfo} {area : RsvInfo} {c c' : Cells Page} {b : ℤ} {pgs : List Page}
  {t k m : ℕ} {rec : List UInt8}

theorem MtdInfo.pagesPerBlk_pos (mtd : MtdInfo) : 0 < mtd.pagesPerBlk := Nat.two_pow_pos _

/-- The contents agree on the pages of the block. -/
def AgreeOn (mtd : MtdInfo) (b : ℤ) (c c' : Cells Page) : Prop :=
  ∀ page, Cells.InBlock mtd.pagesPerBlk b page → c' page = c page

section

variable (h : AgreeOn mtd b c c')
include h

theorem AgreeOn.stamp : stamp mtd area c' b = stamp mtd area c b := by
  have hpage := h (b * mtd.pagesPerBlk + (0 : ℕ)) (Cells.inBlock_add mtd.pagesPerBlk_pos)
  rw [Nat.cast_zero, add_zero] at hpage
  rw [Mtd.stamp, Mtd.stamp, hpage]

theorem AgreeOn.holding (hh : Holding mtd area c b pgs t k m) : Holding mtd area c' b pgs t k m :=
  { hh with holds := fun j hj => (h _ (Cells.inBlock_add hj)).trans (hh.holds j hj) }

theorem AgreeOn.fragment (hf : Fragment mtd area c b) : Fragment mtd area c' b := by
  obtain ⟨pgs, t, m, hm, hh⟩ := hf
  exact ⟨pgs, t, m, hm, h.holding hh⟩

theorem AgreeOn.current (hc : Current mtd area c b t k m rec) :
    Current mtd area c' b t k m rec := by
  obtain ⟨pgs, hh, hd⟩ := hc.pgs
  exact ⟨⟨pgs, h.holding hh, hd⟩, hc.length⟩

end

theorem oobOf_some {p : Page} (h : p.oob.name = area.name) : oobOf area (some p) = some p.oob := by
  rw [oobOf, Option.map_some, Option.filter_some, if_pos (decide_eq_true h)]

/-- A block that holds a page of the area has its stamp. -/
theorem Holding.stamp_eq (h : Holding mtd area c b pgs t k m) (hpos : 0 < pgs.length) :
    stamp mtd area c b = some t := by
  have hfirst := h.holds 0 mtd.pagesPerBlk_pos
  rw [Nat.cast_zero, add_zero, List.getElem?_eq_getElem hpos] at hfirst
  have htag := h.tags _ (List.getElem_mem hpos)
  rw [stamp, hfirst, oobOf_some htag.1, Option.map_some, htag.2]

theorem Holding.nil_stamp (h : c.Holds mtd.pagesPerBlk b []) : stamp mtd area c b = none := by
  have hfirst := h 0 mtd.pagesPerBlk_pos
  rw [Nat.cast_zero, add_zero] at hfirst
  rw [stamp, hfirst]
  rfl

theorem Current.stamp_eq (h : Current mtd area c b t k m rec) : stamp mtd area c b = some t := by
  have hn := savePages_pos mtd area.size
  obtain ⟨pgs, hh, -⟩ := h.pgs
  refine hh.stamp_eq ?_
  rw [hh.length, add_mul]
  omega

end

end CommonDrivers.Mtd
