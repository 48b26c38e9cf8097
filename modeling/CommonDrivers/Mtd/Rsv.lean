import CommonDrivers.Lib.Flash
import CommonDrivers.Lib.Word

/-!
# The reserved areas of the NAND

Each reserved area (`meson_rsv_info_t`) has a range of blocks, of which one holds the current
record and the others are in the area's free list. The nodes of the free lists come from one pool
for all areas, with a bit mask of the nodes that are in use.

A record takes one or more pages, and each page carries a tag with the name of the area and a
timestamp. Saving a record appends it to the valid block; when that is full, the first block of
the free list is erased and takes the record, with the next timestamp (`mesonRsvSave`). After a
boot, the area is found again from the tags (`mesonRsvScan`).

The functions take the area together with the pool and the device (`RsvState`); the result is
`none` where the code dereferences a null pointer, writes outside `good_addr` or does not return.
-/

namespace CommonDrivers.Mtd

/-- The sizes of the device: a page has `2 ^ writesizeShift` bytes, a block `2 ^ pagesShift`
    pages. -/
structure MtdInfo where
  writesizeShift : ℕ
  pagesShift : ℕ

namespace MtdInfo

def writesize (mtd : MtdInfo) : ℕ := 2 ^ mtd.writesizeShift

def pagesPerBlk (mtd : MtdInfo) : ℕ := 2 ^ mtd.pagesShift

def erasesize (mtd : MtdInfo) : ℕ := mtd.writesize * mtd.pagesPerBlk

end MtdInfo

/-- The tag of a page. The name is the word of its four characters; the timestamp has 15 bits. -/
structure OobInfo where
  name : ℕ
  ec : ℤ
  timestamp : ℕ
  deriving DecidableEq

/-- A programmed page. -/
structure Page where
  data : List UInt8
  oob : OobInfo
  deriving DecidableEq

abbrev Nand := Flash.Device Page

/-- A value of type `s16`. -/
def s16 (x : ℤ) : ℤ := x.bmod (2 ^ 16)

/-- The block that holds the current record. The bits of `status` are `POWER_ABNORMAL_FLAG` and
    `ECC_ABNORMAL_FLAG`. -/
structure ValidNode where
  ec : ℤ
  phyBlkAddr : ℤ
  phyPageAddr : ℤ
  timestamp : ℤ
  powerAbnormal : Bool
  eccAbnormal : Bool
  deriving DecidableEq

/-- A node of a free list. -/
structure FreeNode where
  index : ℕ
  ec : ℤ
  phyBlkAddr : ℤ
  deriving DecidableEq

structure RsvInfo where
  startBlock : ℕ
  endBlock : ℕ
  size : ℕ
  name : ℕ
  valid : Bool
  validNode : ValidNode
  freeNode : List FreeNode
  deriving DecidableEq

/-- An area, with the nodes of the pool that are in use and the device. -/
structure RsvState where
  info : RsvInfo
  freenodebitmask : Finset ℕ
  nand : Nand

/-- What a function returns: zero, an error of the device or of the area, or `-ENOMEM`. -/
inductive Ret where
  | ok
  | failed
  | noMem
  deriving DecidableEq

/-- `BBT_NAND_MAGIC`. -/
def bbtNandMagic : ℕ := 0x6e626274

def bbtStartBlock : ℕ := 20

def bbtTotalBlocks : ℕ := 4

/-- The valid node of an area that has not been scanned. -/
def ValidNode.fresh : ValidNode := ⟨0, -1, 0, 0, false, false⟩

/-- What `meson_free_rsv_info` leaves of the valid node. -/
def ValidNode.freed : ValidNode := ⟨-1, -1, 0, 0, false, false⟩

/-- An area as `meson_rsv_init` sets it up. -/
def RsvInfo.fresh (startBlock endBlock size name : ℕ) : RsvInfo :=
  ⟨startBlock, endBlock, size, name, false, .fresh, []⟩

section

-- `blockCnt` is the number of nodes in the pool, `rsv_parts[NAND_RSV_INDEX].block_cnt`.
variable (mtd : MtdInfo) (blockCnt : ℕ)

/-! ## The pool of nodes -/

/-- `get_free_node`: the first node that is not in use. -/
def getFreeNode (mask : Finset ℕ) : Option (ℕ × Finset ℕ) :=
  match (List.range blockCnt).find? (· ∉ mask) with
  | none => none
  | some index => some (index, insert index mask)

/-- `release_free_node`. -/
def releaseFreeNode (mask : Finset ℕ) (node : FreeNode) : Finset ℕ :=
  if blockCnt < node.index then mask else mask.erase node.index

namespace RsvState

/-- A node for the block is taken and linked at the end of the free list; if the pool is empty,
    the function that calls returns `-ENOMEM` with the state as it is. -/
def link (s : RsvState) (blk ec : ℤ) : Except RsvState RsvState :=
  match getFreeNode blockCnt s.freenodebitmask with
  | none => .error s
  | some (index, mask) => .ok { s with
      freenodebitmask := mask
      info := { s.info with freeNode := s.info.freeNode ++ [⟨index, ec, blk⟩] } }

/-- The first block of the free list becomes the one to save to. -/
def takeFirst (s : RsvState) : Option RsvState :=
  match s.info.freeNode with
  | [] => none
  | node :: rest => some { s with
      freenodebitmask := releaseFreeNode blockCnt s.freenodebitmask node
      info := { s.info with
        freeNode := rest
        validNode := { s.info.validNode with
          phyBlkAddr := node.phyBlkAddr
          phyPageAddr := 0
          ec := node.ec
          timestamp := s.info.validNode.timestamp + 1 } } }

/-- The page of the current record. -/
def setPage (s : RsvState) (page : ℤ) : RsvState :=
  { s with info := { s.info with validNode := { s.info.validNode with phyPageAddr := page } } }

/-- The valid block has been erased once more. -/
def countErase (s : RsvState) : RsvState :=
  { s with info := { s.info with
      validNode := { s.info.validNode with ec := s.info.validNode.ec + 1 } } }

/-- `meson_free_rsv_info`. -/
def mesonFreeRsvInfo (s : RsvState) : RsvState :=
  let s :=
    if s.info.valid then { s with
      nand := (s.nand.erase mtd.pagesPerBlk s.info.validNode.phyBlkAddr).2
      info := { s.info with valid := false, validNode := .freed } }
    else s
  { s with
    freenodebitmask := s.info.freeNode.foldl (releaseFreeNode blockCnt) s.freenodebitmask
    info := { s.info with freeNode := [] } }

/-! ## Saving a record -/

/-- The number of pages of a record, as `meson_rsv_save` has it. -/
def savePages (size : ℕ) : ℕ :=
  if mtd.writesize < size then (size + mtd.writesize - 1) / mtd.writesize else 1

/-- The first `size` bytes of the buffer, cut into what goes to each page. -/
def chunks (size : ℕ) (buf : List UInt8) : List (List UInt8) :=
  (List.range ((size + mtd.writesize - 1) / mtd.writesize)).map fun j =>
    (buf.drop (j * mtd.writesize)).take (min mtd.writesize (size - j * mtd.writesize))

/-- The loop of `meson_rsv_write`, from the page on. -/
def writePages (oob : OobInfo) : Nand → ℤ → List (List UInt8) → Bool × Nand
  | nand, _, [] => (false, nand)
  | nand, page, data :: rest =>
    match nand.program mtd.pagesPerBlk page ⟨data, oob⟩ with
    | (true, nand) => (true, nand)
    | (false, nand) => writePages oob nand (page + 1) rest

/-- The page at which the current record starts. -/
def firstPage (info : RsvInfo) : ℤ :=
  info.validNode.phyBlkAddr * mtd.pagesPerBlk + info.validNode.phyPageAddr

/-- The tag with which a record is written; its timestamp has 15 bits. -/
def tag (info : RsvInfo) : OobInfo :=
  ⟨info.name, info.validNode.ec, (info.validNode.timestamp % 2 ^ 15).toNat⟩

/-- `meson_rsv_write`. -/
def mesonRsvWrite (s : RsvState) (buf : List UInt8) : Bool × RsvState :=
  let (failed, nand) := writePages mtd (tag s.info) s.nand (firstPage mtd s.info)
    (chunks mtd s.info.size buf)
  (failed, { s with nand })

/-- The end of `meson_rsv_save`, from the call of `meson_rsv_write` on. -/
def saveWrite (s : RsvState) (buf : List UInt8) : Ret × RsvState :=
  match mesonRsvWrite mtd s buf with
  | (true, s) => (.failed, s)
  | (false, s) => (.ok, { s with
      info := { s.info with
        valid := true
        validNode := { s.info.validNode with powerAbnormal := false, eccAbnormal := false } } })

/-- The page `i` pages further on. -/
def advance (s : RsvState) (i : ℤ) : RsvState := s.setPage (s.info.validNode.phyPageAddr + i)

/-- The valid block is erased before it goes to the free list, if it has been found damaged. Whether
    a block is bad is one of the results to come, and so `_block_markbad` is not followed; with a
    table of the bad blocks it is (`Tabled`). -/
def eraseDamaged (s : RsvState) (i : ℤ) : RsvState :=
  if s.info.validNode.phyPageAddr - i = mtd.pagesPerBlk then
    countErase { s with nand := (s.nand.erase mtd.pagesPerBlk s.info.validNode.phyBlkAddr).2 }
  else s

/-- What `meson_rsv_save` does from `RE_SEARCH` on to find the place for the record: an error
    stands for the return of `-ENOMEM`. -/
def place (s : RsvState) (i : ℤ) : Option (Except RsvState RsvState) :=
  if s.info.valid then
    let s := s.advance i
    if mtd.pagesPerBlk < s.info.validNode.phyPageAddr + i then
      let s := s.eraseDamaged mtd i
      match s.link blockCnt s.info.validNode.phyBlkAddr s.info.validNode.ec with
      | .error s => some (.error s)
      | .ok s' => if s.info.freeNode = [] then none else (s'.takeFirst blockCnt).map .ok
    else some (.ok s)
  else (s.takeFirst blockCnt).map .ok

/-- `meson_rsv_save` from `RE_SEARCH` on, with at most `fuel` rounds. -/
def reSearch (i : ℤ) (buf : List UInt8) : ℕ → RsvState → Option (Ret × RsvState)
  | 0, _ => none
  | fuel + 1, s =>
    match s.place mtd blockCnt i with
    | none => none
    | some (.error s) => some (.noMem, s)
    | some (.ok s) =>
      if s.info.validNode.phyPageAddr = 0 then
        match s.nand.next with
        -- `_block_isbad`: the block is passed over
        | (true, nand) => reSearch i buf fuel (setPage { s with nand } (mtd.pagesPerBlk - i))
        | (false, nand) =>
          match nand.erase mtd.pagesPerBlk s.info.validNode.phyBlkAddr with
          | (true, nand) => some (.failed, { s with nand })
          | (false, nand) => some (saveWrite mtd (countErase { s with nand }) buf)
      else some (saveWrite mtd s buf)

/-- The start of `meson_rsv_save`: a damaged block counts as full. -/
def startSave (s : RsvState) : RsvState :=
  if s.info.validNode.powerAbnormal || s.info.validNode.eccAbnormal then
    s.setPage mtd.pagesPerBlk
  else s

/-- `meson_rsv_save`. A round passes over a bad block only if the next operation fails. -/
def mesonRsvSave (s : RsvState) (buf : List UInt8) : Option (Ret × RsvState) :=
  reSearch mtd blockCnt (savePages mtd s.info.size) buf (s.nand.fails.length + 1) (s.startSave mtd)

/-! ## Scanning the area -/

/-- `skip_bbt_blocks`. -/
def skipBbtBlocks (info : RsvInfo) (start : ℕ) : ℕ :=
  if info.name ≠ bbtNandMagic ∧ bbtStartBlock ≤ start ∧ start < bbtStartBlock + bbtTotalBlocks then
    start + bbtTotalBlocks
  else start

/-- The tag of the first page of a block that can be read, stepping by the size of a record;
    `tries` more reads are allowed after the next. -/
def scanOob (size : ℕ) : ℕ → Nand → ℕ → Option (Option Page) × Nand
  | tries, nand, offset =>
    match nand.read (offset / mtd.writesize : ℕ) with
    | (some page, nand) => (some page, nand)
    | (none, nand) =>
      match tries with
      | 0 => (none, nand)
      | tries + 1 =>
        if (offset + size) % mtd.erasesize = 0 then (none, nand)
        else scanOob size tries nand (offset + size)

/-- The tag of a page, if it has the name of the area. -/
def oobOf (info : RsvInfo) (page : Option Page) : Option OobInfo :=
  (page.map Page.oob).filter (·.name = info.name)

/-- The erase count in the tag; all bits of an erased page are set. -/
def ecOf (page : Option Page) : ℤ := (page.map (·.oob.ec)).getD (-1)

/-- The block becomes the valid one. -/
def setValid (s : RsvState) (blk : ℤ) (oob : OobInfo) : RsvState :=
  { s with info := { s.info with
      validNode := { s.info.validNode with
        phyBlkAddr := blk
        phyPageAddr := 0
        ec := oob.ec
        timestamp := oob.timestamp } } }

/-- The `valid` field is set by any tag with the name of the area. -/
def markValid (s : RsvState) : RsvState := { s with info := { s.info with valid := true } }

/-- A page of the block could be read. -/
def clearStatus (s : RsvState) : RsvState :=
  { s with info := { s.info with
      validNode := { s.info.validNode with powerAbnormal := false, eccAbnormal := false } } }

/-- What `meson_rsv_scan` does with a block of which it has read the tag. -/
def sortBlock (s : RsvState) (blk : ℤ) (page : Option Page) : Except RsvState RsvState :=
  let s := s.clearStatus
  match oobOf s.info page with
  | some oob =>
    let s := s.markValid
    if 0 ≤ s.info.validNode.phyBlkAddr then
      if s.info.validNode.timestamp < oob.timestamp then
        match s.link blockCnt s.info.validNode.phyBlkAddr s.info.validNode.ec with
        | .error s => .error s
        | .ok s => .ok (s.setValid blk oob)
      else s.link blockCnt blk oob.ec
    else .ok (s.setValid blk oob)
  | none => s.link blockCnt blk (ecOf page)

/-- One round of the first loop of `meson_rsv_scan`. -/
def scanBlock (s : RsvState) (start : ℕ) : Except RsvState RsvState :=
  let blk := skipBbtBlocks s.info start
  match scanOob mtd s.info.size 7 s.nand (blk * mtd.erasesize) with
  | (none, nand) => .ok { s with nand }
  | (some page, nand) => sortBlock blockCnt { s with nand } (s16 blk) page

/-- The first loop of `meson_rsv_scan`, whose condition is tested at the end. -/
def scanBlocks (s : RsvState) : Except RsvState RsvState :=
  (List.range' s.info.startBlock (max 1 (s.info.endBlock - s.info.startBlock))).foldlM
    (scanBlock mtd blockCnt) s

/-- `ECC_ABNORMAL_FLAG` is set. -/
def setEcc (s : RsvState) : RsvState :=
  { s with info := { s.info with validNode := { s.info.validNode with eccAbnormal := true } } }

/-- `POWER_ABNORMAL_FLAG` is set. -/
def setPower (s : RsvState) : RsvState :=
  { s with info := { s.info with validNode := { s.info.validNode with powerAbnormal := true } } }

/-- What the second part of `meson_rsv_scan` works on: `ret` is `-1` if `bad`, and `good` are the
    pages marked in `good_addr`. -/
structure Pages where
  state : RsvState
  bad : Bool
  good : Finset ℕ

/-- The loop over the pages of the valid block, with `left` pages to go from page `i` on. -/
def scanPages : ℕ → ℕ → Pages → Option Pages
  | _, 0, p => some p
  | i, left + 1, p =>
    match p.state.nand.read (p.state.info.validNode.phyBlkAddr * mtd.pagesPerBlk + i) with
    | (none, nand) =>
      scanPages (i + 1) left ⟨setEcc { p.state with nand }, true, p.good⟩
    | (some page, nand) =>
      let s := { p.state with nand }
      if (oobOf s.info page).isSome then
        -- `good_addr` has 256 entries
        if 256 ≤ i then none
        else
          scanPages (i + 1) left ⟨s.setPage i, p.bad, insert i p.good⟩
      else some ⟨s, p.bad, p.good⟩

/-- Whether `left` pages from page `i` on are all marked in `good_addr`. -/
def allGood (good : Finset ℕ) : ℕ → ℕ → Option Bool
  | _, 0 => some true
  | i, left + 1 =>
    if 256 ≤ i then none else if i ∈ good then allGood good (i + 1) left else some false

/-- The number of pages of a record, as `meson_rsv_scan` has it. -/
def scanPageNum (size : ℕ) : ℕ := max 1 (size / mtd.writesize)

/-- One round of the loop over the records of a block in which not all is well. -/
def checkGood (pageNum : ℕ) (p : Pages) (i : ℕ) : Option Pages :=
  match allGood p.good (i * pageNum) pageNum with
  | none => none
  | some false => some p
  | some true => some ⟨p.state.setPage (pageNum + i * pageNum - 1), false, p.good⟩

/-- The loop over the records of a block in which not all is well: the last good one counts. -/
def findGood (pageNum : ℕ) (p : Pages) : Option Pages :=
  (List.range (mtd.pagesPerBlk / pageNum)).foldlM (checkGood pageNum) p

/-- The last record of the block must be complete. -/
def checkLast (pageNum : ℕ) (p : Pages) : Pages :=
  if u32 (p.state.info.validNode.phyPageAddr + 1) % pageNum ≠ 0 then
    ⟨p.state.setPower, true, p.good⟩
  else p

/-- The part of `meson_rsv_scan` for records of more than one page. -/
def checkRecords (p : Pages) : Option Pages :=
  let pageNum := scanPageNum mtd p.state.info.size
  let p := checkLast pageNum p
  if p.bad then findGood mtd pageNum p else some p

/-- The end of `meson_rsv_scan`. -/
def scanRet (p : Pages) : Ret × RsvState :=
  (if !p.state.info.valid || p.bad then .failed else .ok, p.state)

/-- `meson_rsv_scan` from `RE_RSV_INFO_EXT` on, with at most `fuel` rounds. -/
def scanExt : ℕ → Pages → Option (Ret × RsvState)
  | 0, _ => none
  | fuel + 1, p =>
    match p.state.scanBlocks mtd blockCnt with
    | .error s => some (.noMem, s)
    | .ok s =>
      if s.info.valid then do
        let p ← scanPages mtd 0 mtd.pagesPerBlk ⟨s, p.bad, p.good⟩
        if mtd.writesize < s.info.size then
          let p ← checkRecords mtd p
          if p.bad then
            scanExt fuel ⟨p.state.clearStatus.mesonFreeRsvInfo mtd blockCnt, true, p.good⟩
          else
            some (scanRet ⟨p.state.advance (1 - savePages mtd s.info.size), false, p.good⟩)
        else some (scanRet p)
      else some (scanRet ⟨s, p.bad, p.good⟩)

/-- `meson_rsv_scan`. Every round but the last erases a block of the area, unless that fails. -/
def mesonRsvScan (s : RsvState) : Option (Ret × RsvState) := scanExt mtd blockCnt
    (max 1 (s.info.endBlock - s.info.startBlock) + s.nand.fails.length + 1) ⟨s, false, ∅⟩

/-! ## Reading the record -/

/-- The first bytes of a page; all bits of an erased page, and of the part of a page that has not
    been written, are set. -/
def readBytes (len : ℕ) (page : Option Page) : List UInt8 :=
  ((page.map Page.data).getD [] ++ List.replicate len 0xff).take len

/-- The loop of `meson_rsv_read`, from the page on, with what has been read before. After a scan
    it starts again from the first page, but keeps what it has read. -/
def readPages : ℕ → RsvState → ℤ → List UInt8 → Option (Ret × RsvState × List UInt8)
  | 0, _, _, _ => none
  | fuel + 1, s, page, buf =>
    if buf.length < s.info.size then
      match s.nand.read page with
      | (some p, nand) =>
        readPages fuel { s with nand } (page + 1)
          (buf ++ readBytes (min mtd.writesize (s.info.size - buf.length)) p)
      | (none, nand) => do
        let (ret, s) ← mesonRsvScan mtd blockCnt { s with nand }
        if ret = .failed then some (.failed, s, buf)
        else readPages fuel s (firstPage mtd s.info) buf
    else some (.ok, s, buf)

/-- `meson_rsv_read`. Each read of a page that fails starts the loop again. -/
def mesonRsvRead (s : RsvState) : Option (Ret × RsvState × List UInt8) :=
  if s.info.valid then
    readPages mtd blockCnt (s.info.size + s.nand.fails.length + 1) s (firstPage mtd s.info) []
  else some (.failed, s, [])

end RsvState

end

end CommonDrivers.Mtd
