import CommonDrivers.Media.Hdmitx.EdidParse

/-!
# What an EDID lists

The descriptors and modes that the bytes of an EDID give, without the parser's arrays:
for a data block (`svds`, `dataBlockVics`, `sads`), for a CTA block (`parsedDataBlocks`,
`dtds`, `blockVics`) and for the whole EDID.

`Listed` is what has been listed at some point of the parse. It goes on by one data
block, detailed timing or CTA block after the other, and so describes the lists of the
parser (`RxCap.Tracks`).
-/

namespace CommonDrivers.Media.Hdmitx

open RxCap List

/-! ## Data blocks -/

/-- The short video descriptors of the data block at `off`. -/
def svds (b : Bytes) (off : ℕ) : List ℕ :=
  if b.tag off = 2 then (List.range (b.count off)).map fun i => b[off + 1 + i] else []

/-- The VIC that is listed for a short video descriptor. -/
def vicOfSvd (svd : ℕ) : Option ℕ :=
  if 1 ≤ svd % 0x80 ∧ svd % 0x80 ≤ 64 then
    if 1 < svd % 0x80 then some (svd % 0x80) else none
  else some svd

/-- The VICs of a list of 4K modes. -/
def list4k2k (dat : Bytes) (size : ℕ) : List ℕ :=
  if 4 < size ∨ size = 0 then [] else (List.range size).filterMap fun i => vicOf4k2k dat[i]

/-- The VICs of the 4K modes in an HDMI data block. -/
def vicsHdmi14 (b : Bytes) (off : ℕ) : List ℕ :=
  let idx := idxHdmi14 b (off + 1)
  if 7 < b.count off ∧ b[off + 1 + 7].testBit 5 then
    if b[idx] &&& 0xe0 ≠ 0 then list4k2k (b.drop (idx + 1)) (b[idx] >>> 5) else []
  else []

def vics4k2k (b : Bytes) (off : ℕ) : List ℕ :=
  if b.tag off = 3 ∧ isHdmiOui b off then vicsHdmi14 b off else []

/-- The VICs of a 4:2:0 video data block. -/
def vicsY420 (board : Board) (b : Bytes) (off : ℕ) : List ℕ :=
  if b.tag off = 7 ∧ b[off + 1] = 0xe then
    ((List.range' 2 (b.count off - 1)).map fun pos => (b.drop off)[pos]).filter
      (hdmitxModeValidateY420Vic board)
  else []

/-- The VICs that a data block adds to the list. -/
def dataBlockVics (board : Board) (b : Bytes) (off : ℕ) : List ℕ :=
  (svds b off).filterMap vicOfSvd ++ vics4k2k b off ++ vicsY420 board b off

/-- The data block is a 4:2:0 capability map. -/
def isCapMap (b : Bytes) (off : ℕ) : Prop := b.tag off = 7 ∧ b[off + 1] = 0xf

instance (b : Bytes) (off : ℕ) : Decidable (isCapMap b off) := inferInstanceAs (Decidable (_ ∧ _))

/-- The number of short audio descriptors of the data block. -/
def sads (b : Bytes) (off : ℕ) : ℕ := if b.tag off = 1 then b.count off / 3 else 0

/-! ## Detailed timings -/

/-- The VIC of the mode that a detailed timing has. -/
def vicOfDtd (board : Board) (data : Bytes) : Option ℕ :=
  if isZeroDtd data ∨ (dtdMatch board data).2.vic = 0 then none
  else some (dtdVic (dtdMatch board data).1 (dtdMatch board data).2)

/-- The VIC that a detailed timing adds to the list. -/
def ceaVicOfDtd (board : Board) (data : Bytes) : Option ℕ :=
  (vicOfDtd board data).filter (· < vesaOffset)

/-- The timings fit into the array, when `n` with a mode are in it already. -/
def DtdsFit (board : Board) : ℕ → List Bytes → Prop :=
  Along (fun n data => n + (vicOfDtd board data).toList.length)
    fun n data => isZeroDtd data = false → n < dtdMaxNum

/-! ## CTA blocks -/

/-- The extension block `i`. -/
def Bytes.block (b : Bytes) (i : ℕ) : Bytes := b.drop (i * 0x80)

/-- The data blocks of a CTA block that are parsed for video modes. -/
def parsedDataBlocks (b : Bytes) : List ℕ :=
  if 127 < b[2] ∨ b[1] ≤ 2 then [] else dataBlocks b

/-- The number of short video descriptors of a CTA block. -/
def svdCount (b : Bytes) : ℕ := ((parsedDataBlocks b).map fun off => (svds b off).length).sum

/-- The VICs that the data blocks of a CTA block add to the list. -/
def dataVics (board : Board) (b : Bytes) : List ℕ :=
  (parsedDataBlocks b).flatMap (dataBlockVics board b)

/-- The detailed timings of a CTA block. -/
def dtds (b : Bytes) : List Bytes := if 127 < b[2] then [] else (dtdOffsets b).map b.drop

/-- The VICs that a CTA block adds to the list. -/
def blockVics (board : Board) (b : Bytes) : List ℕ :=
  dataVics board b ++ (dtds b).filterMap (ceaVicOfDtd board)

/-- A capability map of the block is for all modes. -/
def hasMapOfAll (b : Bytes) : Bool :=
  (parsedDataBlocks b).any fun off => isCapMap b off ∧ b.count off = 1

/-- The length of the last capability map of the block that is not for all modes. -/
def mapLength (b : Bytes) : ℕ := (parsedDataBlocks b).foldl
    (fun n off => if isCapMap b off ∧ b.count off ≠ 1 then b.count off - 1 else n) 0

/-- The number of short audio descriptors of a CTA block, of any revision. -/
def sadCount (b : Bytes) : ℕ := if 127 < b[2] then 0 else ((dataBlocks b).map (sads b)).sum

/-! ## The EDID -/

/-- The detailed timings of the base block. -/
def baseDtds (b : Bytes) : List Bytes := (List.range 4).map fun i => (b.drop 0x36).drop (i * 0x12)

/-- The detailed timings of the extension blocks. -/
def ctaDtds (edidCheck : ℕ) (b : Bytes) : List Bytes :=
  (ctaBlocks edidCheck b).flatMap fun i => dtds (b.block i)

/-- The detailed timings, in the order they are parsed in. -/
def allDtds (board : Board) (edidCheck : ℕ) (b : Bytes) : List Bytes :=
  if board.isSome then baseDtds b ++ ctaDtds edidCheck b else ctaDtds edidCheck b ++ baseDtds b

/-- The VICs that are listed when the capability map of the extension block `i` is
    applied, after the extension blocks `pre`. -/
def vicsAtMap (board : Board) (b : Bytes) (pre : List ℕ) (i : ℕ) : List ℕ :=
  (if board.isSome then (baseDtds b).filterMap (ceaVicOfDtd board) else []) ++
    pre.flatMap (fun j => blockVics board (b.block j)) ++ dataVics board (b.block i)

/-- The lists of the EDID fit into the arrays of the parser:

    * a CTA block has at most 128 short video descriptors;
    * a capability map has a byte for at most 128 of them, and where one is for all modes
      there are at most 128 modes then;
    * after 16 detailed timings with a mode there is none that is not zero;
    * there are at most 60 short audio descriptors. -/
structure Fits (board : Board) (edidCheck : ℕ) (b : Bytes) : Prop where
  svds_le : ∀ i ∈ ctaBlocks edidCheck b, svdCount (b.block i) ≤ svdVicMaxNum
  map_le : ∀ pre i post, ctaBlocks edidCheck b = pre ++ i :: post →
    if hasMapOfAll (b.block i) then (vicsAtMap board b pre i).dedup.length ≤ svdVicMaxNum
    else mapLength (b.block i) * 8 ≤ svdVicMaxNum
  dtds_lt : ∀ pre d post, allDtds board edidCheck b = pre ++ d :: post → isZeroDtd d = false →
    (pre.filterMap (vicOfDtd board)).length < dtdMaxNum
  sads_le : ((ctaBlocks edidCheck b).map fun i => sadCount (b.block i)).sum ≤ audMaxNum

/-! ## What has been listed -/

/-- What has been listed so far, in which extension block. -/
structure Listed where
  vics : List ℕ := []
  svds : ℕ := 0
  timings : ℕ := 0
  all : Bool := false
  rows : ℕ := 0

namespace Listed

def svd (p : Listed) (svd : ℕ) : Listed :=
  { p with vics := p.vics ++ (vicOfSvd svd).toList, svds := p.svds + 1 }

def addVics (p : Listed) (l : List ℕ) : Listed := { p with vics := p.vics ++ l }

def dataBlock (board : Board) (b : Bytes) (p : Listed) (off : ℕ) : Listed where
  vics := p.vics ++ dataBlockVics board b off
  svds := p.svds + (Hdmitx.svds b off).length
  timings := p.timings
  all := p.all || (isCapMap b off ∧ b.count off = 1)
  rows := if isCapMap b off ∧ b.count off ≠ 1 then b.count off - 1 else p.rows

/-- The number of bytes of the capability map that is applied. -/
def mapRows (p : Listed) : ℕ := if p.all then (p.vics.dedup.length + 7) / 8 else p.rows

def applyMap (p : Listed) : Listed := { p with rows := p.mapRows }

def dtd (board : Board) (p : Listed) (data : Bytes) : Listed :=
  { p with
    vics := p.vics ++ (ceaVicOfDtd board data).toList
    timings := p.timings + (vicOfDtd board data).toList.length }

def start (p : Listed) : Listed := { p with svds := 0, all := false, rows := 0 }

/-- What has been listed when the capability map of the block is applied. -/
def dataBlocks (board : Board) (p : Listed) (b : Bytes) : Listed :=
  (parsedDataBlocks b).foldl (Listed.dataBlock board b) p.start

def ctaBlock (board : Board) (p : Listed) (b : Bytes) : Listed :=
  (dtds b).foldl (Listed.dtd board) (p.dataBlocks board b).applyMap

theorem filterMap_cons_toList {α : Type} (f : α → Option ℕ) (a : α) (l : List α) :
    (a :: l).filterMap f = (f a).toList ++ l.filterMap f := by
  rw [filterMap_cons]
  cases f a <;> rfl

variable (board : Board) (b : Bytes) (p : Listed)

theorem foldl_svd (l : List ℕ) : l.foldl svd p =
      { p with vics := p.vics ++ l.filterMap vicOfSvd, svds := p.svds + l.length } := by
  induction l generalizing p with
  | nil => simp
  | cons v l ih =>
    rw [foldl_cons, ih, svd, filterMap_cons_toList]
    simp [Nat.add_assoc, Nat.add_comm 1]

theorem foldl_dataBlock (l : List ℕ) : l.foldl (dataBlock board b) p =
      { vics := p.vics ++ l.flatMap (dataBlockVics board b)
        svds := p.svds + (l.map fun off => (Hdmitx.svds b off).length).sum
        timings := p.timings
        all := p.all || l.any fun off => isCapMap b off ∧ b.count off = 1
        rows := l.foldl (fun n off =>
          if isCapMap b off ∧ b.count off ≠ 1 then b.count off - 1 else n) p.rows } := by
  induction l generalizing p with
  | nil => simp
  | cons off l ih =>
    rw [foldl_cons, ih, dataBlock]
    simp [Bool.or_assoc, Nat.add_assoc]

theorem foldl_dtd (l : List Bytes) : l.foldl (dtd board) p =
      { p with
        vics := p.vics ++ l.filterMap (ceaVicOfDtd board)
        timings := p.timings + (l.filterMap (vicOfDtd board)).length } := by
  induction l generalizing p with
  | nil => simp
  | cons d l ih =>
    rw [foldl_cons, ih, dtd, filterMap_cons_toList, filterMap_cons_toList]
    simp [Nat.add_assoc]

/-- What has been listed when the capability map is applied. -/
theorem dataBlocks_eq : p.dataBlocks board b =
      { vics := p.vics ++ dataVics board b
        svds := svdCount b
        timings := p.timings
        all := hasMapOfAll b
        rows := mapLength b } := by
  rw [dataBlocks, foldl_dataBlock]
  simp [start, svdCount, dataVics, hasMapOfAll, mapLength]

theorem vics_foldl_ctaBlock (l : List ℕ) :
    (l.foldl (fun p i => ctaBlock board p (b.block i)) p).vics =
      p.vics ++ l.flatMap fun i => blockVics board (b.block i) := by
  induction l generalizing p with
  | nil => simp
  | cons i l ih =>
    rw [foldl_cons, ih, ctaBlock, foldl_dtd, dataBlocks_eq, flatMap_cons, blockVics]
    simp [applyMap]

theorem timings_foldl_ctaBlock (l : List ℕ) :
    (l.foldl (fun p i => ctaBlock board p (b.block i)) p).timings =
      p.timings + ((l.flatMap fun i => dtds (b.block i)).filterMap (vicOfDtd board)).length := by
  induction l generalizing p with
  | nil => simp
  | cons i l ih =>
    rw [foldl_cons, ih, ctaBlock, foldl_dtd, dataBlocks_eq, flatMap_cons]
    simp [applyMap, Nat.add_assoc]

end Listed

end CommonDrivers.Media.Hdmitx
