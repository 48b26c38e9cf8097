import CommonDrivers.Media.Hdmitx.RxCap

/-!
# The EDID parser of the HDMI transmitter

`hdmitx_edid_parse` and `hdmitx_audio_parse`: the EDID is a base block and up to seven
extension blocks of 128 bytes. Of the base block the parser takes the timings; a CTA
extension block has data blocks, each with its length in its header, and then detailed
timings.

The length of a data block is not compared with the end of its block, so that a data
block may go on into the next one, or past the buffer (`Bytes` has those bytes too).
-/

namespace CommonDrivers.Media.Hdmitx

open List

/-- `EDID_MAX_BLOCK`. -/
def edidMaxBlock : ℕ := 8

/-! ## Whether the EDID is valid -/

/-- `hdmitx_edid_get_cta_block_count`, with the count of the HF-EEODB if there is one. -/
def hdmitxEdidGetCtaBlockCount (b : Bytes) : ℕ :=
  let n := if b[0x7e] ≠ 0 ∧ b[128 + 4] = 0xe2 ∧ b[128 + 5] = 0x78 then b[128 + 6] else b[0x7e]
  min n (edidMaxBlock - 1)

/-- `_check_edid_blk_chksum`. -/
def checkEdidBlkChksum (edidCheck : ℕ) (b : Bytes) : Bool :=
  edidCheck &&& 0x02 ≠ 0 || ((range 0x80).map fun i => b[i]).sum &&& 0xff = 0

/-- `_check_base_structure`. -/
def checkBaseStructure (edidCheck : ℕ) (b : Bytes) : Bool := (edidCheck &&& 0x01 ≠ 0 ||
      (b[0] = 0 && b[7] = 0 && (range' 1 6).all fun i => b[i] = 0xff)) &&
    checkEdidBlkChksum edidCheck b

/-- `hdmitx_edid_check_data_valid`. -/
def hdmitxEdidCheckDataValid (edidCheck : ℕ) (b : Bytes) : Bool :=
  let n := hdmitxEdidGetCtaBlockCount b
  checkBaseStructure edidCheck b &&
    (n = 0 || ((edidCheck &&& 0x01 ≠ 0 || b[0x80] = 0x2 || b[0x80] = 0xf0) &&
      (range' 1 n).all fun i =>
        (edidCheck &&& 0x01 ≠ 0 || b[i * 0x80] ≠ 0) &&
          checkEdidBlkChksum edidCheck (b.drop (i * 0x80))))

/-- `edid_zero_data`. -/
def edidZeroData (b : Bytes) : Bool := ((range 128).map fun i => b[i]).sum = 0

/-- The extension blocks that are parsed: those with the tag of CTA, or all of them if the
    headers are not to be checked. -/
def ctaBlocks (edidCheck : ℕ) (b : Bytes) : List ℕ :=
  (range' 1 (hdmitxEdidGetCtaBlockCount b)).filter fun i =>
    b[i * 0x80] = 0x02 || edidCheck &&& 0x01 ≠ 0

/-! ## Data blocks -/

/-- The tag of the data block at `off`. -/
def Bytes.tag (b : Bytes) (off : ℕ) : ℕ := b[off] >>> 5

/-- Its length, without the header. -/
def Bytes.count (b : Bytes) (off : ℕ) : ℕ := b[off] &&& 0x1f

/-- The identifier of an HDMI data block. -/
def isHdmiOui (b : Bytes) (off : ℕ) : Prop :=
  b[off + 1] = 0x03 ∧ b[off + 2] = 0x0c ∧ b[off + 3] = 0x00

instance (b : Bytes) (off : ℕ) : Decidable (isHdmiOui b off) := inferInstanceAs (Decidable (_ ∧ _))

/-- The offsets of the data blocks from `off` on. Every case of the `switch` in the loop
    goes on behind the data block. -/
def headers (b : Bytes) (stop : ℕ) : ℕ → ℕ → List ℕ
  | 0, _ => []
  | fuel + 1, off =>
    if off < stop then off :: headers b stop fuel (off + 1 + b.count off) else []

/-- The loop has an end: more fuel than the bytes up to `stop` changes nothing. -/
theorem headers_add (b : Bytes) (stop : ℕ) {fuel off : ℕ} (h : stop - off ≤ fuel) (m : ℕ) :
    headers b stop (fuel + m) off = headers b stop fuel off := by
  induction fuel generalizing off with
  | zero =>
    cases m with
    | zero => rfl
    | succ m => exact if_neg (by omega)
  | succ fuel ih =>
    rw [Nat.succ_add, headers, headers, ih (by omega)]

/-- The offsets of the data blocks of a CTA block. -/
def dataBlocks (b : Bytes) : List ℕ := headers b b[2] b[2] 4

namespace RxCap

/-- `if (c) f(rx);` -/
def onlyIf (rx : RxCap) (c : Bool) (f : RxCap → Except Fault RxCap) : Except Fault RxCap :=
  if c then f rx else .ok rx

/-- A cell of `support_3d_format`, for the VIC of which the index is given. -/
def set3dFormat (f : Support3dFormat → Support3dFormat) (i : ℕ) (rx : RxCap) :
    Except Fault RxCap := do
  let vic ← load rx.vic i (.vic i)
  let x ← load rx.support3dFormat vic (.support3dFormat vic)
  let a ← rx.put rx.support3dFormat vic (f x) (.support3dFormat vic)
  .ok { rx with support3dFormat := a }

def setFramePacking : ℕ → RxCap → Except Fault RxCap :=
  set3dFormat fun x => { x with framePacking := true }

def setTopAndBottom : ℕ → RxCap → Except Fault RxCap :=
  set3dFormat fun x => { x with topAndBottom := true }

def setSideBySide : ℕ → RxCap → Except Fault RxCap :=
  set3dFormat fun x => { x with sideBySide := true }

/-- `hdmitx_3d_update`. -/
def hdmitx3dUpdate (rx : RxCap) : Except Fault RxCap := (range 16).foldlM (fun rx j =>
    rx.onlyIf (rx.threeDMask.testBit j) fun rx => do
      let rx ← rx.onlyIf (rx.threeDStructureAll.testBit 0) (setFramePacking j)
      let rx ← rx.onlyIf (rx.threeDStructureAll.testBit 6) (setTopAndBottom j)
      rx.onlyIf (rx.threeDStructureAll.testBit 8) (setSideBySide j)) rx

/-- The loop of `hdmitx_edid_3d_parse` over the modes that are listed. -/
def entries3d (dat : Bytes) (size : ℕ) : ℕ → ℕ → RxCap → Except Fault RxCap
  | 0, _, rx => .ok rx
  | fuel + 1, pos, rx =>
    if size ≤ pos then .ok rx
    else if dat[pos] &&& 0xf < 8 then do
      let rx ← rx.onlyIf (dat[pos] &&& 0xf = 0) (setFramePacking (dat[pos] >>> 4))
      let rx ← rx.onlyIf (dat[pos] &&& 0xf = 6) (setTopAndBottom (dat[pos] >>> 4))
      entries3d dat size fuel (pos + 1) rx
    else do
      let rx ← rx.onlyIf (dat[pos] &&& 0xf = 8 ∧ dat[pos + 1] >>> 4 < 0xb)
        (setSideBySide (dat[pos] >>> 4))
      entries3d dat size fuel (pos + 2) rx

theorem entries3d_add (dat : Bytes) (size : ℕ) {fuel pos : ℕ} (h : size - pos ≤ fuel) (m : ℕ)
    (rx : RxCap) : entries3d dat size (fuel + m) pos rx = entries3d dat size fuel pos rx := by
  induction fuel generalizing pos rx with
  | zero =>
    cases m with
    | zero => rfl
    | succ m => exact if_pos (by omega)
  | succ fuel ih =>
    rw [Nat.succ_add, entries3d, entries3d]
    simp only [ih (show size - (pos + 1) ≤ fuel by omega),
      ih (show size - (pos + 2) ≤ fuel by omega)]

/-- Where the header of the 3D information is, behind the latencies. -/
def pos3d (dat : Bytes) : ℕ :=
  1 + (if dat[0].testBit 7 then 2 else 0) + (if dat[0].testBit 6 then 2 else 0)

/-- The header of the 3D information, and where the listed modes start. -/
def header3d (rx : RxCap) (dat : Bytes) : RxCap × ℕ :=
  let pos := pos3d dat
  if dat[0].testBit 5 then
    let rx := { rx with
      threeDPresent := dat[pos] >>> 7
      threeDMultiPresent := (dat[pos] >>> 5) &&& 0x3
      hdmiVicLen := dat[pos + 1] >>> 5
      hdmi3dLen := dat[pos + 1] &&& 0x1f }
    let pos := pos + 1 + (rx.hdmiVicLen + 1)
    if rx.threeDMultiPresent = 1 then
      ({ rx with threeDStructureAll := (dat[pos] <<< 8) + dat[pos + 1], threeDMask := 0 }, pos + 2)
    else if rx.threeDMultiPresent = 2 then
      ({ rx with
          threeDStructureAll := (dat[pos] <<< 8) + dat[pos + 1]
          threeDMask := (dat[pos + 2] <<< 8) + dat[pos + 3] }, pos + 4)
    else (rx, pos)
  else (rx, pos)

/-- `hdmitx_edid_3d_parse`. -/
def hdmitxEdid3dParse (dat : Bytes) (size : ℕ) (rx : RxCap) : Except Fault RxCap := do
  let (rx, pos) := rx.header3d dat
  let rx ← entries3d dat size size pos rx
  if rx.threeDMask = 0 then
    (range (min 16 rx.vicCount)).foldlM (fun rx j => do
      let rx ← setFramePacking j rx
      let rx ← setTopAndBottom j rx
      setSideBySide j rx) rx
  else rx.hdmitx3dUpdate

/-- The VIC of CEA-861 for an `HDMI_VIC`. -/
def vicOf4k2k : ℕ → Option ℕ
  | 1 => some 95
  | 2 => some 94
  | 3 => some 93
  | 4 => some 98
  | _ => none

/-- `hdmitx_edid_4k2k_parse`. -/
def hdmitxEdid4k2kParse (dat : Bytes) (size : ℕ) (rx : RxCap) : Except Fault RxCap :=
  if 4 < size ∨ size = 0 then .ok rx
  else
    (range size).foldlM (fun rx i =>
      match vicOf4k2k dat[i] with
      | some vic => rx.storeCeaIdx vic
      | none => .ok rx) rx

/-- Where `hdmitx_edid_parse_hdmi14` finds the lengths of the 4K and 3D lists, behind the
    latencies. -/
def idxHdmi14 (b : Bytes) (offset : ℕ) : ℕ :=
  offset + 9 + (if b[offset + 7].testBit 6 then 4 else if b[offset + 7].testBit 7 then 2 else 0)

/-- `hdmitx_edid_parse_hdmi14`. -/
def hdmitxEdidParseHdmi14 (rx : RxCap) (offset : ℕ) (b : Bytes) (count : ℕ) : Except Fault RxCap :=
  let idx := idxHdmi14 b offset
  rx.onlyIf (7 < count ∧ b[offset + 7].testBit 5) fun rx => do
    let rx ← rx.onlyIf (b[idx] &&& 0xe0 ≠ 0) (hdmitxEdid4k2kParse (b.drop (idx + 1)) (b[idx] >>> 5))
    rx.onlyIf (b[idx - 1] &&& 0xe0 ≠ 0) (hdmitxEdid3dParse (b.drop (offset + 7)) (count - 7))

/-- `edid_parsingy420vdb`. -/
def edidParsingy420vdb (board : Board) (rx : RxCap) (buf : Bytes) : Except Fault RxCap :=
  (range' 2 (buf.count 0 - 1)).foldlM (fun rx pos =>
    rx.onlyIf (rx.vicCount < vicMaxNum && hdmitxModeValidateY420Vic board buf[pos]) fun rx => do
      let rx ← rx.storeCeaIdx buf[pos]
      .ok (rx.storeY420Idx buf[pos])) rx

/-- `edid_y420cmdb_reset`. -/
def edidY420cmdbReset (rx : RxCap) : RxCap :=
  { rx with
    bitmapValid := false, bitmapLength := 0, y420AllVic := false
    y420cmdbBitmap := .replicate _ 0 }

/-- `y420cmdb_bitmap[i] = x;` -/
def putBitmap (i x : ℕ) (rx : RxCap) : Except Fault RxCap := do
  let a ← rx.put rx.y420cmdbBitmap i x (.y420cmdbBitmap i)
  .ok { rx with y420cmdbBitmap := a }

/-- `edid_parsingy420cmdb`. -/
def edidParsingy420cmdb (rx : RxCap) (buf : Bytes) : Except Fault RxCap :=
  let length := buf.count 0
  if length = 1 then .ok { rx with y420AllVic := true }
  else
    (range (length - 1)).foldlM (fun rx i => rx.onlyIf (i < y420cmdbMax) (putBitmap i buf[i + 2]))
      { rx with
        bitmapLength := length - 1, bitmapValid := 1 < length
        y420cmdbBitmap := .replicate _ 0 }

/-- `edid_y420cmdb_fill_all_vic`. -/
def edidY420cmdbFillAllVic (rx : RxCap) : Except Fault RxCap := do
  let a := min (rx.vicCount / 8) y420cmdbMax
  let b := rx.vicCount % 8
  let rx ← (range a).foldlM (fun rx i => putBitmap i 0xff rx) rx
  let rx ← rx.onlyIf (b ≠ 0 ∧ a < y420cmdbMax) (putBitmap a ((1 <<< b) - 1))
  let n := if b = 0 then a else a + 1
  .ok { rx with bitmapLength := n, bitmapValid := n ≠ 0 }

/-- `edid_y420cmdb_postprocess`: the descriptor of a bit is read before the bit is looked
    at. -/
def edidY420cmdbPostprocess (board : Board) (rx : RxCap) : Except Fault RxCap := do
  let rx ← rx.onlyIf rx.y420AllVic edidY420cmdbFillAllVic
  rx.onlyIf rx.bitmapValid fun rx =>
    (range rx.bitmapLength).foldlM (fun rx i =>
      (range 8).foldlM (fun rx j => do
        let p ← load rx.y420cmdbBitmap i (.y420cmdbBitmap i)
        let vic ← load rx.svdVic (i * 8 + j) (.svdVic (i * 8 + j))
        rx.onlyIf (p.testBit j && hdmitxModeValidateY420Vic board vic)
          fun rx => .ok (rx.storeY420Idx vic)) rx) rx

/-- `edid_parsingvfpdb`. -/
def edidParsingvfpdb (rx : RxCap) (buf : Bytes) : Except Fault RxCap :=
  let svr := buf[2]
  if buf.count 0 < 2 then .ok rx
  else if (1 ≤ svr ∧ svr ≤ 127) ∨ (193 ≤ svr ∧ svr ≤ 253) then
    .ok { rx with flagVfpdb := true, preferredMode := svr }
  else if 129 ≤ svr ∧ svr ≤ 144 then do
    let dtd ← load rx.dtd (svr - 129) (.dtd (svr - 129))
    .ok { rx with flagVfpdb := true, preferredMode := dtd.vic }
  else .ok rx

/-! ## CTA blocks -/

/-- One data block in the loop of `hdmitx_edid_cta_block_parse`. -/
def ctaDataBlock (board : Board) (b : Bytes) (rx : RxCap) (off : ℕ) : Except Fault RxCap :=
  match b.tag off with
  | 2 => (range (b.count off)).foldlM (fun rx i => rx.storeVics b[off + 1 + i]) rx
  | 3 => rx.onlyIf (isHdmiOui b off) fun rx => rx.hdmitxEdidParseHdmi14 (off + 1) b (b.count off)
  | 7 =>
    match b[off + 1] with
    | 0xe => rx.edidParsingy420vdb board (b.drop off)
    | 0xf => rx.edidParsingy420cmdb (b.drop off)
    | _ => .ok rx
  | _ => .ok rx

/-- The data block that `vfpdb_offset` points to after the loop. -/
def vfpdbOffset (b : Bytes) : Option ℕ :=
  (dataBlocks b).reverse.find? fun off => b.tag off = 7 && b[off + 1] = 0xd

/-- The offsets of the detailed timings of a CTA block. -/
def dtdOffsets (b : Bytes) : List ℕ :=
  ((range 7).map fun i => b[2] + i * 18).takeWhile (· + 18 < 0x7f)

/-- `hdmitx_edid_cta_block_parse`. -/
def hdmitxEdidCtaBlockParse (board : Board) (rx : RxCap) (b : Bytes) : Except Fault RxCap := do
  let rx := { rx with
    numberOfDtd := (rx.numberOfDtd + if 2 ≤ b[1] then b[3] &&& 0xf else 0) % 256
    svdVicCount := 0
    svdVic := .replicate _ 0 }
  let rx := rx.edidY420cmdbReset
  if 127 < b[2] then .ok rx
  else
    let rx ← rx.onlyIf (2 < b[1]) fun rx => (dataBlocks b).foldlM (ctaDataBlock board b) rx
    let rx ← rx.edidY420cmdbPostprocess board
    let rx ← (dtdOffsets b).foldlM (fun rx off => rx.edidDtdParsing board (b.drop off)) rx
    rx.onlyIf (2 < b[1]) fun rx =>
      match vfpdbOffset b with
      | some off => rx.edidParsingvfpdb (b.drop off)
      | none => .ok rx

/-! ## The base block -/

/-- `edid_established_timings`. -/
def edidEstablishedTimings (rx : RxCap) (data : Bytes) : RxCap :=
  let rx := if data[0].testBit 0 then rx.storeVesaIdx (vesaOffset + 2) else rx
  if data[1].testBit 3 then rx.storeVesaIdx (vesaOffset + 6) else rx

/-- The bytes, bits and modes of `edid_standard_timing_iii`. -/
def standardTimingsIii : List (ℕ × ℕ × ℕ) :=
  [(0, 0, 7), (1, 6, 8), (1, 2, 10), (1, 1, 11), (2, 7, 12), (2, 1, 14), (3, 5, 19), (3, 2, 18),
   (4, 0, 20)]

/-- `edid_standard_timing_iii`. -/
def edidStandardTimingIii (rx : RxCap) (data : Bytes) : RxCap :=
  standardTimingsIii.foldl (fun rx (i, bit, mode) =>
    if data[i].testBit bit then rx.storeVesaIdx (vesaOffset + mode) else rx) rx

/-- The mode of a standard timing. -/
def standardTiming (data : Bytes) : ℕ :=
  let hactive := (data[0] + 31) * 8
  let vactive :=
    match (data[1] >>> 6) &&& 0x3 with
    | 0 => hactive * 5 / 8
    | 1 => hactive * 3 / 4
    | 2 => hactive * 4 / 5
    | _ => hactive * 9 / 16
  let timing := hdmitxModeMatchVesaTiming
    { hactive := hactive, vactive := vactive, vsync := (data[1] &&& 0x3f) + 60 }
  if is4x3 timing.vic then timing.vic + 1 else timing.vic

/-- `calc_timing`. -/
def calcTiming (rx : RxCap) (data : Bytes) : RxCap :=
  if data[0] < 2 ∧ data[1] < 2 then rx
  else if standardTiming data < vesaOffset then rx
  else rx.storeVesaIdx (standardTiming data)

/-- `edid_standardtiming`. -/
def edidStandardtiming (rx : RxCap) (data : Bytes) (maxNum : ℕ) : RxCap :=
  (range maxNum).foldl (fun rx i => rx.calcTiming (data.drop (i * 2))) rx

/-- `edid_parseceatiming`. -/
def edidParseceatiming (board : Board) (rx : RxCap) (buff : Bytes) : Except Fault RxCap :=
  (range 4).foldlM (fun rx i => rx.edidDtdParsing board (buff.drop (i * 0x12))) rx

/-- The timing that `edid_descriptor_pmt` and `edid_descriptor_pmt2` look for. -/
def descriptorPmt (data : Bytes) : HdmiTiming := hdmitxModeMatchVesaTiming
    { tmdsClk := data[0] + (data[1] <<< 8)
      hactive := data[2] + (((data[4] >>> 4) &&& 0xf) <<< 8)
      hblank := data[3] + ((data[4] &&& 0xf) <<< 8)
      vactive := data[5] + (((data[7] >>> 4) &&& 0xf) <<< 8)
      vblank := data[6] + ((data[7] &&& 0xf) <<< 8) }

/-- `edid_descriptor_pmt2`. -/
def edidDescriptorPmt2 (rx : RxCap) (data : Bytes) : RxCap :=
  if vesaOffset ≤ (descriptorPmt data).vic then rx.storeVesaIdx (descriptorPmt data).vic else rx

/-- `edid_descriptor_pmt`. -/
def edidDescriptorPmt (rx : RxCap) (data : Bytes) : RxCap :=
  let vic := (descriptorPmt data).vic
  (if vic < 108 then { rx with nativeVic := vic } else rx).edidDescriptorPmt2 data

/-- `edid_cvt_timing_3bytes`. -/
def edidCvtTiming3bytes (data : Bytes) : ℕ :=
  let hactive := ((data[0] + (((data[1] >>> 4) &&& 0xf) <<< 8)) + 1) * 2
  let vactive :=
    match (data[1] >>> 2) &&& 0x3 with
    | 0 => hactive * 3 / 4
    | 1 => hactive * 9 / 16
    | 2 => hactive * 5 / 8
    | _ => hactive * 3 / 5
  let vsync :=
    match (data[2] >>> 5) &&& 0x3 with
    | 0 => 50
    | 1 => 60
    | 2 => 75
    | _ => 85
  (hdmitxModeMatchVesaTiming { hactive := hactive, vactive := vactive, vsync := vsync }).vic

/-- `edid_cvt_timing`. -/
def edidCvtTiming (rx : RxCap) (data : Bytes) : RxCap := (range 4).foldl (fun rx i =>
    let vesaTiming := edidCvtTiming3bytes (data.drop (i * 3))
    if vesaTiming ≠ 0 ∧ vesaOffset ≤ vesaTiming then rx.storeVesaIdx vesaTiming else rx) rx

/-- The loop of `hdmitx_edid_parse` over the four descriptors of the base block. -/
def baseDescriptor (b : Bytes) (rx : RxCap) (i : ℕ) : RxCap :=
  let idx := 0x36 + i * 0x12
  if b[idx] ≠ 0 ∧ b[idx + 1] ≠ 0 then
    if i = 0 then rx.edidDescriptorPmt (b.drop idx)
    else if i = 1 then rx.edidDescriptorPmt2 (b.drop idx)
    else rx
  else
    match b[idx + 3] with
    | 0xfa => rx.edidStandardtiming (b.drop (idx + 5)) 6
    | 0xf8 => rx.edidCvtTiming (b.drop (idx + 6))
    | 0xf7 => rx.edidStandardTimingIii (b.drop (idx + 6))
    | _ => rx

/-- `_edid_parse_base_structure`, with `edid_physical_size_parse`. -/
def edidParseBaseStructure (rx : RxCap) (b : Bytes) : RxCap :=
  let rx := rx.edidEstablishedTimings (b.drop 0x23)
  if b[21] ≠ 0 ∧ b[22] ≠ 0 then
    { rx with physicalWidth := b[21] * 10, physicalHeight := b[22] * 10 }
  else rx

/-! ## Audio -/

/-- `RxAudioCap[i] = x;` -/
def putAudioCap (i : ℕ) (x : RxAudiocap) (rx : RxCap) : Except Fault RxCap := do
  let a ← rx.put rx.rxAudioCap i x (.rxAudioCap i)
  .ok { rx with rxAudioCap := a }

/-- `hdmitx_edid_set_default_aud`. -/
def hdmitxEdidSetDefaultAud (rx : RxCap) : Except Fault RxCap :=
  rx.onlyIf (rx.audCount = 0) fun rx => putAudioCap 0 ⟨1, 1, 7, 1⟩ { rx with audCount := 1 }

/-- A short audio descriptor. -/
def shortAudioDescriptor (b : Bytes) : RxAudiocap :=
  ⟨(b[0] >>> 3) &&& 0xf, b[0] &&& 0x7, b[1] &&& 0x7f, b[2]⟩

/-- One data block in the loop of `hdmitx_edid_audio_block_parse`. -/
def audioDataBlock (b : Bytes) (rx : RxCap) (off : ℕ) : Except Fault RxCap :=
  if b.tag off = 1 then
    let tmp := b.count off / 3
    let idx := rx.audCount
    (range tmp).foldlM
      (fun rx i => putAudioCap (idx + i) (shortAudioDescriptor (b.drop (off + 1 + i * 3))) rx)
      { rx with audCount := (rx.audCount + tmp) % 256 }
  else .ok rx

/-- `hdmitx_edid_audio_block_parse`. -/
def hdmitxEdidAudioBlockParse (rx : RxCap) (b : Bytes) : Except Fault RxCap :=
  if 127 < b[2] then .ok rx else (dataBlocks b).foldlM (audioDataBlock b) rx

/-- The search of `edid_check_pcm_declare` for a second descriptor of the format of the
    first. -/
def declaresPcmTwice (rx : RxCap) : Except Fault Bool :=
  (range' 1 (rx.audCount - 1)).foldlM (fun found i =>
    if found then .ok true
    else do
      let x ← load rx.rxAudioCap i (.rxAudioCap i)
      let x₀ ← load rx.rxAudioCap 0 (.rxAudioCap 0)
      .ok (x.audioFormatCode = x₀.audioFormatCode)) false

/-- `edid_check_pcm_declare`. -/
def edidCheckPcmDeclare (rx : RxCap) : Except Fault RxCap :=
  if rx.audCount = 0 then .ok rx
  else do
    let found ← rx.declaresPcmTwice
    if found then
      let rx ← (range (rx.audCount - 1)).foldlM (fun rx i => do
        let x ← load rx.rxAudioCap (i + 1) (.rxAudioCap (i + 1))
        putAudioCap i x rx) rx
      let rx ← putAudioCap (rx.audCount - 1) {} rx
      .ok { rx with audCount := rx.audCount - 1 }
    else .ok rx

/-- `hdmitx_audio_parse`. -/
def hdmitxAudioParse (rx : RxCap) (b : Bytes) : Except Fault RxCap :=
  if hdmitxEdidCheckDataValid rx.edidCheck b then do
    let rx ← (ctaBlocks rx.edidCheck b).foldlM
      (fun rx i => rx.hdmitxEdidAudioBlockParse (b.drop (i * 0x80))) rx
    let rx ← rx.hdmitxEdidSetDefaultAud
    rx.edidCheckPcmDeclare
  else .ok rx

/-! ## The parser -/

/-- The first cells of the list of VICs. -/
def putVics (rx : RxCap) (l : List ℕ) : Except Fault RxCap :=
  (range l.length).foldlM (fun rx i => do
    let a ← rx.put rx.vic i (l.getD i 0) (.vic i)
    .ok { rx with vic := a }) { rx with vicCount := l.length }

/-- `hdmitx_edid_set_default_vic`. -/
def hdmitxEdidSetDefaultVic (rx : RxCap) : Except Fault RxCap := do
  let rx ← rx.putVics [3, 4, 5, 16]
  .ok { rx with nativeVic := 3 }

/-- `edid_set_fallback_mode`. -/
def edidSetFallbackMode (rx : RxCap) : Except Fault RxCap := do
  let rx ← rx.putVics [16, 4, 3]
  { rx with nativeVic := 4 }.hdmitxEdidSetDefaultAud

/-- Without a native mode among the detailed timings, the first video descriptor takes
    precedence over them. -/
def updatePreferredMode (rx : RxCap) (vic0 : ℕ) : RxCap :=
  if !rx.flagVfpdb && rx.preferredMode != vic0 && rx.numberOfDtd == 0 then
    { rx with preferredMode := vic0 }
  else rx

/-- The size of the image of a detailed timing, if there is none of the screen. -/
def updatePhysicalSize (rx : RxCap) (t : Dtd) : RxCap :=
  if rx.physicalWidth = 0 ∨ rx.physicalHeight = 0 then
    { rx with physicalWidth := t.hImageSize, physicalHeight := t.vImageSize }
  else rx

/-- What `hdmitx_edid_parse` does after the extension blocks and the timings. -/
def finishEdidParse (rx : RxCap) (b : Bytes) : Except Fault RxCap := do
  let vic0 ← load rx.vic 0 (.vic 0)
  let rx := (range 4).foldl (baseDescriptor b) (rx.updatePreferredMode vic0)
  let dtd0 ← load rx.dtd 0 (.dtd 0)
  let rx := rx.updatePhysicalSize dtd0
  rx.onlyIf (edidZeroData b || rx.vicCount = 0) hdmitxEdidSetDefaultVic

/-- `hdmitx_edid_parse`. On an Odroid board the timings of the base block are parsed before
    the extension blocks, else after them. -/
def hdmitxEdidParse (board : Board) (rx : RxCap) (b : Bytes) : Except Fault RxCap :=
  if hdmitxEdidCheckDataValid rx.edidCheck b then do
    let rx := if checkBaseStructure rx.edidCheck b then rx.edidParseBaseStructure b else rx
    let rx ← rx.onlyIf board.isSome fun rx => do
      let rx ← rx.edidParseceatiming board (b.drop 0x36)
      .ok (rx.edidStandardtiming (b.drop 0x26) 8)
    let rx ← (ctaBlocks rx.edidCheck b).foldlM
      (fun rx i => rx.hdmitxEdidCtaBlockParse board (b.drop (i * 0x80))) rx
    let rx ← rx.onlyIf board.isNone fun rx =>
      (rx.edidStandardtiming (b.drop 0x26) 8).edidParseceatiming board (b.drop 0x36)
    rx.finishEdidParse b
  else rx.edidSetFallbackMode

/-- Both parsers, on a record that is cleared. -/
def parseEdid (board : Board) (edidCheck : ℕ) (b : Bytes) : Except Fault RxCap := do
  let rx ← (hdmitxEdidRxcapClear edidCheck).hdmitxEdidParse board b
  rx.hdmitxAudioParse b

end RxCap

end CommonDrivers.Media.Hdmitx
