import CommonDrivers.Lib.Cells
import CommonDrivers.Lib.Word

/-!
# The picture parameter set of a compressed stream, over HDMI

The transmitter packs the picture parameter set and the timing into 136 bytes (`ppsDataMap`) and
sends them as one set of extended metadata packets (`hdmitxDscCvtemPktSend`). Each packet is stored
by the receiver in 32 bytes: three header bytes, a pad byte, and 28 bytes of payload, of which the
first packet uses seven for the description of the set (`stored`). The receiver copies the payloads
together (`rxGetCvtem`) and takes the fields out of the bytes (`parseDscPpsData`).

The registers that control when the packets are sent, the fields that only configure the encoder,
and the other sets of metadata are left out.
-/

namespace CommonDrivers.Dsc

/-- `struct dsc_rc_range_parameters`. -/
structure RcRangeParameters where
  rangeMinQp : ℕ
  rangeMaxQp : ℕ
  /-- A signed char, of which 6 bits are used. -/
  rangeBpgOffset : ℤ

/-- `struct dsc_rc_parameter_set`. -/
structure RcParameterSet where
  rcModelSize : ℕ
  rcEdgeFactor : ℕ
  rcQuantIncrLimit0 : ℕ
  rcQuantIncrLimit1 : ℕ
  rcTgtOffsetHi : ℕ
  rcTgtOffsetLo : ℕ
  rcBufThresh : Fin 14 → ℕ
  rcRangeParameters : Fin 15 → RcRangeParameters

/-- `struct dsc_pps_data_s`. -/
structure PpsData where
  dscVersionMajor : ℕ
  dscVersionMinor : ℕ
  ppsIdentifier : ℕ
  bitsPerComponent : ℕ
  lineBufDepth : ℕ
  blockPredEnable : ℕ
  convertRgb : ℕ
  simple422 : ℕ
  vbrEnable : ℕ
  bitsPerPixel : ℕ
  picHeight : ℕ
  picWidth : ℕ
  sliceHeight : ℕ
  sliceWidth : ℕ
  chunkSize : ℕ
  initialXmitDelay : ℕ
  initialDecDelay : ℕ
  initialScaleValue : ℕ
  scaleIncrementInterval : ℕ
  scaleDecrementInterval : ℕ
  firstLineBpgOffset : ℕ
  nflBpgOffset : ℕ
  sliceBpgOffset : ℕ
  initialOffset : ℕ
  finalOffset : ℕ
  flatnessMinQp : ℕ
  flatnessMaxQp : ℕ
  rcParameterSet : RcParameterSet
  native420 : ℕ
  native422 : ℕ
  secondLineBpgOffset : ℕ
  nslBpgOffset : ℕ
  secondLineOffsetAdj : ℕ
  hcActiveBytes : ℕ

/-- The part of `struct hdmi_timing` that is sent. -/
structure Timing where
  hFront : ℕ
  hSync : ℕ
  hBack : ℕ

/-! ## Packing -/

/-- The two bytes of the parameters of a range. -/
def rangeBytes (r : RcRangeParameters) : List ℕ :=
  let minQp := r.rangeMinQp &&& 0x1f
  let maxQp := r.rangeMaxQp &&& 0x1f
  let bpgOffset := u32 r.rangeBpgOffset &&& 0x3f
  [(minQp <<< 3) ||| ((maxQp >>> 2) &&& 0x7), ((maxQp &&& 0x3) <<< 6) ||| bpgOffset]

/-- The bytes 0 to 43. -/
def headBytes (pps : PpsData) : List ℕ := [
  ((pps.dscVersionMajor &&& 0xf) <<< 4) ||| ((pps.dscVersionMinor &&& 0xf) <<< 0),
  pps.ppsIdentifier &&& 0xff, 0x00,
  ((pps.bitsPerComponent &&& 0xf) <<< 4) ||| ((pps.lineBufDepth &&& 0xf) <<< 0),
  ((pps.blockPredEnable &&& 0x1) <<< 5) ||| ((pps.convertRgb &&& 0x1) <<< 4) |||
    ((pps.simple422 &&& 0x1) <<< 3) ||| ((pps.vbrEnable &&& 0x1) <<< 2) |||
    (((pps.bitsPerPixel >>> 8) &&& 0x3) <<< 0), pps.bitsPerPixel &&& 0xff,
  (pps.picHeight >>> 8) &&& 0xff, pps.picHeight &&& 0xff, (pps.picWidth >>> 8) &&& 0xff,
  pps.picWidth &&& 0xff, (pps.sliceHeight >>> 8) &&& 0xff, pps.sliceHeight &&& 0xff,
  (pps.sliceWidth >>> 8) &&& 0xff, pps.sliceWidth &&& 0xff, (pps.chunkSize >>> 8) &&& 0xff,
  pps.chunkSize &&& 0xff, (pps.initialXmitDelay >>> 8) &&& 0x3, pps.initialXmitDelay &&& 0xff,
  (pps.initialDecDelay >>> 8) &&& 0xff, pps.initialDecDelay &&& 0xff, 0x00,
  pps.initialScaleValue &&& 0x3f, (pps.scaleIncrementInterval >>> 8) &&& 0xff,
  pps.scaleIncrementInterval &&& 0xff, (pps.scaleDecrementInterval >>> 8) &&& 0xf,
  pps.scaleDecrementInterval &&& 0xff, 0x00, pps.firstLineBpgOffset &&& 0x1f,
  (pps.nflBpgOffset >>> 8) &&& 0xff, pps.nflBpgOffset &&& 0xff, (pps.sliceBpgOffset >>> 8) &&& 0xff,
  pps.sliceBpgOffset &&& 0xff, (pps.initialOffset >>> 8) &&& 0xff, pps.initialOffset &&& 0xff,
  (pps.finalOffset >>> 8) &&& 0xff, pps.finalOffset &&& 0xff, pps.flatnessMinQp &&& 0x1f,
  pps.flatnessMaxQp &&& 0x1f, (pps.rcParameterSet.rcModelSize >>> 8) &&& 0xff,
  pps.rcParameterSet.rcModelSize &&& 0xff, pps.rcParameterSet.rcEdgeFactor &&& 0xf,
  pps.rcParameterSet.rcQuantIncrLimit0 &&& 0x1f, pps.rcParameterSet.rcQuantIncrLimit1 &&& 0x1f,
  ((pps.rcParameterSet.rcTgtOffsetHi &&& 0xf) <<< 4) |||
    ((pps.rcParameterSet.rcTgtOffsetLo &&& 0xf) <<< 0)]

/-- The bytes 88 to 93. -/
def tailBytes (pps : PpsData) : List ℕ := [
  ((pps.native420 &&& 0x1) <<< 1) ||| ((pps.native422 &&& 0x1) <<< 0),
  pps.secondLineBpgOffset &&& 0x1f, (pps.nslBpgOffset >>> 8) &&& 0xff, pps.nslBpgOffset &&& 0xff,
  (pps.secondLineOffsetAdj >>> 8) &&& 0xff, pps.secondLineOffsetAdj &&& 0xff]

/-- The bytes 128 to 135. -/
def timingBytes (pps : PpsData) (timing : Timing) : List ℕ := [ timing.hFront &&& 0xff,
  (timing.hFront >>> 8) &&& 0xff, timing.hSync &&& 0xff, (timing.hSync >>> 8) &&& 0xff,
  timing.hBack &&& 0xff, (timing.hBack >>> 8) &&& 0xff, pps.hcActiveBytes &&& 0xff,
  (pps.hcActiveBytes >>> 8) &&& 0xff]

/-- `pps_data_map`: the first 136 bytes of the body. -/
def ppsDataMap (pps : PpsData) (timing : Timing) : List ℕ := headBytes pps ++
    (List.ofFn pps.rcParameterSet.rcBufThresh ++
      ((List.ofFn pps.rcParameterSet.rcRangeParameters).flatMap rangeBytes ++
        (tailBytes pps ++ (List.replicate 34 0x00 ++ timingBytes pps timing))))

/-! ## Packets -/

/-- The header bytes and the pad byte of each packet, and the bytes of the first payload that the
    transmitter does not set: the flags for a new and an ended set, and the reserved byte. -/
structure Framing where
  header : ℕ → Fin 3 → ℕ
  pad : ℕ → ℕ
  flags : ℕ
  reserved : ℕ

/-- The description of the set, in the first seven bytes of the first payload, as the registers
    `DSC_PKT_EM_PB*` and `DSC_PKT_INSERT_PAYLOAD_*` have it. -/
def description (f : Framing) : List ℕ :=
  let dscByteNum := (5 - 1) * 28 + 24
  [(f.flags <<< 6) ||| ((1 <<< 2) ||| (1 <<< 1)), f.reserved, 0x01, 0x00, 0x02, dscByteNum >>> 8,
    dscByteNum &&& 0xff]

/-- `hdmitx_dsc_cvtem_pkt_send`: the bytes that are written to the memory of the packets. -/
def hdmitxDscCvtemPktSend (pps : PpsData) (timing : Timing) : List ℕ :=
  let dscPktInsert := (6 - 1) * 28 + 21
  (ppsDataMap pps timing ++ List.replicate (6 * 28 - 136) 0).take dscPktInsert

/-- The payload of a packet: 21 bytes in the first one, 28 in each other. -/
def payload (f : Framing) (data : List ℕ) (k o : ℕ) : ℕ :=
  if k = 0 then
    if o < 7 then (description f).getD o 0 else data.getD (o - 7) 0
  else data.getD (21 + 28 * (k - 1) + o) 0

/-- The packets in the memory of the receiver. -/
def stored (f : Framing) (data : List ℕ) (addr : ℕ) : ℕ :=
  let k := addr / 32
  let o := addr % 32
  if h : o < 3 then f.header k ⟨o, h⟩
  else if o = 3 then f.pad k
  else payload f data k (o - 4)

/-! ## Reception -/

/-- `enum emp_pkt_type_e`. -/
inductive EmpType
  | vtemClass0
  | vtemClass1
  | sbtm
  | amdv
  | cuva
  | cvtem
  deriving DecidableEq

/-- `rx_check_emp_type`. -/
def rxCheckEmpType (src : ℕ → ℕ) : Option EmpType :=
  let ieee := src 11 + (src 12 <<< 8) + (src 13 <<< 16)
  let dsType := (src 4 &&& 0x30) >>> 4
  let afr := (src 4 &&& 0x8) >>> 3
  let vfr := (src 4 &&& 0x4) >>> 2
  let sync := (src 4 &&& 0x2) >>> 1
  let organizationId := src 6
  let dataSetTagLo := src 8
  let dataSetLengthLo := src 10
  if organizationId = 0 then
    if dataSetTagLo = 2 ∧ ieee = 0x047503 then some .cuva
    else if ieee = 0x00d046 then some .amdv
    else none
  else if dsType = 0 ∧ vfr = 1 ∧ afr = 0 ∧ organizationId = 1 ∧ dataSetTagLo = 1 then
    some (if sync ≠ 0 then .vtemClass1 else .vtemClass0)
  else if organizationId = 1 ∧ dataSetTagLo = 3 ∧ dsType = 1 ∧ sync = 1 ∧ vfr = 1 ∧ afr = 0 then
    some .sbtm
  else if organizationId = 1 ∧ dataSetTagLo = 2 ∧ dsType = 0 ∧ sync = 1 ∧ vfr = 1 ∧ afr = 0 ∧
      dataSetLengthLo = 136 then
    some .cvtem
  else none

/-- `parse_dsc_pps_data`; what is not among the bytes stays as it was. -/
def parseDscPpsData (buff : ℕ → ℕ) (old : PpsData) : PpsData where
  dscVersionMajor := (buff 0 >>> 4) &&& 0xf
  dscVersionMinor := buff 0 &&& 0xf
  ppsIdentifier := buff 1
  bitsPerComponent := (buff 3 >>> 4) &&& 0xf
  lineBufDepth := buff 3 &&& 0xf
  blockPredEnable := (buff 4 &&& 0x20) >>> 5
  convertRgb := (buff 4 &&& 0x10) >>> 4
  simple422 := buff 4 &&& 0x8
  vbrEnable := buff 4 &&& 0x4
  bitsPerPixel := ((buff 4 &&& 0x3) <<< 8) ||| buff 5
  picHeight := (buff 6 <<< 8) ||| buff 7
  picWidth := (buff 8 <<< 8) ||| buff 9
  sliceHeight := (buff 10 <<< 8) ||| buff 11
  sliceWidth := (buff 12 <<< 8) ||| buff 13
  chunkSize := (buff 14 <<< 8) ||| buff 15
  initialXmitDelay := ((buff 16 &&& 0x3) <<< 8) ||| buff 17
  initialDecDelay := (buff 18 <<< 8) ||| buff 19
  initialScaleValue := buff 21 &&& 0x3f
  scaleIncrementInterval := (buff 22 <<< 8) ||| buff 23
  scaleDecrementInterval := ((buff 24 &&& 0xf) <<< 8) ||| buff 25
  firstLineBpgOffset := buff 27 &&& 0x1f
  nflBpgOffset := (buff 28 <<< 8) ||| buff 29
  sliceBpgOffset := (buff 30 <<< 8) ||| buff 31
  initialOffset := (buff 32 <<< 8) ||| buff 33
  finalOffset := (buff 34 <<< 8) ||| buff 35
  flatnessMinQp := buff 36 &&& 0x1f
  flatnessMaxQp := buff 37 &&& 0x1f
  rcParameterSet := {
    rcModelSize := (buff 38 <<< 8) ||| buff 39
    rcEdgeFactor := buff 40 &&& 0xf
    rcQuantIncrLimit0 := buff 41 &&& 0x1f
    rcQuantIncrLimit1 := buff 42 &&& 0x1f
    rcTgtOffsetHi := (buff 43 >>> 4) &&& 0xf
    rcTgtOffsetLo := buff 43 &&& 0xf
    rcBufThresh := fun i => buff (44 + i)
    rcRangeParameters := fun i => {
      rangeMinQp := (buff (58 + 2 * i) &&& 0xf8) >>> 3
      rangeMaxQp := (buff (59 + 2 * i) >>> 6) ||| ((buff (58 + 2 * i) &&& 0x7) <<< 2)
      rangeBpgOffset := (buff (59 + 2 * i) &&& 0x3f : ℕ) } }
  native420 := (buff 88 &&& 0x2) >>> 1
  native422 := buff 88 &&& 0x1
  secondLineBpgOffset := buff 89 &&& 0x1f
  nslBpgOffset := (buff 90 <<< 8) ||| buff 91
  secondLineOffsetAdj := (buff 92 <<< 8) ||| buff 93
  hcActiveBytes := old.hcActiveBytes

/-- What the receiver keeps of the set. -/
structure Cvtem where
  dscFlag : Bool
  dscPktCnt : ℕ
  dscInfo : ℕ → ℕ
  dscPpsData : PpsData

/-- The branch `EMP_CVTEM` of `rx_get_em_info`. -/
def rxGetCvtem (pkt : ℕ → ℕ) (pktCnt : ℕ) (rx : Cvtem) : Cvtem :=
  let info := fill rx.dscInfo 0 (slice pkt 11 21)
  let info := fill info 21 (slice pkt 36 28)
  let info := fill info 49 (slice pkt 68 28)
  let info := fill info 77 (slice pkt 100 28)
  let info := fill info 105 (slice pkt 132 23)
  let info := fill info 128 (slice pkt 159 8)
  { dscFlag := true
    dscPktCnt := if 6 < pktCnt then 6 else pktCnt
    dscInfo := info
    dscPpsData := parseDscPpsData info rx.dscPpsData }

/-- One set of `rx_get_em_info`: only the sets of this type are kept here. -/
def rxGetEmInfo (pkt : ℕ → ℕ) (pktCnt : ℕ) (rx : Cvtem) : Cvtem :=
  match rxCheckEmpType pkt with
  | some .cvtem => rxGetCvtem pkt pktCnt rx
  | _ => rx

end CommonDrivers.Dsc
