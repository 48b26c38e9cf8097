import CommonDrivers.Lib.Fallible
import CommonDrivers.Media.Hdmitx.Mode

/-!
# The capabilities of a sink

`struct rx_cap`: what the EDID parser has found so far. Its lists are arrays of a fixed
size with a count beside them. An access to one of the arrays with an index outside of
it is a `Fault`, as is a store into one while a count is past the size of its array
(`RxCap.put`). C checks neither.
-/

namespace CommonDrivers.Media.Hdmitx

/-- Bytes, from an address on: also those behind the object the address points to. -/
def Bytes := ℕ → UInt8

instance : GetElem Bytes ℕ ℕ fun _ _ => True := ⟨fun b i _ => (b i).toNat⟩

/-- `&b[off]`. -/
def Bytes.drop (b : Bytes) (off : ℕ) : Bytes := fun i => b (off + i)

theorem Bytes.getElem_lt (b : Bytes) (i : ℕ) : b[i] < 256 := (b i).toNat_lt

/-- `struct rx_audiocap`. -/
structure RxAudiocap where
  audioFormatCode : ℕ := 0
  channelNumMax : ℕ := 0
  freqCc : ℕ := 0
  cc3 : ℕ := 0

/-- An entry of `support_3d_format`. -/
structure Support3dFormat where
  framePacking : Bool := false
  topAndBottom : Bool := false
  sideBySide : Bool := false

def vicMaxNum : ℕ := 512
def svdVicMaxNum : ℕ := 128
def y420VicMaxNum : ℕ := 32
def vesaMaxTiming : ℕ := 64
def audMaxNum : ℕ := 60
def y420cmdbMax : ℕ := 32
def dtdMaxNum : ℕ := 16

/-- An access outside of an array, with its index, or a store with a count past the size
    of its array. -/
inductive Fault
  | vic (i : ℕ)
  | svdVic (i : ℕ)
  | rxAudioCap (i : ℕ)
  | dtd (i : ℕ)
  | y420cmdbBitmap (i : ℕ)
  | support3dFormat (i : ℕ)
  | count
deriving DecidableEq

/-- `struct rx_cap`, as far as it has to do with the lists. -/
structure RxCap where
  vic : Vector ℕ vicMaxNum := .replicate _ 0
  svdVic : Vector ℕ svdVicMaxNum := .replicate _ 0
  y420Vic : Vector ℕ y420VicMaxNum := .replicate _ 0
  vicCount : ℕ := 0
  svdVicCount : ℕ := 0
  nativeVic : ℕ := 0
  nativeVic2 : ℕ := 0
  vesaTiming : Vector ℕ vesaMaxTiming := .replicate _ 0
  rxAudioCap : Vector RxAudiocap audMaxNum := .replicate _ {}
  audCount : ℕ := 0
  physicalWidth : ℕ := 0
  physicalHeight : ℕ := 0
  threeDPresent : ℕ := 0
  threeDMultiPresent : ℕ := 0
  hdmiVicLen : ℕ := 0
  hdmi3dLen : ℕ := 0
  threeDStructureAll : ℕ := 0
  threeDMask : ℕ := 0
  support3dFormat : Vector Support3dFormat vicMaxNum := .replicate _ {}
  bitmapValid : Bool := false
  bitmapLength : ℕ := 0
  y420AllVic : Bool := false
  y420cmdbBitmap : Vector ℕ y420cmdbMax := .replicate _ 0
  preferredMode : ℕ := 0
  dtd : Vector Dtd dtdMaxNum := .replicate _ {}
  dtdIdx : ℕ := 0
  flagVfpdb : Bool := false
  numberOfDtd : ℕ := 0
  edidCheck : ℕ

/-- The counts are those of lists that fit into their arrays. -/
structure RxCap.Counted (rx : RxCap) : Prop where
  vicCount_le : rx.vicCount ≤ vicMaxNum
  svdVicCount_le : rx.svdVicCount ≤ svdVicMaxNum
  audCount_le : rx.audCount ≤ audMaxNum
  dtdIdx_le : rx.dtdIdx ≤ dtdMaxNum

instance (rx : RxCap) : Decidable rx.Counted :=
  decidable_of_iff (rx.vicCount ≤ vicMaxNum ∧ rx.svdVicCount ≤ svdVicMaxNum ∧
      rx.audCount ≤ audMaxNum ∧ rx.dtdIdx ≤ dtdMaxNum)
    ⟨fun ⟨h₁, h₂, h₃, h₄⟩ => ⟨h₁, h₂, h₃, h₄⟩, fun ⟨h₁, h₂, h₃, h₄⟩ => ⟨h₁, h₂, h₃, h₄⟩⟩

namespace RxCap

/-- `hdmitx_edid_rxcap_clear`. -/
def hdmitxEdidRxcapClear (edidCheck : ℕ) : RxCap := { edidCheck := edidCheck }

/-- A store into an array of `rx`. -/
def put {α : Type} {n : ℕ} (rx : RxCap) (a : Vector α n) (i : ℕ) (x : α) (e : Fault) :
    Except Fault (Vector α n) :=
  if rx.Counted then store a i x e else .error .count

/-! ## The lists of modes -/

/-- The list of VICs. -/
def vics (rx : RxCap) : List ℕ := rx.vic.toList.take rx.vicCount

/-- `store_vesa_idx`: the first cell that is free, or has the mode already. -/
def storeVesaIdx (rx : RxCap) (vesaTiming : ℕ) : RxCap :=
  match rx.vesaTiming.findFinIdx? fun t => t = 0 || t = vesaTiming with
  | none => rx
  | some i => { rx with vesaTiming := rx.vesaTiming.set i vesaTiming }

/-- `store_cea_idx`: the VIC is appended without a look at the size of the array. -/
def storeCeaIdx (rx : RxCap) (vic : ℕ) : Except Fault RxCap :=
  if vic ∈ rx.vics then .ok rx
  else do
    let a ← rx.put rx.vic rx.vicCount vic (.vic rx.vicCount)
    .ok { rx with vic := a, vicCount := rx.vicCount + 1 }

/-- `store_y420_idx`. -/
def storeY420Idx (rx : RxCap) (vic : ℕ) : RxCap :=
  if vic ∈ rx.y420Vic then rx
  else
    match rx.y420Vic.findFinIdx? fun t => t = 0 with
    | none => rx
    | some i => { rx with y420Vic := rx.y420Vic.set i vic }

/-- A native mode: the first two are kept. -/
def storeNativeVic (rx : RxCap) (vic : ℕ) : RxCap :=
  if rx.nativeVic = 0 then { rx with nativeVic := vic }
  else if rx.nativeVic2 = 0 then { rx with nativeVic2 := vic }
  else rx

/-- `_store_vics`: one descriptor of a video data block. -/
def storeVics (rx : RxCap) (vicDat : ℕ) : Except Fault RxCap := do
  let vicBit6_0 := vicDat % 0x80
  let vicBit7 := vicDat / 0x80
  let vic := if 1 ≤ vicBit6_0 ∧ vicBit6_0 ≤ 64 then vicBit6_0 else vicDat
  let a ← rx.put rx.svdVic rx.svdVicCount vic (.svdVic rx.svdVicCount)
  let rx := { rx with svdVic := a, svdVicCount := rx.svdVicCount + 1 }
  if 1 ≤ vicBit6_0 ∧ vicBit6_0 ≤ 64 then
    -- 640x480p60 is not supported
    let rx ← if 1 < vicBit6_0 then rx.storeCeaIdx vicBit6_0 else .ok rx
    .ok (if vicBit7 = 0 then rx else rx.storeNativeVic vicBit6_0)
  else
    rx.storeCeaIdx vicDat

/-! ## Detailed timings -/

/-- The fields of a detailed timing descriptor. -/
def dtdOfBytes (data : Bytes) : Dtd where
  pixelClock := data[0] + (data[1] <<< 8)
  hActive := (((data[4] >>> 4) &&& 0xf) <<< 8) + data[2]
  hBlank := ((data[4] &&& 0xf) <<< 8) + data[3]
  vActive := (((data[7] >>> 4) &&& 0xf) <<< 8) + data[5]
  vBlank := ((data[7] &&& 0xf) <<< 8) + data[6]
  hSyncOffset := (((data[11] >>> 6) &&& 0x3) <<< 8) + data[8]
  hSync := (((data[11] >>> 4) &&& 0x3) <<< 8) + data[9]
  vSyncOffset := (((data[11] >>> 2) &&& 0x3) <<< 4) + ((data[10] >>> 4) &&& 0xf)
  vSync := ((data[11] &&& 0x3) <<< 4) + (data[10] &&& 0xf)
  hImageSize := (((data[14] >>> 4) &&& 0xf) <<< 8) + data[12]
  vImageSize := ((data[14] &&& 0xf) <<< 8) + data[13]
  flags := data[17]

/-- The special handling of 1080i, and of 480i60 and 576i50. -/
def dtdSpecial (t : Dtd) : Dtd :=
  let t :=
    if t.pixelClock = 7425 ∧ t.hActive = 1920 ∧ t.vActive = 1080 then
      { t with vActive := t.vActive / 2, vBlank := t.vBlank / 2 }
    else t
  if (t.flags >>> 1) &&& 0x3 = 0 ∧ t.hActive = 1440 then
    let t :=
      if t.pixelClock ≠ 2700 ∧ (t.pixelClock : ℤ) - 2700 < 10 then { t with pixelClock := 2702 }
      else t
    { t with vActive := t.vActive / 2, vBlank := t.vBlank / 2 }
  else t

/-- The modes that are there in 4:3, with the one in 16:9 as the next. -/
def is4x3 (vic : ℕ) : Bool := vic = 6 || vic = 2 || vic = 21 || vic = 17

/-- The VIC of a descriptor that has the timing of a mode. The division by a width of
    zero gives zero, as on the processors the driver is for. -/
def dtdVic (t : Dtd) (timing : HdmiTiming) : ℕ :=
  if is4x3 timing.vic then
    if ((t.vImageSize * 100 / t.hImageSize : ℕ) - (75 : ℤ)).natAbs ≤ 2 then timing.vic
    else timing.vic + 1
  else timing.vic

/-- A descriptor that is not one of a timing, and is skipped. -/
def isZeroDtd (data : Bytes) : Bool := data[0] = 0 && data[1] = 0 && data[2] = 0

/-- The descriptor and the timing of the mode that it has. -/
def dtdMatch (board : Board) (data : Bytes) : Dtd × HdmiTiming :=
  hdmitxModeMatchDtdTiming board (dtdSpecial (dtdOfBytes data))

/-- `edid_dtd_parsing`: the descriptor is written into the array before it is known to be
    one of a mode, and the array is not looked at for being full. -/
def edidDtdParsing (board : Board) (rx : RxCap) (data : Bytes) : Except Fault RxCap :=
  if isZeroDtd data then .ok rx
  else do
    let t := (dtdMatch board data).1
    let timing := (dtdMatch board data).2
    let a ← rx.put rx.dtd rx.dtdIdx t (.dtd rx.dtdIdx)
    let rx := { rx with dtd := a }
    if timing.vic = 0 then .ok rx
    else
      let vic := dtdVic t timing
      let a ← rx.put rx.dtd rx.dtdIdx { t with vic := vic } (.dtd rx.dtdIdx)
      let dtd0 ← load a 0 (.dtd 0)
      let rx := { rx with dtd := a, preferredMode := dtd0.vic, dtdIdx := (rx.dtdIdx + 1) % 256 }
      if vic < vesaOffset then rx.storeCeaIdx vic else .ok (rx.storeVesaIdx vic)

end RxCap

end CommonDrivers.Media.Hdmitx
