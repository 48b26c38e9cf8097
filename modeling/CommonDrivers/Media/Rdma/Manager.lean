import CommonDrivers.Lib.Loop
import CommonDrivers.Lib.WriteLog

/-!
# The manager of the register DMA

Registers of the video path are not written at once: a write goes to the queue of a *channel*
(`reg_buf`), `rdma_config` hands the queue to the hardware as a table, and the hardware makes the
writes of the table at its trigger (`rdma_mgr.c`). In between, a read is answered from the queue,
from the copy of the table that was handed over (the *mirror*) or from the hardware. Where two
channels write to one register, its last value is kept in a table of conflicts, until a done
interrupt finds it in the hardware.

A register keeps what is written to it. The partition tables, the tables that read registers or
start by themselves, the registers of the DMA itself and the traces are left out.
-/

namespace CommonDrivers.Rdma

open Function

/-- A value, `u32`. -/
abbrev Word := BitVec 32

/-- `MAX_CONFLICT`. -/
def maxConflict : ℕ := 32

/-- `RDMA_NUM`. -/
def rdmaNum : ℕ := 16

/-- What is fixed: the chip, and the settings of the manager. -/
structure Setup where
  channelNum : ℕ
  triggerMaskLen : ℕ
  /-- `enable`. -/
  enable : ℕ → Bool
  /-- The handle of `VSYNC_RDMA_READ`. -/
  readHandle : ℕ
  /-- The handle of `PRE_VSYNC_RDMA`. -/
  preVsyncHandle : ℕ
  /-- `rdma_done_detect_reg`, with `use_rdma_done_detect`. -/
  detectReg : Option ℕ
  channelNum_le : channelNum ≤ rdmaNum

/-- `struct rdma_instance_s`: a channel, and its table in the hardware. -/
structure Ins where
  /-- `op` is there. -/
  registered : Bool
  /-- In bytes. -/
  tableSize : ℕ
  lockFlag : Bool
  /-- `reg_buf` up to `rdma_item_count`. -/
  queue : List (ℕ × Word)
  /-- `rdma_table_mirror` up to `rdma_write_count`. -/
  mirror : List (ℕ × Word)
  /-- The table that the hardware is to run at the next trigger. -/
  pending : List (ℕ × Word)
  /-- The hardware has run a table, and its interrupt is still to come. -/
  done : Bool

/-- `struct rdma_device_info`: the channels, the table of conflicts and the registers. -/
structure Info where
  ins : ℕ → Ins
  /-- `rdma_reg`; the address 0 is that of a free entry. -/
  conflict : ℕ → ℕ × Word
  hw : ℕ → Word
  /-- `lowlatency_reg.rdma_handle`. -/
  lowlatency : ℕ
  /-- `rdma_done_detect_cnt`. -/
  detectCnt : Word

namespace Info

/-- A channel changes. -/
def setIns (s : Info) (h : ℕ) (x : Ins) : Info := { s with ins := update s.ins h x }

theorem ins_setIns (s : Info) (h : ℕ) (x : Ins) : (s.setIns h x).ins h = x := update_self ..

theorem ins_setIns_of_ne (s : Info) (x : Ins) {h i : ℕ} (hi : i ≠ h) :
    (s.setIns h x).ins i = s.ins i := update_of_ne hi ..

/-- An entry of the table of conflicts changes. -/
def setConflict (s : Info) (k : ℕ) (x : ℕ × Word) : Info :=
  { s with conflict := update s.conflict k x }

theorem conflict_setConflict (s : Info) (k : ℕ) (x : ℕ × Word) :
    (s.setConflict k x).conflict k = x := update_self ..

theorem conflict_setConflict_of_ne (s : Info) (x : ℕ × Word) {k l : ℕ} (hl : l ≠ k) :
    (s.setConflict k x).conflict l = s.conflict l := update_of_ne hl ..

/-! ## Conflicts -/

/-- The entry of an address. -/
def findEntry (s : Info) (adr : ℕ) : Option ℕ :=
  (List.range maxConflict).find? fun k => (s.conflict k).1 = adr

/-- The place for a conflict with the channel `i`. What is looked at is entry `i`, whichever place
    it is asked for. -/
def findPlace (s : Info) (i : ℕ) : Option ℕ :=
  (List.range maxConflict).find? fun _ => (s.conflict i).1 = 0

/-- A look at one item of the queue of the channel `i`. -/
def checkItem (i adr : ℕ) (item : ℕ × Word) (t : Info × Option Word) :
    (Info × Option Word) × Bool :=
  if item.1 ≠ adr then (t, false)
  else
    match t.1.findPlace i with
    | some k => ((t.1.setConflict k (adr, item.2), some item.2), true)
    | none => (t, false)

/-- A look at the queue of the channel `i`. -/
def checkChannel (h adr i : ℕ) (t : Info × Option Word) : (Info × Option Word) × Bool :=
  let oth := t.1.ins i
  if oth.tableSize = 0 ∨ oth.queue = [] ∨ i = h then (t, false)
  else loop (checkItem i adr) oth.queue t

/-- `rdma_check_conflict`: the value of the address, if it is in conflict with another channel. -/
def checkConflict (P : Setup) (s : Info) (h adr : ℕ) : Info × Option Word :=
  match s.findEntry adr with
  | some k => (s, some (s.conflict k).2)
  | none => (loop (checkChannel h adr) (List.range P.channelNum) (s, none)).1

/-- `rdma_update_conflict`. -/
def updateConflict (s : Info) (adr : ℕ) (val : Word) : Info :=
  match s.findEntry adr with
  | some k => s.setConflict k ((s.conflict k).1, val)
  | none => s

/-- `rdma_update_conflict`, if the check has found something. -/
def updateIf (t : Info × Option Word) (adr : ℕ) (val : Word) : Info :=
  if t.2.isSome then t.1.updateConflict adr val else t.1

/-! ## Writes -/

/-- There is room for one more item in the queue. -/
def Room (x : Ins) : Prop := 2 * x.queue.length + 1 < x.tableSize / 4

instance (x : Ins) : Decidable (Room x) := inferInstanceAs (Decidable (_ < _))

/-- An item is queued. Without room the queue is written to the registers first; `none` if the item
    is then stored outside the buffer. -/
def push (s : Info) (h adr : ℕ) (val : Word) : Option Info :=
  let x := s.ins h
  if Room x then some (s.setIns h { x with queue := x.queue ++ [(adr, val)] })
  else if x.tableSize / 4 < 2 then none
  else
    some ({ s with hw := replay s.hw x.queue }.setIns h
      { x with queue := [(adr, val)], mirror := [] })

/-- `rdma_write_reg`. -/
def writeReg (P : Setup) (s : Info) (h adr : ℕ) (val : Word) : Option Info :=
  if (s.ins h).tableSize = 0 then some s
  else (updateIf (s.checkConflict P h adr) adr val).push h adr val

/-- The value of an address in the table of the low-latency channel. -/
def lowlatencyVal (P : Setup) (s : Info) (h adr : ℕ) : Option Word :=
  if h ≠ s.lowlatency ∧ 0 < s.lowlatency ∧ s.lowlatency < P.channelNum then
    lastWrite (s.ins s.lowlatency).mirror adr
  else none

/-- The bits `[start, start + len)` are cleared, and `val` is put there. The mask is a `long`. -/
def mergeBits (readVal val : Word) (start len : ℕ) : Word :=
  ((readVal.setWidth 64 &&& ~~~(BitVec.ofNat 64 (2 ^ len - 1) <<< start)) |||
    (val <<< start).setWidth 64).setWidth 32

/-- The value that the bits are merged with, where the check of conflicts has found `oth`. -/
def bitsBase (P : Setup) (s : Info) (h adr : ℕ) (oth : Option Word) : Word :=
  let x := s.ins h
  match lastWrite x.queue adr with
  | some v => oth.getD v
  | none =>
    if (lastWrite x.mirror adr).isSome ∧ oth = none then (lastWrite x.mirror adr).getD (s.hw adr)
    else (s.lowlatencyVal P h adr).getD (oth.getD (s.hw adr))

/-- The value that `rdma_write_reg_bits` writes. -/
def bitsVal (P : Setup) (s : Info) (h adr : ℕ) (val : Word) (start len : ℕ) : Word :=
  mergeBits (s.bitsBase P h adr (s.checkConflict P h adr).2) val start len

/-- `rdma_write_reg_bits`. An item of the queue is changed in its place. -/
def writeRegBits (P : Setup) (s : Info) (h adr : ℕ) (val : Word) (start len : ℕ) : Option Info :=
  if (s.ins h).tableSize = 0 then some s
  else
    let writeVal := s.bitsVal P h adr val start len
    let s' := updateIf (s.checkConflict P h adr) adr writeVal
    match lastIdx (s.ins h).queue adr with
    | some i => some (s'.setIns h { s.ins h with queue := (s.ins h).queue.set i (adr, writeVal) })
    | none => s'.writeReg P h adr writeVal

/-! ## Reads -/

/-- `rdma_read_reg`. The queue is not looked at for an address in the table of conflicts, but the
    mirror is. -/
def readReg (P : Setup) (s : Info) (h adr : ℕ) : Word :=
  let x := s.ins h
  let oth := (s.findEntry adr).map fun k => (s.conflict k).2
  let own := if oth.isSome then none else lastWrite x.queue adr
  match own with
  | some v => v
  | none =>
    match lastWrite x.mirror adr with
    | some v => v
    | none => (s.lowlatencyVal P h adr).getD (oth.getD (s.hw adr))

/-! ## Tables -/

/-- The register that `rdma_config` writes by itself, for the channel of `PRE_VSYNC_RDMA`. -/
def detects (P : Setup) (h : ℕ) : Option ℕ := if h = P.preVsyncHandle then P.detectReg else none

/-- The counter is queued behind the other writes. -/
def writeDetect (P : Setup) (s : Info) (h : ℕ) : Option Info :=
  match detects P h with
  | some reg => { s with detectCnt := s.detectCnt + 1 }.writeReg P h reg (s.detectCnt + 1)
  | none => some s

/-- The trigger is one that the hardware takes. -/
def Triggers (P : Setup) (trigger : ℕ) : Prop := 0 < trigger ∧ trigger ≤ 2 ^ P.triggerMaskLen

instance (P : Setup) (trigger : ℕ) : Decidable (Triggers P trigger) :=
  inferInstanceAs (Decidable (_ ∧ _))

/-- The queue becomes a table. With a trigger that is none of the known ones only the mirror is
    overwritten. -/
def submit (P : Setup) (s : Info) (h trigger : ℕ) : Info :=
  let x := s.ins h
  if Triggers P trigger then s.setIns h { x with mirror := x.queue, pending := x.queue }
  else if trigger = 0x101 ∨ trigger = 0x102 then
    { s with hw := replay s.hw x.queue }.setIns h { x with mirror := [] }
  else
    s.setIns h { x with
      mirror := (x.queue ++ x.mirror.drop x.queue.length).take x.mirror.length }

/-- `rdma_item_count = 0`, but for the channel of `VSYNC_RDMA_READ`. -/
def clearQueue (P : Setup) (s : Info) (h : ℕ) : Info :=
  if h = P.readHandle then s else s.setIns h { s.ins h with queue := [] }

/-- The channel is one that `rdma_config` works on. -/
def Configures (P : Setup) (s : Info) (h : ℕ) : Prop :=
  0 < h ∧ h < P.channelNum ∧ P.enable h = true ∧ (s.ins h).registered = true

instance (P : Setup) (s : Info) (h : ℕ) : Decidable (s.Configures P h) :=
  inferInstanceAs (Decidable (_ ∧ _))

/-- `rdma_config`. -/
def config (P : Setup) (s : Info) (h trigger : ℕ) (omitLock : Bool) : Option Info :=
  let x := s.ins h
  let bufferLock := !omitLock && x.lockFlag
  if ¬ s.Configures P h then some s
  else if x.queue = [] ∨ trigger = 0 ∨ bufferLock = true then
    let s' := s.setIns h { x with mirror := [], pending := [] }
    some (if bufferLock then s' else s'.clearQueue P h)
  else
    match s.writeDetect P h with
    | none => none
    | some s' => some ((s'.submit P h trigger).clearQueue P h)

/-! ## The hardware -/

/-- The hardware runs the table of a channel. -/
def fire (s : Info) (h : ℕ) : Option Info :=
  let x := s.ins h
  if x.pending = [] then none
  else some ({ s with hw := replay s.hw x.pending }.setIns h { x with pending := [], done := true })

/-- `rdma_mgr_isr`: the interrupts are acknowledged, and the conflicts that are over go. -/
def isr (s : Info) : Info :=
  { s with
    ins := fun h => { s.ins h with done := false }
    conflict := fun k =>
      if (s.conflict k).1 ≠ 0 ∧ s.hw (s.conflict k).1 = (s.conflict k).2 then (0, (s.conflict k).2)
      else s.conflict k }

end Info

/-- What can happen next. -/
inductive Op where
  | write (h adr : ℕ) (val : Word)
  | writeBits (h adr : ℕ) (val : Word) (start len : ℕ)
  | read (h adr : ℕ)
  | config (h trigger : ℕ) (omitLock : Bool)
  | fire (h : ℕ)
  | isr
  | markLowlatency (h : ℕ)

namespace Info

/-- A step; a read changes nothing. -/
def step (P : Setup) (s : Info) : Op → Option Info
  | .write h adr val => s.writeReg P h adr val
  | .writeBits h adr val start len => s.writeRegBits P h adr val start len
  | .read _ _ => some s
  | .config h trigger omitLock => s.config P h trigger omitLock
  | .fire h => s.fire h
  | .isr => some s.isr
  | .markLowlatency h => some { s with lowlatency := h }

end Info

end CommonDrivers.Rdma
