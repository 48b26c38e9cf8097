import CommonDrivers.Lib.Walk

/-!
# The PID filters of the demux

The hardware has a table of 1024 PID filters, and each stream id has a range of it. An output
element for a recording or for a clone of the stream takes a *slot* of the table for each of its
PIDs (`ts_output.c`). The slots of an element are linked through the table itself. When a demux gets
another stream, the slots of its recordings move to the range of the new stream id.

The elements of the other formats take no slot, and are left out, with the buffers behind the
channels and the callbacks as such. An open element has a channel, so that `pchan` is not checked
where the source does not.
-/

namespace CommonDrivers.PidFilter

open Function

/-- `MAX_TS_PID_NUM`. -/
def maxTsPidNum : ℕ := 1024

/-- `MAX_SID_NUM`. -/
def maxSidNum : ℕ := 64

/-- `MAX_OUT_ELEM_NUM`. -/
def maxOutElemNum : ℕ := 128

/-- `u16`. -/
abbrev Pid := BitVec 16

/-- `DVR_FORMAT` and `CLONE_FORMAT`. -/
inductive Format where
  | dvr
  | clone
deriving DecidableEq

/-- `struct pid_entry`. -/
structure Slot where
  used : Bool
  pid : Pid
  pidMask : Pid
  ref : BitVec 8
  pnext : Option ℕ

/-- `struct sid_entry`. -/
structure Sid where
  used : Bool
  pidEntryBegin : ℤ
  pidEntryNum : ℤ

/-- `struct chan_id`. -/
structure Chan where
  id : ℕ
  secLevel : ℕ

/-- `struct cb_entry`. -/
structure Cb where
  id : ℕ
  demuxId : ℕ
  ref : BitVec 8

/-- `struct out_elem`. -/
structure Elem where
  used : Bool
  sid : ℕ
  format : Format
  /-- The entries of `cb_ts_list`. -/
  ref : BitVec 8
  pidList : Option ℕ
  pchan : Option Chan
  cbTsList : List Cb

/-- A filter of the hardware. If it is not `onOff`, the packets are dropped. -/
structure HwPid where
  pid : BitVec 13
  pidMask : BitVec 13
  bufferId : ℕ
  onOff : Bool
deriving DecidableEq

/-- The tables of `ts_output.c`, and the filters that the hardware has. -/
structure Output where
  pidTable : ℕ → Slot
  sidTable : ℕ → Sid
  outElem : ℕ → Elem
  /-- `s_cur_sid_pid_index`. -/
  curSidPidIndex : ℤ
  /-- `ts_output_max_pid_num_per_sid`, a module parameter. -/
  maxPidNumPerSid : ℤ
  hw : ℕ → Option HwPid

namespace Output

def setSlot (s : Output) (i : ℕ) (x : Slot) : Output :=
  { s with pidTable := update s.pidTable i x }

def setElem (s : Output) (e : ℕ) (x : Elem) : Output :=
  { s with outElem := update s.outElem e x }

/-! ## Slots -/

/-- The sum of two `int`. -/
def intAdd (a b : ℤ) : ℤ := (a + b).bmod (2 ^ 32)

/-- `_init_sid_pid`. -/
def initSidPid (s : Output) (sid : ℕ) : Output × Bool :=
  let next := intAdd s.curSidPidIndex s.maxPidNumPerSid
  if maxSidNum ≤ sid then (s, false)
  else if (s.sidTable sid).used then (s, true)
  else if maxTsPidNum < next then (s, false)
  else
    ({ s with
        sidTable := update s.sidTable sid ⟨true, s.curSidPidIndex, s.maxPidNumPerSid⟩
        curSidPidIndex := next }, true)

/-- A slot in the row of `i` has the PID. -/
def rowHas (s : Output) (i : ℕ) (pid : Pid) : Bool :=
  (List.range' (i / 4 * 4) 4).any fun j => (s.pidTable j).used && (s.pidTable j).pid == pid

/-- The slot can be taken for the PID. -/
def isFree (s : Output) (pid : Pid) (i : ℕ) : Bool := !(s.pidTable i).used && !s.rowHas i pid

/-- The slots of a stream id, `[start, end)`. An index below 0, outside of the table, is not
    modelled: it takes a negative parameter. -/
def slotsOf (s : Output) (sid : ℕ) : List ℕ :=
  let x := s.sidTable sid
  let stop := intAdd x.pidEntryBegin x.pidEntryNum
  List.range' x.pidEntryBegin.toNat (stop - x.pidEntryBegin).toNat

/-- `_malloc_pid_entry_slot`. -/
def mallocPidEntrySlot (s : Output) (sid : ℕ) (pid : Pid) : Output × Option ℕ :=
  if maxSidNum ≤ sid then (s, none)
  else if (s.initSidPid sid).2 = false then ((s.initSidPid sid).1, none)
  else
    let s' := (s.initSidPid sid).1
    (s', ((s'.slotsOf sid).takeWhile (· < maxTsPidNum)).find? (s'.isFree pid))

/-- `_free_pid_entry_slot`. -/
def freePidEntrySlot (s : Output) (i : ℕ) : Output :=
  s.setSlot i { s.pidTable i with pid := -1, pidMask := 0, used := false }

/-- What `tsout_config_ts_table` writes. NULL packets are dropped. -/
def hwPid (pid pidMask : Pid) (bufferId : ℕ) : HwPid :=
  ⟨pid.setWidth 13, pidMask.setWidth 13, bufferId, !(pid == 0x1fff && pidMask == 0)⟩

/-- The buffer of an element. -/
def bufferId (s : Output) (e : ℕ) : ℕ := ((s.outElem e).pchan.map Chan.id).getD 0

/-- `tsout_config_ts_table` for a slot. -/
def turnOn (s : Output) (i e : ℕ) : Output :=
  let x := hwPid (s.pidTable i).pid (s.pidTable i).pidMask (s.bufferId e)
  { s with hw := update s.hw i (some x) }

/-- `tsout_config_ts_table` with the PID -1. -/
def turnOff (s : Output) (i : ℕ) : Output := { s with hw := update s.hw i none }

/-! ## Elements -/

/-- `ts_output_open`: the element, where there is one. `chan` is what `SC2_bufferid_alloc` gives,
    and `mem` is false if there is no memory for the entry in the list of the task. -/
def tsOutputOpen (s : Output) (sid : ℕ) (format : Format) (chan : Option Chan) (mem : Bool) :
    Output × Option ℕ :=
  if maxSidNum ≤ sid then (s, none)
  else
    match (List.range maxOutElemNum).find? fun e => !(s.outElem e).used with
    | none => (s, none)
    | some e =>
      let x := { s.outElem e with format := format, sid := sid, pidList := none, ref := 0 }
      match chan with
      | none => (s.setElem e x, none)
      | some c =>
        if format = .clone ∨ mem = true then
          (s.setElem e { x with pchan := some c, used := true }, some e)
        else (s.setElem e { x with pchan := some c }, none)

/-- `ts_output_close`; false if the element is still in use. -/
def tsOutputClose (s : Output) (e : ℕ) : Output × Bool :=
  if (s.outElem e).ref ≠ 0 then (s, false)
  else (s.setElem e { s.outElem e with used := false, pchan := none }, true)

/-- The links of the table. -/
def pnext (s : Output) (i : ℕ) : Option ℕ := (s.pidTable i).pnext

/-- A slot is taken, and comes first in the list of the element. -/
def linkSlot (s : Output) (e i : ℕ) (pid pidMask : Pid) : Output :=
  ((s.setSlot i ⟨true, pid, pidMask, 1, (s.outElem e).pidList⟩).setElem e
    { s.outElem e with pidList := some i }).turnOn i e

/-- The slot of the element with the PID. -/
def findPid (s : Output) (e : ℕ) (pid : Pid) : Option (Unit × Option ℕ) :=
  walk (fun _ => s.pnext) (fun i u => (u, (s.pidTable i).pid == pid)) maxTsPidNum
    (s.outElem e).pidList ()

/-- `ts_output_add_pid` for a clone: a filter for the NULL packets, and one for all. -/
def addClone (s : Output) (e : ℕ) : Output × Bool :=
  match s.mallocPidEntrySlot (s.outElem e).sid 0x1fff with
  | (s, none) => (s, false)
  | (s, some i) =>
    if (s.outElem e).pchan.isNone then (s.freePidEntrySlot i, false)
    else
      match (s.linkSlot e i 0x1fff 0).mallocPidEntrySlot (s.outElem e).sid 0x1ffe with
      | (s, none) => (s, false)
      | (s, some j) => (s.linkSlot e j 0x1ffe 0x1fff, true)

/-- `ts_output_add_pid` for a recording. A PID that is there gets one more reference. -/
def addDvr (s : Output) (e : ℕ) (pid pidMask : Pid) : Option (Output × Bool) :=
  match s.findPid e pid with
  | none => none
  | some (_, some i) =>
    some (s.setSlot i { s.pidTable i with ref := (s.pidTable i).ref + 1 }, true)
  | some (_, none) =>
    match s.mallocPidEntrySlot (s.outElem e).sid pid with
    | (s, none) => some (s, false)
    | (s, some i) =>
      if (s.outElem e).pchan.isNone then some (s.freePidEntrySlot i, false)
      else some (s.linkSlot e i pid pidMask, true)

/-- `ts_output_add_pid`; `none` if it does not return. -/
def tsOutputAddPid (s : Output) (e : ℕ) (pid pidMask : Pid) : Option (Output × Bool) :=
  match (s.outElem e).format with
  | .clone => some (s.addClone e)
  | .dvr => s.addDvr e pid pidMask

/-- A slot is taken out of the list, after `prev`. -/
def unlink (s : Output) (e : ℕ) (prev : Option ℕ) (i : ℕ) : Output :=
  match prev with
  | none => s.setElem e { s.outElem e with pidList := s.pnext i }
  | some j => s.setSlot j { s.pidTable j with pnext := s.pnext i }

/-- `ts_output_remove_pid` for a recording. -/
def removeDvr (s : Output) (e : ℕ) (pid : Pid) : Option Output :=
  match walk (fun _ => s.pnext)
    (fun i prev => if (s.pidTable i).pid = pid ∧ (s.pidTable i).ref ≠ 0 then (prev, true)
      else (some i, false)) maxTsPidNum (s.outElem e).pidList none with
  | none => none
  | some (_, none) => some s
  | some (prev, some i) =>
    if 1 < (s.pidTable i).ref then
      some (s.setSlot i { s.pidTable i with ref := (s.pidTable i).ref - 1 })
    else some (((s.unlink e prev i).turnOff i).freePidEntrySlot i)

/-- `ts_output_remove_pid` for a clone. The list stays as it is. -/
def removeClone (s : Output) (e : ℕ) : Option Output :=
  (walk pnext (fun i s => ((s.turnOff i).freePidEntrySlot i, false)) maxTsPidNum
    (s.outElem e).pidList s).map Prod.fst

/-- `ts_output_remove_pid`. -/
def tsOutputRemovePid (s : Output) (e : ℕ) (pid : Pid) : Option Output :=
  match (s.outElem e).format with
  | .clone => s.removeClone e
  | .dvr => s.removeDvr e pid

/-! ## Callbacks -/

/-- `ts_output_add_cb` for a recording; `mem` is false if there is no memory for an entry. -/
def tsOutputAddCb (s : Output) (e cbId demuxId : ℕ) (mem : Bool) : Output :=
  let x := s.outElem e
  match x.cbTsList.findIdx? fun c => c.id == cbId with
  | some k =>
    s.setElem e { x with cbTsList := x.cbTsList.modify k fun c => { c with ref := c.ref + 1 } }
  | none =>
    if mem then
      s.setElem e { x with cbTsList := ⟨cbId, demuxId, 0⟩ :: x.cbTsList, ref := x.ref + 1 }
    else s

/-- `ts_output_remove_cb` for a recording. -/
def tsOutputRemoveCb (s : Output) (e cbId : ℕ) : Output :=
  let x := s.outElem e
  match x.cbTsList.findIdx? fun c => c.id == cbId with
  | none => s
  | some k =>
    if (x.cbTsList[k]?.map Cb.ref).getD 0 = 0 then
      s.setElem e { x with cbTsList := x.cbTsList.eraseIdx k, ref := x.ref - 1 }
    else s.setElem e { x with cbTsList := x.cbTsList.modify k fun c => { c with ref := c.ref - 1 } }

/-! ## Another stream -/

/-- The state of the loop of `update_dvr_sid`. -/
structure Move where
  out : Output
  head : Option ℕ
  prev : Option ℕ

/-- A slot is linked behind `prev`. -/
def linkBehind (s : Output) (prev : Option ℕ) (i : ℕ) : Output :=
  match prev with
  | none => s
  | some j => s.setSlot j { s.pidTable j with pnext := some i }

/-- The new slot is the first one, or is linked behind the last one. -/
def Move.append (m : Move) (i : ℕ) : Move :=
  match m.head with
  | none => ⟨m.out, some i, some i⟩
  | some h => ⟨m.out.linkBehind m.prev i, some h, some i⟩

/-- A slot moves; the loop is left if there is no place for it. -/
def moveSlot (e i : ℕ) (m : Move) : Move × Bool :=
  match (m.out.turnOff i).mallocPidEntrySlot (m.out.outElem e).sid (m.out.pidTable i).pid with
  | (s, none) => ({ m with out := s.freePidEntrySlot i }, true)
  | (s, some k) =>
    let x := { s.pidTable i with used := true, pnext := none }
    let m' := { m with out := s.setSlot k x }.append k
    ({ m' with out := (m'.out.turnOn k e).freePidEntrySlot i }, false)

/-- `update_dvr_sid`. -/
def updateDvrSid (s : Output) (e sid : ℕ) : Option Output :=
  let s := s.setElem e { s.outElem e with sid := sid % 256 }
  match walk (fun m => m.out.pnext) (moveSlot e) maxTsPidNum (s.outElem e).pidList
    ⟨s, none, none⟩ with
  | none => none
  | some (m, some _) => some m.out
  | some (m, none) => some (m.out.setElem e { m.out.outElem e with pidList := m.head })

/-- The element is a recording for the demux. -/
def recordsFor (s : Output) (dmx e : ℕ) : Bool :=
  (s.outElem e).used && (s.outElem e).format == .dvr &&
    (s.outElem e).cbTsList.any fun c => c.demuxId == dmx

/-- The stream id that the elements get; `loop` is `get_dvb_loop_tsn`. -/
def loopSid (sid : ℕ) (loop : Bool) : ℕ := if loop && sid < 32 then sid + 32 else sid

/-- `ts_output_update_filter`. -/
def tsOutputUpdateFilter (s : Output) (dmx sid : ℕ) (loop : Bool) : Option Output :=
  (List.range maxOutElemNum).foldlM
    (fun s e => if s.recordsFor dmx e then s.updateDvrSid e (loopSid sid loop) else some s) s

/-! ## Feeds and clones -/

/-- What a call gets from outside. -/
structure Resources where
  /-- `SC2_bufferid_alloc`. -/
  chan : Option Chan
  /-- `kmalloc`. -/
  node : Bool
  /-- `ts_output_set_mem`: the security level of the buffer. -/
  level : Option ℕ
  /-- `vmalloc`. -/
  cb : Bool

/-- `ts_output_find_dvr`. -/
def tsOutputFindDvr (s : Output) (sid secLevel : ℕ) : Option ℕ :=
  (List.range maxOutElemNum).find? fun e =>
    let x := s.outElem e
    x.used && x.sid == sid && x.format == .dvr && x.pchan.any fun c => c.secLevel == secLevel

/-- The filters of a feed. The PID 0x2000 stands for all packets but the NULL packets. -/
def addFeedPid (s : Output) (e : ℕ) (pid : Pid) : Option (Output × Bool) :=
  if pid = 0x2000 then
    match s.tsOutputAddPid e 0x1fff 0 with
    | none => none
    | some (s, _) => s.tsOutputAddPid e pid 0x1fff
  else s.tsOutputAddPid e pid 0

/-- `ts_output_set_mem`. -/
def setMem (s : Output) (e level : ℕ) : Output := s.setElem e { s.outElem e with
    pchan := (s.outElem e).pchan.map fun c => { c with secLevel := level } }

/-- `_dmx_ts_feed_set` for a recording. -/
def dmxTsFeedSet (s : Output) (dmx sid secLevel : ℕ) (pid : Pid) (r : Resources) : Option Output :=
  match s.tsOutputFindDvr sid secLevel with
  | some e =>
    match s.addFeedPid e pid with
    | none => none
    | some (s, _) => some (s.tsOutputAddCb e dmx dmx r.cb)
  | none =>
    match s.tsOutputOpen sid .dvr r.chan r.node with
    | (s, none) => some s
    | (s, some e) =>
      match r.level with
      | none => some (s.tsOutputClose e).1
      | some level =>
        match (s.setMem e level).addFeedPid e pid with
        | none => none
        | some (s, false) => some (s.tsOutputClose e).1
        | some (s, true) => some (s.tsOutputAddCb e dmx dmx r.cb)

/-- `_ts_clone_open_output`. -/
def tsCloneOpenOutput (s : Output) (sid : ℕ) (loop : Bool) (r : Resources) : Option Output :=
  match s.tsOutputOpen (loopSid sid loop) .clone r.chan r.node with
  | (s, none) => some s
  | (s, some e) =>
    match r.level with
    | none => some (s.tsOutputClose e).1
    | some _ =>
      match (s.setMem e 0).tsOutputAddPid e 0x1fff 0x1fff with
      | none => none
      | some (s, false) => some (s.tsOutputClose e).1
      | some (s, true) => some s

/-- `_ts_clone_close_output`. -/
def tsCloneCloseOutput (s : Output) (e : ℕ) : Option Output :=
  (s.tsOutputRemovePid e 0x1fff).map fun s => (s.tsOutputClose e).1

end Output

/-- What can happen next; `setParam` is a write to the module parameter. -/
inductive Op where
  | setParam (num : ℤ)
  | openElem (sid : ℕ) (format : Format) (r : Output.Resources)
  | addPid (e : ℕ) (pid pidMask : Pid)
  | removePid (e : ℕ) (pid : Pid)
  | addCb (e cbId demuxId : ℕ) (mem : Bool)
  | removeCb (e cbId : ℕ)
  | updateFilter (dmx sid : ℕ) (loop : Bool)
  | close (e : ℕ)
  | feedSet (dmx sid secLevel : ℕ) (pid : Pid) (r : Output.Resources)
  | cloneOpen (sid : ℕ) (loop : Bool) (r : Output.Resources)
  | cloneClose (e : ℕ)

namespace Output

/-- A step; `none` if the call does not return. -/
def step (s : Output) : Op → Option Output
  | .setParam num => some { s with maxPidNumPerSid := num }
  | .openElem sid format r => some (s.tsOutputOpen sid format r.chan r.node).1
  | .addPid e pid pidMask => (s.tsOutputAddPid e pid pidMask).map Prod.fst
  | .removePid e pid => s.tsOutputRemovePid e pid
  | .addCb e cbId demuxId mem => some (s.tsOutputAddCb e cbId demuxId mem)
  | .removeCb e cbId => some (s.tsOutputRemoveCb e cbId)
  | .updateFilter dmx sid loop => s.tsOutputUpdateFilter dmx sid loop
  | .close e => some (s.tsOutputClose e).1
  | .feedSet dmx sid secLevel pid r => s.dmxTsFeedSet dmx sid secLevel pid r
  | .cloneOpen sid loop r => s.tsCloneOpenOutput sid loop r
  | .cloneClose e => s.tsCloneCloseOutput e

/-- The call is for an open element, of the format that it is made for. -/
def Calls (s : Output) : Op → Prop
  | .addPid e _ _ | .removePid e _ | .close e => (s.outElem e).used = true
  | .addCb e _ _ _ | .removeCb e _ => (s.outElem e).used = true ∧ (s.outElem e).format = .dvr
  | .cloneClose e => (s.outElem e).used = true ∧ (s.outElem e).format = .clone
  | _ => True

end Output

end CommonDrivers.PidFilter
