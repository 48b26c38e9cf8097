import CommonDrivers.Lib.Extent

/-!
# The secure memory of the demux

Each security level of the demux has memory of its own (`mem_desc.c`), in two
*ranges*. A range is got from the codec memory manager when it is first used. Buffers
are cut off its free tail, one after the other; a buffer that is given back stays a
*region* of the range, to be used again for a request of just its length. Once a range
has no buffer left, the ranges of the level that are not in use are given back.

The calls into the rest of the kernel are answered by a `CodecMm`. It stands for the
memory manager and `vmalloc`, which may fail at any call, and assumes no more than that
memory that is handed out is not handed out already.
-/

namespace CommonDrivers.Dvb

open Function

/-! ## The rest of the kernel -/

/-- `PAGE_SIZE`. -/
def pageSize : ℕ := 4096

/-- What the rest of the kernel answers. The first argument of each field counts the
    calls, so that the answers may differ from call to call. -/
structure CodecMm where
  /-- `codec_mm_alloc_for_dma`, by what is handed out and the number of pages: an
      address, or 0. -/
  allocForDma : ℕ → List Extent → ℕ → ℕ
  /-- Memory is fresh. -/
  fresh : ∀ t held n, allocForDma t held n ≠ 0 →
      ∀ e ∈ held, Extent.Apart ⟨allocForDma t held n, n * pageSize⟩ e
  /-- `codec_mm_phys_to_virt`. -/
  physToVirt : ℕ → ℕ → ℕ
  /-- `vmalloc`, whether it succeeds. -/
  vmalloc : ℕ → Bool
  /-- `tee_protect_mem`: the handle of the memory that is protected. -/
  teeProtectMem : ℕ → ℕ

/-- The memory has addresses of 32 bits, as the fields that hold them. -/
def CodecMm.Low (mm : CodecMm) : Prop :=
  ∀ t held n, mm.allocForDma t held n ≠ 0 → mm.allocForDma t held n + n * pageSize ≤ 2 ^ 32

/-- `IS_ERR_OR_NULL`. -/
def isErrOrNull (p : ℕ) : Prop := p = 0 ∨ 2 ^ 64 - 4095 ≤ p

instance (p : ℕ) : Decidable (isErrOrNull p) := inferInstanceAs (Decidable (_ ∨ _))

/-! ## Ranges -/

/-- `struct mem_region`. -/
structure MemRegion where
  /-- Whether the region is a buffer in use. -/
  status : Bool
  startPhy : ℕ
  startVirt : ℕ
  len : ℕ
  deriving DecidableEq

/-- `struct dmc_range`. -/
structure DmcRange where
  used : Bool
  level : ℕ
  handle : ℕ
  size : ℕ
  bufStartPhy : ℕ
  ref : ℕ
  freeStartPhy : ℕ
  freeLen : ℕ
  regionList : List MemRegion
  deriving DecidableEq

/-- The memory that is handed out to the demux, the calls made so far, and the ranges
    that are destroyed, as they were then. -/
structure World where
  held : List Extent
  clock : ℕ
  destroyed : List DmcRange

/-- A call into the rest of the kernel is made. -/
def World.tick (w : World) : World := { w with clock := w.clock + 1 }

/-- `codec_mm_free_for_dma`. -/
def World.freeForDma (w : World) (start : ℕ) : World :=
  { w with held := w.held.eraseP (·.start = start) }

/-- A buffer: its virtual and its physical address. -/
structure MemBuf where
  virt : ℕ
  phys : ℕ
  deriving DecidableEq, Repr

namespace DmcRange

variable (mm : CodecMm) (range : DmcRange)

/-- The pages of the range. -/
def bufPageNum : ℕ := (range.size + (pageSize - 1)) / pageSize

/-- `dmc_range_init`. The address is an `unsigned long`, and is kept in fields of 32 bits. -/
def init (secLevel : ℕ) (w : World) : World × Option DmcRange :=
  let start := mm.allocForDma w.clock w.held range.bufPageNum
  if start = 0 then (w.tick, none)
  else
    let w' := { w.tick with held := ⟨start, range.bufPageNum * pageSize⟩ :: w.held }
    if isErrOrNull (mm.physToVirt w'.clock start) then (w'.tick.freeForDma start, none)
    else
      let handle := if secLevel = 0 then range.handle else mm.teeProtectMem w'.clock
      (w'.tick, some
        { range with
          used := true, level := secLevel, handle := handle, bufStartPhy := start % 2 ^ 32,
          ref := 0, freeStartPhy := start % 2 ^ 32, freeLen := range.size, regionList := [] })

/-- `dmc_range_destroy`. -/
def destroy (w : World) : World × DmcRange :=
  if range.used then
    ({ w.freeForDma range.bufStartPhy with destroyed := range :: w.destroyed },
      { range with
        used := false, handle := 0, bufStartPhy := 0, freeStartPhy := 0, freeLen := 0,
        regionList := [] })
  else (w, range)

/-- The search of `dmc_range_get_block`: the first region of the length that is not in
    use, and the list with that region in use. -/
def reuse (len : ℕ) : List MemRegion → Option (MemRegion × List MemRegion)
  | [] => none
  | m :: ms =>
    if m.len = len ∧ m.status = false then some (m, { m with status := true } :: ms)
    else (reuse len ms).map fun r => (r.1, m :: r.2)

/-- A new region is cut off the free tail, which then starts on a boundary of 4 KiB, if
    it is long enough. -/
def cut (len virt : ℕ) : DmcRange :=
  let freeLen := range.freeLen - len
  let freeStartPhy := (range.freeStartPhy + len) % 2 ^ 32
  let keep4kAlign := 4096 - freeStartPhy % 4096
  let aligned := freeStartPhy % 4096 ≠ 0 ∧ keep4kAlign < freeLen
  { range with
    regionList := ⟨true, range.freeStartPhy, virt, len⟩ :: range.regionList
    freeLen := if aligned then freeLen - keep4kAlign else freeLen
    freeStartPhy := if aligned then (freeStartPhy + keep4kAlign) % 2 ^ 32 else freeStartPhy
    ref := (range.ref + 1) % 2 ^ 32 }

/-- `dmc_range_get_block`. -/
def getBlock (len : ℕ) (w : World) : World × Option (DmcRange × MemBuf) :=
  match reuse len range.regionList with
  | some (m, ms) =>
    (w, some ({ range with regionList := ms, ref := (range.ref + 1) % 2 ^ 32 },
      ⟨m.startVirt, m.startPhy⟩))
  | none =>
    if range.freeLen < len then (w, none)
    else if mm.vmalloc w.clock = false then (w.tick, none)
    else
      let virt := mm.physToVirt w.tick.clock range.freeStartPhy
      if virt = 0 then (w.tick.tick, none)
      else (w.tick.tick, some (range.cut len virt, ⟨virt, range.freeStartPhy⟩))

/-- The search of `dmc_range_free_block`: the list with the first region in use at the
    address no longer in use. -/
def release (phys : ℕ) : List MemRegion → Option (List MemRegion)
  | [] => none
  | m :: ms =>
    if m.startPhy = phys ∧ m.status = true then some ({ m with status := false } :: ms)
    else (release phys ms).map (m :: ·)

/-- `dmc_range_free_block`. -/
def freeBlock (phys : ℕ) : Option DmcRange := (release phys range.regionList).map fun ms =>
    { range with regionList := ms, ref := (range.ref + (2 ^ 32 - 1)) % 2 ^ 32 }

end DmcRange

/-! ## Levels -/

/-- `struct dmc_mem`. There are `range_num` ranges, once it is initialised. -/
structure DmcMem where
  init : Bool
  level : ℕ
  totalSize : ℕ
  range : List DmcRange

/-- `DMC_MEM_DEFAULT_SIZE`. -/
def dmcMemDefaultSize : ℕ := 20 * 1024 * 1024

namespace DmcMem

variable (mm : CodecMm) (mem : DmcMem)

/-- The sizes of the two ranges of a level. -/
def rangeSizes (totalSize : ℕ) : ℕ × ℕ :=
  let num := totalSize / dmcMemDefaultSize
  if num ≥ 2 ∨ num ≥ 3 then
    if totalSize = 66 * 1024 * 1024 then (44 * 1024 * 1024, 22 * 1024 * 1024)
    else (totalSize / 2, totalSize / 2)
  else if num = 1 ∨ num = 0 then (totalSize, 0)
  else (totalSize - dmcMemDefaultSize, dmcMemDefaultSize)

/-- A range that is all zero but for its size. -/
def zeroRange (size : ℕ) : DmcRange := ⟨false, 0, 0, size, 0, 0, 0, 0, []⟩

/-- `dmc_mem_init`. -/
def memInit (secLevel : ℕ) (w : World) : World × Option DmcMem :=
  if mm.vmalloc w.clock = false then (w.tick, none)
  else
    let sizes := rangeSizes mem.totalSize
    (w.tick, some
      { mem with
        init := true, level := secLevel, range := [zeroRange sizes.1, zeroRange sizes.2] })

/-- The level is initialised by `dmc_mem_malloc`, if need be. -/
def memReady (secLevel : ℕ) (w : World) : World × Option DmcMem :=
  if mem.init then (w, some mem) else mem.memInit mm secLevel w

/-- A range is initialised by `dmc_mem_get_block`, if need be. -/
def ready (level : ℕ) (range : DmcRange) (w : World) : World × Option DmcRange :=
  if range.used = false ∧ range.size ≠ 0 then range.init mm level w else (w, some range)

/-- The loop of `dmc_mem_get_block`. -/
def getBlockLoop (level len : ℕ) : List DmcRange → World → World × List DmcRange × Option MemBuf
  | [], w => (w, [], none)
  | r :: rs, w =>
    match ready mm level r w with
    | (w, none) => (w, r :: rs, none)
    | (w, some r) =>
      match r.getBlock mm len w with
      | (w, some (r, b)) => (w, r :: rs, some b)
      | (w, none) =>
        let next := getBlockLoop level len rs w
        (next.1, r :: next.2.1, next.2.2)

/-- `dmc_mem_get_block`. -/
def getBlock (len : ℕ) (w : World) : World × DmcMem × Option MemBuf :=
  let r := getBlockLoop mm mem.level len mem.range w
  (r.1, { mem with range := r.2.1 }, r.2.2)

/-- The loop of `dmc_mem_destroy`. -/
def destroyLoop : List DmcRange → World → World × List DmcRange
  | [], w => (w, [])
  | r :: rs, w =>
    let d := if r.ref = 0 then r.destroy w else (w, r)
    let next := destroyLoop rs d.1
    (next.1, d.2 :: next.2)

/-- `dmc_mem_destroy`. -/
def destroy (w : World) : World × DmcMem :=
  let r := destroyLoop mem.range w
  if r.2.any (·.used) then (r.1, { mem with range := r.2 })
  else (r.1, { mem with range := [], init := false })

/-- The loop of `dmc_mem_free_block`: the ranges, and the one the buffer is freed in. -/
def freeBlockLoop (phys : ℕ) : List DmcRange → Option (List DmcRange × DmcRange)
  | [] => none
  | r :: rs =>
    match (if r.used = true ∧ r.size ≠ 0 then r.freeBlock phys else none) with
    | some r' => some (r' :: rs, r')
    | none => (freeBlockLoop phys rs).map fun q => (r :: q.1, q.2)

/-- `dmc_mem_free_block`, given `dmc_keep_alive`. -/
def freeBlock (phys : ℕ) (keepAlive : Bool) (w : World) : Option (World × DmcMem) :=
  (freeBlockLoop phys mem.range).map fun q =>
    let mem' := { mem with range := q.1 }
    if q.2.ref = 0 ∧ keepAlive = false then mem'.destroy w else (w, mem')

end DmcMem

/-! ## All levels -/

/-- `dmc_mem_level`, with the world and, by level, the buffers that are handed out and not
    freed. -/
structure DmcState where
  dmcMemLevel : ℕ → DmcMem
  world : World
  live : ℕ → List Extent

namespace DmcState

variable (mm : CodecMm) (s : DmcState)

/-- The level `i` gets the memory `mem`. -/
def setLevel (i : ℕ) (mem : DmcMem) (w : World) : DmcState :=
  { s with dmcMemLevel := update s.dmcMemLevel i mem, world := w }

/-- `dmc_mem_malloc`. -/
def memMalloc (secLevel : ℤ) (len : ℕ) : DmcState × Option MemBuf :=
  let dmcIndex := secLevel - 1
  if dmcIndex < 0 ∨ dmcIndex ≥ 7 then (s, none)
  else
    let i := dmcIndex.toNat
    match (s.dmcMemLevel i).memReady mm secLevel.toNat s.world with
    | (w, none) => ({ s with world := w }, none)
    | (w, some mem) =>
      let r := mem.getBlock mm len w
      (s.setLevel i r.2.1 r.1, r.2.2)

/-- `dmc_mem_free`: whether the buffer was freed. -/
def memFree (buf : ℕ) (secLevel : ℤ) (keepAlive : Bool) : DmcState × Bool :=
  let dmcIndex := secLevel - 1
  if dmcIndex < 0 ∨ dmcIndex ≥ 7 then (s, false)
  else
    let i := dmcIndex.toNat
    let mem := s.dmcMemLevel i
    if mem.init = false then (s, false)
    else
      match mem.freeBlock buf keepAlive s.world with
      | none => (s, false)
      | some (w, mem) => (s.setLevel i mem w, true)

/-- `dmc_mem_set_size`. -/
def memSetSize (secLevel : ℤ) (memSize : ℕ) : DmcState :=
  let dmcIndex := secLevel - 1
  if dmcIndex < 0 ∨ dmcIndex ≥ 7 then s
  else
    let i := dmcIndex.toNat
    let mem := s.dmcMemLevel i
    if mem.init then s
    else
      s.setLevel i { mem with totalSize := memSize / (64 * 1024) * (64 * 1024) } s.world

/-- A buffer is asked for, and lives if it is got. -/
def malloc (secLevel : ℤ) (len : ℕ) : DmcState :=
  match s.memMalloc mm secLevel len with
  | (s', none) => s'
  | (s', some b) =>
    let i := (secLevel - 1).toNat
    { s' with live := update s'.live i (⟨b.phys, len⟩ :: s'.live i) }

/-- A buffer is freed, and lives no more if it is found. -/
def free (buf : ℕ) (secLevel : ℤ) (keepAlive : Bool) : DmcState :=
  match s.memFree buf secLevel keepAlive with
  | (s', false) => s'
  | (s', true) =>
    let i := (secLevel - 1).toNat
    { s' with live := update s'.live i ((s'.live i).eraseP (·.start = buf)) }

/-- No level is initialised. -/
def start : DmcState := ⟨fun _ => ⟨false, 0, 0, []⟩, ⟨[], 0, []⟩, fun _ => []⟩

/-- The states any sequence of calls leads to, with any arguments, but that the lengths
    are those of an `int` above 0. -/
inductive Reachable : DmcState → Prop
  | start : Reachable start
  | malloc {s : DmcState} (h : Reachable s) (secLevel : ℤ) {len : ℕ} (pos : 0 < len)
      (lt : len < 2 ^ 31) : Reachable (s.malloc mm secLevel len)
  | free {s : DmcState} (h : Reachable s) (buf : ℕ) (secLevel : ℤ) (keepAlive : Bool) :
      Reachable (s.free buf secLevel keepAlive)
  | setSize {s : DmcState} (h : Reachable s) (secLevel : ℤ) {memSize : ℕ}
      (lt : memSize < 2 ^ 32) : Reachable (s.memSetSize secLevel memSize)

end DmcState

end CommonDrivers.Dvb
