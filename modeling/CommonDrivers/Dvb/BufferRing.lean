import CommonDrivers.Lib.Extent
import CommonDrivers.Lib.Ring
import CommonDrivers.Lib.Word

/-!
# Reading the ring of a demux channel

A channel of the demux writes a stream of bytes into a ring of `mem_size` bytes, and
the driver (`mem_desc.c`) reads it. It has two offsets only: its own, and the one the
hardware has written up to, which it gets from the registers of the channel. A read
returns a span of the buffer that does not wrap around, and may be taken back in part.

`RingState.reading` says that the bytes read are those written, for every interleaving
of writes, reads and rewinds in which the hardware does not overtake the reader. The
offsets are of 32 bits: as a rewind adds the size of the ring to the offset, the ring
must not be larger than 2 GiB.
-/

namespace CommonDrivers.Dvb

open List Nat

/-- The registers of a channel. -/
structure Wdma where
  /-- The channel's bit of `TS_DMA_WCH_ACTIVE`. -/
  active : Bool
  /-- `TS_DMA_WCH_WR_LEN`. -/
  wrLen : ℕ
  /-- `TS_DMA_WCH_LEN`. -/
  len : ℕ

/-- `wdma_get_wr_len`. -/
def Wdma.getWrLen (d : Wdma) : ℕ :=
  if d.active then if d.wrLen = 0 then d.len else d.wrLen else 0

/-- A register of 0 stands for a whole lap. -/
theorem getWrLen_mod (wrLen len : ℕ) : Wdma.getWrLen ⟨true, wrLen, len⟩ % len = wrLen % len := by
  rw [Wdma.getWrLen, if_pos rfl]
  split
  · next h =>
    rw [mod_self, show wrLen = 0 from h, zero_mod]
  · rfl

/-- `struct chan_id`. -/
structure ChanId where
  mem : ℕ
  memPhy : ℕ
  memSize : ℕ
  rOffset : ℕ
  lastWAddr : ℕ
  deriving DecidableEq

namespace ChanId

variable (pchan : ChanId) (d : Wdma)

/-- The offset up to which the hardware has written. -/
def wOffset : ℕ := d.getWrLen % pchan.memSize

/-- Where a buffer starts, as seen by the caller of a read. -/
def base (isSecure : Bool) : ℕ := if isSecure then pchan.memPhy else pchan.mem

/-- `SC2_bufferid_get_free_size`. -/
def getFreeSize : ℕ :=
  let nowW := pchan.wOffset d
  if nowW ≥ pchan.rOffset then u32 (pchan.memSize - (nowW - pchan.rOffset))
  else u32 (pchan.rOffset - nowW)

/-- `SC2_bufferid_get_data_len`. -/
def getDataLen : ℕ :=
  let wOffset := pchan.wOffset d
  if wOffset ≥ pchan.rOffset then u32 (wOffset - pchan.rOffset)
  else u32 (pchan.memSize - pchan.rOffset + wOffset)

/-- `SC2_bufferid_read`: the channel after it, what it returns, and the address it stores
    in `pread`, if any. -/
def read (len : ℕ) (isSecure : Bool) : ChanId × ℤ × Option ℕ :=
  let wOffset := pchan.wOffset d
  let pchan := { pchan with lastWAddr := wOffset }
  let pread := pchan.base isSecure + pchan.rOffset
  if wOffset ≠ pchan.rOffset then
    if wOffset > pchan.rOffset then
      let dataLen := min (u32 (wOffset - pchan.rOffset)) len
      ({ pchan with rOffset := u32 (pchan.rOffset + dataLen) % pchan.memSize }, i32 dataLen,
        some pread)
    else
      let part1Len := u32 (pchan.memSize - pchan.rOffset)
      let dataLen := min part1Len len
      if dataLen < part1Len then
        ({ pchan with rOffset := u32 (pchan.rOffset + dataLen) }, i32 dataLen, some pread)
      else ({ pchan with rOffset := 0 }, i32 part1Len, some pread)
  else (pchan, 0, none)

/-- `SC2_bufferid_move_read_rp`. -/
def moveReadRp (len : ℕ) (flag : ℤ) : ChanId :=
  if flag = 0 then
    { pchan with rOffset := u32 (pchan.rOffset + pchan.memSize - len) % pchan.memSize }
  else { pchan with rOffset := u32 (pchan.rOffset + len) % pchan.memSize }

variable {pchan d} {u : ℕ}

/-- What a read does if the hardware is `u` bytes ahead, with or without a wrap: it returns
    these bytes, up to the end of the buffer, and no more than asked for. -/
theorem read_eq (hr : pchan.rOffset < pchan.memSize) (hle : pchan.memSize ≤ 2 ^ 31)
    (hu : u < pchan.memSize)
    (hw : pchan.rOffset + u < pchan.memSize ∧ pchan.wOffset d = pchan.rOffset + u ∨
      pchan.memSize ≤ pchan.rOffset + u ∧ pchan.wOffset d + pchan.memSize = pchan.rOffset + u)
    (len : ℕ) (isSecure : Bool) : pchan.read d len isSecure = ({ pchan with
          lastWAddr := pchan.wOffset d
          rOffset := (pchan.rOffset + min (min u (pchan.memSize - pchan.rOffset)) len) %
            pchan.memSize },
        ((min (min u (pchan.memSize - pchan.rOffset)) len : ℕ) : ℤ),
        if u = 0 then none else some (pchan.base isSecure + pchan.rOffset)) := by
  rw [read]
  dsimp only
  set w := pchan.wOffset d with hwdef
  set r := pchan.rOffset with hrdef
  set n := pchan.memSize with hndef
  by_cases hzero : u = 0
  · have hk : min (min u (n - r)) len = 0 := by omega
    rw [if_neg (by omega), hk, if_pos hzero, Nat.add_zero, mod_eq_of_lt hr]
    simp [hrdef]
  rw [if_pos (by omega), if_neg hzero]
  rcases hw with ⟨hlt, hw⟩ | ⟨hge, hw⟩
  · -- the data are in one piece
    have hsub : u32 ((w : ℤ) - r) = u := by
      rw [u32]
      omega
    have hk : min (min u (n - r)) len = min u len := by omega
    have hadd : u32 ((r : ℤ) + (min u len : ℕ)) = r + min u len := by
      rw [u32]
      omega
    rw [if_pos (by omega), hsub, hk, hadd, i32_of_lt (by omega)]
    rfl
  · -- the data go round: only those up to the end are read
    have hsub : u32 ((n : ℤ) - r) = n - r := by
      rw [u32]
      omega
    have hk : min (min u (n - r)) len = min (n - r) len := by omega
    rw [if_neg (by omega), hsub, hk]
    by_cases hlen : min (n - r) len < n - r
    · have hadd : u32 ((r : ℤ) + (min (n - r) len : ℕ)) = r + min (n - r) len := by
        rw [u32]
        omega
      rw [if_pos hlen, hadd, i32_of_lt (by omega), mod_eq_of_lt (by omega)]
      rfl
    · have hmin : min (n - r) len = n - r := by omega
      rw [if_neg hlen, hmin, Nat.add_sub_cancel' hr.le, mod_self, i32_of_lt (by omega)]
      rfl

end ChanId

/-! ## Runs -/

/-- A channel with its ring. -/
structure RingState where
  pchan : ChanId
  dma : Wdma
  /-- The bytes of the buffer. -/
  buf : ℕ → UInt8
  /-- All the bytes the hardware has written. -/
  stream : List UInt8
  /-- The bytes of the spans returned, without those that were rewound. -/
  out : List UInt8
  /-- How many bytes may be rewound: those just read. -/
  just : ℕ

namespace RingState

variable (s : RingState)

/-- The hardware writes the bytes `bs`, after which its register reads `wrLen`. -/
def write (bs : List UInt8) (wrLen : ℕ) : RingState :=
  { s with
    buf := Ring.write s.pchan.memSize s.buf s.stream.length bs
    stream := s.stream ++ bs
    dma := { s.dma with wrLen := wrLen } }

/-- The bytes of a span of the buffer. -/
def span (offset len : ℕ) : List UInt8 := (List.range len).map fun i => s.buf (offset + i)

/-- The channel is read. -/
def read (len : ℕ) (isSecure : Bool) : RingState :=
  let r := s.pchan.read s.dma len isSecure
  { s with
    pchan := r.1
    out := s.out ++ s.span s.pchan.rOffset r.2.1.toNat
    just := r.2.1.toNat }

/-- The last `len` bytes read are taken back. -/
def rewind (len : ℕ) : RingState :=
  { s with
    pchan := s.pchan.moveReadRp len 0
    out := s.out.take (s.out.length - len)
    just := s.just - len }

/-- The register of the hardware says how much is written, up to whole laps. -/
def Shows (wrLen memSize written : ℕ) : Prop := wrLen % memSize = written % memSize

/-- The states of a channel with a ring of `memSize` bytes. The hardware never is
    `memSize` bytes or more ahead of the reader, and what is rewound was just read. -/
inductive Reachable (memSize : ℕ) : RingState → Prop
  | init (mem memPhy wrLen : ℕ) (buf : ℕ → UInt8) (shows : Shows wrLen memSize 0) :
      Reachable memSize ⟨⟨mem, memPhy, memSize, 0, 0⟩, ⟨true, wrLen, memSize⟩, buf, [], [], 0⟩
  | write {s : RingState} (h : Reachable memSize s) (bs : List UInt8) (wrLen : ℕ)
      (shows : Shows wrLen memSize (s.stream.length + bs.length))
      (ahead : s.stream.length + bs.length < s.out.length + memSize) :
      Reachable memSize (s.write bs wrLen)
  | read {s : RingState} (h : Reachable memSize s) (len : ℕ) (isSecure : Bool) :
      Reachable memSize (s.read len isSecure)
  | rewind {s : RingState} (h : Reachable memSize s) {len : ℕ} (just : len ≤ s.just)
      (ahead : s.stream.length < s.out.length - len + memSize) : Reachable memSize (s.rewind len)

/-- What holds between the steps of a run. -/
structure Inv (n : ℕ) (s : RingState) : Prop where
  memSize_eq : s.pchan.memSize = n
  rOffset_eq : s.pchan.rOffset = s.out.length % n
  wOffset_eq : s.pchan.wOffset s.dma = s.stream.length % n
  active : s.dma.active = true
  len_eq : s.dma.len = n
  out_eq : s.out = s.stream.take s.out.length
  ahead : s.stream.length < s.out.length + n
  holds : Ring.Holds n s.buf s.stream
  just_le : s.just ≤ s.out.length

variable {s : RingState} {n : ℕ}

section

variable (h : s.Inv n)
include h

theorem Inv.length_le : s.out.length ≤ s.stream.length := by
  have := congrArg length h.out_eq
  rw [length_take] at this
  omega

/-- The number of bytes that are not read. -/
def unread (s : RingState) : ℕ := s.stream.length - s.out.length

/-- The hardware is ahead by the bytes that are not read, with or without a wrap. -/
theorem Inv.wOffset_cases (hn : 0 < n) : s.pchan.rOffset < n ∧ s.unread < n ∧
      (s.pchan.rOffset + s.unread < n ∧ s.pchan.wOffset s.dma = s.pchan.rOffset + s.unread ∨
        n ≤ s.pchan.rOffset + s.unread ∧
          s.pchan.wOffset s.dma + n = s.pchan.rOffset + s.unread) := by
  have hle := h.length_le
  have hahead := h.ahead
  have hr : s.pchan.rOffset < n := h.rOffset_eq ▸ mod_lt _ hn
  have hw : s.pchan.wOffset s.dma = (s.pchan.rOffset + s.unread) % n := by
    rw [h.wOffset_eq, h.rOffset_eq, mod_add_mod, unread, Nat.add_sub_cancel' hle]
  have hu : s.unread < n := by
    rw [unread]
    omega
  refine ⟨hr, hu, ?_⟩
  rcases Nat.lt_or_ge (s.pchan.rOffset + s.unread) n with hlt | hge
  · exact .inl ⟨hlt, hw.trans (mod_eq_of_lt hlt)⟩
  · refine .inr ⟨hge, ?_⟩
    rw [hw, mod_eq_sub_mod hge, mod_eq_of_lt (by omega)]
    omega

/-- How many bytes a read returns: those that are not read, up to the end of the buffer,
    and no more than asked for. -/
def readLen (s : RingState) (n len : ℕ) : ℕ := min (min s.unread (n - s.pchan.rOffset)) len

/-- What a read does. -/
theorem Inv.read_eq (hn : 0 < n) (hle : n ≤ 2 ^ 31) (len : ℕ) (isSecure : Bool) :
    s.pchan.read s.dma len isSecure = ({ s.pchan with
          lastWAddr := s.pchan.wOffset s.dma
          rOffset := (s.pchan.rOffset + s.readLen n len) % n },
        (s.readLen n len : ℤ),
        if s.unread = 0 then none
        else some (s.pchan.base isSecure + s.pchan.rOffset)) := by
  obtain ⟨hr, hu, hw⟩ := h.wOffset_cases hn
  obtain rfl := h.memSize_eq
  exact ChanId.read_eq hr hle hu hw len isSecure

/-- What is read is what comes next in the stream. -/
theorem Inv.out_read (hn : 0 < n) (hle : n ≤ 2 ^ 31) (len : ℕ) (isSecure : Bool) :
    s.span s.pchan.rOffset (s.readLen n len) = (s.stream.drop s.out.length).take (s.readLen n len) ∧
      (s.read len isSecure).out = s.stream.take (s.out.length + s.readLen n len) ∧
      (s.read len isSecure).out.length = s.out.length + s.readLen n len := by
  have hahead := h.ahead
  have hlen := h.length_le
  have hk : s.readLen n len ≤ s.stream.length - s.out.length ∧
      s.readLen n len ≤ n - s.pchan.rOffset := by
    rw [readLen, unread]
    omega
  have hspan : s.span s.pchan.rOffset (s.readLen n len) =
      (s.stream.drop s.out.length).take (s.readLen n len) := by
    rw [RingState.span, h.rOffset_eq]
    refine h.holds.slice (by omega) (by omega) ?_
    rw [← h.rOffset_eq]
    have := mod_lt s.out.length hn
    rw [← h.rOffset_eq] at this
    omega
  have hout : (s.read len isSecure).out = s.stream.take (s.out.length + s.readLen n len) := by
    rw [RingState.read, h.read_eq hn hle]
    rw [Int.toNat_natCast, hspan, take_add, ← h.out_eq]
  refine ⟨hspan, hout, ?_⟩
  rw [hout, length_take]
  omega

theorem Inv.read (hn : 0 < n) (hle : n ≤ 2 ^ 31) (len : ℕ) (isSecure : Bool) :
    (s.read len isSecure).Inv n := by
  obtain ⟨-, hout, houtlen⟩ := h.out_read hn hle len isSecure
  have hread := h.read_eq hn hle len isSecure
  have hahead := h.ahead
  refine ⟨?_, ?_, ?_, h.active, h.len_eq, ?_, ?_, h.holds, ?_⟩
  · rw [RingState.read, hread]
    exact h.memSize_eq
  · rw [houtlen, RingState.read, hread]
    rw [h.rOffset_eq, mod_add_mod]
  · rw [RingState.read, hread]
    exact h.wOffset_eq
  · rw [houtlen, hout]
    rfl
  · change s.stream.length < _
    omega
  · rw [houtlen, RingState.read, hread]
    dsimp only
    omega

theorem Inv.rewind (hn : 0 < n) (hle : n ≤ 2 ^ 31) {len : ℕ} (hjust : len ≤ s.just)
    (hahead : s.stream.length < s.out.length - len + n) : (s.rewind len).Inv n := by
  obtain ⟨hr, hu, -⟩ := h.wOffset_cases hn
  have hlen := h.length_le
  have hjust' := h.just_le
  have houtlen : (s.rewind len).out.length = s.out.length - len := by
    rw [RingState.rewind]
    rw [length_take]
    omega
  refine ⟨h.memSize_eq, ?_, h.wOffset_eq, h.active, h.len_eq, ?_, ?_, h.holds, ?_⟩
  · have hsub : u32 ((s.pchan.rOffset : ℤ) + n - len) = s.pchan.rOffset + n - len := by
      rw [u32]
      omega
    rw [houtlen, RingState.rewind, ChanId.moveReadRp, if_pos rfl, h.memSize_eq]
    rw [hsub]
    refine ModEq.add_right_cancel' (n := n) len ?_
    rw [Nat.sub_add_cancel (by omega), Nat.sub_add_cancel (by omega), h.rOffset_eq]
    exact (add_mod_right _ _).trans (mod_mod _ _)
  · rw [houtlen]
    refine (congrArg (take _) h.out_eq).trans (take_take.trans ?_)
    rw [Nat.min_eq_left (sub_le _ _)]
    rfl
  · rw [houtlen]
    exact hahead
  · rw [houtlen, RingState.rewind]
    dsimp only
    omega

theorem Inv.write (bs : List UInt8) (wrLen : ℕ)
    (hshows : Shows wrLen n (s.stream.length + bs.length))
    (hahead : s.stream.length + bs.length < s.out.length + n) : (s.write bs wrLen).Inv n := by
  have hlen := h.length_le
  refine ⟨h.memSize_eq, h.rOffset_eq, ?_, h.active, h.len_eq, ?_, ?_, ?_, h.just_le⟩
  · change Wdma.getWrLen ⟨s.dma.active, wrLen, s.dma.len⟩ % s.pchan.memSize =
      (s.stream ++ bs).length % n
    rw [h.active, h.len_eq, h.memSize_eq, getWrLen_mod, length_append]
    exact hshows
  · change s.out = (s.stream ++ bs).take s.out.length
    rw [take_append_of_le_length hlen]
    exact h.out_eq
  · change (s.stream ++ bs).length < _
    rwa [length_append]
  · have := h.holds.write bs
    rwa [← h.memSize_eq] at this ⊢

end

theorem Reachable.inv (h : Reachable n s) (hn : 0 < n) (hle : n ≤ 2 ^ 31) : s.Inv n := by
  induction h with
  | init mem memPhy wrLen buf shows =>
    refine ⟨rfl, (zero_mod n).symm, ?_, rfl, rfl, rfl, by simpa using hn, Ring.holds_nil n buf,
      le_rfl⟩
    exact (getWrLen_mod wrLen n).trans shows
  | write _ bs wrLen shows ahead ih => exact ih.write bs wrLen shows ahead
  | read _ len isSecure ih => exact ih.read hn hle len isSecure
  | rewind _ just ahead ih => exact ih.rewind hn hle just ahead

/-! ## Reading -/

/-- What is asked of a channel with a ring of `n` bytes, for a request of `len` bytes. -/
structure Reads (n : ℕ) (s : RingState) (len : ℕ) (isSecure : Bool) : Prop where
  /-- What was read is what was written. -/
  prefix_stream : s.out <+: s.stream
  rOffset_lt : s.pchan.rOffset < n
  /-- The span that is returned lies in the buffer. -/
  span_within : ∀ pread, (s.pchan.read s.dma len isSecure).2.2 = some pread →
    Extent.Within ⟨pread, (s.pchan.read s.dma len isSecure).2.1.toNat⟩ ⟨s.pchan.base isSecure, n⟩
  /-- Nothing is returned only if there is nothing to read. -/
  ret_ne_zero : 0 < len → (s.pchan.read s.dma len isSecure).2.1 = 0 → s.out.length = s.stream.length
  dataLen_add_freeSize : s.pchan.getDataLen s.dma + s.pchan.getFreeSize s.dma = n

theorem Inv.dataLen_add_freeSize (h : s.Inv n) (hn : 0 < n) (hle : n ≤ 2 ^ 31) :
    s.pchan.getDataLen s.dma + s.pchan.getFreeSize s.dma = n := by
  obtain ⟨hr, hu, hw⟩ := h.wOffset_cases hn
  rw [ChanId.getDataLen, ChanId.getFreeSize, h.memSize_eq]
  split <;> simp only [u32] <;> omega

theorem reading (hn : 0 < n) (hle : n ≤ 2 ^ 31) (h : Reachable n s) (len : ℕ) (isSecure : Bool) :
    s.Reads n len isSecure := by
  have hinv := h.inv hn hle
  obtain ⟨hr, -, -⟩ := hinv.wOffset_cases hn
  have hread := hinv.read_eq hn hle len isSecure
  refine ⟨?_, hr, fun pread hpread => ?_, fun hlen hret => ?_, hinv.dataLen_add_freeSize hn hle⟩
  · rw [hinv.out_eq]
    exact take_prefix _ _
  · rw [hread] at hpread ⊢
    split at hpread
    · cases hpread
    cases hpread
    have : s.readLen n len ≤ n - s.pchan.rOffset := by
      rw [readLen]
      omega
    exact ⟨Nat.le_add_right _ _, by dsimp only; omega⟩
  · rw [hread] at hret
    dsimp only at hret
    have hk : s.readLen n len = 0 := by exact_mod_cast hret
    have := hinv.length_le
    rw [readLen, unread] at hk
    omega

/-- A channel that is not read yet. -/
def fresh (n : ℕ) : RingState := ⟨⟨0, 0, n, 0, 0⟩, ⟨true, 0, n⟩, fun _ => 0, [], [], 0⟩

theorem reachable_fresh (n : ℕ) : Reachable n (fresh n) := .init 0 0 0 _ rfl

/-- Three bytes are written, two are read, one is taken back. -/
theorem reading_rewind :
    let s := (((fresh 4).write [1, 2, 3] 3).read 2 false).rewind 1
    s.out = [1] ∧ s.Reads 4 2 false := by
  refine ⟨by decide, reading (by decide) (by decide) ?_ 2 false⟩
  exact (((reachable_fresh 4).write [1, 2, 3] 3 rfl (by decide)).read 2 false).rewind (by decide)
    (by decide)

/-- The lengths after a read. -/
theorem Reachable.exists_read (h : Reachable n s) {len : ℕ} {isSecure : Bool} {pchan : ChanId}
    {ret : ℤ} {pread : Option ℕ} (hread : s.pchan.read s.dma len isSecure = (pchan, ret, pread)) :
    ∃ s', Reachable n s' ∧ s'.pchan = pchan ∧ s'.dma = s.dma ∧ s'.stream = s.stream ∧
      s'.out.length = s.out.length + ret.toNat ∧ s'.just = ret.toNat := by
  refine ⟨_, h.read len isSecure, ?_, rfl, rfl, ?_, ?_⟩
  · rw [RingState.read, hread]
  · rw [RingState.read, hread, length_append, span, length_map, length_range]
  · rw [RingState.read, hread]

/-- In a ring of more than 2 GiB, a rewind goes to the wrong place: the bytes from there
    on are read twice. -/
theorem exists_overrun {bs : List UInt8} (hbs : bs.length = 2 ^ 31) :
    ∃ s, Reachable (2 ^ 31 + 1) s ∧ s.stream.length < s.out.length := by
  obtain ⟨s, h, hpchan, hdma, hstream, hout⟩ : ∃ s, Reachable (2 ^ 31 + 1) s ∧
      s.pchan = ⟨0, 0, 2 ^ 31 + 1, 0, 0⟩ ∧ s.dma = ⟨true, 2 ^ 31, 2 ^ 31 + 1⟩ ∧
        s.stream.length = 2 ^ 31 ∧ s.out.length = 0 :=
    ⟨_, (reachable_fresh (2 ^ 31 + 1)).write bs (2 ^ 31) (by rw [hbs]; rfl)
      (by rw [hbs]; decide), rfl, rfl, hbs, rfl⟩
  -- All is read, in two halves.
  have hread : s.pchan.read s.dma (2 ^ 30) false =
      (⟨0, 0, 2 ^ 31 + 1, 2 ^ 30, 2 ^ 31⟩, 2 ^ 30, some 0) := by
    rw [hpchan, hdma]
    decide +kernel
  obtain ⟨s₁, h₁, hpchan₁, hdma₁, hstream₁, hout₁, -⟩ := h.exists_read hread
  have hread₁ : s₁.pchan.read s₁.dma (2 ^ 30) false =
      (⟨0, 0, 2 ^ 31 + 1, 2 ^ 31, 2 ^ 31⟩, 2 ^ 30, some (2 ^ 30)) := by
    rw [hpchan₁, hdma₁, hdma]
    decide +kernel
  obtain ⟨s₂, h₂, hpchan₂, hdma₂, hstream₂, hout₂, hjust₂⟩ := h₁.exists_read hread₁
  rw [hout₁, hout] at hout₂
  rw [hstream₁] at hstream₂
  -- The sum of the offset and the size wraps around: the offset is 0 and not `2 ^ 31 - 1`.
  have hpchan₃ : (s₂.rewind 1).pchan = ⟨0, 0, 2 ^ 31 + 1, 0, 2 ^ 31⟩ := by
    rw [RingState.rewind, hpchan₂]
    dsimp only
    decide +kernel
  have hout₃ : (s₂.rewind 1).out.length = 2 ^ 31 - 1 := by
    rw [RingState.rewind, length_take, hout₂]
    decide +kernel
  have h₃ : Reachable (2 ^ 31 + 1) (s₂.rewind 1) := by
    refine h₂.rewind ?_ ?_
    · rw [hjust₂]
      decide +kernel
    · rw [hstream₂, hstream, hout₂]
      decide +kernel
  have hread₃ : (s₂.rewind 1).pchan.read (s₂.rewind 1).dma (2 ^ 30) false =
      (⟨0, 0, 2 ^ 31 + 1, 2 ^ 30, 2 ^ 31⟩, 2 ^ 30, some 0) := by
    rw [hpchan₃, RingState.rewind, hdma₂, hdma₁, hdma]
    decide +kernel
  obtain ⟨s₄, h₄, -, -, hstream₄, hout₄, -⟩ := h₃.exists_read hread₃
  refine ⟨s₄, h₄, ?_⟩
  rw [hout₄, hout₃, hstream₄, RingState.rewind, hstream₂, hstream]
  decide +kernel

/-- A request of no bytes returns 0 although there are bytes to read, and in a ring of more
    than 2 GiB the bytes read need not be those written. -/
theorem not_reading :
    (∃ s, Reachable 4 s ∧ (s.pchan.read s.dma 0 false).2.1 = 0 ∧ s.out.length < s.stream.length) ∧
      ∃ s, Reachable (2 ^ 31 + 1) s ∧ ¬s.out <+: s.stream := by
  constructor
  · exact ⟨(fresh 4).write [1] 1, (reachable_fresh 4).write [1] 1 rfl (by decide), by decide,
      by decide⟩
  · obtain ⟨s, hs, hlt⟩ := exists_overrun (length_replicate (n := 2 ^ 31) (a := 0))
    exact ⟨s, hs, fun h => absurd h.length_le (not_le.2 hlt)⟩

end RingState

end CommonDrivers.Dvb
