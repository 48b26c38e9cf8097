import CommonDrivers.Lib.Block

/-!
# Alignment of the input of the demux

A transport stream written by a user comes in writes of any length. Before it is
given to the hardware, `check_data_pack_align` (`aml_dmx.c`) looks for packets in
the buffer: it takes groups of packets as long as each packet, and the one after
the group, starts with the sync byte, drops bytes otherwise, and moves what it
keeps to the start of the buffer. What is left of the last packet is saved, and
put before the bytes of the next write.

The packets are looked ahead in groups of `find_error_pack`, a parameter of the
module. A packet for which the look-ahead fails is counted byte by byte, until
another sync byte is found to be the right one; the bytes counted are not in
`left` any more, while the packet is still to be taken.

* `checkDataPackAlign_clean`: in a buffer of packets, all whole packets are taken;
* `checkDataPackAlign_le`: in any buffer, no more bytes are taken and saved than
  there are;
* `checkDataPackAlign_lt`: a look-ahead of no packet always fails, and then the loop
  ends while a packet is counted, whose bytes are lost.
-/

namespace CommonDrivers.Dvb

open List

/-! ## The program -/

/-- Memory, by offset from the start of the buffer. -/
abbrev Mem := ℤ → UInt8

namespace Mem

/-- The bytes `l`, at the start of the buffer. -/
def load (l : List UInt8) : Mem := fun i => l.getD i.toNat 0

/-- The `n` bytes at the offset `off`. -/
def bytes (mem : Mem) (off n : ℤ) : List UInt8 :=
  (List.range n.toNat).map fun i : ℕ => mem (off + i)

/-- `memmove`. -/
def memmove (mem : Mem) (dst src n : ℤ) : Mem :=
  fun i => if dst ≤ i ∧ i < dst + n then mem (src + (i - dst)) else mem i

end Mem

/-- The parameters of the module. -/
structure AlignConfig where
  packLen : ℕ
  findErrorPack : ℤ

/-- `CACHE_ALIGNMENT_LEN`, the size of `last_pack`. -/
def cacheAlignmentLen : ℤ := 384

/-- The variables of `check_data_pack_align`; pointers are offsets in the buffer. -/
structure AlignState where
  mem : Mem
  opsMem : ℤ
  nextOpsMem : ℤ
  left : ℤ
  ops : ℤ
  total : ℤ
  opsPackLen : ℤ

namespace AlignConfig

variable (c : AlignConfig)

/-- `try_total`: how many packets to look ahead, with `left` bytes left. -/
def tryTotal (left : ℤ) : ℤ :=
  if (left - 1) / c.packLen > c.findErrorPack then c.findErrorPack else (left - 1) / c.packLen

/-- `try_count`, after at most `n` turns: how many packets after the one at `p`
    start with the sync byte. -/
def tryCount (mem : Mem) (p : ℤ) : ℕ → ℕ
  | 0 => 0
  | n + 1 => if mem (p + c.packLen) = 0x47 then tryCount mem (p + c.packLen) n + 1 else 0

/-- The look-ahead from `p` succeeds. -/
def SyncAhead (s : AlignState) (p : ℤ) : Prop := c.tryTotal s.left ≠ 0 ∧
    (c.tryCount s.mem p (c.tryTotal s.left).toNat : ℤ) = c.tryTotal s.left

instance (s : AlignState) (p : ℤ) : Decidable (c.SyncAhead s p) :=
  inferInstanceAs (Decidable (_ ∧ _))

/-- Take the packets of a look-ahead. -/
def takeGroup (s : AlignState) : AlignState :=
  let n := c.tryTotal s.left * c.packLen
  { s with
    opsMem := s.opsMem + n
    nextOpsMem := s.opsMem + n
    left := s.left - n
    total := s.total + n }

/-- Move what is left over the `ops` bytes dropped before it. -/
def closeGap (s : AlignState) : AlignState :=
  if s.ops = 0 then s
  else
    { s with
      mem := s.mem.memmove (s.opsMem - s.ops) s.opsMem s.left
      opsMem := s.opsMem - s.ops
      nextOpsMem := s.opsMem - s.ops
      ops := 0 }

/-- A turn of the loop at a sync byte. -/
def syncStep (s : AlignState) : AlignState :=
  if s.mem s.nextOpsMem = 0x47 ∧ s.opsPackLen ≠ 0 ∧ s.opsPackLen ≠ c.packLen ∧
      c.SyncAhead s s.nextOpsMem then
    -- The packet that is counted is dropped for the one at `next_ops_mem`.
    c.takeGroup
      { s with
        mem := s.mem.memmove s.opsMem (s.opsMem + s.opsPackLen) s.left
        opsPackLen := 0 }
  else if s.opsPackLen = 0 ∧ c.SyncAhead s s.opsMem then c.takeGroup s
  else if s.opsPackLen = c.packLen then
    { s with opsMem := s.opsMem + c.packLen, total := s.total + c.packLen, opsPackLen := 0 }
  else
    { s with nextOpsMem := s.nextOpsMem + 1, opsPackLen := s.opsPackLen + 1, left := s.left - 1 }

/-- A turn of the loop. -/
def step (s : AlignState) : AlignState :=
  if s.mem s.opsMem = 0x47 then c.syncStep (closeGap s)
  else { s with opsMem := s.opsMem + 1, left := s.left - 1, ops := s.ops + 1 }

/-- The loop, while `left > pack_len`. (The comparison is unsigned, but `left` is
    never negative.) -/
def loop : ℕ → AlignState → Except Fault AlignState
  | 0, _ => .error .diverges
  | fuel + 1, s => if c.packLen < s.left then loop fuel (c.step s) else .ok s

/-- The start of `check_data_pack_align`. -/
def start (mem : Mem) (len : ℤ) : AlignState := ⟨mem, 0, 0, len, 0, 0, 0⟩

/-- The result of `check_data_pack_align`. -/
structure Result where
  mem : Mem
  total : ℤ
  /-- The `last_len` bytes of `last_pack`. -/
  lastPack : List UInt8

/-- The end of `check_data_pack_align`: the last packet, and what is left. -/
def finish (s : AlignState) : Except Fault Result :=
  let whole := s.mem s.opsMem = 0x47 ∧ s.left = c.packLen
  let total := if whole then s.total + c.packLen else s.total
  let left := if whole then s.left - c.packLen else s.left
  if 0 < left ∧ left ≤ c.packLen then
    if cacheAlignmentLen < left then .error .bounds
    else .ok ⟨s.mem, total, s.mem.bytes s.opsMem left⟩
  else .ok ⟨s.mem, total, []⟩

/-- `check_data_pack_align`. No byte takes more than two turns of the loop. -/
def checkDataPackAlign (mem : Mem) (len : ℤ) : Except Fault Result :=
  if c.packLen = 0 then .ok ⟨mem, len, []⟩
  else (c.loop (2 * len.toNat + 1) (start mem len)).bind c.finish

/-- The alignment in `_dmx_write_from_user`: the bytes `buf` come after those saved.
    The result is what is given to the hardware, and what is saved. -/
def dmxWriteFromUser (lastPack buf : List UInt8) : Except Fault (List UInt8 × List UInt8) :=
  let data := lastPack ++ buf
  (c.checkDataPackAlign (.load data) data.length).map fun r => (r.mem.bytes 0 r.total, r.lastPack)

/-- Writes in order, and what each of them gives to the hardware. -/
def dmxWrites (lastPack : List UInt8) :
    List (List UInt8) → Except Fault (List (List UInt8) × List UInt8)
  | [] => .ok ([], lastPack)
  | buf :: bufs => (c.dmxWriteFromUser lastPack buf).bind fun (out, lastPack') =>
      (dmxWrites lastPack' bufs).map fun (outs, r) => (out :: outs, r)

end AlignConfig

/-! ## Memory -/

namespace Mem

variable {mem : Mem} {l : List UInt8}

@[simp]
theorem length_bytes (off n : ℤ) : (mem.bytes off n).length = n.toNat := by simp [bytes]

theorem load_natCast (i : ℕ) : load l i = l.getD i 0 := rfl

/-- The bytes of a list, in memory. -/
theorem bytes_load (off n : ℕ) (h : off + n ≤ l.length) :
    (load l).bytes off n = (l.drop off).take n := by
  refine ext_getElem (by simp; omega) fun i hi hi' => ?_
  simp only [bytes, getElem_map, getElem_range, getElem_take, getElem_drop]
  rw [← Nat.cast_add, load_natCast, getD_eq_getElem]

end Mem

namespace AlignConfig

variable {c : AlignConfig} {mem : Mem} {len : ℤ} {s : AlignState} {k : ℕ} {r : Result}
  {s' : AlignState}

/-! ## Buffers of packets -/

/-- Every packet in the first `len` bytes starts with the sync byte. -/
def Clean (c : AlignConfig) (mem : Mem) (len : ℤ) : Prop :=
  ∀ k : ℕ, (k * c.packLen : ℤ) < len → mem (k * c.packLen) = 0x47

theorem tryCount_eq {p : ℤ} {n : ℕ} (h : ∀ j : ℕ, j < n → mem (p + (j + 1) * c.packLen) = 0x47) :
    c.tryCount mem p n = n := by
  induction n generalizing p with
  | zero => rfl
  | succ n ih =>
    have h0 := h 0 (Nat.succ_pos n)
    rw [Nat.cast_zero, zero_add, one_mul] at h0
    rw [tryCount, if_pos h0, ih]
    intro j hj
    have := h (j + 1) (by omega)
    rw [← this]
    congr 1
    push_cast
    ring

/-- The state after `k` packets of a clean buffer are taken. -/
structure Taken (c : AlignConfig) (mem : Mem) (len : ℤ) (k : ℕ) (s : AlignState) : Prop where
  mem_eq : s.mem = mem
  opsMem : s.opsMem = k * c.packLen
  left : s.left = len - k * c.packLen
  ops : s.ops = 0
  total : s.total = k * c.packLen
  opsPackLen : s.opsPackLen = 0

/-- Looking ahead in a clean buffer finds packets. -/
theorem Taken.syncAhead (h : Taken c mem len k s) (hclean : c.Clean mem len)
    (hfep : 1 ≤ c.findErrorPack) (hpl : 0 < c.packLen) (hleft : c.packLen < s.left) :
    c.SyncAhead s s.opsMem ∧ ∃ n : ℕ, c.tryTotal s.left = n + 1 ∧
      ((k + (n + 1) : ℕ) * c.packLen : ℤ) < len := by
  have hpl' : (0 : ℤ) < c.packLen := by exact_mod_cast hpl
  have hdiv : 1 ≤ (s.left - 1) / c.packLen := by
    rw [Int.le_ediv_iff_mul_le hpl']
    omega
  have hle : c.tryTotal s.left ≤ (s.left - 1) / c.packLen := by
    rw [tryTotal]
    split <;> omega
  have hpos : 1 ≤ c.tryTotal s.left := by
    rw [tryTotal]
    split <;> omega
  rw [Int.le_ediv_iff_mul_le hpl'] at hle
  obtain ⟨n, hn⟩ := Int.eq_ofNat_of_zero_le (show 0 ≤ c.tryTotal s.left - 1 by omega)
  have hn : c.tryTotal s.left = n + 1 := by omega
  have hlt (j : ℕ) (hj : j ≤ n + 1) : ((k + j : ℕ) * c.packLen : ℤ) < len := by
    have hj : ((j : ℤ) * c.packLen : ℤ) ≤ c.tryTotal s.left * c.packLen := by
      rw [hn]
      gcongr
      exact_mod_cast hj
    have hl := h.left
    push_cast
    rw [add_mul]
    omega
  refine ⟨⟨by omega, ?_⟩, n, hn, hlt (n + 1) le_rfl⟩
  rw [hn, show ((n : ℤ) + 1).toNat = n + 1 by omega, tryCount_eq]
  · rfl
  intro j hj
  rw [h.mem_eq, h.opsMem, ← hclean (k + (j + 1)) (hlt (j + 1) (by omega))]
  congr 1
  push_cast
  ring

/-- So a turn of the loop takes some. -/
theorem Taken.step (h : Taken c mem len k s) (hclean : c.Clean mem len)
    (hfep : 1 ≤ c.findErrorPack) (hpl : 0 < c.packLen) (hleft : c.packLen < s.left) :
    ∃ n : ℕ, Taken c mem len (k + (n + 1)) (c.step s) ∧ 1 ≤ (c.step s).left := by
  obtain ⟨hsync, n, hn, hlt⟩ := h.syncAhead hclean hfep hpl hleft
  have h0 : s.mem s.opsMem = 0x47 := by
    rw [h.mem_eq, h.opsMem]
    refine hclean k ?_
    have := h.left
    omega
  have hstep : c.step s = c.takeGroup s := by
    rw [AlignConfig.step, if_pos h0, closeGap, if_pos h.ops, syncStep,
      if_neg (by simp [h.opsPackLen]), if_pos ⟨h.opsPackLen, hsync⟩]
  push_cast at hlt
  refine ⟨n, ?_, ?_⟩
  · rw [hstep]
    refine ⟨h.mem_eq, ?_, ?_, h.ops, ?_, h.opsPackLen⟩
    · simp only [takeGroup, h.opsMem, hn]
      push_cast
      ring
    · simp only [takeGroup, hn]
      rw [h.left]
      push_cast
      ring
    · simp only [takeGroup, h.total, hn]
      push_cast
      ring
  · rw [hstep]
    simp only [takeGroup, hn]
    rw [h.left]
    have : ((k + (n + 1)) * c.packLen : ℤ) = k * c.packLen + (n + 1) * c.packLen := by ring
    omega

/-- The loop takes packets until no more than one is left. -/
theorem Taken.loop (fuel : ℕ) (h : Taken c mem len k s) (hclean : c.Clean mem len)
    (hpl : 0 < c.packLen) (hleft : 0 ≤ s.left) (hfep : 1 ≤ c.findErrorPack ∨ s.left ≤ c.packLen)
    (hfuel : s.left < fuel) :
    ∃ k' s', c.loop fuel s = .ok s' ∧ Taken c mem len k' s' ∧ 0 ≤ s'.left ∧
      s'.left ≤ c.packLen := by
  induction fuel generalizing k s with
  | zero => exact absurd hfuel (not_lt.2 hleft)
  | succ fuel ih =>
    rw [AlignConfig.loop]
    split
    · next hlt =>
      have hfep := hfep.resolve_right (not_le.2 hlt)
      obtain ⟨n, hn, hpos⟩ := h.step hclean hfep hpl hlt
      refine ih hn (by omega) (.inl hfep) ?_
      have hl := h.left
      have hl' := hn.left
      have : (0 : ℤ) ≤ n * c.packLen := by positivity
      push_cast [add_mul] at hl'
      omega
    · next hge => exact ⟨k, s, rfl, h, hleft, not_lt.1 hge⟩

/-- In a clean buffer, all whole packets are taken, and the rest is saved if it
    fits. -/
theorem checkDataPackAlign_clean (hclean : c.Clean mem len) (hpl : 0 < c.packLen) (hlen : 0 ≤ len)
    (hfep : 1 ≤ c.findErrorPack ∨ len ≤ c.packLen) : c.checkDataPackAlign mem len =
      if cacheAlignmentLen < len % c.packLen then .error .bounds
      else .ok ⟨mem, len - len % c.packLen,
        mem.bytes (len - len % c.packLen) (len % c.packLen)⟩ := by
  have hstart : Taken c mem len 0 (start mem len) :=
    ⟨rfl, by simp [start], by simp [start], rfl, by simp [start], rfl⟩
  obtain ⟨k, s, hs, h, h0, hle⟩ := hstart.loop (2 * len.toNat + 1) hclean hpl hlen hfep
    (show len < _ by push_cast; omega)
  have hl := h.left
  rw [checkDataPackAlign, if_neg hpl.ne', hs]
  show c.finish s = _
  by_cases hwhole : s.left = c.packLen
  · -- The last packet is whole.
    have hsync : s.mem s.opsMem = 0x47 := by
      rw [h.mem_eq, h.opsMem]
      exact hclean k (by omega)
    have hmod : len % c.packLen = 0 := by
      rw [show len = (k + 1) * c.packLen by rw [add_mul]; omega, Int.mul_emod_left]
    have htotal : s.total + c.packLen = len := by
      rw [h.total]
      omega
    have hbytes : mem.bytes len 0 = [] := rfl
    simp [finish, hsync, hwhole, hmod, htotal, h.mem_eq, cacheAlignmentLen, hbytes]
  · have hmod : len % c.packLen = s.left := by
      rw [show len = s.left + c.packLen * k by rw [mul_comm]; omega, Int.add_mul_emod_self_left,
        Int.emod_eq_of_lt h0 (by omega)]
    have hsub : len - s.left = k * c.packLen := by omega
    rw [hmod, hsub]
    simp only [finish, hwhole, and_false, if_false, h.mem_eq, h.opsMem, h.total]
    rcases h0.eq_or_lt with h0 | h0
    · simp [← h0, cacheAlignmentLen, Mem.bytes]
    · rw [if_pos ⟨h0, hle⟩]

/-! ## Any buffer -/

/-- What the turns of the loop keep holds at its end. -/
theorem loop_inv {P : AlignState → Prop} (hstep : ∀ s, P s → c.packLen < s.left → P (c.step s))
    {fuel : ℕ} (h : P s) (hs' : c.loop fuel s = .ok s') : P s' ∧ s'.left ≤ c.packLen := by
  induction fuel generalizing s with
  | zero => cases hs'
  | succ fuel ih =>
    rw [loop] at hs'
    split at hs'
    · next hlt => exact ih (hstep s h hlt) hs'
    · next hge =>
      cases hs'
      exact ⟨h, not_lt.1 hge⟩

theorem checkDataPackAlign_ok {P : AlignState → Prop} (hpl : c.packLen ≠ 0)
    (hstep : ∀ s, P s → c.packLen < s.left → P (c.step s)) (hstart : P (start mem len))
    (hr : c.checkDataPackAlign mem len = .ok r) :
    ∃ s, P s ∧ s.left ≤ c.packLen ∧ c.finish s = .ok r := by
  rw [checkDataPackAlign, if_neg hpl] at hr
  cases hs : c.loop (2 * len.toNat + 1) (start mem len) with
  | error e =>
    rw [hs] at hr
    cases hr
  | ok s =>
    rw [hs] at hr
    obtain ⟨h, hle⟩ := loop_inv hstep hstart hs
    exact ⟨s, h, hle, hr⟩

/-- The bytes taken, counted and left are no more than there are. -/
structure Bounded (len : ℤ) (s : AlignState) : Prop where
  le : s.total + s.left + s.opsPackLen ≤ len
  total : 0 ≤ s.total
  left : 0 ≤ s.left
  opsPackLen : 0 ≤ s.opsPackLen

theorem SyncAhead.nonneg {p : ℤ} (h : c.SyncAhead s p) (hpl : 0 < c.packLen) :
    0 ≤ c.tryTotal s.left * c.packLen ∧ c.tryTotal s.left * c.packLen ≤ s.left := by
  have hpl' : (0 : ℤ) < c.packLen := by exact_mod_cast hpl
  have hpos : 0 ≤ c.tryTotal s.left := h.2 ▸ Int.natCast_nonneg _
  have hle : c.tryTotal s.left ≤ (s.left - 1) / c.packLen := by
    rw [tryTotal]
    split <;> omega
  rw [Int.le_ediv_iff_mul_le hpl'] at hle
  exact ⟨by positivity, by omega⟩

theorem Bounded.closeGap (h : Bounded len s) : Bounded len (closeGap s) := by
  rw [AlignConfig.closeGap]
  split
  · exact h
  · exact { h with }

theorem left_closeGap : (closeGap s).left = s.left := by
  rw [closeGap]
  split <;> rfl

theorem Bounded.step (h : Bounded len s) (hpl : 0 < c.packLen) (hleft : c.packLen < s.left) :
    Bounded len (c.step s) := by
  rw [AlignConfig.step]
  split
  · have h := h.closeGap
    have hl := left_closeGap (s := s)
    obtain ⟨hle, ht, hl', ho⟩ := h
    rw [syncStep]
    split_ifs with h1 h2 h3
    · obtain ⟨hn, hn'⟩ := h1.2.2.2.nonneg hpl
      constructor <;> simp only [takeGroup] <;> omega
    · obtain ⟨hn, hn'⟩ := h2.2.nonneg hpl
      constructor <;> simp only [takeGroup] <;> omega
    · constructor <;> dsimp only <;> omega
    · constructor <;> dsimp only <;> omega
  · obtain ⟨hle, ht, hl, ho⟩ := h
    constructor <;> dsimp only <;> omega

theorem Bounded.finish (h : Bounded len s) (hr : c.finish s = .ok r) :
    r.total.toNat + r.lastPack.length ≤ len := by
  obtain ⟨hle, ht, hl, ho⟩ := h
  rw [AlignConfig.finish] at hr
  split_ifs at hr <;> cases hr <;> simp <;> omega

/-- No more bytes are taken and saved than there are. -/
theorem checkDataPackAlign_le (hlen : 0 ≤ len) (hr : c.checkDataPackAlign mem len = .ok r) :
    r.total.toNat + r.lastPack.length ≤ len := by
  by_cases hpl : c.packLen = 0
  · rw [checkDataPackAlign, if_pos hpl] at hr
    cases hr
    simp [hlen]
  have hstart : Bounded len (start mem len) := ⟨by simp [start], le_rfl, hlen, le_rfl⟩
  obtain ⟨s, h, -, hr⟩ := checkDataPackAlign_ok hpl
    (fun s h hlt => h.step (Nat.pos_of_ne_zero hpl) hlt) hstart hr
  exact h.finish hr

/-! ## Without look-ahead -/

theorem not_syncAhead (hfep : c.findErrorPack ≤ 0) (p : ℤ) : ¬c.SyncAhead s p := by
  rintro ⟨h0, hcount⟩
  have : c.tryTotal s.left ≤ 0 := by
    rw [tryTotal]
    split <;> omega
  omega

/-- The state after `k` packets of a clean buffer are taken and `j` bytes of the
    next one are counted. -/
structure Counted (c : AlignConfig) (mem : Mem) (len : ℤ) (k : ℕ) (j : ℤ) (s : AlignState) :
    Prop where
  mem_eq : s.mem = mem
  opsMem : s.opsMem = k * c.packLen
  left : s.left = len - k * c.packLen - j
  ops : s.ops = 0
  total : s.total = k * c.packLen
  opsPackLen : s.opsPackLen = j
  nonneg : 0 ≤ j
  le : j ≤ c.packLen
  /-- The loop ends while bytes are counted. -/
  left_or : c.packLen < s.left ∨ s.left = c.packLen ∧ 1 ≤ j

theorem Counted.step {j : ℤ} (h : Counted c mem len k j s) (hclean : c.Clean mem len)
    (hfep : c.findErrorPack ≤ 0) (hpl : 0 < c.packLen) (hleft : c.packLen < s.left) :
    ∃ k' j', Counted c mem len k' j' (c.step s) := by
  have hl := h.left
  have hj := h.nonneg
  have hle := h.le
  have h0 : s.mem s.opsMem = 0x47 := by
    rw [h.mem_eq, h.opsMem]
    exact hclean k (by omega)
  have hno := not_syncAhead (s := s) hfep
  rw [AlignConfig.step, if_pos h0, closeGap, if_pos h.ops, syncStep,
    if_neg (fun hc => hno _ hc.2.2.2), if_neg (fun hc => hno _ hc.2)]
  split
  · next hfull =>
    -- The packet is counted, and taken.
    rw [h.opsPackLen] at hfull
    refine ⟨k + 1, 0, h.mem_eq, ?_, ?_, h.ops, ?_, rfl, le_rfl, by omega, .inl hleft⟩
    · simp only [h.opsMem]
      push_cast
      ring
    · simp only [hl, hfull]
      push_cast
      ring
    · simp only [h.total]
      push_cast
      ring
  · next hpart =>
    rw [h.opsPackLen] at hpart
    refine ⟨k, j + 1, h.mem_eq, h.opsMem, ?_, h.ops, h.total, by simp only [h.opsPackLen],
      by omega, by omega, ?_⟩
    · dsimp only
      omega
    · dsimp only
      omega

/-- Without look-ahead, bytes of a clean buffer longer than a packet are lost. -/
theorem checkDataPackAlign_lt (hclean : c.Clean mem len) (hpl : 0 < c.packLen)
    (hfep : c.findErrorPack ≤ 0) (hlen : c.packLen < len)
    (hr : c.checkDataPackAlign mem len = .ok r) : r.total.toNat + r.lastPack.length < len := by
  have hstart : Counted c mem len 0 0 (start mem len) :=
    ⟨rfl, by simp [start], by simp [start], rfl, by simp [start], rfl, le_rfl, by simp, .inl hlen⟩
  obtain ⟨s, ⟨k, j, h⟩, hle, hr⟩ := checkDataPackAlign_ok
    (P := fun s => ∃ k j, Counted c mem len k j s) hpl.ne'
    (fun s ⟨k, j, h⟩ hlt => h.step hclean hfep hpl hlt) ⟨0, 0, hstart⟩ hr
  obtain ⟨hleft, hj⟩ := h.left_or.resolve_left (not_lt.2 hle)
  have hl := h.left
  have ht := h.total
  have hsync : s.mem s.opsMem = 0x47 := by
    rw [h.mem_eq, h.opsMem]
    exact hclean k (by omega)
  simp only [finish, hsync, hleft, and_self, if_true, sub_self, lt_self_iff_false, false_and,
    if_false, Except.ok.injEq] at hr
  subst hr
  simp only [length_nil, ht]
  omega

end AlignConfig

end CommonDrivers.Dvb
