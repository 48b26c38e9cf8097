import CommonDrivers.Dvb.SwDemux.Filter

/-!
# Reception of sections

A PID filter collects the sections carried by the packets of its PID
(`swdmx_demux.c`). It keeps a buffer of 4099 bytes, allocated on the first
payload, and the number of bytes of the current section it has received,
`sec_recv`. `sec_data` adds bytes to the buffer: the three bytes of the header,
which tell the length of the section, then the rest; a complete section is passed
to the callbacks of the section filters that match it. `pid_filter_data` feeds it
with the payload of a packet, after the pointer field which, in a packet where a
section starts, says where.

A copy may fault and a loop may not end (`Fault`): the bytes are not trusted, and
any packet may come at any time.
-/

namespace CommonDrivers.Dvb.SwDemux

/-- The 12-bit length field of a section header. -/
def sectionLength (b1 b2 : UInt8) : ℕ := ((b1 &&& 0xf).toNat <<< 8) ||| b2.toNat

theorem sectionLength_lt (b1 b2 : UInt8) : sectionLength b1 b2 < 4096 := by
  have h1 : (b1 &&& 0xf).toNat < 2 ^ 4 := by
    exact Nat.and_lt_two_pow _ (by decide)
  exact Nat.or_lt_two_pow (n := 12) (Nat.shiftLeft_lt h1) (b2.toNat_lt.trans (by decide))

/-- The buffer of a PID filter once allocated, and `sec_recv`. -/
structure SecBuf where
  data : SecBlock
  recv : ℤ

namespace SecBuf

/-- `sec_len`: the total length of the section whose header is in the buffer. -/
def secLen (s : SecBuf) : ℤ := sectionLength (s.data.get 1) (s.data.get 2) + 3

/-- The copy of `n` bytes of `p` after those received, which moves `p` over them. -/
def copy (s : SecBuf) (p : List UInt8) (n : ℤ) : Except Fault (SecBuf × List UInt8) :=
  if n = 0 then .ok (s, p)
  else (s.data.memcpy s.recv p n).map fun d => (⟨d, s.recv + n⟩, p.drop n.toNat)

end SecBuf

/-- A call of a callback of a section filter. -/
structure SecCall where
  /-- The filter. -/
  filter : Ptr
  /-- The callback, and its user data. -/
  cb : CbEntry
  /-- The section it is called with. -/
  sec : List UInt8
  deriving DecidableEq

/-- The loop of `sec_data` over the section filters, for the section of length
    `recv` in the buffer. The CRC is computed for the first filter that asks for
    it, and remembered if it is right; if it is wrong, the loop is left. -/
def deliver (data : SecBlock) (recv : ℕ) (crc : Bool) : List (Ptr × SecFilter) → List SecCall
  | [] => []
  | (q, f) :: fs =>
    if f.params.crc32 ≠ 0 ∧ crc = false ∧ swdmxCrc32 (data.take recv) ≠ 0 then []
    else
      (if secFilterMatch data f.arrays then f.cbList.map (⟨q, ·, data.take recv⟩) else []) ++
        deliver data recv (crc || f.params.crc32 != 0) fs

/-- The first part of `sec_data`: the three bytes of the header. -/
def secHeader (s : SecBuf) (p : List UInt8) : Except Fault (SecBuf × List UInt8) :=
  if s.recv < 3 then s.copy p (min p.length (3 - s.recv)) else .ok (s, p)

/-- The second part of `sec_data`: the rest of the section, and, once it is
    complete, the filters. -/
def secBody (filters : List (Ptr × SecFilter)) (s : SecBuf) (p : List UInt8) :
    Except Fault (SecBuf × List SecCall × List UInt8) :=
  (s.copy p (min (s.secLen - s.recv) p.length)).map fun (s', p') =>
    if s'.recv = s.secLen then
      (⟨s'.data, 0⟩, deliver s'.data s'.recv.toNat false filters, p')
    else (s', [], p')

/-- `sec_data`, on the `len` bytes `p`: the calls it makes, and its result, the
    number of bytes it has used. -/
def secData (filters : List (Ptr × SecFilter)) (s : SecBuf) (p : List UInt8) :
    Except Fault (SecBuf × List SecCall × ℤ) := (secHeader s p).bind fun (s₁, p₁) =>
    if s₁.recv < 3 ∨ s₁.data.get 0 = 0xff then .ok (s₁, [], p.length)
    else (secBody filters s₁ p₁).map fun (s₂, calls, p₂) => (s₂, calls, p.length - p₂.length)

/-- The loop of `pid_filter_data`, while bytes are left. A result of `sec_data`
    that is not positive would make it run forever, or back. -/
def secLoop (filters : List (Ptr × SecFilter)) :
    ℕ → SecBuf → List UInt8 → Except Fault (SecBuf × List SecCall)
  | _, s, [] => .ok (s, [])
  | 0, _, _ :: _ => .error .diverges
  | fuel + 1, s, b :: p =>
    (secData filters s (b :: p)).bind fun (s', calls, n) =>
      if n ≤ 0 then .error .diverges
      else (secLoop filters fuel s' ((b :: p).drop n.toNat)).map fun r => (r.1, calls ++ r.2)

/-- The section fields of a PID filter. -/
structure SecState where
  /-- The buffer, once allocated. -/
  secData : Option SecBlock
  secRecv : ℤ

/-- As `pid_filter_get` sets them. -/
def SecState.fresh : SecState := ⟨none, 0⟩

/-- The buffer `sec_data` works on, which is `malloc` if it is allocated now. -/
def SecState.buf (st : SecState) (malloc : SecBlock) : SecBuf :=
  ⟨st.secData.getD malloc, st.secRecv⟩

/-- The pointer field at the start of a payload in which a section starts, or
    the end of the packet if it points out of it (`none`). The bytes up to where
    it points at end the section in progress, if any. -/
def pointerField (filters : List (Ptr × SecFilter)) (s : SecBuf) :
    List UInt8 → Except Fault (Option (SecBuf × List SecCall × List UInt8))
  | [] => .ok (some (⟨s.data, 0⟩, [], []))
  | b :: p =>
    let ptr := b.toNat
    if ptr = 0 then .ok (some (⟨s.data, 0⟩, [], p))
    else if p.length < ptr then .ok none
    else if s.recv = 0 then .ok (some (⟨s.data, 0⟩, [], p.drop ptr))
    else (secData filters s (p.take ptr)).map fun (s', calls, _) =>
      some (⟨s'.data, 0⟩, calls, p.drop ptr)

/-- The payload part of `pid_filter_data`. -/
def payloadData (filters : List (Ptr × SecFilter)) (s : SecBuf) (start : Bool) (p : List UInt8) :
    Except Fault (SecBuf × List SecCall) :=
  if start then
    (pointerField filters s p).bind fun r =>
      match r with
      | none => .ok (s, [])
      | some (s', calls, p') =>
        (secLoop filters p'.length s' p').map fun r => (r.1, calls ++ r.2)
  else secLoop filters p.length s p

/-- What `pid_filter_data` is given: the filters of its PID, and a packet. -/
structure Input where
  tsFilters : List (Ptr × TsFilter)
  secFilters : List (Ptr × SecFilter)
  pkt : TsPacket
  /-- The memory `swdmx_malloc` would return for the buffer, with any contents. -/
  malloc : SecBlock

/-- The calls of `pid_filter_data` to the callbacks of the TS filters. -/
def tsCalls (i : Input) : List (CbEntry × TsPacket) :=
  i.tsFilters.flatMap fun f => f.2.cbList.map (·, i.pkt)

/-- `pid_filter_data`: the section callbacks it calls, after those of the TS
    filters (`tsCalls`), which get every packet. -/
def pidFilterData (st : SecState) (i : Input) : Except Fault (SecState × List SecCall) :=
  match i.pkt.payload with
  | none => .ok (st, [])
  | some p =>
    if i.secFilters = [] ∨ i.pkt.scramble ≠ 0 then .ok (st, [])
    else
      (payloadData i.secFilters (st.buf i.malloc) i.pkt.payloadStart p).map
        fun (s, calls) => (⟨some s.data, s.recv⟩, calls)

/-- `pid_filter_data` on packets in order. -/
def pidFilterRun (st : SecState) : List Input → Except Fault (SecState × List SecCall)
  | [] => .ok (st, [])
  | i :: is => (pidFilterData st i).bind fun (st', calls) =>
      (pidFilterRun st' is).map fun r => (r.1, calls ++ r.2)

end CommonDrivers.Dvb.SwDemux
