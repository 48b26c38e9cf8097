import CommonDrivers.Lib.Block

/-!
# The transport stream parser

The software demux is fed with a transport stream, cut into reads of any
length. Its parser (`swdmx_ts_parser.c`) looks for the sync byte `0x47`, byte by
byte, takes the packet that starts there, and passes its fields to the packet
callbacks, unless it is a null packet or its adaptation field does not fit.
What is left of a read, less than a packet, is not consumed: the reader rewinds
its read pointer over it, and it comes back at the start of the next read
(`section_process` in `ts_output.c`).

* `TsParser.loop_append`: parsing a read and then its unconsumed tail followed by
  the next read is parsing both at once, as a packet found in a prefix is found
  in the whole;
* `TsParser.feed_eq_run`: so is parsing any number of reads.
-/

namespace CommonDrivers.Dvb.SwDemux

open List

/-- A callback and its user data (`struct swdmx_cb_entry`). -/
structure CbEntry where
  /-- The callback function. -/
  cb : ℕ
  /-- The user defined data it is called with. -/
  data : ℕ
  deriving DecidableEq, Repr

/-- `swdmx_cb_list_add`: a callback is appended. -/
def cbListAdd (l : List CbEntry) (cb data : ℕ) : List CbEntry := l ++ [⟨cb, data⟩]

/-- `swdmx_cb_list_remove`: the first equal entry is removed. -/
def cbListRemove (l : List CbEntry) (cb data : ℕ) : List CbEntry := l.erase ⟨cb, data⟩

/-- A packet, with the fields of its header (`struct swdmx_tspacket`). A field
    that is a pointer and a length is the bytes it points at. -/
structure TsPacket where
  pid : UInt16
  payloadStart : Bool
  priority : Bool
  error : Bool
  scramble : UInt8
  cc : UInt8
  packet : List UInt8
  adpField : Option (List UInt8)
  payload : Option (List UInt8)
  deriving DecidableEq, Repr

/-- The length of the adaptation field of the packet `data`, if it has one. -/
def adpFieldLen (data : List UInt8) : Option ℕ :=
  if (data.getD 3 0 >>> 4) &&& 0x03 &&& 2 ≠ 0 then some (data.getD 4 0).toNat else none

/-- Where the payload of the packet `data` starts: after the four bytes of the
    header and, if there is one, the adaptation field and its length byte. -/
def payloadOffset (data : List UInt8) : ℕ :=
  match adpFieldLen data with
  | none => 4
  | some n => 5 + n

/-- `ts_packet`: the packet at the start of `data`, as passed to the callbacks.
    Null packets are dropped, and so are packets whose adaptation field does not
    fit in the 184 bytes after the header. -/
def tsPacket (packetSize : ℕ) (data : List UInt8) : Option TsPacket :=
  let p (i : ℕ) : UInt8 := data.getD i 0
  let pid : UInt16 := ((p 1 &&& 0x1f).toUInt16 <<< 8) ||| (p 2).toUInt16
  let len : ℤ := 188 - payloadOffset data
  if pid = 0x1fff ∨ len < 0 then none
  else some
    { pid := pid
      payloadStart := (p 1 &&& 0x40) >>> 6 ≠ 0
      priority := (p 1 &&& 0x20) >>> 5 ≠ 0
      error := (p 1 &&& 0x80) >>> 7 ≠ 0
      scramble := p 3 >>> 6
      cc := p 3 &&& 0x0f
      packet := data.take packetSize
      adpField := (adpFieldLen data).map (data.drop 5).take
      payload := if (p 3 >>> 4) &&& 0x03 &&& 1 ≠ 0 then
          some ((data.drop (payloadOffset data)).take len.toNat)
        else none }

theorem adpFieldLen_le_payloadOffset {data : List UInt8} {n : ℕ} (h : adpFieldLen data = some n) :
    5 + n ≤ payloadOffset data := by
  rw [payloadOffset, h]

/-- The bytes of a packet are those the parser looks at: what follows them in
    the read does not matter. -/
theorem tsPacket_append {packetSize : ℕ} {x : List UInt8} (y : List UInt8) (h : 188 ≤ packetSize)
    (hx : packetSize ≤ x.length) : tsPacket packetSize (x ++ y) = tsPacket packetSize x := by
  have hget : ∀ i < 188, (x ++ y).getD i 0 = x.getD i 0 := fun i hi =>
    getD_append _ _ _ _ (by omega)
  have hslice : ∀ i j, i + j ≤ 188 → ((x ++ y).drop i).take j = (x.drop i).take j := by
    intro i j hij
    rw [drop_append_of_le_length (by omega), take_append_of_le_length]
    rw [length_drop]
    omega
  have hadp : adpFieldLen (x ++ y) = adpFieldLen x := by
    rw [adpFieldLen, adpFieldLen, hget 3 (by omega), hget 4 (by omega)]
  have hoff : payloadOffset (x ++ y) = payloadOffset x := by rw [payloadOffset, payloadOffset, hadp]
  simp only [tsPacket, hget 1 (by omega), hget 2 (by omega), hget 3 (by omega), hadp, hoff,
    take_append_of_le_length hx]
  split
  · rfl
  next hlen =>
  -- The packet is not dropped, so that both slices end within its 188 bytes.
  rw [hslice _ _ (by omega)]
  cases ha : adpFieldLen x with
  | none => rfl
  | some n =>
    have := adpFieldLen_le_payloadOffset ha
    rw [Option.map_some, Option.map_some, hslice 5 n (by omega)]

/-- The parser (`struct swdmx_ts_parser`). -/
structure TsParser where
  packetSize : ℕ
  cbList : List CbEntry
  /-- What `swdmx_ts_parser_set_packet_size` checks. -/
  le_packetSize : 188 ≤ packetSize

namespace TsParser

/-- `swdmx_ts_parser_new`. -/
def new : TsParser := ⟨188, [], le_rfl⟩

/-- `swdmx_ts_parser_set_packet_size`: a size less than 188 is an error. -/
def setPacketSize (tsp : TsParser) (size : ℕ) : Option TsParser :=
  if h : 188 ≤ size then some { tsp with packetSize := size, le_packetSize := h } else none

/-- `swdmx_ts_parser_add_ts_packet_cb`. -/
def addTsPacketCb (tsp : TsParser) (cb data : ℕ) : TsParser :=
  { tsp with cbList := cbListAdd tsp.cbList cb data }

/-- `swdmx_ts_parser_remove_ts_packet_cb`. -/
def removeTsPacketCb (tsp : TsParser) (cb data : ℕ) : TsParser :=
  { tsp with cbList := cbListRemove tsp.cbList cb data }

variable (tsp : TsParser)

/-- The calls `ts_packet` makes: every callback, in the order of the list, with
    the packet. -/
def calls (data : List UInt8) : List (CbEntry × TsPacket) :=
  match tsPacket tsp.packetSize data with
  | none => []
  | some pkt => tsp.cbList.map fun e => (e, pkt)

/-- The loop of `swdmx_ts_parser_run` on the bytes left: the calls it makes, and
    the bytes it leaves. -/
def loop (p : List UInt8) : List (CbEntry × TsPacket) × List UInt8 :=
  if tsp.packetSize ≤ p.length then
    if p.head? = some 0x47 then
      let r := loop (p.drop tsp.packetSize)
      (tsp.calls p ++ r.1, r.2)
    else loop (p.drop 1)
  else ([], p)
termination_by p.length
decreasing_by
  all_goals
    have := tsp.le_packetSize
    rw [length_drop]
    omega

/-- `swdmx_ts_parser_run`: the calls it makes, and how many bytes it consumes. -/
def run (data : List UInt8) : List (CbEntry × TsPacket) × ℕ :=
  let r := tsp.loop data
  (r.1, data.length - r.2.length)

variable {tsp} {p : List UInt8}

theorem loop_of_lt (h : p.length < tsp.packetSize) : tsp.loop p = ([], p) := by
  rw [loop, if_neg (by omega)]

theorem loop_of_sync (h : tsp.packetSize ≤ p.length) (h0 : p.head? = some 0x47) :
    tsp.loop p = (tsp.calls p ++ (tsp.loop (p.drop tsp.packetSize)).1,
      (tsp.loop (p.drop tsp.packetSize)).2) := by
  rw [loop, if_pos h, if_pos h0]

theorem loop_of_not_sync (h : tsp.packetSize ≤ p.length) (h0 : p.head? ≠ some 0x47) :
    tsp.loop p = tsp.loop (p.drop 1) := by
  rw [loop, if_pos h, if_neg h0]

theorem calls_append {x : List UInt8} (y : List UInt8) (hx : tsp.packetSize ≤ x.length) :
    tsp.calls (x ++ y) = tsp.calls x := by
  rw [calls, calls, tsPacket_append y tsp.le_packetSize hx]

/-- The loop leaves less than a packet. -/
theorem length_loop_lt (p : List UInt8) : (tsp.loop p).2.length < tsp.packetSize := by
  induction p using loop.induct tsp with
  | case1 p h h0 ih => rwa [loop_of_sync h h0]
  | case2 p h h0 ih => rwa [loop_of_not_sync h h0]
  | case3 p h => rw [loop_of_lt (by omega)]; exact not_le.1 h

/-- What the loop leaves is the end of what it is given. -/
theorem loop_suffix (p : List UInt8) : (tsp.loop p).2 <:+ p := by
  induction p using loop.induct tsp with
  | case1 p h h0 ih =>
    rw [loop_of_sync h h0]
    exact ih.trans (drop_suffix _ _)
  | case2 p h h0 ih =>
    rw [loop_of_not_sync h h0]
    exact ih.trans (drop_suffix _ _)
  | case3 p h => rw [loop_of_lt (by omega)]

/-- The bytes a run does not consume are those its loop leaves. -/
theorem drop_run (data : List UInt8) : data.drop (tsp.run data).2 = (tsp.loop data).2 :=
  (suffix_iff_eq_drop.1 (loop_suffix data)).symm

/-- Parsing `x ++ y` is parsing `x`, and then what it leaves followed by `y`. -/
theorem loop_append (x y : List UInt8) :
    tsp.loop (x ++ y) = ((tsp.loop x).1 ++ (tsp.loop ((tsp.loop x).2 ++ y)).1,
      (tsp.loop ((tsp.loop x).2 ++ y)).2) := by
  have hpos := tsp.le_packetSize
  induction x using loop.induct tsp with
  | case1 x h h0 ih =>
    -- The packet at the start of `x` is also at the start of `x ++ y`.
    have h0' : (x ++ y).head? = some 0x47 := by rw [head?_append, h0]; rfl
    have h' : tsp.packetSize ≤ (x ++ y).length := by rw [length_append]; omega
    rw [loop_of_sync h' h0', loop_of_sync h h0, calls_append y h,
      drop_append_of_le_length h, ih, append_assoc]
  | case2 x h h0 ih =>
    have h0' : (x ++ y).head? ≠ some 0x47 := by
      rw [head?_append_of_ne_nil x (ne_nil_of_length_pos (by omega))]
      exact h0
    have h' : tsp.packetSize ≤ (x ++ y).length := by rw [length_append]; omega
    rw [loop_of_not_sync h' h0', loop_of_not_sync h h0, drop_append_of_le_length (by omega), ih]
  | case3 x h => rw [loop_of_lt (not_le.1 h), nil_append]

variable (tsp)

/-- One read, as the reader makes it: the parser is given the bytes the last
    read left, followed by the new ones; the bytes it does not consume are left
    for the next read. -/
def read (st : List (CbEntry × TsPacket) × List UInt8) (chunk : List UInt8) :
    List (CbEntry × TsPacket) × List UInt8 :=
  let data := st.2 ++ chunk
  let r := tsp.run data
  (st.1 ++ r.1, data.drop r.2)

/-- Any number of reads, from the first one on. -/
def feed (chunks : List (List UInt8)) : List (CbEntry × TsPacket) × List UInt8 :=
  chunks.foldl tsp.read ([], [])

variable {tsp}

theorem foldl_read (chunks : List (List UInt8)) (st : List (CbEntry × TsPacket) × List UInt8)
    (hst : st.2.length < tsp.packetSize) :
    chunks.foldl tsp.read st = (st.1 ++ (tsp.loop (st.2 ++ chunks.flatten)).1,
      (tsp.loop (st.2 ++ chunks.flatten)).2) := by
  induction chunks generalizing st with
  | nil => simp [loop_of_lt hst]
  | cons c cs ih =>
    have hread : tsp.read st c = (st.1 ++ (tsp.loop (st.2 ++ c)).1, (tsp.loop (st.2 ++ c)).2) := by
      rw [read, drop_run]; rfl
    rw [foldl_cons, ih _ (by rw [hread]; exact length_loop_lt _), hread, flatten_cons,
      ← append_assoc st.2, loop_append (st.2 ++ c)]
    simp

/-- However the stream is cut into reads, the callbacks are called with the same
    packets as on the whole stream, the same bytes are left, and they are less
    than a packet. -/
theorem feed_eq_run (chunks : List (List UInt8)) :
    (tsp.feed chunks).1 = (tsp.run chunks.flatten).1 ∧
      (tsp.feed chunks).2 = chunks.flatten.drop (tsp.run chunks.flatten).2 ∧
      (tsp.feed chunks).2.length < tsp.packetSize := by
  have hpos := tsp.le_packetSize
  rw [feed, foldl_read chunks _ (by simp; omega)]
  exact ⟨rfl, by rw [drop_run]; rfl, length_loop_lt _⟩

end TsParser

end CommonDrivers.Dvb.SwDemux
