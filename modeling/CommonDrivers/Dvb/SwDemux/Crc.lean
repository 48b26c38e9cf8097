import CommonDrivers.Dvb.SwDemux.Filter

/-!
# The CRC of a section

`swdmx_crc32` takes a byte at a time, from a table. It is the CRC-32 of MPEG-2, which takes the bits
of the message one by one, and a message with its CRC behind it has the CRC 0 (`swdmxCrc32_serial`).

A bit of the register and one of the message count together (`crcBit_xor`). So the byte that stands
in the register leaves it without a trace (`foldl_top`), and what is left of another byte is the
table's word for the difference of the two.
-/

namespace CommonDrivers.Dvb.SwDemux

open List

/-- A bit of the message goes into the register of the CRC. -/
def crcBit (crc : UInt32) (bit : Bool) : UInt32 :=
  (crc <<< 1) ^^^ if (crc.toBitVec.msb ^^ bit) then 0x04c11db7 else 0

/-- The bits of a byte, in the order in which they are sent. -/
def bits (b : UInt8) : List Bool := (range 8).map b.toBitVec.getMsbD

/-- The CRC-32 of MPEG-2. -/
def serialCrc (p : List UInt8) : UInt32 := (p.flatMap bits).foldl crcBit 0xffffffff

/-- The bytes of a word, in big-endian order. -/
def bigEndian (w : UInt32) : List UInt8 :=
  [(w >>> 24).toUInt8, (w >>> 16).toUInt8, (w >>> 8).toUInt8, w.toUInt8]

theorem crcBit_xor (a b : UInt32) (s t : Bool) :
    crcBit (a ^^^ b) (s ^^ t) = crcBit a s ^^^ crcBit b t := by
  have hbit : ((a ^^^ b).toBitVec.msb ^^ (s ^^ t)) =
      ((a.toBitVec.msb ^^ s) ^^ (b.toBitVec.msb ^^ t)) := by
    rw [UInt32.toBitVec_xor, BitVec.msb_xor]
    grind
  have hword : ∀ x y : Bool, (if (x ^^ y) then (0x04c11db7 : UInt32) else 0) =
      (if x then 0x04c11db7 else 0) ^^^ if y then 0x04c11db7 else 0 := by
    decide
  rw [crcBit, hbit, hword, UInt32.shiftLeft_xor, crcBit, crcBit]
  ac_rfl

/-- The bits of two messages go in together. -/
theorem foldl_crcBit_xor (a b : UInt32) {l k : List Bool} (h : l.length = k.length) :
    (l.zipWith xor k).foldl crcBit (a ^^^ b) = l.foldl crcBit a ^^^ k.foldl crcBit b := by
  induction l generalizing a b k with
  | nil =>
    cases k with
    | nil => rfl
    | cons => cases h
  | cons s l ih =>
    cases k with
    | nil => cases h
    | cons t k =>
      simp only [zipWith_cons_cons, foldl_cons, crcBit_xor]
      exact ih _ _ (Nat.succ.inj h)

/-- The bits that stand in the register are shifted out. -/
theorem foldl_getMsbD (crc : UInt32) (n : ℕ) :
    (((range n).map crc.toBitVec.getMsbD).foldl crcBit crc).toBitVec = crc.toBitVec <<< n := by
  induction n with
  | zero => simp
  | succ n ih =>
    simp only [range_succ, map_append, foldl_append, map_cons, map_nil, foldl_cons, foldl_nil]
    generalize ((range n).map crc.toBitVec.getMsbD).foldl crcBit crc = c at ih
    have hmsb : crc.toBitVec.getMsbD n = c.toBitVec.msb := by rw [ih, BitVec.msb_shiftLeft]
    rw [crcBit, hmsb, Bool.xor_self, BitVec.shiftLeft_add, ← ih]
    simp

theorem foldl_top (crc : UInt32) : (bits (crc >>> 24).toUInt8).foldl crcBit crc = crc <<< 8 := by
  have hbits : bits (crc >>> 24).toUInt8 = (range 8).map crc.toBitVec.getMsbD := by
    refine map_congr_left fun i hi => ?_
    have hlt := mem_range.1 hi
    have hidx : 24 + (7 - i) = 31 - i := by omega
    simp [BitVec.getMsbD, hlt, hidx, show 7 - i < 8 by omega, show i < 32 by omega]
  rw [hbits]
  exact UInt32.eq_of_toBitVec_eq (foldl_getMsbD crc 8)

/-- The loop of `crc32_table_init` has a turn for each bit of the index, and ends. -/
theorem crc32Entry_eq (fuel : ℕ) (i : UInt8) : crc32Entry (fuel + 9)
    ((UInt32.ofNat i.toNat <<< 24) ||| 0x800000) 0 = (bits i).foldl crcBit 0 := by
  have hall : ∀ i : Fin 256, crc32Entry 9 ((UInt32.ofNat i <<< 24) ||| 0x800000) 0 =
      (bits (.ofNat i)).foldl crcBit 0 ∧ ((UInt32.ofNat i <<< 24) ||| 0x800000)
        <<< 1 <<< 1 <<< 1 <<< 1 <<< 1 <<< 1 <<< 1 <<< 1 = 0x80000000 := by
    decide +kernel
  obtain ⟨hentry, hlast⟩ := hall ⟨i.toNat, i.toNat_lt⟩
  rw [UInt8.ofNat_toNat] at hentry
  rw [← hentry]
  generalize (UInt32.ofNat i.toNat <<< 24) ||| 0x800000 = j at hlast
  simp only [crc32Entry, hlast, if_true]

theorem getD_crc32Table (i : UInt8) : crc32Table.getD i.toNat 0 = (bits i).foldl crcBit 0 := by
  rw [crc32Table, getD_eq_getElem _ _ (by simpa using i.toNat_lt), getElem_map, getElem_range]
  exact crc32Entry_eq 0 i

/-- A byte from the table. -/
theorem foldl_bits (crc : UInt32) (b : UInt8) : (bits b).foldl crcBit crc =
    (crc <<< 8) ^^^ crc32Table.getD ((crc >>> 24) ^^^ b.toUInt32).toNat 0 := by
  have hidx : ((crc >>> 24) ^^^ b.toUInt32).toNat = ((crc >>> 24).toUInt8 ^^^ b).toNat := by
    have := crc.toNat_lt
    simp
    omega
  have hbits : (bits (crc >>> 24).toUInt8).zipWith xor (bits ((crc >>> 24).toUInt8 ^^^ b)) =
      bits b := by
    simp [bits, zipWith_map]
  have hsplit := foldl_crcBit_xor crc 0 (l := bits (crc >>> 24).toUInt8)
    (k := bits ((crc >>> 24).toUInt8 ^^^ b)) (by simp [bits])
  rwa [hbits, UInt32.xor_zero, foldl_top, ← getD_crc32Table, ← hidx] at hsplit

/-- The register is shifted out byte by byte. -/
theorem foldl_bigEndian (crc : UInt32) : ((bigEndian crc).flatMap bits).foldl crcBit crc = 0 := by
  have htop : bigEndian crc = [(crc >>> 24).toUInt8, (crc <<< 8 >>> 24).toUInt8,
      (crc <<< 8 <<< 8 >>> 24).toUInt8, (crc <<< 8 <<< 8 <<< 8 >>> 24).toUInt8] := by
    simp only [bigEndian, cons.injEq, ← UInt8.toNat_inj, true_and, and_true]
    simp [Nat.shiftLeft_eq, Nat.shiftRight_eq_div_pow]
    omega
  simp only [htop, flatMap_cons, flatMap_nil, append_nil, foldl_append, foldl_top]
  simp [← UInt32.toBitVec_inj]

theorem swdmxCrc32_serial (p : List UInt8) : swdmxCrc32 p = serialCrc p ∧
    swdmxCrc32 (p ++ bigEndian (swdmxCrc32 p)) = 0 := by
  have heq : ∀ p, swdmxCrc32 p = serialCrc p := fun p => by
    simp only [serialCrc, foldl_flatMap, foldl_bits, swdmxCrc32]
  refine ⟨heq p, ?_⟩
  rw [heq, heq, serialCrc, flatMap_append, foldl_append]
  exact foldl_bigEndian _

end CommonDrivers.Dvb.SwDemux
