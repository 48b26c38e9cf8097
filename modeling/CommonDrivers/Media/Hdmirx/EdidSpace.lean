import CommonDrivers.Lib.Cells

/-!
# The space in an extension

The CTA extension of an EDID, as `hdmi_rx_edid.c` reads it: the data blocks from byte 132 on, the
detailed timings (DTDs) from the offset in byte 130 on, zeros, and a checksum in byte 255. The bytes
of a buffer are a function of their index.

`rx_edid_free_size` steps over the DTDs until one starts with a byte whose low five bits are 0. It
gives the number of zeros before the checksum, and the three sizes agree, exactly if there is no
such DTD (`free_size`). One with a pixel clock of 40 MHz is taken for the end of the DTDs
(`free_size_40MHz`).
-/

namespace CommonDrivers.Media.Hdmirx

open List Nat

/-- The bytes from an address on. -/
abbrev Edid := ℕ → UInt8

/-- `cur_edid[130] + 128`, as an `unsigned char`. -/
def dtdOffset (p : Edid) : ℕ := ((p 130).toNat + 128) % 256

/-! ## The size that is free -/

/-- The loop of `rx_edid_free_size`, which also stops at a byte whose low bits are 0. -/
def freeEnd (p : Edid) (size : ℕ) : (fuel blockStart : ℕ) → ℕ
  | 0, blockStart => blockStart
  | fuel + 1, blockStart =>
    if p blockStart ≠ 0 ∧ blockStart < size - 1 ∧ p blockStart &&& 0x1f ≠ 0 then
      freeEnd p size fuel (blockStart + 18)
    else blockStart

def rxEdidFreeSize (p : Edid) (size : ℕ) : ℤ :=
  let blockStart := freeEnd p size size ((p 130).toNat + 128)
  if blockStart ≤ size - 1 then size - blockStart - 1 else -1

/-- The loop of `rx_get_cea_dtd_size`. -/
def dtdSize (p : Edid) (size : ℕ) : (fuel dtdBlockOffset dtdSize : ℕ) → ℕ
  | 0, _, n => n
  | fuel + 1, off, n =>
    if off + 1 < size - 1 ∧ (p off ≠ 0 ∨ p (off + 1) ≠ 0) then
      if size - 1 < (off + 18) % 256 then n
      else dtdSize p size fuel ((off + 18) % 256) ((n + 18) % 256)
    else n

def rxGetCeaDtdSize (p : Edid) (size : ℕ) : ℕ := dtdSize p size size (dtdOffset p) 0

def rxEdidTotalFreeSize (p : Edid) (size : ℕ) : ℕ := (size - dtdOffset p - 1) % 256

/-! ## Well-formed extensions -/

/-- A detailed timing: its pixel clock is not 0. -/
def IsDtd (d : List UInt8) : Prop := d.length = 18 ∧ d.take 2 ≠ [0, 0]

/-- The DTDs start where byte 130 says, and zeros fill the rest up to the checksum. -/
structure Tail (p : Edid) (dtds : List (List UInt8)) (pad : ℕ) : Prop where
  size : 128 + (p 130).toNat + 18 * dtds.length + pad = 255
  isDtd : ∀ d ∈ dtds, IsDtd d
  tail : At p (128 + (p 130).toNat) (dtds.flatten ++ List.replicate pad 0)

variable {p : Edid} {dtds : List (List UInt8)} {o pad n fuel : ℕ}

/-- The scan for the end of the DTDs does not stop at this one. -/
def Seen (d : List UInt8) : Prop := ∀ x ∈ d.head?, x &&& 0x1f ≠ 0

instance (d : List UInt8) : Decidable (Seen d) := inferInstanceAs (Decidable (∀ x ∈ d.head?, _))

/-- The zeros after the DTDs end a scan. -/
theorem eq_zero_of_padded (h : At p o (replicate pad 0)) {k : ℕ} (hk : k < pad) :
    p (o + k) = 0 := by
  rw [h.getElem (by rwa [length_replicate]), getElem_replicate]

/-- The first bytes of a DTD, and what is after it. -/
theorem at_dtd {d : List UInt8} (hd : IsDtd d)
    (h : At p o ((d :: dtds).flatten ++ replicate pad 0)) :
    p o ∈ d.head? ∧ (p o ≠ 0 ∨ p (o + 1) ≠ 0) ∧
      At p (o + 18) (dtds.flatten ++ replicate pad 0) := by
  obtain ⟨hlen, hclock⟩ := hd
  rw [flatten_cons, append_assoc, at_append, hlen] at h
  obtain ⟨hdtd, hrest⟩ := h
  match d with
  | a :: b :: d =>
    have ha : p o = a := hdtd.getElem (k := 0) (by simp)
    have hb : p (o + 1) = b := hdtd.getElem (k := 1) (by simp)
    refine ⟨by rw [ha]; rfl, ?_, hrest⟩
    by_contra! hzero
    rw [ha, hb] at hzero
    exact hclock (by rw [hzero.1, hzero.2]; rfl)

/-- The scan ends behind the DTDs, if it stops at none of them; otherwise it ends before. -/
theorem freeEnd_eq_iff (hat : At p o (dtds.flatten ++ replicate pad 0))
    (hdtd : ∀ d ∈ dtds, IsDtd d) (hsize : o + 18 * dtds.length + pad = 255)
    (hfuel : dtds.length < fuel) :
    freeEnd p 256 fuel o ≤ o + 18 * dtds.length ∧
      (freeEnd p 256 fuel o = o + 18 * dtds.length ↔ ∀ d ∈ dtds, Seen d) := by
  induction dtds generalizing o fuel with
  | nil =>
    obtain ⟨fuel, rfl⟩ := exists_eq_succ_of_ne_zero hfuel.ne_bot
    rw [freeEnd, if_neg]
    · exact ⟨le_rfl, iff_of_true rfl nofun⟩
    · rintro ⟨hne, hlt, -⟩
      exact hne (eq_zero_of_padded hat (k := 0) (by simp at hsize; omega))
  | cons d dtds ih =>
    rw [length_cons] at hsize hfuel ⊢
    obtain ⟨fuel, rfl⟩ := exists_eq_succ_of_ne_zero (Nat.ne_zero_of_lt hfuel)
    obtain ⟨hhead, -, hrest⟩ := at_dtd (hdtd d mem_cons_self) hat
    have hseen : Seen d ↔ p o &&& 0x1f ≠ 0 := by
      rw [Seen, Option.mem_def.1 hhead]
      simp
    rw [forall_mem_cons, hseen]
    by_cases hlow : p o &&& 0x1f = 0
    · -- this DTD is taken for the end
      rw [freeEnd, if_neg fun h => h.2.2 hlow]
      exact ⟨by omega, iff_of_false (by omega) fun h => h.1 hlow⟩
    · have hne : p o ≠ 0 := fun hzero => hlow (by rw [hzero]; rfl)
      obtain ⟨hle, hiff⟩ := ih hrest (fun d hd => hdtd d (.tail _ hd)) (by omega)
        (lt_of_succ_lt_succ hfuel)
      rw [freeEnd, if_pos ⟨hne, by omega, hlow⟩, and_iff_right hlow, ← hiff]
      omega

theorem dtdSize_eq (hat : At p o (dtds.flatten ++ replicate pad 0))
    (hdtd : ∀ d ∈ dtds, IsDtd d) (hsize : o + 18 * dtds.length + pad = 255)
    (hn : n + 18 * dtds.length < 256) (hfuel : dtds.length < fuel) :
    dtdSize p 256 fuel o n = n + 18 * dtds.length := by
  induction dtds generalizing o n fuel with
  | nil =>
    obtain ⟨fuel, rfl⟩ := exists_eq_succ_of_ne_zero hfuel.ne_bot
    rw [dtdSize, if_neg]
    · rfl
    rintro ⟨hlt, hne⟩
    have hpad : 1 < pad := by
      simp at hsize
      omega
    rcases hne with hne | hne
    · exact hne (eq_zero_of_padded hat (k := 0) (by omega))
    · exact hne (eq_zero_of_padded hat (k := 1) hpad)
  | cons d dtds ih =>
    rw [length_cons] at hsize hn hfuel ⊢
    obtain ⟨fuel, rfl⟩ := exists_eq_succ_of_ne_zero (Nat.ne_zero_of_lt hfuel)
    obtain ⟨-, hclock, hrest⟩ := at_dtd (hdtd d mem_cons_self) hat
    rw [dtdSize, if_pos ⟨by omega, hclock⟩, mod_eq_of_lt (by omega), if_neg (by omega),
      mod_eq_of_lt (by omega),
      ih hrest (fun d hd => hdtd d (.tail _ hd)) (by omega) (by omega) (by omega)]
    omega

theorem Tail.dtdOffset_eq (h : Tail p dtds pad) : dtdOffset p = 128 + (p 130).toNat := by
  have hsize := h.size
  rw [dtdOffset]
  omega

theorem Tail.freeSize_eq_iff (h : Tail p dtds pad) :
    rxEdidFreeSize p 256 = pad ↔ ∀ d ∈ dtds, Seen d := by
  have hsize := h.size
  obtain ⟨hle, hiff⟩ := freeEnd_eq_iff h.tail h.isDtd hsize (by omega : dtds.length < 256)
  rw [rxEdidFreeSize, Nat.add_comm, if_pos (by omega), ← hiff]
  omega

theorem Tail.dtdSize_eq (h : Tail p dtds pad) : rxGetCeaDtdSize p 256 = 18 * dtds.length := by
  have hsize := h.size
  rw [rxGetCeaDtdSize, h.dtdOffset_eq,
    Hdmirx.dtdSize_eq h.tail h.isDtd hsize (by omega) (by omega), Nat.zero_add]

theorem Tail.totalFreeSize_eq (h : Tail p dtds pad) :
    rxEdidTotalFreeSize p 256 = 18 * dtds.length + pad := by
  have hsize := h.size
  rw [rxEdidTotalFreeSize, h.dtdOffset_eq]
  omega

/-- The free size and that of the DTDs are the total free size, and the free size is that of the
    zeros before the checksum, exactly if the scan stops at no DTD. -/
theorem free_size (h : Tail p dtds pad) :
    (rxEdidFreeSize p 256 + rxGetCeaDtdSize p 256 = rxEdidTotalFreeSize p 256 ∧
      rxEdidFreeSize p 256 = pad) ↔ ∀ d ∈ dtds, Seen d := by
  rw [← h.freeSize_eq_iff, h.dtdSize_eq, h.totalFreeSize_eq]
  omega

/-- A DTD with this pixel clock. -/
def dtdOf (low high : UInt8) : List UInt8 := low :: high :: List.replicate 16 0

/-- An extension with this DTD and no data blocks. -/
def oneDtd (low high : UInt8) : Edid
  | 126 => 1
  | 128 => 2
  | 130 => 4
  | 132 => low
  | 133 => high
  | _ => 0

theorem free_size_74MHz : rxEdidFreeSize (oneDtd 1 29) 256 = 105 := by
  have htail : Tail (oneDtd 1 29) [dtdOf 1 29] 105 :=
    ⟨rfl, forall_mem_singleton.2 ⟨rfl, nofun⟩, by decide +kernel⟩
  exact ((free_size htail).2 (forall_mem_singleton.2 (by decide +kernel))).2

theorem free_size_40MHz : Tail (oneDtd 0xA0 15) [dtdOf 0xA0 15] 105 ∧
    rxEdidFreeSize (oneDtd 0xA0 15) 256 = 123 ∧
    rxEdidFreeSize (oneDtd 0xA0 15) 256 + rxGetCeaDtdSize (oneDtd 0xA0 15) 256 ≠
      rxEdidTotalFreeSize (oneDtd 0xA0 15) 256 := by
  refine ⟨⟨rfl, forall_mem_singleton.2 ⟨rfl, nofun⟩, ?_⟩, ?_, ?_⟩
  all_goals decide +kernel

end CommonDrivers.Media.Hdmirx
