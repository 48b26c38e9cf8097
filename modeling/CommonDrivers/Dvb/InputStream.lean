import CommonDrivers.Dvb.InputAlign

/-!
# Streams of packets through the input of the demux

A stream of packets is cut into writes of any length. If every write is *safe*,
what the hardware is given, followed by the bytes saved at the end, is the stream
(`dmxWrites_safe`). A write that is not safe loses bytes, or writes out of the place
where bytes are saved, which has 384 bytes whatever the length of a packet; and what
is lost stays lost (`safe_of_dmxWrites`). So `lossless_iff` is exact.
-/

namespace CommonDrivers.Dvb

open List Nat

namespace AlignConfig

variable {c : AlignConfig} {bufs : List (List UInt8)}

/-- A stream of packets: `pack_len` bytes each, the first of which is the sync byte. -/
def IsPacket (c : AlignConfig) (p : List UInt8) : Prop := p.length = c.packLen ∧ p.head? = some 0x47

/-- The bytes of the stream before an incomplete packet. -/
def aligned (c : AlignConfig) (n : ℕ) : ℕ := n / c.packLen * c.packLen

/-- A write of `buf` after `n` bytes of a stream of packets is safe: packets are
    looked ahead, or it does not exceed the packet it starts in; and what is left of
    its last packet can be saved. -/
def Safe (c : AlignConfig) (n : ℕ) (buf : List UInt8) : Prop :=
  (1 ≤ c.findErrorPack ∨ n % c.packLen + buf.length ≤ c.packLen) ∧
    (n + buf.length) % c.packLen ≤ 384

/-- No byte is lost, duplicated or reordered by the writes, and the hardware is given
    whole packets. -/
def Lossless (c : AlignConfig) (bufs : List (List UInt8)) : Prop :=
  ∃ outs lastPack, c.dmxWrites [] bufs = .ok (outs, lastPack) ∧
    outs.flatten ++ lastPack = bufs.flatten ∧ ∀ out ∈ outs, c.packLen ∣ out.length

/-- Packets of a stream start with the sync byte. -/
def CleanStream (c : AlignConfig) (x : List UInt8) : Prop :=
  ∀ k, k * c.packLen < x.length → x.getD (k * c.packLen) 0 = 0x47

theorem cleanStream_flatten {ps : List (List UInt8)} (h : ∀ p ∈ ps, c.IsPacket p) :
    c.CleanStream ps.flatten := by
  intro k hk
  induction ps generalizing k with
  | nil => simp at hk
  | cons p ps ih =>
    rw [forall_mem_cons] at h
    obtain ⟨⟨hlen, hhead⟩, h⟩ := h
    rw [flatten_cons] at hk ⊢
    rw [length_append] at hk
    cases k with
    | zero =>
      cases p with
      | nil => cases hhead
      | cons b p =>
        simp only [head?_cons, Option.some.injEq] at hhead
        simp [hhead]
    | succ k =>
      rw [add_mul, one_mul, hlen] at hk
      rw [add_mul, one_mul, getD_append_right _ _ _ _ (by omega), hlen, Nat.add_sub_cancel]
      exact ih h k (by omega)

section

variable {x y buf : List UInt8}

theorem CleanStream.of_append (h : c.CleanStream (x ++ y)) : c.CleanStream x := by
  intro k hk
  have := h k (by rw [length_append]; omega)
  rwa [getD_append _ _ _ _ hk] at this

/-- The bytes from a packet on, in memory. -/
theorem CleanStream.clean (h : c.CleanStream x) (n : ℕ) :
    c.Clean (.load (x.drop (c.aligned n))) (x.drop (c.aligned n)).length := by
  intro k hk
  have hk' : k * c.packLen < (x.drop (c.aligned n)).length := by exact_mod_cast hk
  rw [length_drop] at hk'
  have := h (n / c.packLen + k) (by rw [add_mul, ← aligned]; omega)
  rw [← this, add_mul, ← aligned, ← cast_mul, Mem.load_natCast]
  simp [getD_eq_getElem?_getD]

theorem aligned_eq (n : ℕ) : c.aligned n = n - n % c.packLen := div_mul_self_eq_mod_sub_self

theorem aligned_le (n : ℕ) : c.aligned n ≤ n := div_mul_le_self _ _

theorem drop_aligned_append : x.drop (c.aligned x.length) ++ buf =
    (x ++ buf).drop (c.aligned x.length) := (drop_append_of_le_length (aligned_le _)).symm

/-- The length of what a write is given, and of what it leaves. -/
theorem length_data : (x.drop (c.aligned x.length) ++ buf).length =
    x.length % c.packLen + buf.length ∧
    (x.drop (c.aligned x.length) ++ buf).length % c.packLen = (x ++ buf).length % c.packLen := by
  have h : (x.drop (c.aligned x.length) ++ buf).length = x.length % c.packLen + buf.length := by
    have := mod_le x.length c.packLen
    rw [length_append, length_drop, aligned_eq]
    omega
  refine ⟨h, ?_⟩
  rw [h, length_append, mod_add_mod]

/-- What a write makes of a clean buffer, if it loses no byte. -/
theorem dmxWriteFromUser_eq (hpl : 0 < c.packLen) (h : c.CleanStream (x ++ buf))
    (hfep : 1 ≤ c.findErrorPack ∨ x.length % c.packLen + buf.length ≤ c.packLen) :
    c.dmxWriteFromUser (x.drop (c.aligned x.length)) buf =
      if 384 < (x ++ buf).length % c.packLen then .error .bounds
      else .ok ((x.drop (c.aligned x.length) ++ buf).take
          (c.aligned (x.drop (c.aligned x.length) ++ buf).length),
        (x.drop (c.aligned x.length) ++ buf).drop
          (c.aligned (x.drop (c.aligned x.length) ++ buf).length)) := by
  obtain ⟨hlen, hmod⟩ := @length_data c x buf
  have hclean := h.clean x.length
  rw [← drop_aligned_append] at hclean
  rw [dmxWriteFromUser]
  generalize x.drop (c.aligned x.length) ++ buf = data at *
  rw [checkDataPackAlign_clean hclean hpl (Int.natCast_nonneg _)
    (hfep.imp id fun hle => by rw [hlen]; exact_mod_cast hle), ← hmod, cacheAlignmentLen]
  have hcast : (data.length : ℤ) - data.length % c.packLen = (c.aligned data.length : ℤ) := by
    have := mod_le data.length c.packLen
    rw [aligned_eq]
    push_cast [cast_sub this]
    rfl
  have hrest : (data.length : ℤ) % c.packLen = (data.length - c.aligned data.length : ℕ) := by
    omega
  by_cases hfit : 384 < data.length % c.packLen
  · rw [if_pos hfit, if_pos (by exact_mod_cast hfit)]
    rfl
  rw [if_neg hfit, if_neg (by exact_mod_cast hfit)]
  have hout := Mem.bytes_load (l := data) 0 (c.aligned data.length)
    (by have := aligned_le (c := c) data.length; omega)
  have hlast := Mem.bytes_load (l := data) (c.aligned data.length)
    (data.length - c.aligned data.length) (by have := aligned_le (c := c) data.length; omega)
  rw [cast_zero, drop_zero] at hout
  rw [take_of_length_le (by simp)] at hlast
  simp only [Except.map, hcast, hout]
  rw [hrest, hlast]

/-- A safe write takes all whole packets, and saves the rest. -/
theorem dmxWriteFromUser_safe (hpl : 0 < c.packLen) (h : c.CleanStream (x ++ buf))
    (hsafe : c.Safe x.length buf) : ∃ out, c.dmxWriteFromUser (x.drop (c.aligned x.length)) buf =
        .ok (out, (x ++ buf).drop (c.aligned (x ++ buf).length)) ∧
      out ++ (x ++ buf).drop (c.aligned (x ++ buf).length) = x.drop (c.aligned x.length) ++ buf ∧
      c.packLen ∣ out.length := by
  obtain ⟨hlen, hmod⟩ := @length_data c x buf
  have hdrop : (x.drop (c.aligned x.length) ++ buf).drop
      (c.aligned (x.drop (c.aligned x.length) ++ buf).length) =
      (x ++ buf).drop (c.aligned (x ++ buf).length) := by
    rw [drop_aligned_append, drop_drop, ← drop_aligned_append]
    congr 1
    have h₁ := aligned_eq (c := c) x.length
    have h₂ := aligned_eq (c := c) (x.drop (c.aligned x.length) ++ buf).length
    have h₃ := aligned_eq (c := c) (x ++ buf).length
    have hle₁ := mod_le x.length c.packLen
    have hle₂ := mod_le (x.drop (c.aligned x.length) ++ buf).length c.packLen
    have happ : (x ++ buf).length = x.length + buf.length := length_append
    omega
  rw [dmxWriteFromUser_eq hpl h hsafe.1, if_neg (by rw [length_append]; exact not_lt.2 hsafe.2),
    hdrop]
  refine ⟨_, rfl, ?_, ?_⟩
  · rw [← hdrop, take_append_drop]
  · rw [length_take_of_le (aligned_le _)]
    exact Nat.dvd_mul_left _ _

/-- A write that is not safe loses bytes, or faults. -/
theorem dmxWriteFromUser_not_safe (hpl : 0 < c.packLen) (h : c.CleanStream (x ++ buf))
    (hsafe : ¬c.Safe x.length buf) {out r : List UInt8}
    (hr : c.dmxWriteFromUser (x.drop (c.aligned x.length)) buf = .ok (out, r)) :
    out.length + r.length < (x.drop (c.aligned x.length)).length + buf.length := by
  by_cases hfep : 1 ≤ c.findErrorPack ∨ x.length % c.packLen + buf.length ≤ c.packLen
  · -- What is left of the last packet does not fit.
    rw [dmxWriteFromUser_eq hpl h hfep, if_pos] at hr
    · cases hr
    · rw [length_append]
      exact not_le.1 fun hle => hsafe ⟨hfep, hle⟩
  rw [not_or, not_le, not_le] at hfep
  obtain ⟨hlen, -⟩ := @length_data c x buf
  have hclean := h.clean x.length
  rw [← drop_aligned_append] at hclean
  rw [show (x.drop (c.aligned x.length)).length + buf.length =
    (x.drop (c.aligned x.length) ++ buf).length from length_append.symm]
  rw [dmxWriteFromUser] at hr
  generalize x.drop (c.aligned x.length) ++ buf = data at *
  cases hc : c.checkDataPackAlign (.load data) data.length with
  | error e =>
    rw [hc] at hr
    cases hr
  | ok res =>
    rw [hc] at hr
    cases hr
    have := checkDataPackAlign_lt hclean hpl (by omega) (by rw [hlen]; exact_mod_cast hfep.2) hc
    rw [Mem.length_bytes]
    omega

end

theorem dmxWriteFromUser_le {lastPack buf out r : List UInt8}
    (hr : c.dmxWriteFromUser lastPack buf = .ok (out, r)) :
    out.length + r.length ≤ lastPack.length + buf.length := by
  rw [dmxWriteFromUser] at hr
  cases hc : c.checkDataPackAlign (.load (lastPack ++ buf)) (lastPack ++ buf).length with
  | error e =>
    rw [hc] at hr
    cases hr
  | ok res =>
    rw [hc] at hr
    cases hr
    have := checkDataPackAlign_le (Int.natCast_nonneg _) hc
    simp only [Mem.length_bytes, length_append] at this ⊢
    omega

theorem dmxWrites_cons {lastPack buf r : List UInt8} {bufs outs : List (List UInt8)}
    (hr : c.dmxWrites lastPack (buf :: bufs) = .ok (outs, r)) :
    ∃ out lastPack' outs', c.dmxWriteFromUser lastPack buf = .ok (out, lastPack') ∧
      c.dmxWrites lastPack' bufs = .ok (outs', r) ∧ outs = out :: outs' := by
  rw [dmxWrites] at hr
  cases hw : c.dmxWriteFromUser lastPack buf with
  | error e =>
    rw [hw] at hr
    cases hr
  | ok res =>
    obtain ⟨out, lastPack'⟩ := res
    rw [hw] at hr
    cases hws : c.dmxWrites lastPack' bufs with
    | error e =>
      simp only [Except.bind, hws] at hr
      cases hr
    | ok res =>
      obtain ⟨outs', r'⟩ := res
      simp only [Except.bind, hws] at hr
      cases hr
      exact ⟨out, lastPack', outs', rfl, hws, rfl⟩

theorem dmxWrites_le {lastPack r : List UInt8} {bufs outs : List (List UInt8)}
    (hr : c.dmxWrites lastPack bufs = .ok (outs, r)) :
    outs.flatten.length + r.length ≤ lastPack.length + bufs.flatten.length := by
  induction bufs generalizing lastPack outs with
  | nil =>
    cases hr
    simp
  | cons buf bufs ih =>
    obtain ⟨out, lastPack', outs', hw, hws, rfl⟩ := dmxWrites_cons hr
    have h₁ := dmxWriteFromUser_le hw
    have h₂ := ih hws
    simp only [flatten_cons, length_append]
    omega

/-- Safe writes, from `x` on, lose no byte. -/
theorem dmxWrites_safe (hpl : 0 < c.packLen) {x : List UInt8}
    (h : c.CleanStream (x ++ bufs.flatten))
    (hsafe : ∀ pre buf post, bufs = pre ++ buf :: post → c.Safe (x ++ pre.flatten).length buf) :
    ∃ outs r, c.dmxWrites (x.drop (c.aligned x.length)) bufs = .ok (outs, r) ∧
      outs.flatten ++ r = x.drop (c.aligned x.length) ++ bufs.flatten ∧
      ∀ out ∈ outs, c.packLen ∣ out.length := by
  induction bufs generalizing x with
  | nil => exact ⟨[], _, rfl, by simp, by simp⟩
  | cons buf bufs ih =>
    rw [flatten_cons, ← append_assoc] at h
    obtain ⟨out, hw, hout, hdvd⟩ := dmxWriteFromUser_safe hpl h.of_append
      (by simpa using hsafe [] buf bufs rfl)
    obtain ⟨outs, r, hws, houts, hdvds⟩ := ih h fun pre buf' post hpre => by
      have := hsafe (buf :: pre) buf' post (by rw [hpre, cons_append])
      rwa [flatten_cons, ← append_assoc] at this
    refine ⟨out :: outs, r, ?_, ?_, forall_mem_cons.2 ⟨hdvd, hdvds⟩⟩
    · rw [dmxWrites, hw]
      show (c.dmxWrites _ bufs).map _ = _
      rw [hws]
      rfl
    · rw [flatten_cons, append_assoc, houts, ← append_assoc, hout, flatten_cons, append_assoc]

/-- Writes that lose no byte, from `x` on, are safe. -/
theorem safe_of_dmxWrites (hpl : 0 < c.packLen) {x r : List UInt8} {bufs outs : List (List UInt8)}
    (h : c.CleanStream (x ++ bufs.flatten))
    (hr : c.dmxWrites (x.drop (c.aligned x.length)) bufs = .ok (outs, r))
    (heq : outs.flatten ++ r = x.drop (c.aligned x.length) ++ bufs.flatten) :
    ∀ pre buf post, bufs = pre ++ buf :: post → c.Safe (x ++ pre.flatten).length buf := by
  induction bufs generalizing x outs with
  | nil => simp
  | cons buf bufs ih =>
    rw [flatten_cons, ← append_assoc] at h
    obtain ⟨out, lastPack', outs', hw, hws, rfl⟩ := dmxWrites_cons hr
    by_cases hsafe : c.Safe x.length buf
    · obtain ⟨out', hw', hout, -⟩ := dmxWriteFromUser_safe hpl h.of_append hsafe
      rw [hw', Except.ok.injEq, Prod.mk.injEq] at hw
      obtain ⟨rfl, rfl⟩ := hw
      rw [flatten_cons, flatten_cons, ← append_assoc (x.drop _), ← hout,
        append_assoc, append_assoc, append_cancel_left_eq] at heq
      intro pre buf' post hpre
      cases pre with
      | nil =>
        cases hpre
        simpa using hsafe
      | cons b pre =>
        cases hpre
        have := ih h hws heq pre buf' post rfl
        rwa [append_assoc] at this
    · -- What this write loses is not made up for by the next ones.
      have h₁ := dmxWriteFromUser_not_safe hpl h.of_append hsafe hw
      have h₂ := dmxWrites_le hws
      have h₃ := congrArg length heq
      simp only [flatten_cons, length_append] at h₃
      omega

/-- Without packets, there is nothing to lose. -/
theorem lossless_of_nil (hpl : c.packLen = 0) (h : ∀ buf ∈ bufs, buf = []) : c.Lossless bufs := by
  suffices c.dmxWrites [] bufs = .ok (bufs, []) from
    ⟨bufs, [], this, by simp, fun out hout => by simp [h out hout]⟩
  induction bufs with
  | nil => rfl
  | cons buf bufs ih =>
    rw [forall_mem_cons] at h
    obtain ⟨rfl, h⟩ := h
    rw [dmxWrites, dmxWriteFromUser, checkDataPackAlign, if_pos hpl]
    show (c.dmxWrites [] bufs).map _ = _
    rw [ih h]
    rfl

/-- Exactly when a stream of packets, cut into the writes `bufs`, is passed to the
    hardware without a loss. -/
theorem lossless_iff (c : AlignConfig) (ps bufs : List (List UInt8)) (hps : ∀ p ∈ ps, c.IsPacket p)
    (hbufs : bufs.flatten = ps.flatten) : c.Lossless bufs ↔
      ∀ pre buf post, bufs = pre ++ buf :: post → c.Safe pre.flatten.length buf := by
  have hclean : c.CleanStream ([] ++ bufs.flatten) := by
    rw [nil_append, hbufs]
    exact cleanStream_flatten hps
  rcases c.packLen.eq_zero_or_pos with hpl | hpl
  · -- There is no packet of length 0.
    obtain rfl : ps = [] := by
      refine eq_nil_iff_forall_not_mem.2 fun p hp => ?_
      obtain ⟨hlen, hhead⟩ := hps p hp
      rw [length_eq_zero_iff.1 (hlen.trans hpl)] at hhead
      cases hhead
    have hnil : ∀ buf ∈ bufs, buf = [] := flatten_eq_nil_iff.1 hbufs
    refine ⟨fun _ pre buf post hpre => ?_, fun _ => lossless_of_nil hpl hnil⟩
    rw [hpre, forall_mem_append, forall_mem_cons] at hnil
    rw [Safe, hnil.2.1, flatten_eq_nil_iff.2 hnil.1]
    simp
  · constructor
    · rintro ⟨outs, r, hr, heq, -⟩
      simpa using safe_of_dmxWrites (x := []) hpl hclean (by simpa using hr) (by simpa using heq)
    · intro hsafe
      simpa [Lossless] using dmxWrites_safe (x := []) hpl hclean (by simpa using hsafe)

/-- A packet of 188 bytes. -/
def packet : List UInt8 := 0x47 :: List.replicate 187 0

theorem length_packet : packet.length = 188 := by
  rw [packet, length_cons, length_replicate]

theorem isPacket_packet (n : ℤ) : ∀ p ∈ [packet, packet], IsPacket ⟨188, n⟩ p := by
  rw [forall_mem_cons, forall_mem_singleton]
  exact ⟨⟨length_packet, rfl⟩, ⟨length_packet, rfl⟩⟩

theorem lossless_default : Lossless ⟨188, 2⟩ [packet ++ packet] := by
  refine (lossless_iff ⟨188, 2⟩ [packet, packet] _ (isPacket_packet 2) (by simp)).2
    fun pre buf post h => ?_
  cases pre with
  | nil =>
    obtain ⟨rfl, -⟩ := cons.inj h
    exact ⟨.inl (show (1 : ℤ) ≤ 2 by norm_num), by simp [length_packet]⟩
  | cons b pre => simp at h

/-- Without look-ahead, a write of two packets loses one. -/
theorem not_lossless_without_lookAhead : (∀ p ∈ [packet, packet], IsPacket ⟨188, 0⟩ p) ∧
      [packet ++ packet].flatten = [packet, packet].flatten ∧
      ¬Lossless ⟨188, 0⟩ [packet ++ packet] := by
  refine ⟨isPacket_packet 0, by simp, ?_⟩
  rintro ⟨outs, r, hr, heq, -⟩
  obtain ⟨h, -⟩ := @safe_of_dmxWrites ⟨188, 0⟩ (by norm_num) [] r [packet ++ packet] outs
    (by simpa using cleanStream_flatten (isPacket_packet 0)) (by simpa using hr)
    (by simpa using heq) [] (packet ++ packet) [] rfl
  simp [length_packet] at h

end AlignConfig

end CommonDrivers.Dvb
