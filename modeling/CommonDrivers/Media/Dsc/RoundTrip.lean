import CommonDrivers.Lib.Bits
import CommonDrivers.Media.Dsc.Pps

/-!
# What the receiver gets of the picture parameter set

The 136 bytes are cut into packets and put together again. The receiver takes the last eight of them
from the wrong place (`dscInfo_eq`), does not shift two of the flags down, and does not extend the
sign of the offsets of the ranges; all the other fields are those that were sent.

* `received_pps`: what is received is what was sent, exactly where these three do not show;
* `received_otherwise`: a set where they do.
-/

namespace CommonDrivers.Dsc

open List Nat

/-! ## Widths -/

structure RcRangeParameters.Fits (r : RcRangeParameters) : Prop where
  rangeMinQp : r.rangeMinQp < 2 ^ 5
  rangeMaxQp : r.rangeMaxQp < 2 ^ 5
  rangeBpgOffset : -32 ≤ r.rangeBpgOffset ∧ r.rangeBpgOffset < 32

structure RcParameterSet.Fits (p : RcParameterSet) : Prop where
  rcModelSize : p.rcModelSize < 2 ^ 16
  rcEdgeFactor : p.rcEdgeFactor < 2 ^ 4
  rcQuantIncrLimit0 : p.rcQuantIncrLimit0 < 2 ^ 5
  rcQuantIncrLimit1 : p.rcQuantIncrLimit1 < 2 ^ 5
  rcTgtOffsetHi : p.rcTgtOffsetHi < 2 ^ 4
  rcTgtOffsetLo : p.rcTgtOffsetLo < 2 ^ 4
  rcBufThresh : ∀ i, p.rcBufThresh i < 2 ^ 8
  rcRangeParameters : ∀ i, (p.rcRangeParameters i).Fits

/-- The fields fit the widths that the format has for them. -/
structure PpsData.Fits (pps : PpsData) : Prop where
  dscVersionMajor : pps.dscVersionMajor < 2 ^ 4
  dscVersionMinor : pps.dscVersionMinor < 2 ^ 4
  ppsIdentifier : pps.ppsIdentifier < 2 ^ 8
  bitsPerComponent : pps.bitsPerComponent < 2 ^ 4
  lineBufDepth : pps.lineBufDepth < 2 ^ 4
  blockPredEnable : pps.blockPredEnable < 2
  convertRgb : pps.convertRgb < 2
  simple422 : pps.simple422 < 2
  vbrEnable : pps.vbrEnable < 2
  bitsPerPixel : pps.bitsPerPixel < 2 ^ 10
  picHeight : pps.picHeight < 2 ^ 16
  picWidth : pps.picWidth < 2 ^ 16
  sliceHeight : pps.sliceHeight < 2 ^ 16
  sliceWidth : pps.sliceWidth < 2 ^ 16
  chunkSize : pps.chunkSize < 2 ^ 16
  initialXmitDelay : pps.initialXmitDelay < 2 ^ 10
  initialDecDelay : pps.initialDecDelay < 2 ^ 16
  initialScaleValue : pps.initialScaleValue < 2 ^ 6
  scaleIncrementInterval : pps.scaleIncrementInterval < 2 ^ 16
  scaleDecrementInterval : pps.scaleDecrementInterval < 2 ^ 12
  firstLineBpgOffset : pps.firstLineBpgOffset < 2 ^ 5
  nflBpgOffset : pps.nflBpgOffset < 2 ^ 16
  sliceBpgOffset : pps.sliceBpgOffset < 2 ^ 16
  initialOffset : pps.initialOffset < 2 ^ 16
  finalOffset : pps.finalOffset < 2 ^ 16
  flatnessMinQp : pps.flatnessMinQp < 2 ^ 5
  flatnessMaxQp : pps.flatnessMaxQp < 2 ^ 5
  rcParameterSet : pps.rcParameterSet.Fits
  native420 : pps.native420 < 2
  native422 : pps.native422 < 2
  secondLineBpgOffset : pps.secondLineBpgOffset < 2 ^ 5
  nslBpgOffset : pps.nslBpgOffset < 2 ^ 16
  secondLineOffsetAdj : pps.secondLineOffsetAdj < 2 ^ 16

variable {pps old : PpsData} {timing : Timing} {f : Framing} {rx : Cvtem} {buff pkt : ℕ → ℕ}
  {i j k o x y hi lo cnt : ℕ} {data : List ℕ}

/-! ## Packets -/

theorem stored_first (h7 : 7 ≤ o) (ho : o < 28) : stored f data (4 + o) = data.getD (o - 7) 0 := by
  rw [stored, dif_neg (by omega), if_neg (by omega), payload, if_pos (by omega), if_neg (by omega)]
  congr 1
  omega

theorem stored_next (ho : o < 28) :
    stored f data (32 * (k + 1) + 4 + o) = data.getD (21 + 28 * k + o) 0 := by
  rw [stored, dif_neg (by omega), if_neg (by omega), payload, if_neg (by omega)]
  congr 1
  omega

/-- The bytes of the set, before the last eight, come from the payloads. -/
theorem dscInfo_of_lt (hi : i < 128) :
    (rxGetCvtem (stored f data) cnt rx).dscInfo i = data.getD i 0 := by
  rw [rxGetCvtem]
  dsimp only
  rw [fill_of_lt _ hi]
  -- from the last copy to the first, the byte is in the copy or before it
  rcases lt_or_ge i 105 with h105 | h105
  · rw [fill_of_lt _ h105]
    rcases lt_or_ge i 77 with h77 | h77
    · rw [fill_of_lt _ h77]
      rcases lt_or_ge i 49 with h49 | h49
      · rw [fill_of_lt _ h49]
        rcases lt_or_ge i 21 with h21 | h21
        · rw [fill_of_lt _ h21, fill_slice _ _ (Nat.zero_le i) (by omega),
            show 11 + (i - 0) = 4 + (7 + i) by omega, stored_first (by omega) (by omega),
            Nat.add_sub_cancel_left]
        · rw [fill_slice _ _ h21 (by omega),
            show 36 + (i - 21) = 32 * (0 + 1) + 4 + (i - 21) by omega, stored_next (by omega)]
          exact congrArg (data.getD · 0) (by omega)
      · rw [fill_slice _ _ h49 (by omega),
          show 68 + (i - 49) = 32 * (1 + 1) + 4 + (i - 49) by omega, stored_next (by omega)]
        exact congrArg (data.getD · 0) (by omega)
    · rw [fill_slice _ _ h77 (by omega),
        show 100 + (i - 77) = 32 * (2 + 1) + 4 + (i - 77) by omega, stored_next (by omega)]
      exact congrArg (data.getD · 0) (by omega)
  · rw [fill_slice _ _ h105 (by omega),
      show 132 + (i - 105) = 32 * (3 + 1) + 4 + (i - 105) by omega, stored_next (by omega)]
    exact congrArg (data.getD · 0) (by omega)

/-- The last eight are taken four places too far, so that five of them come from the end of the
    fifth packet and from the header of the sixth. -/
theorem dscInfo_of_le (hle : 128 ≤ i) (hlt : i < 136) :
    (rxGetCvtem pkt cnt rx).dscInfo i = pkt (31 + i) := by
  rw [rxGetCvtem]
  dsimp only
  rw [fill_slice _ _ hle hlt]
  exact congrArg pkt (by omega)

/-! ## Fields -/

/-- A field of 16 bits in two bytes. -/
theorem word_of_bytes (hx : x < 2 ^ 16) (hhi : hi = (x >>> 8) &&& 0xff) (hlo : lo = x &&& 0xff) :
    (hi <<< 8) ||| lo = x := by
  rw [and_mask x 8 rfl] at hlo
  rw [and_mask _ 8 rfl, shiftRight_eq_div_pow] at hhi
  rw [shiftLeft_or hi (by omega : lo < 2 ^ 8)]
  omega

/-- A field with some of its bits in the first of two bytes. -/
theorem word_of_masked {m : ℕ} (n : ℕ) (hm : m + 1 = 2 ^ n) (hx : x < 2 ^ (8 + n))
    (hhi : hi &&& m = (x >>> 8) &&& m) (hlo : lo = x &&& 0xff) : ((hi &&& m) <<< 8) ||| lo = x := by
  rw [and_mask x 8 rfl] at hlo
  have hdiv : x / 2 ^ 8 < 2 ^ n := Nat.div_lt_of_lt_mul (by rwa [← Nat.pow_add])
  rw [hhi, and_mask _ n hm, shiftRight_eq_div_pow, mod_eq_of_lt hdiv,
    shiftLeft_or _ (by omega : lo < 2 ^ 8)]
  omega

/-- A field in the low bits of a byte. -/
theorem and_and_mask {m n : ℕ} (hm : m + 1 = 2 ^ n) (hx : x < 2 ^ n) (hlo : lo = x &&& m) :
    lo &&& m = x := by
  rw [hlo, Nat.and_assoc, Nat.and_self, and_mask x n hm, mod_eq_of_lt hx]

/-- Two fields of four bits in a byte. -/
theorem nibbles (hx : x < 2 ^ 4) (hy : y < 2 ^ 4)
    (hlo : lo = ((x &&& 0xf) <<< 4) ||| ((y &&& 0xf) <<< 0)) :
    (lo >>> 4) &&& 0xf = x ∧ lo &&& 0xf = y := by
  rw [and_mask x 4 rfl, and_mask y 4 rfl, mod_eq_of_lt hx, mod_eq_of_lt hy,
    shiftLeft_zero, shiftLeft_or x hy] at hlo
  rw [and_mask _ 4 rfl, and_mask _ 4 rfl, shiftRight_eq_div_pow]
  omega

/-- The byte with the flags: two of them are cut out, but not shifted down. -/
theorem flags_byte {a b c d e : ℕ} (ha : a < 2) (hb : b < 2) (hc : c < 2) (hd : d < 2)
    (hlo : lo = ((a &&& 0x1) <<< 5) ||| ((b &&& 0x1) <<< 4) ||| ((c &&& 0x1) <<< 3) |||
      ((d &&& 0x1) <<< 2) ||| ((e &&& 0x3) <<< 0)) :
    (lo &&& 0x20) >>> 5 = a ∧ (lo &&& 0x10) >>> 4 = b ∧ lo &&& 0x8 = 8 * c ∧ lo &&& 0x4 = 4 * d ∧
      lo &&& 0x3 = e &&& 0x3 := by
  have he : e &&& 0x3 < 4 := by
    rw [and_mask e 2 rfl]
    omega
  generalize e &&& 0x3 = e' at he hlo ⊢
  subst hlo
  interval_cases a <;> interval_cases b <;> interval_cases c <;> interval_cases d <;>
    interval_cases e' <;> decide

theorem native_flags (hx : x < 2) (hy : y < 2)
    (hlo : lo = ((x &&& 0x1) <<< 1) ||| ((y &&& 0x1) <<< 0)) :
    (lo &&& 0x2) >>> 1 = x ∧ lo &&& 0x1 = y := by
  subst hlo
  interval_cases x <;> interval_cases y <;> decide

/-- The two bytes of a range. The receiver does not extend the sign of the offset. -/
theorem range_of_bytes {r : RcRangeParameters} (h : r.Fits) (h0 : 0 ≤ r.rangeBpgOffset)
    (hbytes : rangeBytes r = [hi, lo]) :
    ({ rangeMinQp := (hi &&& 0xf8) >>> 3
       rangeMaxQp := (lo >>> 6) ||| ((hi &&& 0x7) <<< 2)
       rangeBpgOffset := (lo &&& 0x3f : ℕ) } : RcRangeParameters) = r := by
  obtain ⟨minQp, maxQp, offset⟩ := r
  obtain ⟨hmin, hmax, -, hoff⟩ := h
  dsimp only at hmin hmax h0 hoff
  obtain ⟨offset, rfl⟩ := Int.eq_ofNat_of_zero_le h0
  rw [rangeBytes, cons.injEq, cons.injEq] at hbytes
  obtain ⟨hhi, hlo, -⟩ := hbytes
  rw [and_mask minQp 5 rfl, and_mask maxQp 5 rfl, and_mask _ 3 rfl, mod_eq_of_lt hmin,
    mod_eq_of_lt hmax, shiftRight_eq_div_pow, shiftLeft_or _ (by omega)] at hhi
  rw [u32_natCast (by omega), and_mask maxQp 5 rfl, and_mask _ 2 rfl, and_mask offset 6 rfl,
    mod_eq_of_lt hmax, shiftLeft_or _ (by omega)] at hlo
  have hmin' : (hi &&& 0xf8) >>> 3 = minQp := by
    rw [and_shiftRight _ 3 5 rfl]
    omega
  have hmax' : (lo >>> 6) ||| ((hi &&& 0x7) <<< 2) = maxQp := by
    rw [and_mask _ 3 rfl, shiftRight_eq_div_pow, or_shiftLeft _ (by omega)]
    omega
  have hoff' : lo &&& 0x3f = offset := by
    rw [and_mask _ 6 rfl]
    omega
  rw [hmin', hmax', hoff']

/-! ## The places of the bytes -/

theorem length_flatMap_rangeBytes (l : List RcRangeParameters) :
    (l.flatMap rangeBytes).length = 2 * l.length := by
  induction l with
  | nil => rfl
  | cons r l ih =>
    rw [flatMap_cons, length_append, ih, length_cons, rangeBytes, length_cons,
      length_singleton]
    omega

theorem getD_flatMap_rangeBytes (l : List RcRangeParameters) (rest : List ℕ) (hj : j < l.length) :
    rangeBytes (l.get ⟨j, hj⟩) = [(l.flatMap rangeBytes ++ rest).getD (2 * j) 0,
      (l.flatMap rangeBytes ++ rest).getD (2 * j + 1) 0] := by
  induction l generalizing j with
  | nil => exact absurd hj (Nat.not_lt_zero j)
  | cons r l ih =>
    cases j with
    | zero => rfl
    | succ j => exact ih (lt_of_succ_lt_succ hj)

theorem getD_thresh (pps : PpsData) (timing : Timing) (i : Fin 14) :
    (ppsDataMap pps timing).getD (44 + i) 0 = pps.rcParameterSet.rcBufThresh i := by
  rw [ppsDataMap, getD_append_right _ _ _ _ (show 44 ≤ 44 + (i : ℕ) by omega),
    show 44 + (i : ℕ) - (headBytes pps).length = i from Nat.add_sub_cancel_left 44 i,
    getD_append _ _ _ _ (by rw [length_ofFn]; exact i.isLt),
    getD_eq_getElem _ _ (by rw [length_ofFn]; exact i.isLt), List.getElem_ofFn]

theorem getD_behind (pps : PpsData) (timing : Timing) (k : ℕ) :
    (ppsDataMap pps timing).getD (58 + k) 0 =
      ((ofFn pps.rcParameterSet.rcRangeParameters).flatMap rangeBytes ++
        (tailBytes pps ++ (replicate 34 0 ++ timingBytes pps timing))).getD k 0 := by
  rw [ppsDataMap, getD_append_right _ _ _ _ (show 44 ≤ 58 + k by omega),
    show 58 + k - (headBytes pps).length = 14 + k from Nat.sub_eq_of_eq_add (by
      rw [show (headBytes pps).length = 44 from rfl]
      omega),
    getD_append_right _ _ _ _ (by rw [length_ofFn]; omega), length_ofFn, Nat.add_sub_cancel_left]

theorem getD_range (pps : PpsData) (timing : Timing) (i : Fin 15) :
    rangeBytes (pps.rcParameterSet.rcRangeParameters i) =
      [(ppsDataMap pps timing).getD (58 + 2 * i) 0,
        (ppsDataMap pps timing).getD (59 + 2 * i) 0] := by
  rw [show 59 + 2 * (i : ℕ) = 58 + (2 * i + 1) by omega, getD_behind, getD_behind,
    ← getD_flatMap_rangeBytes _ _ (by rw [length_ofFn]; exact i.isLt), get_ofFn]
  rfl

theorem getD_tail (pps : PpsData) (timing : Timing) (k : ℕ) :
    (ppsDataMap pps timing).getD (88 + k) 0 =
      (tailBytes pps ++ (replicate 34 0 ++ timingBytes pps timing)).getD k 0 := by
  have hlen : ((ofFn pps.rcParameterSet.rcRangeParameters).flatMap rangeBytes).length = 30 := by
    rw [length_flatMap_rangeBytes, length_ofFn]
  rw [show 88 + k = 58 + (30 + k) by omega, getD_behind, ← hlen,
    getD_append_right _ _ _ _ (Nat.le_add_right _ k), Nat.add_sub_cancel_left]

theorem length_ppsDataMap (pps : PpsData) (timing : Timing) :
    (ppsDataMap pps timing).length = 136 := by
  rfl

/-- All the bytes of the set are sent. -/
theorem getD_hdmitxDscCvtemPktSend (pps : PpsData) (timing : Timing) (hi : i < 136) :
    (hdmitxDscCvtemPktSend pps timing).getD i 0 = (ppsDataMap pps timing).getD i 0 := by
  rw [hdmitxDscCvtemPktSend, getD_eq_getElem?_getD, getElem?_take_of_lt (by omega),
    getElem?_append_left (by rw [length_ppsDataMap]; exact hi), ← getD_eq_getElem?_getD]

/-! ## The round trip -/

theorem parseDscPpsData_eq (h : pps.Fits) (hsimple : pps.simple422 = 0) (hvbr : pps.vbrEnable = 0)
    (hoff : ∀ i, 0 ≤ (pps.rcParameterSet.rcRangeParameters i).rangeBpgOffset)
    (hbuff : ∀ i < 128, buff i = (ppsDataMap pps timing).getD i 0) :
    parseDscPpsData buff old = { pps with hcActiveBytes := old.hcActiveBytes } := by
  have htail : ∀ k < 6, buff (88 + k) = (tailBytes pps).getD k 0 := by
    intro k hk
    rw [hbuff _ (by omega), getD_tail, getD_append _ _ _ _ hk]
  have hrc := h.rcParameterSet
  have hversion := nibbles h.dscVersionMajor h.dscVersionMinor (hbuff 0 (by decide))
  have hdepth := nibbles h.bitsPerComponent h.lineBufDepth (hbuff 3 (by decide))
  have htgt := nibbles hrc.rcTgtOffsetHi hrc.rcTgtOffsetLo (hbuff 43 (by decide))
  have hflags := flags_byte h.blockPredEnable h.convertRgb h.simple422 h.vbrEnable
    (hbuff 4 (by decide))
  have hnative := native_flags h.native420 h.native422 (htail 0 (by decide))
  have hrange : ∀ i : Fin 15, _ := fun i => range_of_bytes (hrc.rcRangeParameters i) (hoff i)
    ((getD_range pps timing i).trans (by
      rw [← hbuff (58 + 2 * i) (by omega), ← hbuff (59 + 2 * i) (by omega)]))
  have hthresh : ∀ i : Fin 14, buff (44 + i) = pps.rcParameterSet.rcBufThresh i := fun i =>
    (hbuff _ (by omega)).trans (getD_thresh pps timing i)
  have hid : buff 1 = pps.ppsIdentifier := by
    rw [hbuff 1 (by decide)]
    exact (and_mask _ 8 rfl).trans (mod_eq_of_lt h.ppsIdentifier)
  have hword : ∀ {i x : ℕ}, i + 1 < 128 → x < 2 ^ 16 →
      (ppsDataMap pps timing).getD i 0 = (x >>> 8) &&& 0xff →
      (ppsDataMap pps timing).getD (i + 1) 0 = x &&& 0xff →
      (buff i <<< 8) ||| buff (i + 1) = x := fun hi hx hhi hlo =>
    word_of_bytes hx ((hbuff _ (by omega)).trans hhi) ((hbuff _ hi).trans hlo)
  have hlow : ∀ {i x m n : ℕ}, i < 128 → m + 1 = 2 ^ n → x < 2 ^ n →
      (ppsDataMap pps timing).getD i 0 = x &&& m → buff i &&& m = x := fun hi hm hx hlo =>
    and_and_mask hm hx ((hbuff _ hi).trans hlo)
  have hset : (parseDscPpsData buff old).rcParameterSet = pps.rcParameterSet := by
    rw [parseDscPpsData, RcParameterSet.mk.injEq]
    exact ⟨hword (i := 38) (by decide) hrc.rcModelSize rfl rfl,
      hlow (by decide) rfl hrc.rcEdgeFactor rfl, hlow (by decide) rfl hrc.rcQuantIncrLimit0 rfl,
      hlow (by decide) rfl hrc.rcQuantIncrLimit1 rfl, htgt.1, htgt.2, funext hthresh, funext hrange⟩
  rw [parseDscPpsData, PpsData.mk.injEq]
  refine ⟨hversion.1, hversion.2, hid, hdepth.1, hdepth.2, hflags.1, hflags.2.1, ?_, ?_, ?_,
    hword (i := 6) (by decide) h.picHeight rfl rfl, hword (i := 8) (by decide) h.picWidth rfl rfl,
    hword (i := 10) (by decide) h.sliceHeight rfl rfl,
    hword (i := 12) (by decide) h.sliceWidth rfl rfl,
    hword (i := 14) (by decide) h.chunkSize rfl rfl, ?_,
    hword (i := 18) (by decide) h.initialDecDelay rfl rfl,
    hlow (by decide) rfl h.initialScaleValue rfl,
    hword (i := 22) (by decide) h.scaleIncrementInterval rfl rfl, ?_,
    hlow (by decide) rfl h.firstLineBpgOffset rfl,
    hword (i := 28) (by decide) h.nflBpgOffset rfl rfl,
    hword (i := 30) (by decide) h.sliceBpgOffset rfl rfl,
    hword (i := 32) (by decide) h.initialOffset rfl rfl,
    hword (i := 34) (by decide) h.finalOffset rfl rfl, hlow (by decide) rfl h.flatnessMinQp rfl,
    hlow (by decide) rfl h.flatnessMaxQp rfl, hset, hnative.1, hnative.2,
    and_and_mask rfl h.secondLineBpgOffset (htail 1 (by decide)),
    word_of_bytes h.nslBpgOffset (htail 2 (by decide)) (htail 3 (by decide)),
    word_of_bytes h.secondLineOffsetAdj (htail 4 (by decide)) (htail 5 (by decide)), rfl⟩
  · rw [hflags.2.2.1, hsimple]
  · rw [hflags.2.2.2.1, hvbr]
  · exact word_of_masked 2 rfl h.bitsPerPixel hflags.2.2.2.2 (hbuff 5 (by decide))
  · refine word_of_masked 2 rfl h.initialXmitDelay ?_ (hbuff 17 (by decide))
    rw [hbuff 16 (by decide)]
    exact (Nat.and_assoc _ _ _).trans rfl
  · refine word_of_masked 4 rfl h.scaleDecrementInterval ?_ (hbuff 25 (by decide))
    rw [hbuff 24 (by decide)]
    exact (Nat.and_assoc _ _ _).trans rfl

/-- The receiver takes the set for what it is. -/
theorem rxCheckEmpType_stored (f : Framing) (data : List ℕ) :
    rxCheckEmpType (stored f data) = some .cvtem := by
  have hbyte : ∀ o < 7, stored f data (4 + o) = (description f).getD o 0 := by
    intro o ho
    rw [stored, dif_neg (by omega), if_neg (by omega), payload, if_pos (by omega),
      if_pos (by omega)]
    exact congrArg (getD _ · 0) (by omega)
  have hflags : stored f data 4 = f.flags * 2 ^ 6 + 6 :=
    (hbyte 0 (by decide)).trans (shiftLeft_or f.flags (by decide : 6 < 2 ^ 6))
  have hdsType : (stored f data 4 &&& 0x30) >>> 4 = 0 := by
    rw [and_shiftRight _ 4 2 rfl, hflags]
    omega
  have hafr : (stored f data 4 &&& 0x8) >>> 3 = 0 := by
    rw [and_shiftRight _ 3 1 rfl, hflags]
    omega
  have hvfr : (stored f data 4 &&& 0x4) >>> 2 = 1 := by
    rw [and_shiftRight _ 2 1 rfl, hflags]
    omega
  have hsync : (stored f data 4 &&& 0x2) >>> 1 = 1 := by
    rw [and_shiftRight _ 1 1 rfl, hflags]
    omega
  have horg : stored f data 6 = 1 := hbyte 2 (by decide)
  have htag : stored f data 8 = 2 := hbyte 4 (by decide)
  have hlen : stored f data 10 = 136 := hbyte 6 (by decide)
  rw [rxCheckEmpType, hdsType, hafr, hvfr, hsync, horg, htag, hlen]
  rfl

/-- The timing is such that what the receiver reads for it, from the end of the fifth packet and the
    header of the sixth, is what was sent. -/
structure TailMatches (timing : Timing) (f : Framing) : Prop where
  frontLow : timing.hFront % 2 ^ 8 = timing.hBack % 2 ^ 8
  frontHigh : timing.hFront / 2 ^ 8 % 2 ^ 8 = f.header 5 0
  syncLow : timing.hSync % 2 ^ 8 = f.header 5 1
  syncHigh : timing.hSync / 2 ^ 8 % 2 ^ 8 = f.header 5 2
  backLow : timing.hBack % 2 ^ 8 = f.pad 5

theorem getD_timing (pps : PpsData) (timing : Timing) (k : ℕ) :
    (ppsDataMap pps timing).getD (128 + k) 0 = (timingBytes pps timing).getD k 0 := by
  rw [show 128 + k = 88 + (40 + k) by omega, getD_tail]
  rw [getD_append_right _ _ _ _ (show 6 ≤ 40 + k by omega),
    getD_append_right _ _ _ _ (by
      rw [length_replicate, show (tailBytes pps).length = 6 from rfl]
      omega), length_replicate, show (tailBytes pps).length = 6 from rfl]
  exact congrArg (getD _ · 0) (by omega)

/-- The last eight bytes are those that were sent, exactly if the timing matches. -/
theorem dscInfo_tail_iff :
    (∀ i < 8, (rxGetCvtem (stored f (hdmitxDscCvtemPktSend pps timing)) cnt rx).dscInfo (128 + i) =
      (ppsDataMap pps timing).getD (128 + i) 0) ↔ TailMatches timing f := by
  set data := hdmitxDscCvtemPktSend pps timing
  have hbyte : ∀ x, x &&& 0xff = x % 2 ^ 8 := fun x => and_mask x 8 rfl
  have hhigh : ∀ x, (x >>> 8) &&& 0xff = x / 2 ^ 8 % 2 ^ 8 := fun x => by
    rw [hbyte, shiftRight_eq_div_pow]
  have hdata : ∀ k < 8, data.getD (128 + k) 0 = (timingBytes pps timing).getD k 0 := fun k hk => by
    rw [getD_hdmitxDscCvtemPktSend _ _ (by omega), getD_timing]
  -- the last byte of the fifth packet is the low one of the back porch
  have hfirst : stored f data 159 = timing.hBack % 2 ^ 8 :=
    ((stored_next (k := 3) (o := 27) (by decide)).trans (hdata 4 (by decide))).trans (hbyte _)
  have hread : ∀ i < 8, (rxGetCvtem (stored f data) cnt rx).dscInfo (128 + i) =
      stored f data (159 + i) := fun i hi => by
    rw [dscInfo_of_le (by omega) (by omega)]
    exact congrArg _ (by omega)
  have hsent := getD_timing pps timing
  constructor
  · intro h
    have heq : ∀ i < 8, (timingBytes pps timing).getD i 0 = stored f data (159 + i) := fun i hi =>
      (hsent i).symm.trans ((h i hi).symm.trans (hread i hi))
    exact ⟨(hbyte _).symm.trans ((heq 0 (by decide)).trans hfirst),
      (hhigh _).symm.trans (heq 1 (by decide)), (hbyte _).symm.trans (heq 2 (by decide)),
      (hhigh _).symm.trans (heq 3 (by decide)), (hbyte _).symm.trans (heq 4 (by decide))⟩
  · intro h i hi
    rw [hread i hi, hsent]
    rcases Nat.lt_or_ge i 5 with hi5 | hi5
    · interval_cases i
      · exact hfirst.trans (h.frontLow.symm.trans (hbyte _).symm)
      · exact h.frontHigh.symm.trans (hhigh _).symm
      · exact h.syncLow.symm.trans (hbyte _).symm
      · exact h.syncHigh.symm.trans (hhigh _).symm
      · exact h.backLow.symm.trans (hbyte _).symm
    · rw [show 159 + i = 32 * (4 + 1) + 4 + (i - 5) by omega, stored_next (by omega),
        show 21 + 28 * 4 + (i - 5) = 128 + i by omega, hdata i hi]

theorem slice_eq_iff {info : ℕ → ℕ} : slice info 0 136 = ppsDataMap pps timing ↔
    ∀ i < 136, info i = (ppsDataMap pps timing).getD i 0 := by
  have hget : ∀ i (hi : i < 136),
      (slice info 0 136).get ⟨i, by rwa [length_slice]⟩ = info i := fun i hi => by simp [slice]
  constructor
  · intro h i hi
    rw [← h, getD_eq_getElem _ _ (by rwa [length_slice])]
    exact (hget i hi).symm
  · intro h
    refine ext_getElem (by rw [length_slice, length_ppsDataMap]) fun i hi hi' => ?_
    rw [length_slice] at hi
    rw [← getD_eq_getElem _ 0 hi']
    exact (hget i hi).trans (h i hi)

/-- The flags `simple_422` and `vbr_enable` are not set, no offset of a range is negative, and the
    timing matches. -/
structure Unharmed (pps : PpsData) (timing : Timing) (f : Framing) : Prop where
  simple422 : pps.simple422 = 0
  vbrEnable : pps.vbrEnable = 0
  bpgOffset : ∀ i, 0 ≤ (pps.rcParameterSet.rcRangeParameters i).rangeBpgOffset
  tail : TailMatches timing f

/-- The receiver has the bytes and the fields that were sent, exactly if the set is one that its
    defects do not change. -/
theorem received_pps (h : pps.Fits) :
    (let rx' := rxGetEmInfo (stored f (hdmitxDscCvtemPktSend pps timing)) cnt rx
    slice rx'.dscInfo 0 136 = ppsDataMap pps timing ∧
      rx'.dscPpsData = { pps with hcActiveBytes := rx.dscPpsData.hcActiveBytes }) ↔
      Unharmed pps timing f := by
  have hrx : rxGetEmInfo (stored f (hdmitxDscCvtemPktSend pps timing)) cnt rx =
      rxGetCvtem (stored f (hdmitxDscCvtemPktSend pps timing)) cnt rx := by
    rw [rxGetEmInfo, rxCheckEmpType_stored]
  rw [hrx]
  set rx' := rxGetCvtem (stored f (hdmitxDscCvtemPktSend pps timing)) cnt rx with hrx'
  have hinfo : ∀ i < 128, rx'.dscInfo i = (ppsDataMap pps timing).getD i 0 := fun i hi => by
    rw [hrx', dscInfo_of_lt hi, getD_hdmitxDscCvtemPktSend _ _ (by omega)]
  have hparse : rx'.dscPpsData = parseDscPpsData rx'.dscInfo rx.dscPpsData := rfl
  dsimp only
  rw [slice_eq_iff]
  constructor
  · rintro ⟨hbytes, hfields⟩
    rw [hparse] at hfields
    have hflags := flags_byte h.blockPredEnable h.convertRgb h.simple422 h.vbrEnable
      (hinfo 4 (by decide))
    have hsimple : rx'.dscInfo 4 &&& 0x8 = pps.simple422 := congrArg PpsData.simple422 hfields
    have hvbr : rx'.dscInfo 4 &&& 0x4 = pps.vbrEnable := congrArg PpsData.vbrEnable hfields
    refine ⟨by omega, by omega, fun i => ?_, ?_⟩
    · have hoff := congrArg
        (fun q : PpsData => (q.rcParameterSet.rcRangeParameters i).rangeBpgOffset) hfields
      exact (Int.natCast_nonneg _).trans_eq hoff
    · exact dscInfo_tail_iff.1 fun i hi => hbytes (128 + i) (by omega)
  · rintro ⟨hsimple, hvbr, hoff, htail⟩
    refine ⟨fun i hi => ?_, hparse.trans (parseDscPpsData_eq h hsimple hvbr hoff hinfo)⟩
    rcases Nat.lt_or_ge i 128 with hlt | hge
    · exact hinfo i hlt
    · obtain ⟨k, rfl⟩ := Nat.exists_eq_add_of_le hge
      exact dscInfo_tail_iff.2 htail k (by omega)

/-! ## Two sets -/

/-- The parameters of a picture of 3840 by 2160 in slices, with the flags and the offset given. -/
def sample (flag : ℕ) (offset : ℤ) : PpsData where
  dscVersionMajor := 1
  dscVersionMinor := 2
  ppsIdentifier := 0
  bitsPerComponent := 8
  lineBufDepth := 13
  blockPredEnable := 1
  convertRgb := 1
  simple422 := flag
  vbrEnable := flag
  bitsPerPixel := 159
  picHeight := 2160
  picWidth := 3840
  sliceHeight := 2160
  sliceWidth := 960
  chunkSize := 1193
  initialXmitDelay := 512
  initialDecDelay := 649
  initialScaleValue := 32
  scaleIncrementInterval := 54394
  scaleDecrementInterval := 13
  firstLineBpgOffset := 13
  nflBpgOffset := 13
  sliceBpgOffset := 5
  initialOffset := 6144
  finalOffset := 4320
  flatnessMinQp := 3
  flatnessMaxQp := 12
  rcParameterSet := {
    rcModelSize := 8192
    rcEdgeFactor := 6
    rcQuantIncrLimit0 := 11
    rcQuantIncrLimit1 := 11
    rcTgtOffsetHi := 3
    rcTgtOffsetLo := 3
    rcBufThresh := fun i => 14 * (i + 1)
    rcRangeParameters := fun i => ⟨i, i + 4, offset⟩ }
  native420 := 0
  native422 := 0
  secondLineBpgOffset := 0
  nslBpgOffset := 0
  secondLineOffsetAdj := 0
  hcActiveBytes := 4772

theorem sample_fits {flag : ℕ} {offset : ℤ} (hflag : flag < 2) (hoff : -32 ≤ offset ∧ offset < 32) :
    (sample flag offset).Fits := by
  have hset : (sample flag offset).rcParameterSet.Fits := by
    have hthresh : ∀ i : Fin 14, 14 * ((i : ℕ) + 1) < 2 ^ 8 := by decide
    have hrange : ∀ i : Fin 15, (i : ℕ) < 2 ^ 5 ∧ (i : ℕ) + 4 < 2 ^ 5 := by decide
    constructor
    case rcBufThresh => exact hthresh
    case rcRangeParameters => exact fun i => ⟨(hrange i).1, (hrange i).2, hoff⟩
    all_goals norm_num [sample]
  constructor
  case rcParameterSet => exact hset
  case simple422 => exact hflag
  case vbrEnable => exact hflag
  all_goals norm_num [sample]

/-- The packets of a set: the first and the last are marked, and all are numbered. -/
def sampleFraming : Framing where
  header k := ![0x7f, if k = 0 then 0x80 else if k = 5 then 0x40 else 0, k]
  pad _ := 0
  flags := 2
  reserved := 0

/-- The receiver before any set. -/
def noSet : Cvtem := ⟨false, 0, fun _ => 0, sample 0 0⟩

theorem received_pps_sample :
    let timing : Timing := ⟨0x7f00, 0x0540, 0x0100⟩
    let pkt := stored sampleFraming (hdmitxDscCvtemPktSend (sample 0 5) timing)
    let rx' := rxGetEmInfo pkt 6 noSet
    (sample 0 5).Fits ∧ TailMatches timing sampleFraming ∧
      slice rx'.dscInfo 0 136 = ppsDataMap (sample 0 5) timing ∧ rx'.dscPpsData = sample 0 5 := by
  have hfits : (sample 0 5).Fits := sample_fits (by decide) (by decide)
  have htail : TailMatches ⟨0x7f00, 0x0540, 0x0100⟩ sampleFraming := ⟨rfl, rfl, rfl, rfl, rfl⟩
  have hoff : (0 : ℤ) ≤ 5 := by decide
  exact ⟨hfits, htail, (received_pps hfits).2 ⟨rfl, rfl, fun _ => hoff, htail⟩⟩

/-- With the flags set, negative offsets and a common timing, the flags are received as 8 and 4, the
    offsets as 63, and the low byte of the front porch is that of the back porch. -/
theorem received_otherwise :
    let timing : Timing := ⟨88, 44, 148⟩
    let pkt := stored sampleFraming (hdmitxDscCvtemPktSend (sample 1 (-1)) timing)
    let rx' := rxGetEmInfo pkt 6 noSet
    (sample 1 (-1)).Fits ∧ rx'.dscPpsData.simple422 = 8 ∧ rx'.dscPpsData.vbrEnable = 4 ∧
      (rx'.dscPpsData.rcParameterSet.rcRangeParameters 0).rangeBpgOffset = 63 ∧
      rx'.dscInfo 128 = 148 ∧ (ppsDataMap (sample 1 (-1)) timing).getD 128 0 = 88 := by
  refine ⟨sample_fits (by decide) (by decide), ?_, ?_, ?_, ?_, ?_⟩ <;> decide +kernel

end CommonDrivers.Dsc
