import CommonDrivers.Media.Hdmitx.EdidLists

/-!
# The capacity of the EDID parser

The parser gets through an EDID without a fault exactly if what the EDID lists fits into
the arrays (`parse_fits`). Nothing in the check of an EDID (`hdmitxEdidCheckDataValid`)
makes it fit.
-/

namespace CommonDrivers.Media.Hdmitx

open List Nat SucceedsIff Listed RxCap

namespace RxCap

variable {edidCheck n : ℕ} {p : Listed} {rx : RxCap} {board : Board} {b : Bytes}

/-! ## The extension blocks -/

/-- The number of timings with a mode. -/
theorem foldl_vicOfDtd (n : ℕ) (l : List Bytes) :
    l.foldl (fun n data => n + (vicOfDtd board data).toList.length) n =
      n + (l.filterMap (vicOfDtd board)).length := by
  induction l generalizing n with
  | nil => rfl
  | cons d l ih =>
    rw [foldl_cons, ih, filterMap_cons_toList, length_append, Nat.add_assoc]

/-- The timings of one list and then of another. -/
theorem dtdsFit_append (n : ℕ) (l l' : List Bytes) : DtdsFit board n (l ++ l') ↔
      DtdsFit board n l ∧ DtdsFit board (n + (l.filterMap (vicOfDtd board)).length) l' := by
  rw [DtdsFit, along_append, foldl_vicOfDtd]

theorem dtdsFit_iff (l : List Bytes) :
    DtdsFit board 0 l ↔ ∀ pre d post, l = pre ++ d :: post → isZeroDtd d = false →
      (pre.filterMap (vicOfDtd board)).length < dtdMaxNum := by
  simp only [DtdsFit, along_iff, foldl_vicOfDtd, Nat.zero_add]

theorem along_dtdsFit (f : ℕ → List Bytes) (n : ℕ) (l : List ℕ) :
    Along (fun n i => n + ((f i).filterMap (vicOfDtd board)).length)
      (fun n i => DtdsFit board n (f i)) n l ↔ DtdsFit board n (l.flatMap f) := by
  induction l generalizing n with
  | nil => exact Iff.rfl
  | cons i l ih => rw [Along, ih, flatMap_cons, dtdsFit_append]

/-- The conditions for the extension blocks `l`, from what is listed before. -/
structure BlocksFit (board : Board) (b : Bytes) (p : Listed) (l : List ℕ) : Prop where
  svds_le : ∀ i ∈ l, svdCount (b.block i) ≤ svdVicMaxNum
  map_le : ∀ pre i post, l = pre ++ i :: post →
    if hasMapOfAll (b.block i) then
      (p.vics ++ pre.flatMap (fun j => blockVics board (b.block j)) ++
        dataVics board (b.block i)).dedup.length ≤ svdVicMaxNum
    else mapLength (b.block i) * 8 ≤ svdVicMaxNum
  dtds : DtdsFit board p.timings (l.flatMap fun i => dtds (b.block i))

/-- The rows of the map that is applied. -/
theorem mapRows_dataBlocks_le (b : Bytes) : (p.dataBlocks board b).mapRows ≤ 16 ↔
      if hasMapOfAll b then (p.vics ++ dataVics board b).dedup.length ≤ svdVicMaxNum
      else mapLength b * 8 ≤ svdVicMaxNum := by
  rw [dataBlocks_eq, mapRows, svdVicMaxNum]
  dsimp only
  split_ifs <;> omega

section

variable (h : rx.Tracks edidCheck p)
include h

theorem Tracks.foldlM_ctaBlocks (b : Bytes) (l : List ℕ) : SucceedsIff (BlocksFit board b p l)
      (Tracks edidCheck (l.foldl (fun p i => p.ctaBlock board (b.block i)) p))
      (l.foldlM (fun rx i => rx.hdmitxEdidCtaBlockParse board (b.block i)) rx) := by
  refine (foldlM l (fun p rx i _ h => h.hdmitxEdidCtaBlockParse (b.block i)) h).iff ?_
  have hmap : Along (fun p i => ctaBlock board p (b.block i))
      (fun p i => (Listed.dataBlocks board p (b.block i)).mapRows ≤ 16) p l ↔
      ∀ pre i post, l = pre ++ i :: post →
        if hasMapOfAll (b.block i) then
          (p.vics ++ pre.flatMap (fun j => blockVics board (b.block j)) ++
            dataVics board (b.block i)).dedup.length ≤ svdVicMaxNum
        else mapLength (b.block i) * 8 ≤ svdVicMaxNum := by
    simp only [along_iff, mapRows_dataBlocks_le, vics_foldl_ctaBlock]
  have hdtds : Along (fun p i => ctaBlock board p (b.block i))
      (fun p i => DtdsFit board p.timings (dtds (b.block i))) p l ↔
      DtdsFit board p.timings (l.flatMap fun i => dtds (b.block i)) := by
    rw [← along_dtdsFit, along_map timings
      (fun n i => n + ((dtds (b.block i)).filterMap (vicOfDtd board)).length)
      (fun n i => DtdsFit board n (dtds (b.block i)))]
    intro p i
    have := timings_foldl_ctaBlock board b p [i]
    simpa using this
  rw [along_and, along_and, along_const, hmap, hdtds]
  exact ⟨fun ⟨h₁, h₂, h₃⟩ => ⟨h₁, h₂, h₃⟩, fun ⟨h₁, h₂, h₃⟩ => ⟨h₁, h₂, h₃⟩⟩

/-! ## The base block -/

/-- A part that never fails, and keeps what is tracked. -/
theorem Tracks.foldl {α : Type} {f : RxCap → α → RxCap}
    (step : ∀ (rx : RxCap) a, rx.Tracks edidCheck p → (f rx a).Tracks edidCheck p) (l : List α) :
    (l.foldl f rx).Tracks edidCheck p := by
  induction l generalizing rx with
  | nil => exact h
  | cons a l ih => exact ih (step rx a h)

theorem Tracks.ite_storeVesaIdx (c : Prop) [Decidable c] (v : ℕ) :
    (if c then rx.storeVesaIdx v else rx).Tracks edidCheck p := by
  split_ifs
  · exact h.storeVesaIdx v
  · exact h

theorem Tracks.edidParseBaseStructure (b : Bytes) :
    (rx.edidParseBaseStructure b).Tracks edidCheck p := by
  have htimings : (rx.edidEstablishedTimings (b.drop 0x23)).Tracks edidCheck p :=
    (h.ite_storeVesaIdx _ _).ite_storeVesaIdx _ _
  rw [RxCap.edidParseBaseStructure]
  split_ifs
  · exact { htimings with }
  · exact htimings

theorem Tracks.edidStandardtiming (data : Bytes) (maxNum : ℕ) :
    (rx.edidStandardtiming data maxNum).Tracks edidCheck p := by
  refine h.foldl (fun rx i h => ?_) _
  rw [calcTiming]
  split_ifs
  · exact h
  · exact h
  · exact h.storeVesaIdx _

theorem Tracks.baseDescriptor (b : Bytes) (i : ℕ) : (rx.baseDescriptor b i).Tracks edidCheck p := by
  have hpmt2 {rx : RxCap} (h : rx.Tracks edidCheck p) (data : Bytes) :
      (rx.edidDescriptorPmt2 data).Tracks edidCheck p := h.ite_storeVesaIdx _ _
  have hpmt (data : Bytes) : (rx.edidDescriptorPmt data).Tracks edidCheck p := by
    refine hpmt2 ?_ data
    split_ifs
    · exact { h with }
    · exact h
  rw [RxCap.baseDescriptor]
  split_ifs
  · exact hpmt _
  · exact hpmt2 h _
  · exact h
  · split
    · exact h.edidStandardtiming _ _
    · exact h.foldl (fun rx i h => h.ite_storeVesaIdx _ _) _
    · exact h.foldl (fun rx i h => h.ite_storeVesaIdx _ _) _
    · exact h

theorem Tracks.edidParseceatiming (b : Bytes) : SucceedsIff (DtdsFit board p.timings (baseDtds b))
      (Tracks edidCheck ((baseDtds b).foldl (Listed.dtd board) p))
      (rx.edidParseceatiming board (b.drop 0x36)) :=
  h.foldlM_edidDtdParsing (fun i => (b.drop 0x36).drop (i * 0x12)) (range 4)

/-! ## Audio -/

/-- The record when the descriptors for audio are parsed, and there are `n`. -/
structure Ready (edidCheck n : ℕ) (rx : RxCap) : Prop where
  counted : rx.Counted
  audCount_eq : rx.audCount = n
  edidCheck_eq : rx.edidCheck = edidCheck

theorem Tracks.ready : rx.Ready edidCheck 0 := ⟨h.counted, h.audCount_eq, h.edidCheck_eq⟩

end

section

variable (h : rx.Ready edidCheck n)
include h

theorem Ready.putAudioCap {i : ℕ} (hi : i < audMaxNum) (x : RxAudiocap) :
    SucceedsIff True (Ready edidCheck n) (rx.putAudioCap i x) := by
  rw [RxCap.putAudioCap, h.counted.put _ _ _ hi]
  exact .pure ⟨{ h.counted with }, h.audCount_eq, h.edidCheck_eq⟩

theorem Ready.le : n ≤ audMaxNum := h.audCount_eq ▸ h.counted.audCount_le

theorem Ready.audioDataBlock (b : Bytes) (off : ℕ) :
    SucceedsIff (n + sads b off ≤ audMaxNum) (Ready edidCheck (n + sads b off))
      (rx.audioDataBlock b off) := by
  rw [RxCap.audioDataBlock, sads]
  split_ifs with htag
  swap
  · exact .iff (.pure h) (iff_true_intro h.le)
  rw [h.audCount_eq]
  have htmp : b.count off / 3 ≤ 10 := by
    have : b.count off ≤ 31 := and_le_right
    omega
  have hn := h.le
  have hmod : (n + b.count off / 3) % 256 = n + b.count off / 3 :=
    mod_eq_of_lt (by rw [audMaxNum] at hn; omega)
  generalize b.count off / 3 = tmp at htmp hmod
  by_cases hle : n + tmp ≤ audMaxNum
  · have hready : Ready edidCheck (n + tmp) { rx with audCount := (n + tmp) % 256 } :=
      ⟨{ h.counted with audCount_le := by rw [hmod]; exact hle }, hmod, h.edidCheck_eq⟩
    refine .iff ?_ (iff_true_intro hle)
    refine foldlM_inv _ (fun rx i hi h => ?_) hready
    exact h.putAudioCap (by have := mem_range.1 hi; omega) _
  -- The first of the descriptors is not stored.
  refine .iff ?_ (iff_false_intro hle)
  cases tmp with
  | zero => exact absurd hn hle
  | succ k =>
    have hover : ¬ Counted { rx with audCount := (n + (k + 1)) % 256 } := fun hc =>
      hle (hmod ▸ hc.audCount_le)
    dsimp only
    rw [range_succ_eq_map, foldlM_cons, RxCap.putAudioCap, put, if_neg hover]
    exact .error _ id

/-- A loop of which each element has a number of descriptors. -/
theorem Ready.foldlM_sum {α : Type} (w : α → ℕ) {f : RxCap → α → Except Fault RxCap} (l : List α)
    (step : ∀ (n : ℕ) (rx : RxCap) (a : α), rx.Ready edidCheck n →
      SucceedsIff (n + w a ≤ audMaxNum) (Ready edidCheck (n + w a)) (f rx a)) :
    SucceedsIff (n + (l.map w).sum ≤ audMaxNum) (Ready edidCheck (n + (l.map w).sum))
      (l.foldlM f rx) := by
  have hfoldl (n : ℕ) : l.foldl (fun n a => n + w a) n = n + (l.map w).sum := by
    induction l generalizing n with
    | nil => rfl
    | cons a l ih => rw [foldl_cons, ih, map_cons, sum_cons, Nat.add_assoc]
  rw [← along_sum_le w h.le l, ← hfoldl]
  exact foldlM l (fun n rx a _ h => step n rx a h) h

theorem Ready.hdmitxEdidAudioBlockParse (b : Bytes) :
    SucceedsIff (n + sadCount b ≤ audMaxNum) (Ready edidCheck (n + sadCount b))
      (rx.hdmitxEdidAudioBlockParse b) := by
  rw [RxCap.hdmitxEdidAudioBlockParse, sadCount]
  split_ifs
  · exact .iff (.pure h) (iff_true_intro h.le)
  · exact h.foldlM_sum _ _ fun _ _ off h => h.audioDataBlock b off

/-- All extension blocks. -/
theorem Ready.foldlM_audioBlocks (b : Bytes) (l : List ℕ) :
    SucceedsIff (n + (l.map fun i => sadCount (b.block i)).sum ≤ audMaxNum)
      (Ready edidCheck (n + (l.map fun i => sadCount (b.block i)).sum))
      (l.foldlM (fun rx i => rx.hdmitxEdidAudioBlockParse (b.block i)) rx) :=
  h.foldlM_sum _ _ fun _ _ i h => h.hdmitxEdidAudioBlockParse (b.block i)

theorem Ready.hdmitxEdidSetDefaultAud :
    SucceedsIff True (Ready edidCheck (max n 1)) rx.hdmitxEdidSetDefaultAud := by
  rw [RxCap.hdmitxEdidSetDefaultAud, RxCap.onlyIf, h.audCount_eq]
  split_ifs with hzero
  · have hn : n = 0 := of_decide_eq_true hzero
    have hone : Ready edidCheck 1 { rx with audCount := 1 } :=
      ⟨{ h.counted with audCount_le := (by decide : 1 ≤ audMaxNum) }, rfl, h.edidCheck_eq⟩
    rw [hn]
    exact hone.putAudioCap (by decide) _
  · have hn : n ≠ 0 := fun hn => hzero (decide_eq_true hn)
    rw [max_eq_left (one_le_iff_ne_zero.2 hn)]
    exact .pure h

theorem Ready.declaresPcmTwice : SucceedsIff True (fun _ => True) rx.declaresPcmTwice := by
  refine foldlM_inv _ (fun found i hi _ => ?_) trivial
  have hlt : i < audMaxNum := by
    have := h.counted.audCount_le
    have := mem_range'_1.1 hi
    omega
  split_ifs
  · exact .pure trivial
  · refine (load_of_lt _ _ hlt).bind_true fun x _ => ?_
    refine (load_of_lt _ _ (by decide)).bind_true fun x₀ _ => ?_
    exact .pure trivial

theorem Ready.edidCheckPcmDeclare : SucceedsIff True Counted rx.edidCheckPcmDeclare := by
  rw [RxCap.edidCheckPcmDeclare]
  split_ifs with hzero
  · exact .pure h.counted
  have hle := h.le
  rw [h.audCount_eq] at hzero ⊢
  refine h.declaresPcmTwice.bind_true fun found _ => ?_
  cases found with
  | false => exact .pure h.counted
  | true =>
    refine bind_true (P := Ready edidCheck n) ?_ fun rx h => ?_
    · refine foldlM_inv _ (fun rx i hi h => ?_) h
      have := mem_range.1 hi
      refine (load_of_lt _ _ (by omega)).bind_true fun x _ => ?_
      exact h.putAudioCap (by omega) x
    · rw [h.audCount_eq]
      refine (h.putAudioCap (by omega) _).bind_true fun rx h => ?_
      exact .pure { h.counted with
        audCount_le := (sub_le _ 1).trans h.counted.audCount_le }

/-! ## The parser -/

theorem Ready.putVics {l : List ℕ} (hl : l.length ≤ vicMaxNum) :
    SucceedsIff True (Ready edidCheck n) (rx.putVics l) := by
  refine foldlM_inv _ (fun rx i hi h => ?_)
    ⟨{ h.counted with vicCount_le := hl }, h.audCount_eq, h.edidCheck_eq⟩
  rw [h.counted.put _ _ _ ((mem_range.1 hi).trans_le hl)]
  exact .pure ⟨{ h.counted with }, h.audCount_eq, h.edidCheck_eq⟩

theorem Ready.hdmitxEdidSetDefaultVic :
    SucceedsIff True (Ready edidCheck n) rx.hdmitxEdidSetDefaultVic := by
  refine (h.putVics (by decide)).bind_true fun rx h => ?_
  exact .pure ⟨{ h.counted with }, h.audCount_eq, h.edidCheck_eq⟩

end

theorem Tracks.updatePreferredMode (h : rx.Tracks edidCheck p) (vic0 : ℕ) :
    (rx.updatePreferredMode vic0).Tracks edidCheck p := by
  rw [RxCap.updatePreferredMode]
  split_ifs
  · exact { h with }
  · exact h

theorem Tracks.updatePhysicalSize (h : rx.Tracks edidCheck p) (t : Dtd) :
    (rx.updatePhysicalSize t).Tracks edidCheck p := by
  rw [RxCap.updatePhysicalSize]
  split_ifs
  · exact { h with }
  · exact h

theorem Tracks.finishEdidParse (h : rx.Tracks edidCheck p) (b : Bytes) :
    SucceedsIff True (Ready edidCheck 0) (rx.finishEdidParse b) := by
  have hvic : 0 < vicMaxNum := by decide
  have hdtd : 0 < dtdMaxNum := by decide
  refine (load_of_lt rx.vic _ hvic).bind_true fun vic0 _ => ?_
  have hbase := (h.updatePreferredMode vic0).foldl (fun rx i h => h.baseDescriptor b i) (range 4)
  refine (load_of_lt _ _ hdtd).bind_true fun dtd0 _ => ?_
  have hready := (hbase.updatePhysicalSize dtd0).ready
  rw [RxCap.onlyIf]
  split_ifs
  · exact hready.hdmitxEdidSetDefaultVic
  · exact .pure hready

/-- The conditions for the detailed timings and the extension blocks of an EDID. -/
def EdidFits (board : Board) (edidCheck : ℕ) (b : Bytes) : Prop :=
  if board.isSome then
    DtdsFit board 0 (baseDtds b) ∧
      BlocksFit board b ((baseDtds b).foldl (Listed.dtd board) {}) (ctaBlocks edidCheck b)
  else
    BlocksFit board b {} (ctaBlocks edidCheck b) ∧ DtdsFit board
        ((ctaBlocks edidCheck b).foldl (fun p i => ctaBlock board p (b.block i)) {}).timings
        (baseDtds b)

theorem hdmitxEdidParse_clear (hvalid : hdmitxEdidCheckDataValid edidCheck b = true) :
    SucceedsIff (EdidFits board edidCheck b) (Ready edidCheck 0)
      ((hdmitxEdidRxcapClear edidCheck).hdmitxEdidParse board b) := by
  have hbase : Tracks edidCheck {}
      (if checkBaseStructure (hdmitxEdidRxcapClear edidCheck).edidCheck b = true then
        (hdmitxEdidRxcapClear edidCheck).edidParseBaseStructure b
      else hdmitxEdidRxcapClear edidCheck) := by
    split_ifs
    · exact (tracks_clear edidCheck).edidParseBaseStructure b
    · exact tracks_clear edidCheck
  have hvalid' :
      hdmitxEdidCheckDataValid (hdmitxEdidRxcapClear edidCheck).edidCheck b = true := hvalid
  rw [hdmitxEdidParse, if_pos hvalid', EdidFits]
  cases board with
  | none =>
    refine bind_true (.pure hbase) fun rx h => ?_
    rw [h.edidCheck_eq]
    refine (h.foldlM_ctaBlocks b _).bind fun rx h => ?_
    exact ((h.edidStandardtiming _ _).edidParseceatiming b).bind_of_true fun rx h =>
      h.finishEdidParse b
  | some custom =>
    refine bind
      (P := Tracks edidCheck ((baseDtds b).foldl (Listed.dtd (some custom)) {})) ?_ fun rx h => ?_
    · refine (hbase.edidParseceatiming b).bind_of_true fun rx h => ?_
      exact .pure (h.edidStandardtiming _ _)
    · rw [h.edidCheck_eq]
      refine (h.foldlM_ctaBlocks b _).bind_of_true fun rx h => ?_
      exact bind_true (.pure h) fun rx h => h.finishEdidParse b

theorem Ready.hdmitxAudioParse (h : rx.Ready edidCheck 0)
    (hvalid : hdmitxEdidCheckDataValid edidCheck b = true) :
    SucceedsIff (((ctaBlocks edidCheck b).map fun i => sadCount (b.block i)).sum ≤ audMaxNum)
      Counted (rx.hdmitxAudioParse b) := by
  rw [RxCap.hdmitxAudioParse, h.edidCheck_eq, if_pos hvalid, ← Nat.zero_add (sum _)]
  refine (h.foldlM_audioBlocks b _).bind_of_true fun rx h => ?_
  exact h.hdmitxEdidSetDefaultAud.bind_true fun rx h => h.edidCheckPcmDeclare

/-- The conditions, put together. -/
theorem edidFits_iff (b : Bytes) : EdidFits board edidCheck b ↔
      (∀ i ∈ ctaBlocks edidCheck b, svdCount (b.block i) ≤ svdVicMaxNum) ∧
      (∀ pre i post, ctaBlocks edidCheck b = pre ++ i :: post →
        if hasMapOfAll (b.block i) then (vicsAtMap board b pre i).dedup.length ≤ svdVicMaxNum
        else mapLength (b.block i) * 8 ≤ svdVicMaxNum) ∧
      DtdsFit board 0 (allDtds board edidCheck b) := by
  cases board with
  | none =>
    have htimings := timings_foldl_ctaBlock none b {} (ctaBlocks edidCheck b)
    rw [EdidFits, if_neg (by simp), htimings]
    simp only [allDtds, Option.isSome_none, Bool.false_eq_true, if_false, dtdsFit_append, vicsAtMap,
      ctaDtds, nil_append]
    exact ⟨fun ⟨⟨h₁, h₂, h₃⟩, h₄⟩ => ⟨h₁, h₂, h₃, h₄⟩, fun ⟨h₁, h₂, h₃, h₄⟩ => ⟨⟨h₁, h₂, h₃⟩, h₄⟩⟩
  | some custom =>
    rw [EdidFits, if_pos (by simp), foldl_dtd]
    simp only [allDtds, Option.isSome_some, if_true, dtdsFit_append, vicsAtMap, ctaDtds]
    exact ⟨fun ⟨h₁, h₂, h₃, h₄⟩ => ⟨h₂, h₃, h₁, h₄⟩, fun ⟨h₂, h₃, h₁, h₄⟩ => ⟨h₁, h₂, h₃, h₄⟩⟩

theorem parseEdid_succeedsIff (hvalid : hdmitxEdidCheckDataValid edidCheck b = true) :
    SucceedsIff (Fits board edidCheck b) Counted (parseEdid board edidCheck b) := by
  refine ((hdmitxEdidParse_clear hvalid).bind fun rx h => h.hdmitxAudioParse hvalid).iff ?_
  rw [edidFits_iff, dtdsFit_iff]
  exact ⟨fun ⟨h₁, h₂, h₃, h₄⟩ => ⟨⟨h₁, h₂, h₃⟩, h₄⟩, fun ⟨⟨h₁, h₂, h₃⟩, h₄⟩ => ⟨h₁, h₂, h₃, h₄⟩⟩

/-- The parser gets through a valid EDID, with every index in its array and every count
    at most the size of its array at each store, exactly if what the EDID lists fits into
    the arrays. -/
theorem parse_fits (board : Board) (edidCheck : ℕ) (b : Bytes)
    (hvalid : hdmitxEdidCheckDataValid edidCheck b = true) :
    (∃ rx, parseEdid board edidCheck b = .ok rx ∧ rx.Counted) ↔ Fits board edidCheck b :=
  (parseEdid_succeedsIff hvalid).exists_ok_iff

/-! ## Two EDIDs -/

/-- The EDID with these bytes, and zero else. -/
def edidOfBytes (l : List (ℕ × UInt8)) : Bytes := fun i => (l.lookup i).getD 0

/-- The result of a parse, as far as it can be compared. -/
def outcome : Except Fault RxCap → Except Fault Bool
  | .ok rx => .ok (decide rx.Counted)
  | .error e => .error e

/-- An EDID with a CTA block of three video descriptors and one for audio. -/
def smallEdid : Bytes := edidOfBytes
    [(1, 0xff), (2, 0xff), (3, 0xff), (4, 0xff), (5, 0xff), (6, 0xff), (126, 1), (127, 5),
     (128, 2), (129, 3), (130, 12), (132, 0x43), (133, 16), (134, 4), (135, 31), (136, 0x23),
     (137, 0x09), (138, 0x07), (139, 0x07), (255, 0x3f)]

/-- An EDID with a CTA block of five video data blocks. The last of them starts at the end
    of the block, where the loop over the data blocks stops, and goes on behind it. -/
def overrunEdid : Bytes := edidOfBytes
    [(1, 0xff), (2, 0xff), (3, 0xff), (4, 0xff), (5, 0xff), (6, 0xff), (126, 1), (127, 5),
     (128, 2), (129, 3), (130, 127), (132, 0x5f), (164, 0x5f), (196, 0x5f), (228, 0x59),
     (254, 0x5f), (255, 0xa7)]

theorem fits_smallEdid : hdmitxEdidCheckDataValid 0 smallEdid = true ∧ Fits none 0 smallEdid := by
  have hvalid : hdmitxEdidCheckDataValid 0 smallEdid = true := by decide +kernel
  have hok : outcome (parseEdid none 0 smallEdid) = .ok true := by decide +kernel
  refine ⟨hvalid, (parse_fits none 0 smallEdid hvalid).1 ?_⟩
  cases hparse : parseEdid none 0 smallEdid with
  | ok rx =>
    rw [hparse, outcome, Except.ok.injEq] at hok
    exact ⟨rx, rfl, of_decide_eq_true hok⟩
  | error e =>
    rw [hparse] at hok
    exact nomatch hok

/-- The 129th descriptor is stored behind the array. -/
theorem overrun_svdVic : hdmitxEdidCheckDataValid 0 overrunEdid = true ∧
      parseEdid none 0 overrunEdid = .error (.svdVic 128) := by
  have hfault : outcome (parseEdid none 0 overrunEdid) = .error (.svdVic 128) := by decide +kernel
  refine ⟨by decide +kernel, ?_⟩
  cases hparse : parseEdid none 0 overrunEdid with
  | ok rx =>
    rw [hparse] at hfault
    exact nomatch hfault
  | error e =>
    rw [hparse, outcome, Except.error.injEq] at hfault
    rw [hfault]

end RxCap

end CommonDrivers.Media.Hdmitx
