import CommonDrivers.Media.Hdmitx.EdidContents

/-!
# The lists of the parser

`Tracks` says that the arrays and counts of the parser hold what has been listed. Each
function of the parser takes it to what is then listed, and succeeds exactly under a
condition on that: only a short video descriptor, a detailed timing and the capability
map have one. The list of VICs has none, since the VICs are bytes and the list has no
VIC twice.
-/

namespace CommonDrivers.Media.Hdmitx

open SucceedsIff Listed RxCap Option
open List hiding Vector

/-- The lists of the parser are what has been listed. -/
structure RxCap.Tracks (edidCheck : ℕ) (p : Listed) (rx : RxCap) : Prop where
  edidCheck_eq : rx.edidCheck = edidCheck
  vics_nodup : rx.vics.Nodup
  mem_vics : ∀ v, v ∈ rx.vics ↔ v ∈ p.vics
  vicCount_le : rx.vicCount ≤ vicMaxNum
  vic_lt : ∀ v ∈ rx.vic, v < 256
  svdVicCount_eq : rx.svdVicCount = p.svds
  svds_le : p.svds ≤ svdVicMaxNum
  dtdIdx_eq : rx.dtdIdx = p.timings
  timings_le : p.timings ≤ dtdMaxNum
  audCount_eq : rx.audCount = 0
  y420AllVic_eq : rx.y420AllVic = p.all
  bitmapLength_eq : rx.bitmapLength = p.rows
  bitmapValid_eq : rx.bitmapValid = decide (p.rows ≠ 0)

namespace RxCap

variable {edidCheck : ℕ} {p : Listed} {rx : RxCap} {board : Board}

theorem Counted.put {α : Type} {n : ℕ} (h : rx.Counted) (a : Vector α n) {i : ℕ} (x : α)
    (e : Fault) (hi : i < n) : rx.put a i x e = .ok (a.set i x) := by
  rw [RxCap.put, if_pos h, store_eq_ok a x e hi]

theorem tracks_clear (edidCheck : ℕ) : (hdmitxEdidRxcapClear edidCheck).Tracks edidCheck {} where
  edidCheck_eq := rfl
  vics_nodup := nodup_nil
  mem_vics _ := Iff.rfl
  vicCount_le := Nat.zero_le _
  vic_lt v hv := by
    rw [hdmitxEdidRxcapClear, Vector.mem_replicate] at hv
    exact hv.2 ▸ by decide
  svdVicCount_eq := rfl
  svds_le := Nat.zero_le _
  dtdIdx_eq := rfl
  timings_le := Nat.zero_le _
  audCount_eq := rfl
  y420AllVic_eq := rfl
  bitmapLength_eq := rfl
  bitmapValid_eq := rfl

namespace Tracks

section

variable (h : rx.Tracks edidCheck p)
include h

theorem counted : rx.Counted where
  vicCount_le := h.vicCount_le
  svdVicCount_le := h.svdVicCount_eq ▸ h.svds_le
  audCount_le := h.audCount_eq ▸ Nat.zero_le _
  dtdIdx_le := h.dtdIdx_eq ▸ h.timings_le

theorem length_vics : rx.vics.length = rx.vicCount := by
  rw [vics, length_take, Vector.length_toList]
  exact min_eq_left h.vicCount_le

/-- The count of the VICs is the number of different ones. -/
theorem vicCount_eq : rx.vicCount = p.vics.dedup.length := by
  rw [← h.length_vics]
  refine (Perm.length_eq ?_)
  rw [perm_ext_iff_of_nodup h.vics_nodup (nodup_dedup _)]
  simpa using h.mem_vics

theorem lt_of_mem_vics {v : ℕ} (hv : v ∈ rx.vics) : v < 256 :=
  h.vic_lt v (Vector.mem_toList_iff.1 (mem_of_mem_take hv))

/-- There are no more VICs than bytes. -/
theorem vicCount_le_byte : rx.vicCount ≤ 256 := by
  rw [← h.length_vics, ← length_range (n := 256)]
  exact (subperm_of_subset h.vics_nodup fun v hv =>
    mem_range.2 (h.lt_of_mem_vics hv)).length_le

/-- A store at an index in the array. -/
theorem put {α : Type} {n : ℕ} (a : Vector α n) {i : ℕ} (x : α) (e : Fault) (hi : i < n) :
    rx.put a i x e = .ok (a.set i x) := h.counted.put a x e hi

theorem put_of_le {α : Type} {n : ℕ} (a : Vector α n) {i : ℕ} (x : α) (e : Fault) (hi : n ≤ i) :
    rx.put a i x e = .error e := by
  rw [RxCap.put, if_pos h.counted, store, dif_neg (not_lt.2 hi)]

/-! ## The lists of modes -/

theorem storeVesaIdx (v : ℕ) : (rx.storeVesaIdx v).Tracks edidCheck p := by
  rw [RxCap.storeVesaIdx]
  split
  · exact h
  · exact { h with }

theorem storeY420Idx (v : ℕ) : (rx.storeY420Idx v).Tracks edidCheck p := by
  rw [RxCap.storeY420Idx]
  split_ifs
  · exact h
  · split
    · exact h
    · exact { h with }

theorem storeCeaIdx {v : ℕ} (hv : v < 256) :
    SucceedsIff True (Tracks edidCheck (p.addVics [v])) (rx.storeCeaIdx v) := by
  rw [RxCap.storeCeaIdx]
  split_ifs with hmem
  · refine .pure { h with mem_vics := fun w => ?_ }
    rw [addVics, mem_append, mem_singleton, h.mem_vics]
    exact ⟨.inl, fun hw => hw.elim id fun hw => hw ▸ (h.mem_vics v).1 hmem⟩
  have hlt : rx.vicCount < vicMaxNum := h.vicCount_le_byte.trans_lt (by decide)
  rw [h.put rx.vic v _ hlt]
  have hvics : (rx.vic.set rx.vicCount v hlt).toList.take (rx.vicCount + 1) = rx.vics ++ [v] := by
    rw [Vector.toList_set, take_add_one, take_set_of_le le_rfl,
      List.getElem?_set_self (by rwa [Vector.length_toList]), vics]
    rfl
  refine .pure { h with
    vics_nodup := ?_, mem_vics := fun w => ?_, vicCount_le := hlt, vic_lt := fun w hw => ?_ }
  · change List.Nodup (List.take _ _)
    rw [hvics]
    exact h.vics_nodup.append (nodup_singleton v) (by simpa using hmem)
  · change w ∈ List.take _ _ ↔ _
    rw [hvics, addVics, mem_append, mem_append, h.mem_vics]
  have hw' : w ∈ rx.vic.set rx.vicCount v hlt := hw
  rcases Vector.mem_or_eq_of_mem_set hw' with hw | rfl
  · exact h.vic_lt w hw
  · exact hv

end

theorem addVics_nil (p : Listed) : p.addVics [] = p := by
  rw [addVics, append_nil]

theorem addVics_addVics (p : Listed) (l l' : List ℕ) :
    (p.addVics l).addVics l' = p.addVics (l ++ l') := by
  rw [addVics, addVics, addVics, append_assoc]

section

variable (h : rx.Tracks edidCheck p) {f : RxCap → Except Fault RxCap}
include h

/-- The VIC of an optional one. -/
theorem storeCeaIdx_of_toList {o : Option ℕ} (ho : ∀ v ∈ o, v < 256) :
    SucceedsIff True (Tracks edidCheck (p.addVics o.toList)) (match o with
        | some v => rx.storeCeaIdx v
        | none => .ok rx) := by
  cases o with
  | none => exact .pure (by rwa [toList_none, addVics_nil])
  | some v => exact h.storeCeaIdx (ho v rfl)

theorem storeNativeVic (v : ℕ) : (rx.storeNativeVic v).Tracks edidCheck p := by
  rw [RxCap.storeNativeVic]
  split_ifs
  · exact { h with }
  · exact { h with }
  · exact h

theorem storeVics {svd : ℕ} (hsvd : svd < 256) :
    SucceedsIff (p.svds < svdVicMaxNum) (Tracks edidCheck (p.svd svd)) (rx.storeVics svd) := by
  rw [RxCap.storeVics]
  by_cases hlt : p.svds < svdVicMaxNum
  · have hidx : rx.svdVicCount < svdVicMaxNum := h.svdVicCount_eq ▸ hlt
    refine .iff ?_ (iff_true_intro hlt)
    rw [h.put rx.svdVic _ _ hidx]
    have hnext : Tracks edidCheck { p with svds := p.svds + 1 }
        { rx with
          svdVic := rx.svdVic.set rx.svdVicCount
            (if 1 ≤ svd % 0x80 ∧ svd % 0x80 ≤ 64 then svd % 0x80 else svd) hidx
          svdVicCount := rx.svdVicCount + 1 } :=
      { h with svdVicCount_eq := congrArg (· + 1) h.svdVicCount_eq, svds_le := hlt }
    have hadd {o : Option ℕ} (ho : vicOfSvd svd = o) :
        p.svd svd = addVics { p with svds := p.svds + 1 } o.toList := by rw [← ho]; rfl
    have hnative {q : Listed} (rx' : RxCap) (h' : rx'.Tracks edidCheck q) :
        (if svd / 0x80 = 0 then rx' else rx'.storeNativeVic (svd % 0x80)).Tracks edidCheck q := by
      split_ifs
      · exact h'
      · exact h'.storeNativeVic _
    rw [ok_bind]
    by_cases hcea : 1 ≤ svd % 0x80 ∧ svd % 0x80 ≤ 64
    · rw [if_pos hcea]
      by_cases hone : 1 < svd % 0x80
      · rw [if_pos hone, hadd (by rw [vicOfSvd, if_pos hcea, if_pos hone])]
        exact (hnext.storeCeaIdx (by omega)).bind_true fun rx' h' =>
          .pure (hnative rx' h')
      · rw [if_neg hone, hadd (by rw [vicOfSvd, if_pos hcea, if_neg hone]), toList_none,
          addVics_nil]
        exact .pure (hnative _ hnext)
    · rw [if_neg hcea, hadd (by rw [vicOfSvd, if_neg hcea])]
      exact hnext.storeCeaIdx hsvd
  · refine .iff ?_ (iff_false_intro hlt)
    rw [h.put_of_le rx.svdVic _ _ (h.svdVicCount_eq ▸ not_lt.1 hlt)]
    exact .error _ id

/-! ## Detailed timings -/

omit h in
/-- The VIC of a detailed timing is a byte, if it is not one of a VESA mode. -/
theorem dtdVic_lt {data : Bytes}
    (hvesa : dtdVic (dtdMatch board data).1 (dtdMatch board data).2 < vesaOffset) :
    dtdVic (dtdMatch board data).1 (dtdMatch board data).2 < 256 := by
  have htiming : (dtdMatch board data).2.vic < 255 ∨ vesaOffset ≤ (dtdMatch board data).2.vic :=
    vic_lt_of_mem_timings (snd_hdmitxModeMatchDtdTiming_mem board _)
  rw [dtdVic] at hvesa ⊢
  split_ifs at hvesa ⊢ <;> omega

theorem edidDtdParsing (data : Bytes) : SucceedsIff (isZeroDtd data = false → p.timings < dtdMaxNum)
      (Tracks edidCheck (p.dtd board data)) (rx.edidDtdParsing board data) := by
  have hskip (hvic : vicOfDtd board data = none) : p.dtd board data = p := by
    simp [Listed.dtd, ceaVicOfDtd, hvic]
  rw [RxCap.edidDtdParsing]
  by_cases hzero : isZeroDtd data = true
  · rw [if_pos hzero, hskip (by rw [vicOfDtd, if_pos (.inl hzero)])]
    exact .iff (.pure h) (by simp [hzero])
  rw [if_neg hzero]
  dsimp only
  by_cases hlt : p.timings < dtdMaxNum
  · have hidx : rx.dtdIdx < dtdMaxNum := h.dtdIdx_eq ▸ hlt
    refine .iff ?_ (iff_true_intro fun _ => hlt)
    rw [h.put rx.dtd _ _ hidx, ok_bind]
    have hstored : Tracks edidCheck p
      { rx with dtd := rx.dtd.set rx.dtdIdx (dtdMatch board data).1 hidx } := { h with }
    by_cases hvic : (dtdMatch board data).2.vic = 0
    · rw [if_pos hvic, hskip (by rw [vicOfDtd, if_pos (.inr hvic)])]
      exact .pure hstored
    -- a timing with a VIC takes the next place
    have hsome :
        vicOfDtd board data = some (dtdVic (dtdMatch board data).1 (dtdMatch board data).2) :=
      if_neg (not_or_intro hzero hvic)
    rw [if_neg hvic, hstored.put _ _ _ hidx, ok_bind]
    refine (load_of_lt _ _ (by decide)).bind_true fun dtd0 _ => ?_
    have hnext {a : Vector Dtd dtdMaxNum} {mode : ℕ} :
        Tracks edidCheck { p with timings := p.timings + 1 }
          { rx with dtd := a, preferredMode := mode, dtdIdx := (rx.dtdIdx + 1) % 256 } :=
      { h with
        dtdIdx_eq := by
          rw [← h.dtdIdx_eq]
          exact Nat.mod_eq_of_lt (by rw [dtdMaxNum] at hidx; omega)
        timings_le := hlt }
    by_cases hvesa : dtdVic (dtdMatch board data).1 (dtdMatch board data).2 < vesaOffset
    · rw [if_pos hvesa]
      have hdtd : p.dtd board data = addVics { p with timings := p.timings + 1 }
          [dtdVic (dtdMatch board data).1 (dtdMatch board data).2] := by
        simp [Listed.dtd, ceaVicOfDtd, hsome, hvesa, addVics]
      rw [hdtd]
      exact hnext.storeCeaIdx (dtdVic_lt hvesa)
    · rw [if_neg hvesa]
      have hdtd : p.dtd board data = { p with timings := p.timings + 1 } := by
        simp [Listed.dtd, ceaVicOfDtd, hsome, not_lt.1 hvesa]
      rw [hdtd]
      exact .pure (hnext.storeVesaIdx _)
  · -- no place is left, and the store is out of range
    refine .iff ?_ (iff_false_intro fun hc => hlt (hc (Bool.not_eq_true _ ▸ hzero)))
    rw [h.put_of_le rx.dtd _ _ (h.dtdIdx_eq ▸ not_lt.1 hlt)]
    exact .error _ id

/-- A part that never fails, and is for what is not tracked. -/
theorem onlyIf {c : Bool} (hf : SucceedsIff True (Tracks edidCheck p) (f rx)) :
    SucceedsIff True (Tracks edidCheck p) (rx.onlyIf c f) := by
  rw [RxCap.onlyIf]
  split_ifs
  · exact hf
  · exact .pure h

/-! ## 3D formats -/

theorem set3dFormat (f : Support3dFormat → Support3dFormat) {i : ℕ} (hi : i < vicMaxNum) :
    SucceedsIff True (Tracks edidCheck p) (rx.set3dFormat f i) := by
  refine (load_of_lt rx.vic _ hi).bind_true fun v hv => ?_
  have hlt : v < vicMaxNum := (h.vic_lt v hv).trans (by decide)
  refine (load_of_lt _ _ hlt).bind_true fun x _ => ?_
  rw [h.put _ _ _ hlt]
  exact .pure { h with }

theorem hdmitx3dUpdate : SucceedsIff True (Tracks edidCheck p) rx.hdmitx3dUpdate := by
  refine foldlM_inv _ (fun rx j hj h => h.onlyIf ?_) h
  have hlt : j < vicMaxNum := (mem_range.1 hj).trans (by decide)
  exact (h.onlyIf (h.set3dFormat _ hlt)).bind_true fun rx h =>
    (h.onlyIf (h.set3dFormat _ hlt)).bind_true fun rx h => h.onlyIf (h.set3dFormat _ hlt)

theorem entries3d (dat : Bytes) (size fuel pos : ℕ) :
    SucceedsIff True (Tracks edidCheck p) (entries3d dat size fuel pos rx) := by
  induction fuel generalizing pos rx with
  | zero => exact .pure h
  | succ fuel ih =>
    have hlt : dat[pos] >>> 4 < vicMaxNum :=
      (Nat.shiftRight_le _ _).trans_lt ((dat.getElem_lt pos).trans (by decide))
    rw [entries3d]
    split_ifs
    · exact .pure h
    · exact (h.onlyIf (h.set3dFormat _ hlt)).bind_true fun rx h =>
        (h.onlyIf (h.set3dFormat _ hlt)).bind_true fun rx h => ih h _
    · exact (h.onlyIf (h.set3dFormat _ hlt)).bind_true fun rx h => ih h _

theorem header3d (dat : Bytes) : (rx.header3d dat).1.Tracks edidCheck p := by
  rw [RxCap.header3d]
  dsimp only
  split_ifs
  all_goals exact { h with }

theorem hdmitxEdid3dParse (dat : Bytes) (size : ℕ) :
    SucceedsIff True (Tracks edidCheck p) (rx.hdmitxEdid3dParse dat size) := by
  refine ((h.header3d dat).entries3d dat size size _).bind_true fun rx h => ?_
  split_ifs
  · refine foldlM_inv _ (fun rx j hj h => ?_) h
    have hlt : j < vicMaxNum := ((mem_range.1 hj).trans_le (min_le_left _ _)).trans (by decide)
    exact (h.set3dFormat _ hlt).bind_true fun rx h =>
      (h.set3dFormat _ hlt).bind_true fun rx h => h.set3dFormat _ hlt
  · exact h.hdmitx3dUpdate

/-! ## The VICs of the data blocks -/

/-- A loop that lists a VIC at a time. -/
theorem foldlM_vics {α : Type} (o : α → Option ℕ) {f : RxCap → α → Except Fault RxCap}
    (l : List α) (step : ∀ p rx, ∀ a ∈ l, rx.Tracks edidCheck p →
      SucceedsIff True (Tracks edidCheck (p.addVics (o a).toList)) (f rx a)) :
    SucceedsIff True (Tracks edidCheck (p.addVics (l.filterMap o))) (l.foldlM f rx) := by
  induction l generalizing p rx with
  | nil => exact .pure (by rwa [filterMap_nil, addVics_nil])
  | cons a l ih =>
    rw [foldlM_cons, filterMap_cons_toList, ← addVics_addVics]
    exact (step p rx a mem_cons_self h).bind_true fun rx h =>
      ih h fun p rx a ha => step p rx a (mem_cons_of_mem _ ha)

/-- A part that lists VICs. -/
theorem onlyIf_addVics {c : Prop} [Decidable c] {l : List ℕ}
    (hf : c → SucceedsIff True (Tracks edidCheck (p.addVics l)) (f rx)) :
    SucceedsIff True (Tracks edidCheck (p.addVics (if c then l else []))) (rx.onlyIf c f) := by
  rw [RxCap.onlyIf]
  by_cases hc : c
  · rw [if_pos hc, if_pos (decide_eq_true hc)]
    exact hf hc
  · rw [if_neg hc, if_neg (mt of_decide_eq_true hc), addVics_nil]
    exact .pure h

omit h in
theorem vicOf4k2k_lt {n v : ℕ} (h : vicOf4k2k n = some v) : v < 256 := by
  rw [vicOf4k2k.eq_def] at h
  split at h <;> cases h <;> decide

theorem hdmitxEdid4k2kParse (dat : Bytes) (size : ℕ) :
    SucceedsIff True (Tracks edidCheck (p.addVics (list4k2k dat size)))
      (rx.hdmitxEdid4k2kParse dat size) := by
  rw [RxCap.hdmitxEdid4k2kParse, list4k2k]
  split_ifs
  · exact .pure (by rwa [addVics_nil])
  · exact h.foldlM_vics _ _ fun p rx i _ h => h.storeCeaIdx_of_toList fun v hv => vicOf4k2k_lt hv

theorem hdmitxEdidParseHdmi14 (b : Bytes) (off : ℕ) :
    SucceedsIff True (Tracks edidCheck (p.addVics (vicsHdmi14 b off)))
      (rx.hdmitxEdidParseHdmi14 (off + 1) b (b.count off)) := by
  rw [RxCap.hdmitxEdidParseHdmi14, vicsHdmi14]
  refine h.onlyIf_addVics fun _ => ?_
  refine (h.onlyIf_addVics fun _ => ?_).bind_true fun rx h => h.onlyIf (h.hdmitxEdid3dParse _ _)
  exact h.hdmitxEdid4k2kParse _ _

theorem edidParsingy420vdb (buf : Bytes) : SucceedsIff True (Tracks edidCheck (p.addVics
        (((List.range' 2 (buf.count 0 - 1)).map fun pos => buf[pos]).filter
          (hdmitxModeValidateY420Vic board)))) (rx.edidParsingy420vdb board buf) := by
  rw [← filterMap_eq_filter, filterMap_map]
  refine h.foldlM_vics _ _ fun p rx pos _ h => ?_
  have hlt : rx.vicCount < vicMaxNum := h.vicCount_le_byte.trans_lt (by decide)
  rw [RxCap.onlyIf]
  by_cases hvalid : hdmitxModeValidateY420Vic board buf[pos] = true
  · rw [if_pos (by simp [hlt, hvalid])]
    have hone : ((Option.guard (hdmitxModeValidateY420Vic board)) ∘ fun pos => buf[pos]) pos =
        some buf[pos] := by simp [Option.guard, hvalid]
    rw [hone]
    exact (h.storeCeaIdx (buf.getElem_lt pos)).bind_true fun rx h =>
      .pure (h.storeY420Idx _)
  · rw [if_neg (by simp [hvalid])]
    have hnone : ((Option.guard (hdmitxModeValidateY420Vic board)) ∘ fun pos => buf[pos]) pos =
        none := by simp [Option.guard, hvalid]
    rw [hnone, toList_none, addVics_nil]
    exact .pure h

/-! ## The capability map -/

theorem putBitmap {i : ℕ} (hi : i < y420cmdbMax) (x : ℕ) :
    SucceedsIff True (Tracks edidCheck p) (rx.putBitmap i x) := by
  rw [RxCap.putBitmap, h.put _ _ _ hi]
  exact .pure { h with }

theorem edidParsingy420cmdb (buf : Bytes) : SucceedsIff True (Tracks edidCheck { p with
        all := p.all || decide (buf.count 0 = 1)
        rows := if buf.count 0 ≠ 1 then buf.count 0 - 1 else p.rows })
      (rx.edidParsingy420cmdb buf) := by
  rw [RxCap.edidParsingy420cmdb]
  by_cases hone : buf.count 0 = 1
  · rw [if_pos hone, if_neg (not_not.2 hone)]
    exact .pure { h with y420AllVic_eq := by simp [hone] }
  rw [if_neg hone, if_pos hone]
  refine foldlM_inv _ (fun rx i _ h => ?_) { h with
    y420AllVic_eq := by simpa [hone] using h.y420AllVic_eq
    bitmapLength_eq := rfl
    bitmapValid_eq := decide_eq_decide.2 (show 1 < buf.count 0 ↔ buf.count 0 - 1 ≠ 0 by omega) }
  rw [RxCap.onlyIf]
  split_ifs with hi
  · exact h.putBitmap (of_decide_eq_true hi) _
  · exact .pure h

/-- The map of all modes has a bit for each VIC of the list. -/
theorem edidY420cmdbFillAllVic :
    SucceedsIff True (Tracks edidCheck { p with rows := (p.vics.dedup.length + 7) / 8 })
      rx.edidY420cmdbFillAllVic := by
  have hcount := h.vicCount_eq
  have hbyte := h.vicCount_le_byte
  have hrow : (if rx.vicCount % 8 = 0 then min (rx.vicCount / 8) y420cmdbMax
      else min (rx.vicCount / 8) y420cmdbMax + 1) = (p.vics.dedup.length + 7) / 8 := by
    rw [y420cmdbMax]
    split_ifs <;> omega
  have hfill := foldlM_inv (List.range (min (rx.vicCount / 8) y420cmdbMax))
    (f := fun rx i => RxCap.putBitmap i 0xff rx) (I := Tracks edidCheck p)
    (fun rx i hi h => h.putBitmap ((mem_range.1 hi).trans_le (min_le_right _ _)) 0xff) h
  refine hfill.bind_true fun rx' h' => ?_
  refine (bind_true (P := Tracks edidCheck p) ?_ fun rx'' h'' => ?_)
  · rw [RxCap.onlyIf]
    split_ifs with hlast
    · exact h'.putBitmap (of_decide_eq_true hlast).2 _
    · exact .pure h'
  · refine .pure { h'' with bitmapLength_eq := hrow, bitmapValid_eq := ?_ }
    exact decide_eq_decide.2 (by rw [hrow])

/-- A byte of the map is for eight descriptors, which have to be in their array. -/
theorem mapByte (i : ℕ) : SucceedsIff (i < 16) (Tracks edidCheck p)
      ((List.range 8).foldlM (fun rx j => do
        let q ← load rx.y420cmdbBitmap i (.y420cmdbBitmap i)
        let vic ← load rx.svdVic (i * 8 + j) (.svdVic (i * 8 + j))
        rx.onlyIf (q.testBit j && hdmitxModeValidateY420Vic board vic)
          fun rx => .ok (rx.storeY420Idx vic)) rx) := by
  refine (foldlM_forall (c := fun j => i < y420cmdbMax ∧ i * 8 + j < svdVicMaxNum)
    _ (fun rx j hj h => ?_) h).iff ?_
  · refine (SucceedsIff.load _ i _).bind fun q _ => ?_
    exact (SucceedsIff.load _ _ _).bind_of_true fun vic _ =>
      h.onlyIf (.pure (h.storeY420Idx vic))
  rw [y420cmdbMax, svdVicMaxNum]
  refine ⟨fun hi j hj => ?_, fun hall => ?_⟩
  · have := mem_range.1 hj
    omega
  · have := hall 7 (mem_range.2 (by decide))
    omega

theorem edidY420cmdbPostprocess : SucceedsIff (p.mapRows ≤ 16) (Tracks edidCheck p.applyMap)
      (rx.edidY420cmdbPostprocess board) := by
  have hfill : SucceedsIff True (Tracks edidCheck p.applyMap)
      (rx.onlyIf rx.y420AllVic RxCap.edidY420cmdbFillAllVic) := by
    rw [RxCap.onlyIf, h.y420AllVic_eq, applyMap, mapRows]
    split_ifs
    · exact h.edidY420cmdbFillAllVic
    · exact .pure h
  refine hfill.bind_true fun rx h => ?_
  have hrows : rx.bitmapLength = p.mapRows := h.bitmapLength_eq
  rw [RxCap.onlyIf, h.bitmapValid_eq]
  split_ifs with hvalid
  · refine (foldlM_forall _ (fun rx i _ h => h.mapByte i) h).iff ?_
    rw [hrows]
    refine ⟨fun hle i hi => (mem_range.1 hi).trans_le hle, fun hall => ?_⟩
    by_contra hlt
    exact absurd (hall 16 (mem_range.2 (not_le.1 hlt))) (by decide)
  · have hzero : p.mapRows = 0 := not_not.1 (mt decide_eq_true hvalid)
    exact .iff (.pure h) (by simp [hzero])

/-! ## CTA blocks -/

theorem edidParsingvfpdb (buf : Bytes) :
    SucceedsIff True (Tracks edidCheck p) (rx.edidParsingvfpdb buf) := by
  rw [RxCap.edidParsingvfpdb]
  split_ifs
  · exact .pure h
  · exact .pure { h with }
  · have hlt : buf[2] - 129 < dtdMaxNum := by rw [dtdMaxNum]; omega
    refine (load_of_lt rx.dtd _ hlt).bind_true fun dtd _ => ?_
    exact .pure { h with }
  · exact .pure h

/-- The descriptors of a video data block. -/
theorem foldlM_storeVics (b : Bytes) (l : List ℕ) : SucceedsIff (p.svds + l.length ≤ svdVicMaxNum)
      (Tracks edidCheck ((l.map fun i => b[i]).foldl svd p))
      (l.foldlM (fun rx i => rx.storeVics b[i]) rx) := by
  induction l generalizing p rx with
  | nil => exact .iff (.pure h) (iff_true_intro h.svds_le)
  | cons i l ih =>
    refine ((h.storeVics (b.getElem_lt i)).bind fun rx h => ih h).iff ?_
    rw [svd, length_cons]
    dsimp only
    omega

/-- A data block without video descriptors. -/
theorem ctaDataBlock_of_tag_ne {b : Bytes} {off : ℕ} (htag : b.tag off ≠ 2)
    (hx : SucceedsIff True (Tracks edidCheck (p.dataBlock board b off))
      (rx.ctaDataBlock board b off)) : SucceedsIff (p.svds + (svds b off).length ≤ svdVicMaxNum)
      (Tracks edidCheck (p.dataBlock board b off)) (rx.ctaDataBlock board b off) := by
  have hsvds : svds b off = [] := if_neg htag
  refine hx.iff (iff_true_intro ?_)
  rw [hsvds]
  exact h.svds_le

/-- A data block with an extended tag. -/
theorem ctaDataBlock_of_extended {b : Bytes} {off : ℕ} (htag : b.tag off = 7) :
    SucceedsIff True (Tracks edidCheck (p.dataBlock board b off))
      (rx.ctaDataBlock board b off) := by
  have hsvds : svds b off = [] := if_neg (by rw [htag]; decide)
  rw [RxCap.ctaDataBlock, htag]
  by_cases hvdb : b[off + 1] = 0xe
  · have hblock : p.dataBlock board b off = p.addVics (vicsY420 board b off) := by
      simp [dataBlock, dataBlockVics, vics4k2k, isCapMap, htag, hsvds, hvdb, addVics]
    rw [hblock, hvdb, vicsY420, if_pos ⟨htag, hvdb⟩]
    exact h.edidParsingy420vdb (b.drop off)
  by_cases hmap : b[off + 1] = 0xf
  · have hblock : p.dataBlock board b off = { p with
        all := p.all || decide ((b.drop off).count 0 = 1)
        rows := if (b.drop off).count 0 ≠ 1 then (b.drop off).count 0 - 1 else p.rows } := by
      have hcount : (b.drop off).count 0 = b.count off := rfl
      simp [dataBlock, dataBlockVics, vics4k2k, vicsY420, isCapMap, htag, hsvds, hmap, hcount]
    rw [hblock, hmap]
    exact h.edidParsingy420cmdb (b.drop off)
  · have hblock : p.dataBlock board b off = p := by
      simp [dataBlock, dataBlockVics, vics4k2k, vicsY420, isCapMap, htag, hsvds, hvdb, hmap]
    rw [hblock]
    simp only
    exact .pure h

theorem ctaDataBlock (b : Bytes) (off : ℕ) :
    SucceedsIff (p.svds + (svds b off).length ≤ svdVicMaxNum)
      (Tracks edidCheck (p.dataBlock board b off)) (rx.ctaDataBlock board b off) := by
  by_cases hvideo : b.tag off = 2
  · have hblock : p.dataBlock board b off = (svds b off).foldl svd p := by
      rw [foldl_svd]
      simp [dataBlock, dataBlockVics, vics4k2k, vicsY420, isCapMap, hvideo]
    rw [hblock, RxCap.ctaDataBlock, hvideo, svds, if_pos hvideo]
    have hfold := h.foldlM_storeVics b ((List.range (b.count off)).map fun i => off + 1 + i)
    simpa [List.foldlM_map, List.map_map, Function.comp_def] using hfold
  refine h.ctaDataBlock_of_tag_ne hvideo ?_
  have hsvds : svds b off = [] := if_neg hvideo
  by_cases hvendor : b.tag off = 3
  · have hblock : p.dataBlock board b off =
        p.addVics (if isHdmiOui b off then vicsHdmi14 b off else []) := by
      simp [dataBlock, dataBlockVics, vics4k2k, vicsY420, isCapMap, hvendor, hsvds, addVics]
    rw [hblock, RxCap.ctaDataBlock, hvendor]
    exact h.onlyIf_addVics fun _ => h.hdmitxEdidParseHdmi14 b off
  by_cases hext : b.tag off = 7
  · exact h.ctaDataBlock_of_extended hext
  have hblock : p.dataBlock board b off = p := by
    simp [dataBlock, dataBlockVics, vics4k2k, vicsY420, isCapMap, hvendor, hsvds, hext]
  rw [hblock, RxCap.ctaDataBlock]
  split
  · exact absurd ‹_› hvideo
  · exact absurd ‹_› hvendor
  · exact absurd ‹_› hext
  · exact .pure h

/-- The data blocks, when there are `p.svds` descriptors already. -/
theorem foldlM_ctaDataBlock (b : Bytes) (l : List ℕ) :
    SucceedsIff (p.svds + (l.map fun off => (svds b off).length).sum ≤ svdVicMaxNum)
      (Tracks edidCheck (l.foldl (dataBlock board b) p))
      (l.foldlM (RxCap.ctaDataBlock board b) rx) := by
  refine (foldlM l (fun p rx off _ h => h.ctaDataBlock b off) h).iff ?_
  rw [along_map Listed.svds (fun n off => n + (svds b off).length)
    (fun n off => n + (svds b off).length ≤ svdVicMaxNum) fun _ _ => rfl]
  exact (along_sum_le _ h.svds_le l).symm

/-- The timings, when there are `p.timings` in the array already. -/
theorem foldlM_edidDtdParsing {α : Type} (data : α → Bytes) (l : List α) :
    SucceedsIff (DtdsFit board p.timings (l.map data))
      (Tracks edidCheck ((l.map data).foldl (Listed.dtd board) p))
      (l.foldlM (fun rx a => rx.edidDtdParsing board (data a)) rx) := by
  induction l generalizing p rx with
  | nil => exact .pure h
  | cons a l ih => exact (h.edidDtdParsing (data a)).bind fun rx h => ih h

theorem start {n : ℕ} {a : Vector ℕ svdVicMaxNum} : Tracks edidCheck p.start
      { rx with numberOfDtd := n, svdVicCount := 0, svdVic := a }.edidY420cmdbReset :=
  { h with
    svdVicCount_eq := rfl
    svds_le := Nat.zero_le _
    y420AllVic_eq := rfl
    bitmapLength_eq := rfl
    bitmapValid_eq := rfl }

theorem hdmitxEdidCtaBlockParse (b : Bytes) : SucceedsIff
      (svdCount b ≤ svdVicMaxNum ∧ (p.dataBlocks board b).mapRows ≤ 16 ∧
        DtdsFit board p.timings (dtds b))
      (Tracks edidCheck (p.ctaBlock board b)) (rx.hdmitxEdidCtaBlockParse board b) := by
  rw [RxCap.hdmitxEdidCtaBlockParse]
  by_cases hend : 127 < b[2]
  · have hdata : parsedDataBlocks b = [] := if_pos (.inl hend)
    have hdtds : dtds b = [] := if_pos hend
    have hblock : p.ctaBlock board b = p.start := by
      rw [ctaBlock, Listed.dataBlocks, hdata, hdtds]
      rfl
    rw [if_pos hend, hblock]
    refine .iff (.pure h.start) (iff_true_intro ⟨?_, ?_, ?_⟩)
    · simp [svdCount, hdata]
    · simp [Listed.dataBlocks, hdata, mapRows, Listed.start]
    · rw [hdtds]
      trivial
  rw [if_neg hend]
  have hparsed (rx : RxCap) :
      (rx.onlyIf (2 < b[1]) fun rx => (dataBlocks b).foldlM (RxCap.ctaDataBlock board b) rx) =
        (parsedDataBlocks b).foldlM (RxCap.ctaDataBlock board b) rx := by
    rw [RxCap.onlyIf, parsedDataBlocks]
    by_cases hrev : b[1] ≤ 2
    · rw [if_neg (by simpa using hrev), if_pos (.inr hrev)]
      rfl
    · rw [if_pos (by simpa using hrev), if_neg (by tauto)]
  have hdtds : dtds b = (dtdOffsets b).map b.drop := if_neg hend
  have hsvds : p.start.svds + ((parsedDataBlocks b).map fun off => (svds b off).length).sum =
      svdCount b := Nat.zero_add _
  have htimings : (p.dataBlocks board b).applyMap.timings = p.timings := by
    rw [dataBlocks_eq]
    rfl
  rw [hparsed, ctaBlock, hdtds, ← hsvds, ← htimings]
  refine (h.start.foldlM_ctaDataBlock b _).bind fun rx h => ?_
  refine h.edidY420cmdbPostprocess.bind fun rx h => ?_
  refine (h.foldlM_edidDtdParsing b.drop _).bind_of_true fun rx h => h.onlyIf ?_
  cases vfpdbOffset b with
  | none => exact .pure h
  | some off => exact h.edidParsingvfpdb _

end

end Tracks

end RxCap

end CommonDrivers.Media.Hdmitx
