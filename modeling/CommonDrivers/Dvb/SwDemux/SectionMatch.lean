import CommonDrivers.Dvb.SwDemux.Ownership

/-!
# What a section filter is for

A section filter has 16 bytes of a value, a mask and a mode. The first is for the first byte of a
section, and the others for those after its length (`sectionByte`). A bit with a mask is to be equal
to the value if its mode is 0, and of those with the mode 1 one is to differ (`Fires`).

`swdmx_sec_filter_set_params` spreads the bytes over 18 entries, but `sec_filter_match` tests the
first 16 of them, and it tests them against the buffer also where the section is shorter. So the
section alone decides the test of the filter without its last two bytes (`SecFilterParams.tested`):

* it passes whatever the buffer holds, exactly if this filter fires (`accepts_arrays_iff`);
* it fails whatever the buffer holds, exactly if the section refuses this filter
  (`rejects_arrays_iff`).

`sec_filter_fires`: the test is the one that is meant, exactly if it is decided in this way, and as
the whole filter asks.
-/

namespace CommonDrivers.Dvb.SwDemux

/-- The byte of a section that the byte `i` of a filter is for. -/
def sectionByte (i : Fin 16) : ℕ := if i.val = 0 then 0 else i + 2

/-- A bit of a byte. -/
def bit (b : UInt8) (k : Fin 8) : Bool := b.toBitVec.getLsbD k

/-- The section has the byte, and its bit is as `P` says. -/
def BitIs (sec : List UInt8) (i : Fin 16) (k : Fin 8) (P : Bool → Prop) : Prop :=
  ∃ h : sectionByte i < sec.length, P (bit (sec.get ⟨sectionByte i, h⟩) k)

/-- The section is one that the filter is set for. -/
@[mk_iff]
structure Fires (p : SecFilterParams) (sec : List UInt8) : Prop where
  equal : ∀ i k, bit (p.mask i) k = true → bit (p.mode i) k = false →
    BitIs sec i k (· = bit (p.value i) k)
  differs : (∀ i k, bit (p.mask i) k = true → bit (p.mode i) k = false) ∨
    ∃ i k, bit (p.mask i) k = true ∧ bit (p.mode i) k = true ∧ BitIs sec i k (· ≠ bit (p.value i) k)

/-- The section has what keeps the filter from firing: a bit that is to be equal differs, or all
    those of which one is to differ are equal. -/
def Refuses (p : SecFilterParams) (sec : List UInt8) : Prop :=
  (∃ i k, bit (p.mask i) k = true ∧ bit (p.mode i) k = false ∧
      BitIs sec i k (· ≠ bit (p.value i) k)) ∨
    (∃ i k, bit (p.mask i) k = true ∧ bit (p.mode i) k = true) ∧
      ∀ i k, bit (p.mask i) k = true → bit (p.mode i) k = true →
        BitIs sec i k (· = bit (p.value i) k)

/-- The filter without the bytes that are not tested, those for the bytes 16 and 17 of a section. -/
def SecFilterParams.tested (p : SecFilterParams) : SecFilterParams :=
  { p with mask := fun i => if sectionByte i < 16 then p.mask i else 0 }

instance (sec : List UInt8) (i : Fin 16) (k : Fin 8) (P : Bool → Prop) [DecidablePred P] :
    Decidable (BitIs sec i k P) :=
  inferInstanceAs (Decidable (∃ _, _))

instance (p : SecFilterParams) (sec : List UInt8) : Decidable (Fires p sec) :=
  decidable_of_iff _ (fires_iff p sec).symm

/-! ## Bits -/

theorem eq_zero_iff_bit (b : UInt8) : b = 0 ↔ ∀ k, bit b k = false := by
  refine ⟨?_, fun h => ?_⟩
  · rintro rfl k
    exact BitVec.getLsbD_zero
  apply UInt8.eq_of_toBitVec_eq
  apply BitVec.eq_of_getLsbD_eq
  intro k hk
  exact (h ⟨k, hk⟩).trans BitVec.getLsbD_zero.symm

theorem bit_and (a b : UInt8) (k : Fin 8) : bit (a &&& b) k = (bit a k && bit b k) := by
  rw [bit, UInt8.toBitVec_and, BitVec.getLsbD_and]
  rfl

theorem bit_xor (a b : UInt8) (k : Fin 8) : bit (a ^^^ b) k = (bit a k ^^ bit b k) := by
  rw [bit, UInt8.toBitVec_xor, BitVec.getLsbD_xor]
  rfl

theorem bit_not (a : UInt8) (k : Fin 8) : bit (~~~a) k = !bit a k := by
  rw [bit, UInt8.toBitVec_not, BitVec.getLsbD_not, decide_eq_true k.isLt]
  rfl

/-- A byte differs under the mask in no bit. -/
theorem diff_eq_zero_iff (m v d : UInt8) :
    diff m v d = 0 ↔ ∀ k, bit m k = true → bit d k = bit v k := by
  rw [eq_zero_iff_bit]
  refine forall_congr' fun k => ?_
  rw [diff, bit_xor, bit_and, bit_and]
  cases bit m k <;> cases bit v k <;> cases bit d k <;> decide

/-! ## Entries -/

/-- The entry of the byte `i`. -/
def entryOf (i : Fin 16) : Fin 18 := ⟨sectionByte i, by rw [sectionByte]; split <;> omega⟩

theorem spread_entryOf (a : Fin 16 → UInt8) (i : Fin 16) : spread a (entryOf i) = a i := by
  have hval : (entryOf i).val = if i.val = 0 then 0 else i.val + 2 := rfl
  rw [spread]
  by_cases hi : i.val = 0
  · rw [if_pos hi] at hval
    rw [if_pos hval]
    exact congrArg a (Fin.ext hi.symm)
  rw [if_neg hi] at hval
  rw [if_neg (by omega), dif_neg (by omega)]
  refine congrArg a (Fin.ext ?_)
  change (entryOf i).val - 2 = i.val
  omega

/-- An entry is that of a byte, or clear. -/
theorem spread_cases (j : Fin 18) :
    (∃ i, entryOf i = j) ∨ ∀ a : Fin 16 → UInt8, spread a j = 0 := by
  by_cases hj : j.val = 0
  · exact .inl ⟨0, Fin.ext hj.symm⟩
  by_cases hj' : j.val < 3
  · refine .inr fun a => ?_
    rw [spread, if_neg hj, dif_pos hj']
  refine .inl ⟨⟨j - 2, by omega⟩, Fin.ext ?_⟩
  have hpos : ¬ j.val - 2 = 0 := by omega
  change (if j.val - 2 = 0 then 0 else j.val - 2 + 2) = j.val
  rw [if_neg hpos]
  omega

/-- What holds of the entries that are clear holds of all that are tested, if it holds of those of
    the bytes. -/
theorem forall_entry_iff {P : Fin 16 → Prop}
    (hclear : ∀ j, (∀ a : Fin 16 → UInt8, spread a (entry j) = 0) → P j) :
    (∀ j, P j) ↔ ∀ i, ∀ h : sectionByte i < 16, P ⟨sectionByte i, h⟩ := by
  refine ⟨fun hall i h => hall _, fun hall j => ?_⟩
  rcases spread_cases (entry j) with ⟨i, hi⟩ | hzero
  · have hj : sectionByte i = j := congrArg Fin.val hi
    have hP := hall i (hj ▸ j.isLt)
    simpa only [hj] using hP
  · exact hclear j hzero

variable {p : SecFilterParams} {sec : List UInt8} {m v : Fin 16 → UInt8}

theorem forall_spread_eq_zero_iff : (∀ j : Fin 16, spread m (entry j) = 0) ↔
    ∀ i k, sectionByte i < 16 → bit (m i) k = false := by
  rw [forall_entry_iff fun j hzero => hzero m]
  have hentry (i) (h : sectionByte i < 16) :
      spread m (entry ⟨sectionByte i, h⟩) = 0 ↔ ∀ k, bit (m i) k = false :=
    (iff_of_eq (congrArg (· = 0) (spread_entryOf m i))).trans (eq_zero_iff_bit _)
  exact ⟨fun hall i k h => (hentry i h).1 (hall i h) k, fun hall i h => (hentry i h).2 (hall i · h)⟩

/-- Where the section has the byte, no bit of it differs. -/
theorem forall_diff_iff : (∀ j : Fin 16, ∀ h : j < sec.length,
      diff (spread m (entry j)) (spread v (entry j)) (sec.get ⟨j, h⟩) = 0) ↔
    ∀ i k, sectionByte i < 16 → bit (m i) k = true → ¬ BitIs sec i k (· ≠ bit (v i) k) := by
  rw [forall_entry_iff fun j hzero h => by rw [hzero, diff_zero]]
  have hentry (i) (h : sectionByte i < 16) (hlen : sectionByte i < sec.length) :
      diff (spread m (entry ⟨sectionByte i, h⟩)) (spread v (entry ⟨sectionByte i, h⟩))
          (sec.get ⟨sectionByte i, hlen⟩) = 0 ↔
        ∀ k, bit (m i) k = true → bit (sec.get ⟨sectionByte i, hlen⟩) k = bit (v i) k := by
    rw [← diff_eq_zero_iff]
    exact iff_of_eq (congrArg₂ (diff · · _ = 0) (spread_entryOf m i) (spread_entryOf v i))
  refine ⟨fun hall i k h hk => ?_, fun hall i h hlen => (hentry i h hlen).2 fun k hk => ?_⟩
  · rintro ⟨hlen, hne⟩
    exact hne ((hentry i h hlen).1 (hall i h hlen) k hk)
  · by_contra hne
    exact hall i k h hk ⟨hlen, hne⟩

/-- The section has a byte that differs in a bit. -/
theorem exists_diff_iff : (∃ j : Fin 16, ∃ h : j < sec.length,
      diff (spread m (entry j)) (spread v (entry j)) (sec.get ⟨j, h⟩) ≠ 0) ↔
    ∃ i k, sectionByte i < 16 ∧ bit (m i) k = true ∧ BitIs sec i k (· ≠ bit (v i) k) := by
  have hnot := not_congr (@forall_diff_iff sec m v)
  push Not at hnot
  exact hnot

/-- The section has the bytes, and no bit of them differs. -/
theorem forall_diff_and_iff : ((∀ j : Fin 16, ∀ h : j < sec.length,
      diff (spread m (entry j)) (spread v (entry j)) (sec.get ⟨j, h⟩) = 0) ∧
        ∀ j : Fin 16, sec.length ≤ j → spread m (entry j) = 0) ↔
    ∀ i k, sectionByte i < 16 → bit (m i) k = true → BitIs sec i k (· = bit (v i) k) := by
  rw [forall_diff_iff, forall_entry_iff (P := fun j => sec.length ≤ j → _) fun j hzero _ => hzero m]
  refine ⟨fun ⟨hin, hout⟩ i k h hk => ?_, fun hall => ⟨fun i k h hk => ?_, fun i h hlen => ?_⟩⟩
  · by_cases hlen : sectionByte i < sec.length
    · refine ⟨hlen, ?_⟩
      by_contra hne
      exact hin i k h hk ⟨hlen, hne⟩
    · have hzero : m i = 0 := (spread_entryOf m i).symm.trans (hout i h (not_lt.1 hlen))
      rw [hzero, (eq_zero_iff_bit 0).1 rfl k] at hk
      cases hk
  · rintro ⟨_, hne⟩
    exact hne (hall i k h hk).2
  · refine (spread_entryOf m i).trans ((eq_zero_iff_bit _).2 fun k => ?_)
    by_contra hk
    exact not_lt.2 hlen (hall i k h (eq_true_of_ne_false hk)).1

/-! ### The bits that are tested -/

theorem bit_tested_mask (i : Fin 16) (k : Fin 8) : bit (p.tested.mask i) k = true ↔
    sectionByte i < 16 ∧ bit (p.mask i) k = true := by
  by_cases h : sectionByte i < 16
  · simp [SecFilterParams.tested, h]
  · simp [SecFilterParams.tested, h, (eq_zero_iff_bit 0).1 rfl k]

theorem bit_mam (i : Fin 16) (k : Fin 8) : bit (p.mask i &&& ~~~p.mode i) k = true ↔
    bit (p.mask i) k = true ∧ bit (p.mode i) k = false := by
  rw [bit_and, bit_not, Bool.and_eq_true, Bool.not_eq_true']

theorem bit_manm (i : Fin 16) (k : Fin 8) : bit (p.mask i &&& ~~~(~~~p.mode i)) k = true ↔
    bit (p.mask i) k = true ∧ bit (p.mode i) k = true := by
  rw [UInt8.not_not, bit_and, Bool.and_eq_true]

/-- The test passes by the bytes of the section alone. -/
theorem accepts_arrays_iff : Accepts p.arrays sec ↔ Fires p.tested sec := by
  have hequal := @forall_diff_and_iff sec (fun i => p.mask i &&& ~~~p.mode i) p.value
  have hnone := @forall_spread_eq_zero_iff fun i => p.mask i &&& ~~~(~~~p.mode i)
  have hdiffer := @exists_diff_iff sec (fun i => p.mask i &&& ~~~(~~~p.mode i)) p.value
  rw [Accepts, ← and_assoc, fires_iff]
  refine and_congr (hequal.trans ?_) (or_congr (hnone.trans ?_) (hdiffer.trans ?_))
  · simp only [bit_mam, bit_tested_mask, and_imp]
    rfl
  · simp only [← Bool.not_eq_true, bit_manm, bit_tested_mask, not_and, and_imp]
    rfl
  · simp only [bit_manm, bit_tested_mask, and_assoc]
    rfl

/-- The test fails by the bytes of the section alone. -/
theorem rejects_arrays_iff : Rejects p.arrays sec ↔ Refuses p.tested sec := by
  have hdiffer := @exists_diff_iff sec (fun i => p.mask i &&& ~~~p.mode i) p.value
  have hsome := not_congr (@forall_spread_eq_zero_iff fun i => p.mask i &&& ~~~(~~~p.mode i))
  have hequal := @forall_diff_and_iff sec (fun i => p.mask i &&& ~~~(~~~p.mode i)) p.value
  rw [not_forall] at hsome
  refine or_congr (hdiffer.trans ?_) (and_congr (hsome.trans ?_) (hequal.trans ?_))
  · simp only [bit_mam, bit_tested_mask, and_assoc]
    rfl
  · push Not
    simp only [ne_eq, Bool.not_eq_false, bit_manm, bit_tested_mask, and_assoc]
    rfl
  · simp only [bit_manm, bit_tested_mask, and_imp]
    rfl

/-! ## Filters that are set -/

theorem Demux.arrays_attach (d : Demux) (q : Ptr) (f : SecFilter) (malloc : Ptr) :
    ((d.attach .sec q f malloc).filter .sec q).arrays = f.arrays := by
  rw [attach]
  rw [filter_link, filter_setFilter_self]

/-- A filter that is set has the arrays of its parameters. -/
theorem Demux.arrays_of_setParams {d d' : Demux} {q malloc : Ptr} {params : Params .sec}
    (h : d.swdmxSecFilterSetParams q params malloc = .ok (d', true)) :
    (d'.filter .sec q).arrays = params.arrays := by
  rw [swdmxSecFilterSetParams, filterSetParams] at h
  dsimp only at h
  split at h
  · cases h
  split at h
  · cases h
  cases hleave : d.leave .sec q params.pid with
  | error e =>
    rw [hleave] at h
    cases h
  | ok r =>
    rw [hleave, Except.map] at h
    split at h
    · cases h
      exact arrays_attach r.1 q _ malloc
    · cases h
      rw [filter_setFilter_self]
      rfl

/-- What a filter fires for depends on the bytes of the section alone and is what it is set for,
    exactly if the bytes that are tested fire for the sections that all of them fire for, and the
    section refuses them where it is to be refused. -/
theorem sec_filter_fires {d d' : Demux} {q malloc : Ptr} {p : SecFilterParams}
    (hset : d.swdmxSecFilterSetParams q p malloc = .ok (d', true)) {sec : List UInt8}
    (hlen : sec.length ≤ 4099) :
    (∀ data : SecBlock, data.take sec.length = sec →
      (secFilterMatch data (d'.filter .sec q).arrays = true ↔ Fires p sec)) ↔
      if Fires p sec then Fires p.tested sec else Refuses p.tested sec := by
  rw [Demux.arrays_of_setParams hset, ← accepts_arrays_iff, ← rejects_arrays_iff]
  split
  case isTrue hfires =>
    refine ⟨fun h => ?_, fun h data hdata => iff_of_true (h.secFilterMatch hdata) hfires⟩
    by_contra hno
    obtain ⟨data, hdata, hmatch⟩ := exists_not_match_of_not_accepts hlen hno
    exact Bool.eq_false_iff.1 hmatch ((h data hdata).2 hfires)
  case isFalse hfires =>
    refine ⟨fun h => ?_, fun h data hdata => ?_⟩
    · by_contra hno
      obtain ⟨data, hdata, hmatch⟩ := exists_match_of_not_rejects p.arrays_disjoint hlen hno
      exact hfires ((h data hdata).1 hmatch)
    · exact iff_of_false (Bool.eq_false_iff.1 (h.secFilterMatch hdata)) hfires

/-- Parameters for the PID 16 that ask for one byte. -/
def askFor (i : Fin 16) (value : UInt8) : SecFilterParams :=
  ⟨16, 0, Function.update 0 i value, Function.update 0 i 0xff, 0⟩

/-- The filter 1 of a new demux is set. -/
def Demux.blankSet (p : SecFilterParams) : Demux :=
  blank.setFilter .sec 1 ((blank.filter .sec 1).withParams p none)

theorem Demux.setParams_blank (i : Fin 16) (value : UInt8) :
    blank.swdmxSecFilterSetParams 1 (askFor i value) 2 = .ok (blankSet (askFor i value), true) :=
  rfl

/-- A filter for the table id `42` fires for a section with this table id, whatever is after it. -/
theorem sec_filter_fires_tableId : Fires (askFor 0 0x42) [0x42, 0, 0] ∧
    secFilterMatch (afterSec [0x42, 0, 0] 7)
      ((Demux.blankSet (askFor 0 0x42)).filter .sec 1).arrays = true := by
  have hfires : Fires (askFor 0 0x42) [0x42, 0, 0] := by decide +kernel
  have hlen : [(0x42 : UInt8), 0, 0].length ≤ 4099 := by decide
  have hiff := sec_filter_fires (Demux.setParams_blank 0 0x42) hlen
  rw [if_pos hfires] at hiff
  have hmatch := hiff.2 (by decide +kernel) (afterSec [0x42, 0, 0] 7) (take_afterSec 7 (by decide))
  exact ⟨hfires, hmatch.2 hfires⟩

/-- A section of 20 bytes. -/
def zeros : List UInt8 := 0 :: 0 :: 17 :: List.replicate 17 0

/-- The last byte of a filter is not tested; and a byte that a section does not have is taken from
    what the buffer holds after it. -/
theorem sec_filter_fires_wrong : (IsSection zeros ∧ (afterSec zeros 0).take zeros.length = zeros ∧
      secFilterMatch (afterSec zeros 0)
        ((Demux.blankSet (askFor 15 1)).filter .sec 1).arrays = true ∧
      ¬ Fires (askFor 15 1) zeros) ∧ (IsSection [0, 0, 0] ∧
      secFilterMatch (afterSec [0, 0, 0] fun _ => 7)
        ((Demux.blankSet (askFor 1 7)).filter .sec 1).arrays = true ∧
      secFilterMatch (afterSec [0, 0, 0] 0)
        ((Demux.blankSet (askFor 1 7)).filter .sec 1).arrays = false) := by
  refine ⟨⟨⟨by decide, by decide⟩, take_afterSec 0 (by decide), by decide +kernel, fun h => ?_⟩,
    ⟨by decide, by decide⟩, by decide +kernel, by decide +kernel⟩
  have hno : ¬ BitIs zeros 15 0 (· = true) := by
    rintro ⟨hlen, hbit⟩
    revert hlen
    decide
  exact hno (h.equal 15 0 (by decide) (by decide))

end CommonDrivers.Dvb.SwDemux
