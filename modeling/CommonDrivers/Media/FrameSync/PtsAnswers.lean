import CommonDrivers.Media.FrameSync.PtsLists

/-!
# The answers of the PTS server

A lookup that the cache does not answer searches for a candidate (`Candidate`). It answers with the
candidate if that is near enough; if not, the table of audio answers with a value between the
candidate and the record behind it.

* `lookup_again`: the same lookup, whatever was checked in meanwhile, succeeds with the same
  timestamp. Its 64-bit value is the same exactly if the candidate was near enough, or if the cache
  happens to have it: an interpolation does not store it. No answer of the cache has a frame size,
  and that of a pick has no 64-bit value (`lookup_again_differs`).
* `interpolation_monotone`: the values between two records are between theirs and grow with the
  offset exactly if the offsets differ and the timestamps do not wrap around between them, or the
  records are one byte apart (`interpolation_outside`). With a positive threshold the offsets
  differ.
-/

namespace CommonDrivers.FrameSync

open List Option UInt32

variable {type : PtsType} {t t' : PtsTable} {offset ptsMargin : UInt32} {p p2 : ℕ} {thr : ℤ}

/-- The table in which a lookup searches. -/
def searched (type : PtsType) (t : PtsTable) (offset : UInt32) : PtsTable :=
  if type = .video then prune offset t t.validList else t

/-- The search of a lookup, the table that it leaves, and its candidate. -/
structure Candidate (type : PtsType) (t : PtsTable) (offset ptsMargin : UInt32) (t' : PtsTable)
    (p2 : ℕ) : Prop where
  running : t.status = .running
  miss : ¬ (t.lookupCacheValid ∧ offset = t.lookupCacheOffset)
  search : ∃ p q, searchStart (searched type t offset) = some p ∧
    search type offset (threshold t ptsMargin) (searched type t offset) p = (t', some p2, q)

theorem Candidate.lookup (h : Candidate type t offset ptsMargin t' p2) :
    ∃ frameSize, ptsLookupOffsetInlineLocked type t offset ptsMargin =
      some (lookupCandidate type t' offset (threshold t ptsMargin) frameSize p2) := by
  obtain ⟨p, q, hp, hsearch⟩ := h.search
  have hne := ne_nil_of_mem (PtsTable.mem_of_searchStart hp)
  rw [ptsLookupOffsetInlineLocked]
  dsimp only
  rw [if_neg (not_not.2 h.running), if_neg h.miss, ← searched, if_neg hne, hp]
  dsimp only
  rw [hsearch]
  exact ⟨_, rfl⟩

/-! ## Looking up again -/

/-- The cache has the answer for the offset. -/
structure Cached (t : PtsTable) (offset val : UInt32) (us64 : UInt64) : Prop where
  running : t.status = .running
  valid : t.lookupCacheValid
  offset : t.lookupCacheOffset = offset
  val : t.lookupCachePts = val
  us64 : t.lookupCachePtsUs64 = us64

structure Checkin where
  offset : UInt32
  val : UInt32
  us64 : UInt64

/-- The check-ins one after the other. -/
def checkins (type : PtsType) : PtsTable → List Checkin → Option PtsTable
  | t, [] => some t
  | t, c :: cs =>
    (ptsCheckinOffsetInline type t c.offset c.val c.us64).bind fun r => checkins type r.1 cs

/-- The tables differ in their lists only. -/
def SameData (t t' : PtsTable) : Prop :=
  { t with validList := t'.validList, freeList := t'.freeList, ptsSearch := t'.ptsSearch } = t'

theorem SameData.trans {u : PtsTable} (h : SameData t t') (h' : SameData t' u) : SameData t u := by
  rw [SameData] at *
  rw [← h', ← h]

theorem sameData_prune (l : List ℕ) : SameData t (prune offset t l) := by
  induction l generalizing t with
  | nil => rfl
  | cons r next ih =>
    rw [prune]
    split
    · refine SameData.trans ?_ ih
      split <;> rfl
    · rfl

theorem sameData_searchForward (next : List ℕ) :
    SameData t (searchForward type offset t p2 next).1 := by
  induction next generalizing t p2 with
  | nil => rfl
  | cons p next ih =>
    rw [searchForward]
    split
    · rfl
    · refine SameData.trans ?_ ih
      split <;> rfl

theorem sameData_search : SameData t (search type offset thr t p).1 := by
  rw [search]
  split_ifs
  · exact sameData_searchForward _
  · rfl
  · rfl

theorem sameData_searched (t : PtsTable) : SameData t (searched type t offset) := by
  rw [searched]
  split
  · exact sameData_prune _
  · rfl

section

variable {val : UInt32} {us64 : UInt64} {cs : List Checkin}

theorem Cached.checkin (h : Cached t offset val us64) {o v : UInt32} {u : UInt64}
    {r : PtsTable × ℤ} (hr : ptsCheckinOffsetInline type t o v u = some r) :
    Cached r.1 offset val us64 := by
  obtain ⟨a, b, recs, hnoted⟩ := PtsTable.noted_eq type t o v u
  rw [ptsCheckinOffsetInline, if_pos (.inl h.running)] at hr
  split at hr
  · cases hr
  · rw [hnoted] at hr
    cases hr
    exact ⟨rfl, h.valid, h.offset, h.val, h.us64⟩

theorem Cached.checkins (h : Cached t offset val us64) (ht : checkins type t cs = some t') :
    Cached t' offset val us64 := by
  induction cs generalizing t with
  | nil => exact some.inj ht ▸ h
  | cons c cs ih =>
    obtain ⟨r, hr, ht⟩ := Option.bind_eq_some_iff.1 ht
    exact ih (h.checkin hr) ht

theorem Cached.lookup (h : Cached t offset val us64) (ptsMargin : UInt32) :
    ptsLookupOffsetInlineLocked type t offset ptsMargin = some (t, ⟨0, some val, some us64, none⟩) ∧
      ptsPickByOffsetInlineLocked type t offset ptsMargin =
        some (t, ⟨0, some val, none, none⟩) := by
  rw [ptsLookupOffsetInlineLocked, ptsPickByOffsetInlineLocked]
  dsimp only
  rw [if_neg (not_not.2 h.running), if_pos ⟨h.valid, h.offset.symm⟩, h.val, h.us64,
    if_neg (not_not.2 h.running), if_pos ⟨h.valid, h.offset.symm⟩]
  exact ⟨rfl, rfl⟩

end

/-- The lookup succeeds with a record: it is not answered by the cache, and not, as the first one,
    with the first timestamp that was checked in. -/
structure ByRecord (type : PtsType) (t : PtsTable) (offset ptsMargin : UInt32) (t₁ : PtsTable)
    (r : Lookup) : Prop where
  lookup : ptsLookupOffsetInlineLocked type t offset ptsMargin = some (t₁, r)
  ret : r.ret = 0
  miss : ¬ (t.lookupCacheValid ∧ offset = t.lookupCacheOffset)
  first : t₁.firstLookupIsFail → t.firstLookupOk

/-- What the lookup with the record `p2` of the table answers, and what of it is stored: all of a
    record that is near enough, but not the 64-bit value of an interpolation. -/
inductive Stored (type : PtsType) (t : PtsTable) (offset : UInt32) (thr : ℤ) (p2 : ℕ) :
    (val : UInt32) → (us64 stored : UInt64) → Prop
  | found {val : UInt32} {us64 : UInt64} : offsetDiff offset (t.offset p2) < thr →
      Stored type t offset thr p2 val us64 us64
  | interpolated {p : ℕ} {l : List ℕ} : type = .audio → ¬ offsetDiff offset (t.offset p2) < thr →
      t.behind p2 = p :: l →
      Stored type t offset thr p2 (interpolate (t.ptsRecs p2) (t.ptsRecs p) offset)
        ((interpolate (t.ptsRecs p2) (t.ptsRecs p) offset).toUInt64 <<< 32) t.lookupCachePtsUs64

theorem lookupFailed_fail {t₁ : PtsTable} {r : Lookup} {frameSize : Option UInt32}
    (h : lookupFailed t frameSize = (t₁, r)) (hret : r.ret = 0) :
    t.firstLookupOk = false ∧ t₁.firstLookupIsFail = true := by
  rw [lookupFailed] at h
  split at h
  · cases h
    cases hret
  · next hok =>
    cases h
    exact ⟨eq_false_of_ne_true hok, rfl⟩

theorem lookupCandidate_checkout {t₁ : PtsTable} {r : Lookup} {frameSize : Option UInt32}
    (h : lookupCandidate type t offset thr frameSize p2 = (t₁, r)) (hrunning : t.status = .running)
    (hret : r.ret = 0) (hfirst : t₁.firstLookupIsFail → t.firstLookupOk) :
    ∃ val us64 stored, r.val = some val ∧ r.us64 = some us64 ∧ Cached t₁ offset val stored ∧
      Stored type t offset thr p2 val us64 stored := by
  have hfailed : lookupFailed t frameSize ≠ (t₁, r) := by
    intro hfailed
    obtain ⟨hok, hfail⟩ := lookupFailed_fail hfailed hret
    rw [hfirst hfail] at hok
    cases hok
  rw [lookupCandidate] at h
  split at h
  case isTrue hnear =>
    cases h
    exact ⟨_, _, _, rfl, rfl, ⟨hrunning, rfl, rfl, rfl, rfl⟩, .found hnear⟩
  case isFalse hfar =>
    split at h
    · exact absurd h hfailed
    next p l hbehind =>
    dsimp only at h
    split_ifs at h with haudio
    · exact absurd h hfailed
    · cases h
      exact ⟨_, _, _, rfl, rfl, ⟨hrunning, rfl, rfl, rfl, rfl⟩,
        .interpolated (not_not.1 haudio) hfar hbehind⟩
    · cases h
      cases hret

/-- The cache has the 64-bit value that a lookup answers: with audio, the record in front of the
    offset is near enough, or the value of the interpolation is there already. -/
def Keeps (type : PtsType) (t : PtsTable) (offset : UInt32) (thr : ℤ) : Prop :=
  type = .audio → ∀ p2 p l, t.front offset = p2 :: p :: l →
    offsetDiff offset (t.offset p2) < thr ∨
      t.lookupCachePtsUs64 =
        (interpolate (t.ptsRecs p2) (t.ptsRecs p) offset).toUInt64 <<< 32

theorem Stored.eq_iff {val : UInt32} {us64 stored : UInt64} {l : List ℕ}
    (h : Stored type t' offset thr p2 val us64 stored) (hsame : SameData t t')
    (hfront : type = .audio → t'.validList = p2 :: l ∧ t.front offset = p2 :: l) :
    stored = us64 ↔ Keeps type t offset thr := by
  have hrecs : t'.ptsRecs = t.ptsRecs := by rw [← hsame]
  have hcache : t'.lookupCachePtsUs64 = t.lookupCachePtsUs64 := by rw [← hsame]
  cases h with
  | found hnear =>
    refine iff_of_true rfl fun haudio q p l' heq => .inl ?_
    rw [(hfront haudio).2, cons.injEq] at heq
    rw [← heq.1, PtsTable.offset, ← hrecs]
    exact hnear
  | @interpolated p l' haudio hfar hbehind =>
    obtain ⟨hvalid, heq⟩ := hfront haudio
    rw [PtsTable.behind_head hvalid] at hbehind
    rw [PtsTable.offset] at hfar
    rw [hrecs] at hfar ⊢
    rw [hbehind] at heq
    rw [hcache]
    refine ⟨fun hstored _ q p₁ l₁ heq' => .inr ?_, fun hkeeps => ?_⟩
    · rw [heq, cons.injEq, cons.injEq] at heq'
      rw [hstored, heq'.1, heq'.2.1]
    · exact (hkeeps haudio p2 p l' heq).resolve_left hfar

theorem ByRecord.cached {t₁ : PtsTable} {r : Lookup} (h : ByRecord type t offset ptsMargin t₁ r)
    (hinv : t.Inv type) : ∃ val us64 stored, r.val = some val ∧ r.us64 = some us64 ∧
      Cached t₁ offset val stored ∧
      (stored = us64 ↔ Keeps type t offset (threshold t ptsMargin)) := by
  have hlookup := h.lookup
  have hfail : ∀ u : PtsTable, some (u, Lookup.fail) ≠ some (t₁, r) := by
    intro u heq
    cases heq
    cases h.ret
  rw [ptsLookupOffsetInlineLocked] at hlookup
  dsimp only at hlookup
  by_cases hrunning : t.status = .running
  case neg =>
    rw [if_pos hrunning] at hlookup
    exact absurd hlookup (hfail t)
  -- the lookup goes on to the search
  rw [if_neg (not_not.2 hrunning), if_neg h.miss, ← searched] at hlookup
  split at hlookup
  · exact absurd hlookup (hfail _)
  split at hlookup
  · cases hlookup
  next p hp =>
  have hfound := (hinv.pruned (.inl hrunning) offset).1.search
    (hinv.pruned (.inl hrunning) offset).2 hp offset (threshold t ptsMargin)
  rw [← searched] at hfound
  have hsame : SameData t
      (search type offset (threshold t ptsMargin) (searched type t offset) p).1 :=
    (sameData_searched t).trans sameData_search
  generalize hsearch : search type offset (threshold t ptsMargin) (searched type t offset) p = found
    at hlookup hfound hsame
  obtain ⟨t', p2, q⟩ := found
  dsimp only at hsame
  have hfirst : t₁.firstLookupIsFail → t'.firstLookupOk := by
    rw [← hsame]
    exact h.first
  cases p2 with
  | none =>
    obtain ⟨hok, hfail⟩ := lookupFailed_fail (some.inj hlookup) h.ret
    rw [hfirst hfail] at hok
    cases hok
  | some p2 =>
    have hstatus : t'.status = .running := by
      rw [← hsame]
      exact hrunning
    obtain ⟨val, us64, stored, hval, hus64, hcached, hstored⟩ :=
      lookupCandidate_checkout (some.inj hlookup) hstatus h.ret hfirst
    refine ⟨val, us64, stored, hval, hus64, hcached,
      hstored.eq_iff (l := t'.validList.tail) hsame ?_⟩
    -- the search has stopped at the first record
    rintro rfl
    obtain ⟨rest, hvalid, hfront, -⟩ := hfound.first rfl p2 rfl
    dsimp only at hvalid
    rw [hvalid, tail_cons]
    exact ⟨rfl, hfront⟩

/-- Looking up the offset again succeeds with the same timestamp, and so does picking it. The 64-bit
    value of the lookup is the same exactly if it is `Keeps`. The pick has none, and neither has a
    frame size. -/
theorem lookup_again {t₁ : PtsTable} {r : Lookup} (hinv : t.Inv type)
    (h : ByRecord type t offset ptsMargin t₁ r) {cs : List Checkin} {t₂ : PtsTable}
    (ht₂ : checkins type t₁ cs = some t₂) (ptsMargin' : UInt32) :
    ∃ r' q, ptsLookupOffsetInlineLocked type t₂ offset ptsMargin' = some (t₂, r') ∧ r'.ret = 0 ∧
      ptsPickByOffsetInlineLocked type t₂ offset ptsMargin' = some (t₂, q) ∧ q.ret = 0 ∧
      r.val.isSome ∧ r'.val = r.val ∧ q.val = r.val ∧ r.us64.isSome ∧
      (r'.us64 = r.us64 ↔ Keeps type t offset (threshold t ptsMargin)) ∧ q.us64 = none ∧
      r'.frameSize = none ∧ q.frameSize = none := by
  obtain ⟨val, us64, stored, hval, hus64, hcached, hstored⟩ := h.cached hinv
  obtain ⟨hagain, hpick⟩ := (hcached.checkins ht₂).lookup ptsMargin'
  refine ⟨_, _, hagain, rfl, hpick, rfl, ?_, hval.symm, hval.symm, ?_, ?_, rfl, rfl, rfl⟩
  · rw [hval]
    rfl
  · rw [hus64]
    rfl
  · rw [hus64, some_inj, hstored]

/-- A table with these records. -/
def tableOf (lookupThreshold : ℤ) (recs : List PtsRec) : PtsTable :=
  { PtsTable.unused 102 lookupThreshold with
    status := .running
    recCount := 102
    ptsRecs := fun r => recs.getD r ⟨0, 0, 0, 0⟩
    ptsSearch := .head
    validList := List.range recs.length
    freeList := (List.range 102).drop recs.length }

def threeRecords : PtsTable :=
  tableOf 1024 [⟨0, 9, 7, 100⟩, ⟨100, 18, 7, 200⟩, ⟨10000, 900, 7, 10000⟩]

theorem inv_threeRecords : threeRecords.Inv .audio :=
  ⟨by decide +kernel, fun _ => by decide, fun _ => .inl rfl, fun _ _ => rfl, by decide⟩

/-- A record that is found, a check-in, and the next lookup. -/
theorem lookup_again_threeRecords :
    ∃ t₁ r t₂ r', ptsLookupOffsetInlineLocked .audio threeRecords 200 0 = some (t₁, r) ∧
      checkins .audio t₁ [⟨20000, 1800, 20000⟩] = some t₂ ∧
      ptsLookupOffsetInlineLocked .audio t₂ 200 500 = some (t₂, r') ∧
      r.val = some 18 ∧ r'.val = some 18 ∧ r.us64 = some 200 ∧ r'.us64 = some 200 := by
  have hby : ∃ t₁ r t₂, ByRecord .audio threeRecords 200 0 t₁ r ∧
      checkins .audio t₁ [⟨20000, 1800, 20000⟩] = some t₂ ∧ r.val = some 18 ∧ r.us64 = some 200 :=
    ⟨_, _, _, ⟨rfl, rfl, by decide, by decide⟩, rfl, rfl, rfl⟩
  obtain ⟨t₁, r, t₂, h, hcheckin, hval, hus64⟩ := hby
  obtain ⟨r', -, hlookup, -, -, -, -, hval', -, -, hus64', -⟩ :=
    lookup_again inv_threeRecords h hcheckin 500
  have hkeeps : Keeps .audio threeRecords 200 (threshold threeRecords 0) := by
    rintro - p2 p l heq
    have hp2 : p2 = 1 := (cons.inj heq).1.symm
    exact .inl (hp2 ▸ by decide)
  exact ⟨t₁, r, t₂, r', h.lookup, hcheckin, hlookup, hval, hval'.trans hval, hus64,
    (hus64'.2 hkeeps).trans hus64⟩

/-- A lookup that interpolates, and the next one. -/
theorem lookup_again_differs :
    ((ptsLookupOffsetInlineLocked .audio threeRecords 5000 0).bind fun (t, r) =>
      (ptsLookupOffsetInlineLocked .audio t 5000 0).map fun (_, r') =>
        ((r.ret, r.us64, r.frameSize), (r'.ret, r'.us64, r'.frameSize))) =
      some ((0, some (454 * 2 ^ 32), some 7), (0, some 0, none)) := by
  decide +kernel

/-! ## Interpolating -/

/-- The part between an offset and one before it is smaller than that to one ahead of it. -/
theorem sub_lt_sub_of_ahead {x y o : UInt32} (hpos : 0 < offsetDiff o x)
    (hneg : offsetDiff o y < 0) : o - x < y - x := by
  have hx := x.toNat_lt
  have hy := y.toNat_lt
  have ho := o.toNat_lt
  rw [offsetDiff, i32, UInt32.toNat_sub] at hpos hneg
  rw [lt_iff_toNat_lt, UInt32.toNat_sub, UInt32.toNat_sub]
  split at hpos <;> split at hneg <;> omega

/-- The value is that of the candidate and a part of what is between the records. -/
theorem interpolate_sub {x y : PtsRec} (hval : x.val ≤ y.val) :
    (interpolate x y offset - x.val).toNat =
      (y.val - x.val).toNat * (offset - x.offset).toNat / (y.offset - x.offset).toNat % 2 ^ 32 := by
  have hle : x.val.toUInt64 ≤ y.val.toUInt64 := by
    rwa [UInt64.le_iff_toNat_le, toNat_toUInt64, toNat_toUInt64]
  have hlt : (y.val - x.val).toNat * (offset - x.offset).toNat < 2 ^ 64 :=
    (Nat.mul_lt_mul'' (y.val - x.val).toNat_lt (offset - x.offset).toNat_lt).trans_eq (by norm_num)
  rw [interpolate, UInt32.add_sub_cancel, UInt64.toNat_toUInt32, UInt64.toNat_div, UInt64.toNat_mul,
    UInt64.toNat_sub_of_le _ _ hle, toNat_toUInt64, toNat_toUInt64,
    toNat_toUInt64, toNat_toUInt64, ← UInt32.toNat_sub_of_le _ _ hval, Nat.mod_eq_of_lt hlt]

/-- All values between two records are between theirs, and grow with the offset. -/
def Between (x y : PtsRec) : Prop :=
  ∀ o o', o - x.offset ≤ o' - x.offset → o' - x.offset ≤ y.offset - x.offset →
    interpolate x y o - x.val ≤ interpolate x y o' - x.val ∧
      interpolate x y o' - x.val ≤ y.val - x.val

theorem monotone_of_le {x y : PtsRec} (hval : x.val ≤ y.val) : Between x y := by
  intro o o' ho ho'
  have hbound := (y.val - x.val).toNat_lt
  -- no part of what is between the records is more than all of it
  have hpart : ∀ o, o - x.offset ≤ y.offset - x.offset → (interpolate x y o - x.val).toNat =
      (y.val - x.val).toNat * (o - x.offset).toNat / (y.offset - x.offset).toNat ∧
      (interpolate x y o - x.val).toNat ≤ (y.val - x.val).toNat := by
    intro o ho
    have hle : (y.val - x.val).toNat * (o - x.offset).toNat / (y.offset - x.offset).toNat ≤
        (y.val - x.val).toNat :=
      Nat.div_le_of_le_mul ((Nat.mul_le_mul_left _ ho).trans_eq (Nat.mul_comm _ _))
    rw [interpolate_sub hval, Nat.mod_eq_of_lt (hle.trans_lt hbound)]
    exact ⟨rfl, hle⟩
  refine ⟨?_, (hpart o' ho').2⟩
  rw [le_iff_toNat_le, (hpart o (UInt32.le_trans ho ho')).1, (hpart o' ho').1]
  exact Nat.div_le_div_right (Nat.mul_le_mul_left _ ho)

theorem monotone_of_one {x y : PtsRec} (hone : y.offset - x.offset = 1) : Between x y := by
  intro o o' ho ho'
  have hpart : ∀ o, interpolate x y o - x.val = (y.val - x.val) * (o - x.offset) := by
    intro o
    rw [interpolate, hone, UInt32.add_sub_cancel]
    change ((y.val.toUInt64 - x.val.toUInt64) * (o - x.offset).toUInt64 / 1).toUInt32 = _
    rw [UInt64.div_one, UInt64.toUInt32_mul, UInt64.toUInt32_sub, toUInt32_toUInt64,
      toUInt32_toUInt64, toUInt32_toUInt64]
  rw [hone] at ho'
  have hcases : ∀ k : UInt32, k ≤ 1 → k = 0 ∨ k = 1 := by
    intro k hk
    rw [← UInt32.toNat_inj, ← UInt32.toNat_inj]
    exact Nat.le_one_iff_eq_zero_or_eq_one.1 hk
  rw [hpart, hpart]
  rcases hcases _ ho' with hk' | hk'
  · rw [hk'] at ho ⊢
    rw [UInt32.le_zero_iff.1 ho, UInt32.mul_zero]
    exact ⟨UInt32.le_rfl, UInt32.zero_le⟩
  · rw [hk', UInt32.mul_one]
    refine ⟨?_, UInt32.le_rfl⟩
    rcases hcases _ (UInt32.le_trans ho ho') with hk | hk
    · rw [hk, UInt32.mul_zero]
      exact UInt32.zero_le
    · rw [hk, UInt32.mul_one]
      exact UInt32.le_rfl

theorem sub_mul_mod {w k : ℕ} (hw : 0 < w) (hw' : w < 2 ^ 32) (hk : 0 < k) (hk' : k < 2 ^ 32) :
    (2 ^ 64 - w) * k % 2 ^ 64 = 2 ^ 64 - w * k := by
  have hlt : w * k < 2 ^ 64 := (Nat.mul_lt_mul'' hw' hk').trans_eq (by norm_num)
  have hpos := Nat.mul_pos hw hk
  obtain ⟨k, rfl⟩ := Nat.exists_eq_add_of_lt hk
  rw [Nat.zero_add] at *
  have heq : (2 ^ 64 - w) * (k + 1) = 2 ^ 64 - w * (k + 1) + 2 ^ 64 * k := by
    rw [Nat.sub_mul]
    omega
  rw [heq, Nat.add_mul_mod_self_left, Nat.mod_eq_of_lt (Nat.sub_lt (by norm_num) hpos)]

/-- The second value is less than the first one, if not by more than what a word has. -/
theorem wrap_first {w n d : ℕ} (hw : w + d = 2 ^ 32) (hd : d < 90000) (hn : 2 ≤ n) (hle : n ≤ w)
    (h : (2 ^ 64 - w) / n % 2 ^ 32 ≤ (2 ^ 64 - w * 2) / n % 2 ^ 32) :
    d < (2 ^ 64 - w * 2) / n % 2 ^ 32 := by
  have hsplit : 2 ^ 64 - w = 2 ^ 64 - w * 2 + w := by omega
  have hpos : 1 ≤ w / n := Nat.div_pos hle (by omega)
  have hhalf : w / n ≤ w / 2 := Nat.div_le_div_left hn (by omega)
  rw [hsplit, Nat.add_div (by omega)] at h
  generalize (2 ^ 64 - w * 2) / n = q at h ⊢
  generalize w / n = s at hpos hhalf h
  split at h <;> omega

/-- The last value, where the records are further apart than the timestamps. -/
theorem wrap_last {w n d : ℕ} (hw : w + d = 2 ^ 32) (hd : d < 90000) (hlt : w < n)
    (hn : n < 2 ^ 32) : d < (2 ^ 64 - w * n) / n % 2 ^ 32 := by
  obtain ⟨e, he⟩ : ∃ e, n + e = 2 ^ 32 := ⟨2 ^ 32 - n, by omega⟩
  have hnum : 2 ^ 64 - w * n = e * e + (d + e) * n := by
    refine Nat.sub_eq_of_eq_add ?_
    calc
      2 ^ 64 = (n + e) * (n + e) := by rw [he]; norm_num
      _ = (n + e) * n + (n + e) * e := Nat.mul_add _ _ _
      _ = (w + d) * n + (n + e) * e := by rw [he, hw]
      _ = e * e + (d + e) * n + w * n := by ring
  have hsq : e * e ≤ 90000 * 90000 := Nat.mul_le_mul (by omega) (by omega)
  have hle : e * e / n ≤ 2 := Nat.div_le_of_le_mul (hsq.trans (by omega))
  rw [hnum, Nat.add_mul_div_right _ _ (by omega)]
  generalize e * e / n = q at hle
  omega

/-- Where the timestamps wrap around, the value is what is left of `2 ^ 64`. -/
theorem interpolate_sub_wrap {x y : PtsRec} (hval : y.val < x.val) (ho : offset - x.offset ≠ 0) :
    (interpolate x y offset - x.val).toNat =
      (2 ^ 64 - (x.val - y.val).toNat * (offset - x.offset).toNat) / (y.offset - x.offset).toNat %
        2 ^ 32 := by
  have hw : 0 < (x.val - y.val).toNat := by
    rw [UInt32.toNat_sub_of_le _ _ (UInt32.le_of_lt hval)]
    exact Nat.sub_pos_of_lt hval
  have hk : 0 < (offset - x.offset).toNat :=
    Nat.pos_of_ne_zero fun hzero => ho (UInt32.toNat_inj.1 hzero)
  have hdiff : (y.val.toUInt64 - x.val.toUInt64).toNat = 2 ^ 64 - (x.val - y.val).toNat := by
    rw [UInt64.toNat_sub, toNat_toUInt64, toNat_toUInt64,
      UInt32.toNat_sub_of_le _ _ (UInt32.le_of_lt hval)]
    have := x.val.toNat_lt
    have hlt : y.val.toNat < x.val.toNat := hval
    omega
  have hmul : (2 ^ 64 - (x.val - y.val).toNat) * (offset - x.offset).toNat % 2 ^ 64 =
      2 ^ 64 - (x.val - y.val).toNat * (offset - x.offset).toNat :=
    sub_mul_mod hw (x.val - y.val).toNat_lt hk (offset - x.offset).toNat_lt
  rw [interpolate, UInt32.add_sub_cancel, UInt64.toNat_toUInt32, UInt64.toNat_div, UInt64.toNat_mul,
    hdiff, toNat_toUInt64, toNat_toUInt64, hmul]

theorem not_between_of_wrap {x y : PtsRec} (hval : y.val < x.val)
    (hnear : 0 ≤ offsetDiff y.val x.val ∧ offsetDiff y.val x.val < interpolateAudioResolution)
    (hzero : y.offset - x.offset ≠ 0) (hone : y.offset - x.offset ≠ 1) : ¬ Between x y := by
  intro h
  have hn := (y.offset - x.offset).toNat_lt
  have hn' : 2 ≤ (y.offset - x.offset).toNat := by
    rw [← UInt32.toNat_inj.ne] at hzero hone
    exact (Nat.two_le_iff _).2 ⟨hzero, hone⟩
  have hd : (y.val - x.val).toNat < 90000 := by
    obtain ⟨hpos, hlt⟩ := hnear
    rw [offsetDiff, i32] at hpos hlt
    have hlen : interpolateAudioResolution = 90000 := rfl
    have := (y.val - x.val).toNat_lt
    split at hlt <;> omega
  have hw : (x.val - y.val).toNat + (y.val - x.val).toNat = 2 ^ 32 := by
    have hlt : y.val.toNat < x.val.toNat := hval
    have := x.val.toNat_lt
    rw [UInt32.toNat_sub, UInt32.toNat_sub]
    omega
  rcases Nat.lt_or_ge (x.val - y.val).toNat (y.offset - x.offset).toNat with hlt | hle
  · have hlast := (h y.offset y.offset UInt32.le_rfl UInt32.le_rfl).2
    rw [le_iff_toNat_le, interpolate_sub_wrap hval hzero] at hlast
    exact Nat.not_lt.2 hlast (wrap_last hw hd hlt hn)
  · have hsub : ∀ k, x.offset + k - x.offset = k := fun k => by
      rw [UInt32.add_comm, UInt32.add_sub_cancel]
    have hfirst : (interpolate x y (x.offset + 1) - x.val).toNat = (2 ^ 64 -
        (x.val - y.val).toNat) / (y.offset - x.offset).toNat % 2 ^ 32 := by
      rw [interpolate_sub_wrap hval, hsub, toNat_one, Nat.mul_one]
      rw [hsub]
      decide
    have hsecond : (interpolate x y (x.offset + 2) - x.val).toNat = (2 ^ 64 -
        (x.val - y.val).toNat * 2) / (y.offset - x.offset).toNat % 2 ^ 32 := by
      rw [interpolate_sub_wrap hval, hsub]
      · rfl
      rw [hsub]
      decide
    have hvalues := h (x.offset + 1) (x.offset + 2)
    rw [hsub, hsub] at hvalues
    obtain ⟨hmono, hbound⟩ := hvalues (by decide) hn'
    rw [le_iff_toNat_le, hsecond] at hmono hbound
    rw [hfirst] at hmono
    exact Nat.not_lt.2 hbound (wrap_first hw hd hn' hle hmono)

/-- The lookup interpolates between two records, from the table that the search leaves. -/
structure Interpolates (t : PtsTable) (offset ptsMargin : UInt32) (t' : PtsTable) (p2 p : ℕ) :
    Prop extends Candidate .audio t offset ptsMargin t' p2 where
  far : threshold t ptsMargin ≤ offsetDiff offset (t'.offset p2)
  behind : (t'.behind p2).head? = some p
  near : 0 ≤ offsetDiff (t'.ptsRecs p).val (t'.ptsRecs p2).val ∧
    offsetDiff (t'.ptsRecs p).val (t'.ptsRecs p2).val < interpolateAudioResolution

section

variable (h : Interpolates t offset ptsMargin t' p2 p)
include h

theorem Interpolates.answer :
    ∃ t₁ r, ptsLookupOffsetInlineLocked .audio t offset ptsMargin = some (t₁, r) ∧ r.ret = 0 ∧
      r.val = some (interpolate (t'.ptsRecs p2) (t'.ptsRecs p) offset) := by
  obtain ⟨frameSize, hlookup⟩ := h.lookup
  obtain ⟨rest, hbehind⟩ := head?_eq_some_iff.1 h.behind
  rw [hlookup, lookupCandidate, if_neg h.far.not_gt, hbehind]
  dsimp only
  rw [if_neg (not_not.2 rfl), if_pos h.near.symm]
  exact ⟨_, _, rfl, rfl, rfl⟩

/-- The offset is between the two records. -/
theorem Interpolates.between (hinv : t.Inv .audio) (hthr : 0 < threshold t ptsMargin) :
    offset - t'.offset p2 < t'.offset p - t'.offset p2 := by
  obtain ⟨p', q, hp', hsearch⟩ := h.search
  rw [searched, if_neg (by decide)] at hp' hsearch
  have hfound := hinv.search (.inl h.running) hp' offset (threshold t ptsMargin)
  rw [hsearch] at hfound
  obtain ⟨rest, hrest, -, hahead⟩ := hfound.first rfl p2 rfl
  have hoff : t'.offset = t.offset :=
    funext fun r => congrArg (fun f => (f r).offset) (hfound.recs rfl)
  have hpos := hthr.trans_le h.far
  have hp := h.behind
  rw [PtsTable.behind_head hrest] at hp
  rw [hoff] at hpos ⊢
  exact sub_lt_sub_of_ahead hpos (hahead hpos p hp)

/-- A lookup between two records does not divide by 0, its value is between theirs, and it grows
    with the offset, exactly under this condition. A positive threshold is enough for the first
    part. -/
theorem interpolation_monotone :
    (((t'.ptsRecs p).offset - (t'.ptsRecs p2).offset ≠ 0 ∧
      (∃ t₁ r, ptsLookupOffsetInlineLocked .audio t offset ptsMargin = some (t₁, r) ∧ r.ret = 0 ∧
        r.val = some (interpolate (t'.ptsRecs p2) (t'.ptsRecs p) offset)) ∧
      Between (t'.ptsRecs p2) (t'.ptsRecs p)) ↔
      (t'.ptsRecs p2).offset ≠ (t'.ptsRecs p).offset ∧
        ((t'.ptsRecs p2).val ≤ (t'.ptsRecs p).val ∨
          (t'.ptsRecs p).offset - (t'.ptsRecs p2).offset = 1)) ∧
    (t.Inv .audio → 0 < threshold t ptsMargin →
      (t'.ptsRecs p2).offset ≠ (t'.ptsRecs p).offset ∧
        offset - (t'.ptsRecs p2).offset ≤ (t'.ptsRecs p).offset - (t'.ptsRecs p2).offset) := by
  have hdiff : (t'.ptsRecs p).offset - (t'.ptsRecs p2).offset = 0 ↔
      (t'.ptsRecs p2).offset = (t'.ptsRecs p).offset := by
    rw [UInt32.sub_eq_iff_eq_add, UInt32.zero_add, eq_comm]
  refine ⟨⟨?_, ?_⟩, fun hinv hthr => ?_⟩
  · rintro ⟨hzero, -, hmono⟩
    refine ⟨hzero ∘ hdiff.2, ?_⟩
    by_contra hcond
    obtain ⟨hwrap, hone⟩ := not_or.1 hcond
    exact not_between_of_wrap (UInt32.not_le.1 hwrap) h.near hzero hone hmono
  · rintro ⟨hne, hval | hone⟩
    · exact ⟨hne ∘ hdiff.1, h.answer, monotone_of_le hval⟩
    · exact ⟨hne ∘ hdiff.1, h.answer, monotone_of_one hone⟩
  · have hlt := h.between hinv hthr
    refine ⟨fun heq => ?_, UInt32.le_of_lt hlt⟩
    rw [PtsTable.offset, PtsTable.offset, hdiff.2 heq] at hlt
    exact Nat.not_lt_zero _ hlt

end

theorem interpolation_threeRecords :
    Between ⟨100, 18, 7, 200⟩ ⟨10000, 900, 7, 10000⟩ ∧ (5000 : UInt32) - 100 ≤ 10000 - 100 ∧
    ∃ t₁ r, ptsLookupOffsetInlineLocked .audio threeRecords 5000 0 = some (t₁, r) ∧ r.ret = 0 ∧
      r.val = some 454 := by
  have h : Interpolates threeRecords 5000 0 (threeRecords.moveTailFree 0) 1 2 :=
    ⟨⟨rfl, by decide, 0, some 2, rfl, rfl⟩, by decide, rfl, by decide⟩
  obtain ⟨-, hanswer, hbetween⟩ :=
    (interpolation_monotone h).1.2 ⟨by decide, .inl (by decide)⟩
  exact ⟨hbetween, ((interpolation_monotone h).2 inv_threeRecords (by decide)).2, hanswer⟩

/-- A lookup between two records of the same offset divides by 0, and one between two records where
    the timestamps wrap around gives a value that is not between theirs. -/
theorem interpolation_outside : (let t := tableOf 0 [⟨100, 18, 7, 200⟩, ⟨100, 900, 7, 10000⟩]
    Interpolates t 100 0 t 0 1 ∧ t.offset 1 - t.offset 0 = 0) ∧ (ptsLookupOffsetInlineLocked .audio
      (tableOf 1024 [⟨0, 0xffffff00, 7, 200⟩, ⟨10000, 0x100, 7, 10000⟩]) 5000 0).map (·.2.val) =
      some (some 0x3ac710cb) := by
  refine ⟨⟨⟨⟨rfl, by decide, 0, some 0, rfl, rfl⟩, by decide, rfl, by decide⟩, rfl⟩, ?_⟩
  decide +kernel

end CommonDrivers.FrameSync
