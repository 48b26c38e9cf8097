import CommonDrivers.Lib.Word

/-!
# The segments of the secure pool

`codec_mm_tvp_segment_init` plans four segments of the codec memory, less 2 MB, one after the other:
a size that is configured, or a part of the memory. What is configured for one of them may be more
than the segments before it leave, and then the rest wraps around (`segments_wrap`).

`segments_fit`: no subtraction wraps around and the segments have room in the memory together,
exactly if nothing is planned, or the configured sizes are taken back, or they fit behind one
another. `codec_mm_calc_init_pool_count`, which cuts the first of them into small ones, keeps that.
-/

namespace CommonDrivers.Media.CodecMm

open List

/-- `SZ_1M`. -/
def sz1M : ℕ := 1024 * 1024

/-- `DEFAULT_TVP_SEGMENT_MIN_SIZE`. -/
def segmentMinSize : ℕ := 16 * sz1M

/-- The settings of the secure pool (`default_tvp_*`, `tvp_dynamic_*`). -/
structure Tvp where
  secureMemCtrl : Bool
  increaseDisable : Bool
  size4k : ℕ
  size : ℕ
  allocMaxSize : ℕ
  poolSize0 : ℕ
  poolSize1 : ℕ
  poolSize2 : ℕ
  poolSegmentSize : List ℕ
  forceSmallSegment : Bool
  forceSmallSegmentSize : ℕ

/-- `r -= b` on a `u32`, and whether a subtraction has wrapped around. -/
def minus (r : ℕ × Bool) (b : ℕ) : ℕ × Bool := (u32 (r.1 - b), r.2 || r.1 < b)

/-- The size of the segment 1 or 2, behind `used` bytes of the others. -/
def nextSegment (size used conf : ℕ) : ℕ × Bool :=
  if segmentMinSize ≤ conf then (conf, false)
  else
    let rest := minus (size, false) used
    (if size / 4 < rest.1 then size / 4 else rest.1, rest.2)

namespace Tvp

/-- The configured sizes, without those that are too much at once. -/
def checkPools (t : Tvp) : Tvp :=
  let t := if t.size < t.poolSize0 then
    { t with poolSize0 := t.size, poolSize1 := 0, poolSize2 := 0 } else t
  if t.size < u32 (t.poolSize0 + t.poolSize1 + t.poolSize2) then
    { t with poolSize0 := 0, poolSize1 := 0, poolSize2 := 0 }
  else t

def firstSegment (t : Tvp) : ℕ := if segmentMinSize ≤ t.poolSize0 then t.poolSize0 else t.size / 3

def planSegments (t : Tvp) : Tvp × Bool :=
  let s₀ := t.firstSegment
  let s₁ := nextSegment t.size s₀ t.poolSize1
  let s₂ := nextSegment t.size (u32 (s₀ + s₁.1)) t.poolSize2
  let used := u32 (u32 (s₀ + s₁.1) + s₂.1)
  let rest := minus (t.size, s₁.2 || s₂.2) used
  let s₃ := if segmentMinSize ≤ rest.1 then rest.1 else 0
  let size := u32 (used + s₃)
  ({ t with poolSegmentSize := [s₀, s₁.1, s₂.1, s₃], size4k := size, size, allocMaxSize := size },
    rest.2)

/-- `codec_mm_tvp_segment_init`, and whether a subtraction has wrapped around. -/
def segmentInit (t : Tvp) (total : ℤ) : Tvp × Bool :=
  let size := u32 (total - 2 * sz1M)
  if t.secureMemCtrl then (t, false)
  else if t.increaseDisable then
    let size4k := if t.size4k = 0 ∨ 0 < t.allocMaxSize ∧ t.allocMaxSize ≤ t.size4k then
      min size (236 * sz1M) else t.size4k
    ({ t with size4k, size := if 160 * sz1M < total - 2 * sz1M then 160 * sz1M else size4k }, false)
  else planSegments (checkPools { t with size4k := size, size })

/-- `segment_size` and `need_pool_count` of `codec_mm_calc_init_pool_count`. -/
def smallSegments (size small : ℕ) : List ℕ :=
  replicate (size / small) small ++ if size % small < segmentMinSize then [] else [size % small]

/-- `codec_mm_calc_init_pool_count` with no slot in the pool, and whether a subtraction has wrapped
    around. -/
def calcInitPoolCount (t : Tvp) (total : ℤ) : ℕ × Tvp × Bool :=
  if t.forceSmallSegment then
    let small := if t.forceSmallSegmentSize = 0 then 50 * sz1M else t.forceSmallSegmentSize
    let t := { t with forceSmallSegmentSize := small }
    let parts := smallSegments (t.poolSegmentSize.headD 0) small
    if parts.length ≤ 4 then
      let segments := parts.take 3 ++ (t.poolSegmentSize.take 3).drop parts.length
      let last := segments.foldl minus (u32 (total - 2 * sz1M), false)
      (min parts.length 3, { t with poolSegmentSize := segments ++ [last.1] }, last.2)
    else (1, t, false)
  else (1, t, false)

/-- The configured sizes of at least 16 MB fit behind the segments before them. -/
def Fit (t : Tvp) : Prop := t.firstSegment ≤ t.size ∧
  (segmentMinSize ≤ t.poolSize1 → t.firstSegment + t.poolSize1 ≤ t.size) ∧
  (segmentMinSize ≤ t.poolSize2 → t.firstSegment + t.poolSize2 +
    (if segmentMinSize ≤ t.poolSize1 then t.poolSize1
      else min (t.size / 4) (t.size - t.firstSegment)) ≤ t.size)

end Tvp

section

variable {size used conf : ℕ} (hsize : size < 2 ^ 32)
include hsize

theorem minus_of_le (h : used ≤ size) (wraps : Bool) :
    minus (size, wraps) used = (size - used, wraps) := by
  rw [minus, ← Nat.cast_sub h, u32_natCast (by omega), decide_eq_false (by simpa using h),
    Bool.or_false]

theorem foldl_minus {l : List ℕ} (h : l.sum ≤ size) :
    l.foldl minus (size, false) = (size - l.sum, false) := by
  induction l generalizing size with
  | nil => rfl
  | cons a l ih =>
    rw [sum_cons] at h
    rw [foldl_cons, minus_of_le hsize (by omega), ih (by omega) (by omega), sum_cons, Nat.sub_sub]

theorem nextSegment_of_le (h : used ≤ size) : nextSegment size used conf =
    (if segmentMinSize ≤ conf then conf else min (size / 4) (size - used), false) := by
  rw [nextSegment, minus_of_le hsize h]
  split
  · rfl
  · dsimp only
    rw [min_def]
    congr 1
    split <;> split <;> omega

end

namespace Tvp

variable {t : Tvp} {size : ℕ}

/-- The segments have room in the memory, and no subtraction has wrapped around. -/
def Planned (size : ℕ) (p : Tvp × Bool) : Prop :=
  p.2 = false ∧ p.1.poolSegmentSize.length = 4 ∧ p.1.poolSegmentSize.sum ≤ size

theorem Fit.planSegments (h : t.Fit) (hsize : t.size < 2 ^ 32) : Planned t.size t.planSegments := by
  obtain ⟨h₀, h₁, h₂⟩ := h
  rw [Tvp.planSegments, nextSegment_of_le hsize h₀]
  set s₁ := if segmentMinSize ≤ t.poolSize1 then t.poolSize1 else _ with hs₁
  have hle₁ : t.firstSegment + s₁ ≤ t.size := by
    rw [hs₁]
    split
    · next hmin => exact h₁ hmin
    · omega
  have hused₁ : u32 (t.firstSegment + s₁) = t.firstSegment + s₁ := u32_natCast (by omega)
  dsimp only
  rw [hused₁, nextSegment_of_le hsize hle₁]
  set s₂ := if segmentMinSize ≤ t.poolSize2 then t.poolSize2 else _ with hs₂
  have hle₂ : t.firstSegment + s₁ + s₂ ≤ t.size := by
    rw [hs₂]
    split
    · next hmin =>
      have := h₂ hmin
      omega
    · omega
  have hused₂ : u32 (↑(t.firstSegment + s₁) + s₂) = t.firstSegment + s₁ + s₂ :=
    u32_natCast (by omega)
  dsimp only
  rw [hused₂, Bool.or_false, minus_of_le hsize hle₂]
  refine ⟨rfl, rfl, ?_⟩
  simp only [sum_cons, sum_nil]
  split <;> omega

/-- A plan that has room is one of sizes that fit: the segment 1 starts behind the first one, and
    its size is the one that `Fit` has. -/
theorem Planned.fit (h : Planned t.size t.planSegments) (hsize : t.size < 2 ^ 32) : t.Fit := by
  obtain ⟨-, -, hsum⟩ := h
  simp only [Tvp.planSegments, sum_cons] at hsum
  have h₀ : t.firstSegment ≤ t.size := by omega
  rw [nextSegment_of_le hsize h₀] at hsum
  refine ⟨h₀, fun hmin => ?_, fun hmin => ?_⟩
  · rw [if_pos hmin] at hsum
    omega
  · rw [nextSegment, if_pos hmin] at hsum
    omega

theorem planned_iff (hsize : t.size < 2 ^ 32) : Planned t.size t.planSegments ↔ t.Fit :=
  ⟨fun h => h.fit hsize, fun h => h.planSegments hsize⟩

/-- The sizes that are configured are taken back, or fit. The sum is one of `u32`. -/
def Fits (t : Tvp) : Prop := t.size < t.poolSize0 ∨
  t.size < u32 (t.poolSize0 + t.poolSize1 + t.poolSize2) ∨ t.Fit

theorem Fit.first {p : ℕ} (h : p ≤ t.size) :
    Fit { t with poolSize0 := p, poolSize1 := 0, poolSize2 := 0 } := by
  refine ⟨?_, nofun, nofun⟩
  rw [firstSegment]
  split
  · exact h
  · exact Nat.div_le_self ..

theorem size_checkPools : t.checkPools.size = t.size := by
  rw [checkPools]
  split <;> split <;> rfl

theorem fit_checkPools_iff (hsize : t.size < 2 ^ 32) : t.checkPools.Fit ↔ t.Fits := by
  rw [checkPools, Fits]
  split
  · next hpool =>
    simp only [Nat.cast_zero, add_zero]
    rw [u32_natCast hsize, if_neg (lt_irrefl _)]
    exact iff_of_true (.first le_rfl) (.inl hpool)
  next hpool =>
  rw [or_iff_right hpool]
  split
  · next hsum => exact iff_of_true (.first (Nat.zero_le _)) (.inl hsum)
  · next hsum => rw [or_iff_right hsum]

theorem sum_smallSegments_le (size small : ℕ) : (smallSegments size small).sum ≤ size := by
  have hdiv := Nat.div_add_mod size small
  rw [smallSegments, sum_append, sum_replicate, smul_eq_mul, Nat.mul_comm]
  split <;> simp only [sum_cons, sum_nil] <;> omega

/-- Small segments in the place of the first one. -/
theorem sum_segments {parts l : List ℕ} (hlen : l.length = 4) (hsum : l.sum ≤ size)
    (hparts : parts.sum ≤ l.headD 0) : (parts.take 3 ++ (l.take 3).drop parts.length).sum ≤ size ∧
      (parts.take 3 ++ (l.take 3).drop parts.length).length = 3 := by
  match l, hlen with
  | [s₀, s₁, s₂, s₃], _ =>
    simp only [sum_cons, sum_nil, headD_cons] at hsum hparts
    match parts with
    | [] | [_] | [_, _] | _ :: _ :: _ :: _ =>
      simp at hparts ⊢
      omega

theorem Planned.calcInitPoolCount {p : Tvp × Bool} (h : Planned size p) {total : ℤ}
    (hsize : size < 2 ^ 32) (htotal : u32 (total - 2 * sz1M) = size) :
    Planned size (p.1.calcInitPoolCount total).2 := by
  obtain ⟨-, hlen, hsum⟩ := h
  rw [Tvp.calcInitPoolCount, htotal]
  dsimp only
  generalize (if p.1.forceSmallSegmentSize = 0 then _ else _) = small
  obtain ⟨hle, hthree⟩ := sum_segments hlen hsum (sum_smallSegments_le _ small)
  split
  swap
  · exact ⟨rfl, hlen, hsum⟩
  split
  swap
  · exact ⟨rfl, hlen, hsum⟩
  rw [foldl_minus hsize hle]
  refine ⟨rfl, by rw [length_append, hthree]; rfl, ?_⟩
  rw [sum_append]
  simp only [sum_cons, sum_nil]
  omega

/-- What is planned, where something is. -/
theorem planned_segmentInit_iff {total : ℤ} (hsize : size < 2 ^ 32)
    (htotal : u32 (total - 2 * sz1M) = size)
    (hnone : t.secureMemCtrl = true ∨ t.increaseDisable = true →
      t.poolSegmentSize = [0, 0, 0, 0]) :
    Planned size (t.segmentInit total) ↔
      t.secureMemCtrl = true ∨ t.increaseDisable = true ∨ Fits { t with size } := by
  have hzero (h : t.secureMemCtrl = true ∨ t.increaseDisable = true) :
      t.poolSegmentSize.length = 4 ∧ t.poolSegmentSize.sum ≤ size := by simp [hnone h]
  rw [segmentInit]
  split
  · next hctrl => exact iff_of_true ⟨rfl, hzero (.inl hctrl)⟩ (.inl hctrl)
  next hctrl =>
  rw [or_iff_right hctrl]
  split
  · next hdis => exact iff_of_true ⟨rfl, hzero (.inr hdis)⟩ (.inl hdis)
  next hdis =>
  rw [or_iff_right hdis, htotal]
  have hiff := fit_checkPools_iff (t := { t with size4k := size, size }) hsize
  rw [← planned_iff (by rwa [size_checkPools]), size_checkPools] at hiff
  exact hiff

/-- The plan has room in the codec memory, less the 2 MB for audio, also when the first segment is
    cut into small ones, exactly if nothing is planned or the configured sizes are taken back or
    fit. Where nothing is planned, the driver has the segments that it starts with. -/
theorem segments_fit (hsize : size + 2 * sz1M < 2 ^ 31)
    (hnone : t.secureMemCtrl = true ∨ t.increaseDisable = true →
      t.poolSegmentSize = [0, 0, 0, 0]) :
    (let r := t.segmentInit (size + 2 * sz1M)
    ∀ p ∈ [r, (r.1.calcInitPoolCount (size + 2 * sz1M)).2],
      Planned size p ∧ ∀ s ∈ p.1.poolSegmentSize, s ≤ size) ↔
      t.secureMemCtrl = true ∨ t.increaseDisable = true ∨ Fits { t with size } := by
  have hlt : size < 2 ^ 32 := by omega
  have htotal : u32 (size + 2 * sz1M - 2 * sz1M) = size := by
    rw [add_sub_cancel_right, u32_natCast hlt]
  rw [← planned_segmentInit_iff hlt htotal hnone]
  refine ⟨fun h => (h _ mem_cons_self).1, fun hplanned p hp => ?_⟩
  have hp : Planned size p := by
    simp only [mem_cons, not_mem_nil, or_false] at hp
    rcases hp with rfl | rfl
    · exact hplanned
    · exact hplanned.calcInitPoolCount hlt htotal
  exact ⟨hp, fun s hs => (le_sum_of_mem hs).trans hp.2.2⟩

/-- 64 MB and 16 MB of 400 MB, with small segments. -/
theorem segments_fit_small :
    let t : Tvp := ⟨false, false, 0, 0, 0, 64 * sz1M, 16 * sz1M, 0, [0, 0, 0, 0], true, 32 * sz1M⟩
    Planned (400 * sz1M) ((t.segmentInit (402 * sz1M)).1.calcInitPoolCount (402 * sz1M)).2 :=
  ((@segments_fit _ (400 * sz1M) (by decide) (by decide)).2
    (.inr (.inr (.inr (.inr ⟨by decide, by decide, by decide⟩)))) _ (.tail _ (.head _))).1

/-- 90 MB of 100 MB, behind a third of them. -/
theorem segments_wrap :
    let t : Tvp := ⟨false, false, 0, 0, 0, 0, 90 * sz1M, 0, [0, 0, 0, 0], false, 0⟩
    (t.segmentInit (102 * sz1M)).2 = true ∧
      100 * sz1M < (t.segmentInit (102 * sz1M)).1.poolSegmentSize.sum := by decide

end Tvp

end CommonDrivers.Media.CodecMm
