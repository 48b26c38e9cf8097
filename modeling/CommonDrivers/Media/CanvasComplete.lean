import CommonDrivers.Media.CanvasSet

/-!
# Is a set of canvases found?

A set of canvases is searched for from `next_alloced_index` on, and after each turn that fails from
the index after it. `start` is read once, before the loop, so that this is the same index in every
turn: a free run is found only if it is at one of two places, whatever the number of turns.

What the search does with the bitmap does not depend on the owners (`Alike`), so it is said here of
a pool with any of them.

* `complete_iff`: a set is found whenever there is one, and nothing else is changed, exactly if
  there is none, or there is one where the search looks and canvas 0 is not taken by it;
* `not_complete_twoAlone`: a pool in which a set is free but not found.
-/

namespace CommonDrivers.Media.CanvasPool

open Finset CanvasPool

variable {p q : CanvasPool} {owner : String} {type : CanvasMapType}

/-! ## The owners do not matter -/

/-- The same canvases are taken, and the search starts at the same index. -/
structure Alike (p q : CanvasPool) : Prop where
  canvasMax : p.canvasMax = q.canvasMax
  canvasMap : p.canvasMap = q.canvasMap
  nextAllocedIndex : p.nextAllocedIndex = q.nextAllocedIndex

theorem Alike.allocIndex (h : Alike p q) : p.allocIndex = q.allocIndex := by
  rw [CanvasPool.allocIndex, CanvasPool.allocIndex, h.canvasMax, h.canvasMap, h.nextAllocedIndex]

theorem Alike.take (h : Alike p q) (owner : String) (i : ℕ) :
    Alike (p.take owner i) (q.take owner i) where
  canvasMax := h.canvasMax
  canvasMap := by
    change Function.update p.canvasMap i true = Function.update q.canvasMap i true
    rw [h.canvasMap]
  nextAllocedIndex := by
    rw [CanvasPool.take, CanvasPool.take, h.canvasMax, h.nextAllocedIndex]

theorem Alike.mapAllocCanvasIn (h : Alike p q) (owner : String) :
    Alike (p.mapAllocCanvasIn owner).1 (q.mapAllocCanvasIn owner).1 ∧
      (p.mapAllocCanvasIn owner).2 = (q.mapAllocCanvasIn owner).2 := by
  rw [CanvasPool.mapAllocCanvasIn, CanvasPool.mapAllocCanvasIn, h.allocIndex, h.canvasMax]
  split
  · exact ⟨h.take owner _, rfl⟩
  · exact ⟨h, rfl⟩

theorem Alike.mapFreeCanvasIn (h : Alike p q) (index : ℤ) :
    Alike (p.mapFreeCanvasIn index) (q.mapFreeCanvasIn index) := by
  by_cases hvalid : 0 ≤ index ∧ index < p.canvasMax
  · rw [CanvasPool.mapFreeCanvasIn, if_pos hvalid, CanvasPool.mapFreeCanvasIn,
      if_pos (h.canvasMax ▸ hvalid)]
    refine ⟨h.canvasMax, ?_, h.nextAllocedIndex⟩
    rw [h.canvasMap]
  · rw [CanvasPool.mapFreeCanvasIn, if_neg hvalid, CanvasPool.mapFreeCanvasIn,
      if_neg (h.canvasMax ▸ hvalid)]
    exact h

theorem Alike.allocs (n : ℕ) (h : Alike p q) (owner : String) :
    Alike (allocs owner n p).1 (allocs owner n q).1 ∧
      (allocs owner n p).2 = (allocs owner n q).2 := by
  induction n generalizing p q with
  | zero => exact ⟨h, rfl⟩
  | succ n ih =>
    obtain ⟨h', hindex⟩ := h.mapAllocCanvasIn owner
    obtain ⟨h'', hrest⟩ := ih h'
    refine ⟨h'', ?_⟩
    rw [CanvasPool.allocs, CanvasPool.allocs, hindex, hrest]

theorem Alike.freeAll (cs : List ℤ) (h : Alike p q) : Alike (p.freeAll cs) (q.freeAll cs) := by
  induction cs generalizing p q with
  | nil => exact h
  | cons c cs ih =>
    refine ih ?_
    dsimp only
    split
    · exact h.mapFreeCanvasIn c
    · exact h

theorem Alike.continueTurn (h : Alike p q) (owner : String) (type : CanvasMapType) (start : ℕ) :
    Alike (p.continueTurn owner type start).1 (q.continueTurn owner type start).1 ∧
      (p.continueTurn owner type start).2 = (q.continueTurn owner type start).2 := by
  obtain ⟨h', hcs⟩ := h.allocs type.num owner
  rw [CanvasPool.continueTurn, CanvasPool.continueTurn, hcs]
  split
  · exact ⟨h', rfl⟩
  · have hfree := h'.freeAll (CanvasPool.allocs owner type.num q).2
    refine ⟨⟨hfree.canvasMax, hfree.canvasMap, ?_⟩, rfl⟩
    rw [retryIndex, retryIndex, h'.canvasMax]

theorem Alike.continueLoop (n : ℕ) (h : Alike p q) (owner : String) (type : CanvasMapType)
    (start : ℕ) :
    Alike (continueLoop owner type start n p).1 (continueLoop owner type start n q).1 ∧
      (continueLoop owner type start n p).2 = (continueLoop owner type start n q).2 := by
  induction n generalizing p q with
  | zero => exact ⟨h, rfl⟩
  | succ n ih =>
    obtain ⟨h', hv⟩ := h.continueTurn owner type start
    rw [continueLoop, continueLoop]
    revert h' hv
    generalize p.continueTurn owner type start = r
    generalize q.continueTurn owner type start = r'
    obtain ⟨p', v⟩ := r
    obtain ⟨q', v'⟩ := r'
    rintro h' rfl
    cases v with
    | none => exact ih h'
    | some v => exact ⟨h', rfl⟩

theorem Alike.mapAllocCanvasContinueSet (h : Alike p q) (owner : String) (type : CanvasMapType) :
    Alike (p.mapAllocCanvasContinueSet owner type).1 (q.mapAllocCanvasContinueSet owner type).1 ∧
      (p.mapAllocCanvasContinueSet owner type).2 = (q.mapAllocCanvasContinueSet owner type).2 := by
  rw [CanvasPool.mapAllocCanvasContinueSet, CanvasPool.mapAllocCanvasContinueSet,
    h.nextAllocedIndex, h.canvasMax]
  exact h.continueLoop _ owner type _

/-- The pool without owners. -/
def disowned (p : CanvasPool) : CanvasPool := { p with info := fun _ => ⟨none, none, false⟩ }

theorem alike_disowned (p : CanvasPool) : Alike p p.disowned := ⟨rfl, rfl, rfl⟩

theorem inv_disowned (hpos : 0 < p.canvasMax) (hle : p.canvasMax ≤ 256) : p.disowned.Inv :=
  ⟨fun _ _ => rfl, hpos, hle⟩

/-! ## Completeness -/

/-- A set of the type is free. -/
def SomeFree (p : CanvasPool) (type : CanvasMapType) : Prop := ∃ c, 0 < c ∧ p.FreeRun c type.num

/-- A set is found if there is one, and its canvases, which were free, are all that is taken; none
    is found only if there is none. -/
def Complete (p : CanvasPool) (owner : String) (type : CanvasMapType) : Prop :=
  match p.mapAllocCanvasContinueSet owner type with
  | (q, some v) => ∃ c, 0 < c ∧ p.FreeRun c type.num ∧ v = pack type (run c type.num) ∧
      ∀ i, q.canvasMap i = (p.canvasMap i || decide (i ∈ Finset.Ico c (c + type.num)))
  | (_, none) => ¬p.SomeFree type

theorem Fits.someFree (h : p.Fits type.num) : p.SomeFree type := ⟨p.allocIndex, h⟩

theorem Available.someFree (h : p.Available type) : p.SomeFree type := by
  rcases h with h | h <;> exact h.someFree

/-- What the search does to the bitmap of a pool with any owners. -/
theorem mapAllocCanvasContinueSet_map (hpos : 0 < p.canvasMax) (hle : p.canvasMax ≤ 256)
    (owner : String) (type : CanvasMapType) : (p.Available type ∧ ∃ q c,
      p.mapAllocCanvasContinueSet owner type = (q, some (pack type (run c type.num))) ∧
        0 < c ∧ p.FreeRun c type.num ∧ Disjoint p.leak (Finset.Ico c (c + type.num)) ∧
        ∀ i, q.canvasMap i = (p.canvasMap i || decide (i ∈ p.leak ∪ Finset.Ico c (c + type.num)))) ∨
    (¬p.Available type ∧ ∃ q, p.mapAllocCanvasContinueSet owner type = (q, none)) := by
  obtain ⟨halike, hv⟩ := (alike_disowned p).mapAllocCanvasContinueSet owner type
  revert halike hv
  generalize p.mapAllocCanvasContinueSet owner type = r
  obtain ⟨q, v⟩ := r
  intro halike hv
  have hset := (Same.refl p.disowned).mapAllocCanvasContinueSet (inv_disowned hpos hle) owner type
  rcases hset with ⟨havail, q', c, hq', htaken⟩ | ⟨hno, q', hq', -⟩
  · rw [hq'] at halike hv
    have hheld := htaken.held
    rw [empty_union] at hheld
    refine .inl ⟨havail, q, c, congrArg (Prod.mk q) hv, htaken.pos, fun j hj => ?_, ?_, fun i => ?_⟩
    · have hmem : c + j ∈ Finset.Ico c (c + type.num) := mem_Ico.2 ⟨by omega, by omega⟩
      refine ⟨?_, hheld.free _ (mem_union_right _ hmem)⟩
      have := htaken.le
      change c + type.num ≤ p.canvasMax at this
      omega
    · have hdisj := htaken.disjoint
      rwa [empty_union] at hdisj
    · rw [halike.canvasMap]
      exact hheld.map_eq i
  · rw [hq'] at hv
    exact .inr ⟨hno, q, congrArg (Prod.mk q) hv⟩

theorem not_complete (hpos : 0 < p.canvasMax) (hle : p.canvasMax ≤ 256)
    (hsome : p.SomeFree type) (hno : ¬p.Available type) : ¬p.Complete owner type := by
  intro h
  rcases mapAllocCanvasContinueSet_map hpos hle owner type with ⟨havail, -⟩ | ⟨-, q, hq⟩
  · exact hno havail
  · rw [Complete, hq] at h
    exact h hsome

/-- The search is complete exactly where there is nothing to be found, or a set is where it looks
    and canvas 0 is not taken on the way. -/
theorem complete_iff (hpos : 0 < p.canvasMax) (hle : p.canvasMax ≤ 256) (owner : String)
    (type : CanvasMapType) :
    p.Complete owner type ↔ ¬p.SomeFree type ∨ p.Available type ∧ ¬p.TakesZero := by
  rcases mapAllocCanvasContinueSet_map hpos hle owner type with
    ⟨havail, q, c, hq, hc, hrun, hdisj, hmap⟩ | ⟨hno, q, hq⟩
  · rw [Complete, hq]
    constructor
    · rintro ⟨c', hc', -, -, hmap'⟩
      refine .inr ⟨havail, fun hzero => ?_⟩
      -- canvas 0 was free, and is now taken
      have h0 := hmap 0
      rw [hmap' 0, hzero.2, Bool.false_or, Bool.false_or] at h0
      have hin : (0 : ℕ) ∈ p.leak ∪ Finset.Ico c (c + type.num) :=
        mem_union_left _ (mem_leak.2 ⟨rfl, hzero⟩)
      have hout : (0 : ℕ) ∉ Finset.Ico c' (c' + type.num) := fun hmem => by
        have := (mem_Ico.1 hmem).1
        omega
      rw [decide_eq_true hin, decide_eq_false hout] at h0
      cases h0
    · rintro (hnone | ⟨-, hzero⟩)
      · exact absurd havail.someFree hnone
      · refine ⟨c, hc, hrun, rfl, fun i => ?_⟩
        have hleak : p.leak = ∅ := if_neg hzero
        rw [hmap i, hleak, empty_union]
  · constructor
    · intro h
      exact .inl fun hsome => not_complete hpos hle hsome hno h
    rintro (hnone | ⟨havail, -⟩)
    · rw [Complete, hq]
      exact hnone
    · exact absurd havail hno

/-- A pool of 256 canvases, with the given ones free. -/
def withFree (free : List ℕ) (next : ℕ) : CanvasPool where
  canvasMax := 256
  freeNum := free.length
  info _ := ⟨none, none, false⟩
  canvasMap i := !free.contains i
  nextAllocedIndex := next

/-- Two free canvases, after one that is alone. -/
def oneAlone : CanvasPool := withFree [2, 5, 6] 2

theorem complete_oneAlone : oneAlone.Available .nv21 ∧ oneAlone.Complete "vdec" .nv21 :=
  have havail : oneAlone.Available .nv21 := by decide +kernel
  ⟨havail, (complete_iff (by decide) (by decide) "vdec" .nv21).2 (.inr ⟨havail, by decide⟩)⟩

/-- Two free canvases, after two that are alone. -/
def twoAlone : CanvasPool := withFree [2, 4, 6, 7] 2

theorem freeRun_twoAlone : twoAlone.FreeRun 6 2 := by decide +kernel

theorem not_available_twoAlone : ¬twoAlone.Available .nv21 := by decide +kernel

/-- The search does not come to them. -/
theorem not_complete_twoAlone : twoAlone.SomeFree .nv21 ∧ ¬twoAlone.Complete "vdec" .nv21 :=
  ⟨⟨6, Nat.succ_pos 5, freeRun_twoAlone⟩, not_complete (by decide) (by decide)
    ⟨6, Nat.succ_pos 5, freeRun_twoAlone⟩ not_available_twoAlone⟩

end CommonDrivers.Media.CanvasPool
