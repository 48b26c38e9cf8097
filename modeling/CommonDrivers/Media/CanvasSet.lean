import CommonDrivers.Media.Canvas

/-!
# Taking a set of canvases

What `canvas_pool_map_alloc_canvas_continue_set` does to the pool, said through the
canvases that are *held*: those that are taken in one pool and free in another, all
else being the same. Taking a canvas adds it to those that are held, freeing one
removes it.

A turn of the search takes canvases one by one. It finds a set exactly when the
first free canvas is the first of a free run, and otherwise gives back what it has
taken. Each turn that fails leaves the same index to search from, so there are only
two places a set is looked for. Canvas 0 is the exception: a turn that takes it fails,
and does not give it back.
-/

namespace CommonDrivers.Media

open List Finset Nat

namespace CanvasPool

/-! ## Canvases that are held -/

/-- What holds of every pool: a canvas that is free has no owner, and the number of a
    canvas fits in a byte. -/
structure Inv (p : CanvasPool) : Prop where
  owner_eq_none : ∀ i, p.canvasMap i = false → (p.info i).owner = none
  canvasMax_pos : 0 < p.canvasMax
  canvasMax_le : p.canvasMax ≤ 256

/-- The pool `q` is the pool `p` in which the canvases of `s`, which were free, are
    taken. -/
structure Held (p q : CanvasPool) (s : Finset ℕ) : Prop where
  canvasMax_eq : q.canvasMax = p.canvasMax
  free : ∀ i ∈ s, p.canvasMap i = false
  map_eq : ∀ i, q.canvasMap i = (p.canvasMap i || decide (i ∈ s))
  owner_eq : ∀ i, i ∉ s → (q.info i).owner = (p.info i).owner
  fixedOwner_eq : ∀ i, (q.info i).fixedOwner = (p.info i).fixedOwner

/-- The same canvases are allocated, to the same owners. -/
def Same (p q : CanvasPool) : Prop := Held p q ∅

variable {p q : CanvasPool} {s : Finset ℕ} {i : ℕ} {owner : String} {type : CanvasMapType}
  {map : ℕ → Bool} {q' : CanvasPool}

theorem Same.refl (p : CanvasPool) : Same p p :=
  ⟨rfl, by simp, by simp, fun _ _ => rfl, fun _ => rfl⟩

theorem Held.map_of_mem (h : Held p q s) (hi : i ∈ s) : q.canvasMap i = true := by
  simp [h.map_eq, hi]

theorem Held.free_of_map (h : Held p q s) (hi : q.canvasMap i = false) :
    p.canvasMap i = false ∧ i ∉ s := by
  rw [h.map_eq] at hi
  simpa using hi

/-- The index to look from next does not matter. -/
theorem Held.next (h : Held p q s) (n : ℕ) : Held p { q with nextAllocedIndex := n } s :=
  { h with }

theorem Held.take (h : Held p q s) (owner : String) (hi : q.canvasMap i = false) :
    Held p (q.take owner i) (insert i s) where
  canvasMax_eq := h.canvasMax_eq
  free j hj := by
    rcases mem_insert.1 hj with rfl | hj
    · exact (h.free_of_map hi).1
    · exact h.free j hj
  map_eq j := by
    by_cases hj : j = i
    · subst hj
      simp [CanvasPool.take]
    · simp [CanvasPool.take, hj, h.map_eq]
  owner_eq j hj := by
    rw [mem_insert, not_or] at hj
    simp [CanvasPool.take, hj.1, h.owner_eq j hj.2]
  fixedOwner_eq j := by
    by_cases hj : j = i
    · subst hj
      simp [CanvasPool.take, h.fixedOwner_eq]
    · simp [CanvasPool.take, hj, h.fixedOwner_eq]

section free

variable (hi : i < p.canvasMax)

include hi

theorem mapFreeCanvasIn_map (j : ℕ) :
    (p.mapFreeCanvasIn i).canvasMap j = (p.canvasMap j && decide (j ≠ i)) := by
  rw [mapFreeCanvasIn, if_pos ⟨by omega, by omega⟩, Int.toNat_natCast]
  by_cases hj : j = i
  · subst hj
    simp
  · simp [hj]

theorem mapFreeCanvasIn_owner (j : ℕ) :
    ((p.mapFreeCanvasIn i).info j).owner = if j = i then none else (p.info j).owner := by
  rw [mapFreeCanvasIn, if_pos ⟨by omega, by omega⟩, Int.toNat_natCast]
  by_cases hj : j = i
  · subst hj
    simp
  · simp [hj]

omit hi

@[simp]
theorem mapFreeCanvasIn_fixedOwner (c : ℤ) (j : ℕ) :
    ((p.mapFreeCanvasIn c).info j).fixedOwner = (p.info j).fixedOwner := by
  rw [mapFreeCanvasIn]
  split
  · by_cases hj : j = c.toNat
    · subst hj
      simp
    · simp [hj]
  · rfl

@[simp]
theorem mapFreeCanvasIn_canvasMax (c : ℤ) : (p.mapFreeCanvasIn c).canvasMax = p.canvasMax := by
  rw [mapFreeCanvasIn]
  split <;> rfl

end free

/-- A canvas that is free in the first pool is freed, whether it was held or not. -/
theorem Held.free_canvas (hp : p.Inv) (h : Held p q s) (hi : p.canvasMap i = false)
    (hlt : i < p.canvasMax) : Held p (q.mapFreeCanvasIn i) (s.erase i) where
  canvasMax_eq := by rw [mapFreeCanvasIn_canvasMax, h.canvasMax_eq]
  free j hj := h.free j (Finset.mem_of_mem_erase hj)
  map_eq j := by
    rw [mapFreeCanvasIn_map (h.canvasMax_eq ▸ hlt), h.map_eq]
    by_cases hj : j = i
    · subst hj
      simp [hi]
    · simp [hj]
  owner_eq j hj := by
    rw [mapFreeCanvasIn_owner (h.canvasMax_eq ▸ hlt)]
    split
    · next hji =>
      subst hji
      exact (hp.owner_eq_none j hi).symm
    · next hji => exact h.owner_eq j fun hs => hj (mem_erase.2 ⟨hji, hs⟩)
  fixedOwner_eq j := by rw [mapFreeCanvasIn_fixedOwner, h.fixedOwner_eq]

/-- Any canvas is freed: if it was not held, it is freed in the first pool too. -/
theorem Held.free_both (h : Held p q s) (hlt : i < p.canvasMax) :
    Held (p.mapFreeCanvasIn i) (q.mapFreeCanvasIn i) (s.erase i) where
  canvasMax_eq := by rw [mapFreeCanvasIn_canvasMax, mapFreeCanvasIn_canvasMax, h.canvasMax_eq]
  free j hj := by
    rw [mapFreeCanvasIn_map hlt, h.free j (Finset.mem_of_mem_erase hj), Bool.false_and]
  map_eq j := by
    rw [mapFreeCanvasIn_map hlt, mapFreeCanvasIn_map (h.canvasMax_eq ▸ hlt), h.map_eq]
    by_cases hj : j = i <;> simp [hj]
  owner_eq j hj := by
    rw [mapFreeCanvasIn_owner hlt, mapFreeCanvasIn_owner (h.canvasMax_eq ▸ hlt)]
    split
    · rfl
    · next hji => exact h.owner_eq j fun hs => hj (mem_erase.2 ⟨hji, hs⟩)
  fixedOwner_eq j := by
    rw [mapFreeCanvasIn_fixedOwner, mapFreeCanvasIn_fixedOwner, h.fixedOwner_eq]

theorem Inv.mapFreeCanvasIn (h : p.Inv) (c : ℤ) : (p.mapFreeCanvasIn c).Inv := by
  refine ⟨fun j hj => ?_, by simpa using h.canvasMax_pos, by simpa using h.canvasMax_le⟩
  by_cases hc : 0 ≤ c ∧ c < p.canvasMax
  · obtain ⟨i, rfl⟩ := Int.eq_ofNat_of_zero_le hc.1
    have hlt : i < p.canvasMax := by omega
    rw [mapFreeCanvasIn_owner hlt]
    rw [mapFreeCanvasIn_map hlt] at hj
    split
    · rfl
    · next hji => exact h.owner_eq_none j (by simpa [hji] using hj)
  · rw [CanvasPool.mapFreeCanvasIn, if_neg hc] at hj ⊢
    exact h.owner_eq_none j hj

/-! ## The search -/

theorem findNextZeroBit_spec {size start : ℕ} (h : findNextZeroBit map size start < size) :
    start ≤ findNextZeroBit map size start ∧ map (findNextZeroBit map size start) = false := by
  rw [findNextZeroBit] at h ⊢
  cases hf : (range' start (size - start)).find? fun i => !map i with
  | none => simp [hf] at h
  | some i =>
    have hmem := mem_of_find?_eq_some hf
    rw [mem_range'_1] at hmem
    exact ⟨hmem.1, by simpa using find?_some hf⟩

theorem findNextZeroBit_of_free {size start : ℕ} (hlt : start < size) (hfree : map start = false) :
    findNextZeroBit map size start = start := by
  obtain ⟨k, hk⟩ : ∃ k, size - start = k + 1 := ⟨size - start - 1, by omega⟩
  rw [findNextZeroBit, hk, range'_succ, find?_cons_of_pos (by simp [hfree])]
  rfl

theorem findNextZeroBit_congr {map map' : ℕ → Bool} {size start : ℕ}
    (h : ∀ i, start ≤ i → map i = map' i) :
    findNextZeroBit map size start = findNextZeroBit map' size start := by
  rw [findNextZeroBit, findNextZeroBit]
  congr 1
  refine find?_congr fun i hi => ?_
  rw [h i (mem_range'_1.1 hi).1]

/-- The canvas taken is free. -/
theorem map_allocIndex (h : p.allocIndex < p.canvasMax) : p.canvasMap p.allocIndex = false := by
  rw [allocIndex] at h ⊢
  split
  · next hc =>
    rw [if_pos hc] at h
    exact (findNextZeroBit_spec h).2
  · next hc =>
    rw [if_neg hc] at h
    exact (findNextZeroBit_spec h).2

/-- Canvas 0 is the next one to be taken. -/
def TakesZero (p : CanvasPool) : Prop := p.nextAllocedIndex = 0 ∧ p.canvasMap 0 = false

instance (p : CanvasPool) : Decidable p.TakesZero := inferInstanceAs (Decidable (_ ∧ _))

theorem allocIndex_of_takesZero (h : p.TakesZero) (hp : 0 < p.canvasMax) : p.allocIndex = 0 := by
  rw [allocIndex, h.1, findNextZeroBit_of_free hp h.2]
  simp

theorem takesZero_of_allocIndex (h0 : p.allocIndex = 0) (hp : 0 < p.canvasMax) :
    p.TakesZero := by
  have hlt : p.allocIndex < p.canvasMax := h0 ▸ hp
  have hfree := map_allocIndex hlt
  rw [h0] at hfree
  rw [allocIndex] at h0 hlt
  split at h0
  · next hc =>
    rw [if_pos hc] at hlt
    have := (findNextZeroBit_spec hlt).1
    exact ⟨by omega, hfree⟩
  · next hc =>
    rw [if_neg hc] at hlt
    have := (findNextZeroBit_spec hlt).1
    omega

theorem allocIndex_eq_zero_iff (hp : 0 < p.canvasMax) : p.allocIndex = 0 ↔ p.TakesZero :=
  ⟨fun h => takesZero_of_allocIndex h hp, fun h => allocIndex_of_takesZero h hp⟩

theorem not_takesZero_take : ¬(p.take owner i).TakesZero := by
  rintro ⟨h, h'⟩
  by_cases hi : i = 0
  · subst hi
    simp [CanvasPool.take] at h'
  · simp only [CanvasPool.take, hi, if_false] at h
    split at h <;> omega

/-! ## A turn -/

theorem mapAllocCanvasIn_of_lt (h : p.allocIndex < p.canvasMax) :
    p.mapAllocCanvasIn owner = (p.take owner p.allocIndex, (p.allocIndex : ℤ)) := if_pos h

theorem mapAllocCanvasIn_of_le (h : p.canvasMax ≤ p.allocIndex) :
    p.mapAllocCanvasIn owner = (p, -1) := if_neg (not_lt.2 h)

theorem not_takesZero_mapAllocCanvasIn (hp : 0 < p.canvasMax) :
    ¬(p.mapAllocCanvasIn owner).1.TakesZero := by
  by_cases h : p.allocIndex < p.canvasMax
  · rw [mapAllocCanvasIn_of_lt h]
    exact not_takesZero_take
  · rw [mapAllocCanvasIn_of_le (not_lt.1 h)]
    intro hz
    exact h (by rwa [allocIndex_of_takesZero hz hp])

/-- What a pool gives when it is asked for canvases: the ones in `l`, in this order, and
    `-1` when there is none left. -/
structure Gives (p q : CanvasPool) (s : Finset ℕ) (r : CanvasPool × List ℤ) (l : List ℕ) :
    Prop where
  held : Held p r.1 (s ∪ l.toFinset)
  filter_eq : r.2.filter (0 ≤ ·) = l.map Nat.cast
  nodup : l.Nodup
  lt : ∀ i ∈ l, i < p.canvasMax
  free : ∀ i ∈ l, q.canvasMap i = false
  zero_mem_iff : 0 ∈ l ↔ q.TakesZero ∧ r.2 ≠ []

theorem Held.allocs (hp : 0 < p.canvasMax) (owner : String) (n : ℕ) :
    ∀ {q s}, Held p q s → ∃ l, Gives p q s (allocs owner n q) l := by
  induction n with
  | zero =>
    intro q s h
    exact ⟨[], by simpa [CanvasPool.allocs] using h, rfl, nodup_nil, by simp, by simp,
      by simp [CanvasPool.allocs]⟩
  | succ n ih =>
    intro q s h
    have hq : 0 < q.canvasMax := h.canvasMax_eq ▸ hp
    by_cases hlt : q.allocIndex < q.canvasMax
    · have hfree := map_allocIndex hlt
      obtain ⟨l, hl⟩ := ih (h.take owner hfree)
      have hne : ∀ i ∈ l, i ≠ q.allocIndex ∧ q.canvasMap i = false := by
        intro i hi
        have := hl.free i hi
        by_cases hi' : i = q.allocIndex
        · simp [CanvasPool.take, hi'] at this
        · exact ⟨hi', by simpa [CanvasPool.take, hi'] using this⟩
      rw [CanvasPool.allocs, mapAllocCanvasIn_of_lt hlt]
      refine ⟨q.allocIndex :: l, ?_, ?_, ?_, ?_, ?_, ?_⟩
      · have := hl.held
        rwa [insert_union, ← union_insert, ← toFinset_cons] at this
      · rw [List.filter_cons_of_pos (by simp), List.map_cons, hl.filter_eq]
      · exact nodup_cons.2 ⟨fun hmem => (hne _ hmem).1 rfl, hl.nodup⟩
      · exact forall_mem_cons.2 ⟨h.canvasMax_eq ▸ hlt, hl.lt⟩
      · exact forall_mem_cons.2 ⟨hfree, fun i hi => (hne i hi).2⟩
      · have h0 : 0 ∉ l := fun h0 => not_takesZero_take (hl.zero_mem_iff.1 h0).1
        rw [List.mem_cons, or_iff_left h0, eq_comm, allocIndex_eq_zero_iff hq]
        simp
    · obtain ⟨l, hl⟩ := ih h
      rw [CanvasPool.allocs, mapAllocCanvasIn_of_le (not_lt.1 hlt)]
      refine ⟨l, hl.held, by simpa using hl.filter_eq, hl.nodup, hl.lt, hl.free, ?_⟩
      have hz : ¬q.TakesZero := fun hz => hlt (by rwa [allocIndex_of_takesZero hz hq])
      exact ⟨fun h0 => absurd (hl.zero_mem_iff.1 h0).1 hz, fun hz' => absurd hz'.1 hz⟩

/-- Only the canvases above 0 are given back. -/
theorem freeAll_filter (cs : List ℤ) (q : CanvasPool) :
    q.freeAll (cs.filter (0 ≤ ·)) = q.freeAll cs := by
  induction cs generalizing q with
  | nil => rfl
  | cons c cs ih =>
    by_cases hc : 0 ≤ c
    · rw [List.filter_cons_of_pos (by simpa using hc)]
      exact ih _
    · rw [List.filter_cons_of_neg (by simpa using hc), ih]
      change _ = freeAll (if 0 < c then _ else q) cs
      rw [if_neg (by omega)]

theorem Held.freeAll (hp : p.Inv) (l : List ℕ) (hnodup : l.Nodup) (hlt : ∀ i ∈ l, i < p.canvasMax) :
    ∀ {q s}, Held p q s → (∀ i ∈ l, i ∈ s) →
      Held p (q.freeAll (l.map Nat.cast)) (s \ (l.filter (0 < ·)).toFinset) := by
  induction l with
  | nil =>
    intro q s h _
    simpa [CanvasPool.freeAll] using h
  | cons i l ih =>
    intro q s h hmem
    obtain ⟨hi, hnodup⟩ := nodup_cons.1 hnodup
    obtain ⟨hilt, hlt⟩ := forall_mem_cons.1 hlt
    obtain ⟨his, hmem⟩ := forall_mem_cons.1 hmem
    change Held p (CanvasPool.freeAll (if (0 : ℤ) < (i : ℤ) then _ else q) (l.map Nat.cast)) _
    by_cases h0 : 0 < i
    · rw [if_pos (by omega), List.filter_cons_of_pos (by simpa using h0), toFinset_cons,
        sdiff_insert, ← erase_sdiff_comm]
      refine ih hnodup hlt (h.free_canvas hp (h.free i his) hilt) fun j hj => ?_
      exact mem_erase.2 ⟨fun hji => hi (hji ▸ hj), hmem j hj⟩
    · rw [if_neg (by omega), List.filter_cons_of_neg (by simpa using h0)]
      exact ih hnodup hlt h hmem

/-- The canvas a turn takes and does not give back. -/
def leak (p : CanvasPool) : Finset ℕ := if p.TakesZero then {0} else ∅

theorem mem_leak : i ∈ p.leak ↔ i = 0 ∧ p.TakesZero := by
  rw [leak]
  split <;> simp_all

/-- A turn that finds no set gives back what it has taken, but for canvas 0. -/
theorem Gives.freeAll (hp : p.Inv) (h : Held p q s) {r : CanvasPool × List ℤ} {l : List ℕ}
    (hl : Gives p q s r l) (hr : r.2 ≠ []) : Held p (r.1.freeAll r.2) (s ∪ q.leak) := by
  have hfree := hl.held.freeAll hp l hl.nodup hl.lt fun i hi =>
    Finset.mem_union_right _ (mem_toFinset.2 hi)
  rw [← hl.filter_eq, freeAll_filter] at hfree
  convert hfree using 1
  ext i
  have hs : i ∈ l → i ∉ s := fun hi => (h.free_of_map (hl.free i hi)).2
  have h0 := hl.zero_mem_iff
  simp only [hr, ne_eq, not_false_eq_true, and_true] at h0
  simp only [mem_union, mem_leak, mem_sdiff, mem_toFinset, mem_filter, decide_eq_true_eq, ← h0]
  rcases Nat.eq_zero_or_pos i with rfl | hi
  · simp
  · have : i ≠ 0 := by omega
    simp only [this, false_and, or_false, hi, and_true]
    tauto

/-- The canvases from `c` on, `n` of them, are free. -/
def FreeRun (p : CanvasPool) (c n : ℕ) : Prop :=
  ∀ j < n, c + j < p.canvasMax ∧ p.canvasMap (c + j) = false

instance (p : CanvasPool) (c n : ℕ) : Decidable (p.FreeRun c n) :=
  inferInstanceAs (Decidable (∀ j < n, _))

/-- A turn finds a set of `n` canvases: the first free canvas, which is not canvas 0, is
    the first of as many. -/
def Fits (p : CanvasPool) (n : ℕ) : Prop := 0 < p.allocIndex ∧ p.FreeRun p.allocIndex n

instance (p : CanvasPool) (n : ℕ) : Decidable (p.Fits n) := inferInstanceAs (Decidable (_ ∧ _))

/-- The `n` canvases from `c` on. -/
def run (c n : ℕ) : List ℤ := (List.range' c n).map Nat.cast

theorem allocIndex_take (owner : String) (hi : i ≠ 0) (hlt : i + 1 < p.canvasMax)
    (hfree : p.canvasMap (i + 1) = false) : (p.take owner i).allocIndex = i + 1 := by
  have hfind : findNextZeroBit (p.take owner i).canvasMap p.canvasMax (i + 1) = i + 1 :=
    findNextZeroBit_of_free hlt (by simp [CanvasPool.take, hfree])
  have hnext : (p.take owner i).nextAllocedIndex = i + 1 := by simp [CanvasPool.take, hi, hlt]
  rw [allocIndex, hnext]
  refine (if_pos (.inl ?_)).trans hfind
  exact hfind.trans_lt hlt

/-- A free run is taken from its first canvas to its last. -/
theorem allocs_of_freeRun (owner : String) (n : ℕ) :
    ∀ {q : CanvasPool}, 0 < q.allocIndex → q.FreeRun q.allocIndex n →
      (allocs owner n q).2 = run q.allocIndex n := by
  induction n with
  | zero => exact fun _ _ => rfl
  | succ n ih =>
    intro q hpos hrun
    rw [allocs, mapAllocCanvasIn_of_lt (hrun 0 (by omega)).1, run, range'_succ, List.map_cons]
    refine congrArg (cons _) ?_
    rcases Nat.eq_zero_or_pos n with rfl | hn
    · rfl
    obtain ⟨hlt, hfree⟩ := hrun 1 (by omega)
    have hidx := allocIndex_take owner (by omega) hlt hfree
    refine (ih (q := q.take owner q.allocIndex) (by omega) ?_).trans (by rw [hidx, run])
    intro j hj
    rw [hidx, add_assoc]
    obtain ⟨hlt, hfree⟩ := hrun (1 + j) (by omega)
    refine ⟨hlt, ?_⟩
    have hne : q.allocIndex + (1 + j) ≠ q.allocIndex := by omega
    simpa [CanvasPool.take, hne] using hfree

/-- Canvases taken one after the other that are consecutive were a free run. -/
theorem freeRun_of_isChain (n : ℕ) : ∀ {q : CanvasPool} {c : ℕ}, (allocs owner n q).2.headD c = c →
      (allocs owner n q).2.IsChain (fun c c' => c' = c + 1) → q.FreeRun c n := by
  induction n with
  | zero => exact fun _ _ j hj => absurd hj (not_lt_zero j)
  | succ n ih =>
    intro q c hhead hchain
    by_cases hlt : q.allocIndex < q.canvasMax
    · rw [allocs, mapAllocCanvasIn_of_lt hlt] at hhead hchain
      have hc : q.allocIndex = c := by simpa using hhead
      obtain ⟨hnext, hchain⟩ := isChain_cons.1 hchain
      have hrun := ih (q := q.take owner q.allocIndex) (c := c + 1) (by
        cases h : (allocs owner n (q.take owner q.allocIndex)).2 with
        | nil => rfl
        | cons d ds =>
          have := hnext d (by simp [h])
          simp [this, hc]) hchain
      intro j hj
      cases j with
      | zero => exact ⟨hc ▸ hlt, hc ▸ map_allocIndex hlt⟩
      | succ j =>
        obtain ⟨hlt', hfree⟩ := hrun j (by omega)
        have hadd : c + 1 + j = c + (j + 1) := by omega
        rw [hadd] at hlt' hfree
        refine ⟨hlt', ?_⟩
        have hne : c + (j + 1) ≠ q.allocIndex := by omega
        simpa [CanvasPool.take, hne] using hfree
    · rw [allocs, mapAllocCanvasIn_of_le (not_lt.1 hlt)] at hhead
      simp at hhead

theorem found_run {c n : ℕ} (hc : 0 < c) (hn : 0 < n) : Found (run c n) := by
  obtain ⟨m, rfl⟩ : ∃ m, n = m + 1 := ⟨n - 1, by omega⟩
  refine ⟨by simpa [run, range'_succ] using hc, ?_⟩
  refine isChain_map_of_isChain _ (fun a b hab => ?_) (isChain_range' c (m + 1) 1)
  rw [hab, cast_add, cast_one]

/-- A turn finds a set exactly when there is a free run where it looks. -/
theorem found_allocs_iff {n : ℕ} (hn : 0 < n) : Found (allocs owner n q).2 ↔ q.Fits n := by
  constructor
  · rintro ⟨hpos, hchain⟩
    obtain ⟨m, rfl⟩ : ∃ m, n = m + 1 := ⟨n - 1, by omega⟩
    by_cases hlt : q.allocIndex < q.canvasMax
    · have hhead (c : ℤ) : (allocs owner (m + 1) q).2.headD c = q.allocIndex := by
        rw [allocs, mapAllocCanvasIn_of_lt hlt]
        rfl
      rw [hhead] at hpos
      exact ⟨by omega, freeRun_of_isChain (m + 1) (hhead _) hchain⟩
    · rw [allocs, mapAllocCanvasIn_of_le (not_lt.1 hlt)] at hpos
      simp at hpos
  · rintro ⟨hpos, hrun⟩
    rw [allocs_of_freeRun owner n hpos hrun]
    exact found_run hpos hn

theorem not_takesZero_allocs (hq : 0 < q.canvasMax) (h : ¬q.TakesZero) (n : ℕ) :
    ¬(allocs owner n q).1.TakesZero := by
  induction n generalizing q with
  | zero => exact h
  | succ n ih =>
    refine ih ?_ (not_takesZero_mapAllocCanvasIn hq)
    rw [mapAllocCanvasIn]
    split <;> exact hq

theorem retryIndex_pos (p : CanvasPool) (type : CanvasMapType) (start : ℕ) :
    0 < p.retryIndex type start := by
  rw [retryIndex]
  split <;> omega

/-- The set from `c` on is taken, over the canvases of `s`. -/
structure SetTaken (p q : CanvasPool) (type : CanvasMapType) (s : Finset ℕ) (c : ℕ) : Prop where
  pos : 0 < c
  le : c + type.num ≤ p.canvasMax
  disjoint : Disjoint s (Finset.Ico c (c + type.num))
  held : Held p q (s ∪ Finset.Ico c (c + type.num))
  not_takesZero : ¬q.TakesZero

theorem FreeRun.disjoint {c n : ℕ} (h : Held p q s) (hrun : q.FreeRun c n) :
    Disjoint s (Finset.Ico c (c + n)) := by
  refine Finset.disjoint_right.2 fun i hi => ?_
  obtain ⟨hle, hlt⟩ := mem_Ico.1 hi
  have := (hrun (i - c) (by omega)).2
  rw [Nat.add_sub_cancel' hle] at this
  exact (h.free_of_map this).2

/-- A turn that finds a set takes it. -/
theorem Held.continueTurn_of_fits (hp : p.Inv) (h : Held p q s) (owner : String) (start : ℕ)
    (hfits : q.Fits type.num) :
    ∃ q', q.continueTurn owner type start = (q', some (pack type (run q.allocIndex type.num))) ∧
      SetTaken p q' type s q.allocIndex := by
  have hnum := type.num_pos
  have hq : 0 < q.canvasMax := h.canvasMax_eq ▸ hp.canvasMax_pos
  have hrun := allocs_of_freeRun owner type.num hfits.1 hfits.2
  obtain ⟨l, hl⟩ := Held.allocs hp.canvasMax_pos owner type.num h
  have hl' : l = range' q.allocIndex type.num := by
    have := hl.filter_eq
    rw [hrun, run, filter_eq_self.2 fun c hc => ?_] at this
    · exact (map_injective_iff.2 cast_injective this).symm
    · obtain ⟨i, _, rfl⟩ := mem_map.1 hc
      simp
  have hheld := hl.held
  rw [hl', toFinset_range'_1] at hheld
  refine ⟨(CanvasPool.allocs owner type.num q).1, ?_, hfits.1, ?_, hfits.2.disjoint h, hheld, ?_⟩
  · rw [continueTurn, if_pos ((found_allocs_iff hnum).2 hfits), hrun]
  · have := (hfits.2 (type.num - 1) (by omega)).1
    rw [h.canvasMax_eq] at this
    omega
  · refine not_takesZero_allocs hq (fun hz => ?_) type.num
    exact absurd (allocIndex_of_takesZero hz hq) hfits.1.ne'

/-- A turn that finds no set leaves the pool as it was, but for canvas 0. -/
theorem Held.continueTurn_of_not_fits (hp : p.Inv) (h : Held p q s) (owner : String) (start : ℕ)
    (hfits : ¬q.Fits type.num) :
    ∃ q', q.continueTurn owner type start = (q', none) ∧ Held p q' (s ∪ q.leak) ∧
      q'.nextAllocedIndex = q.retryIndex type start := by
  have hnum := type.num_pos
  obtain ⟨l, hl⟩ := Held.allocs hp.canvasMax_pos owner type.num h
  have hne : (CanvasPool.allocs owner type.num q).2 ≠ [] := by
    obtain ⟨m, hm⟩ : ∃ m, type.num = m + 1 := ⟨type.num - 1, by omega⟩
    rw [hm, CanvasPool.allocs]
    exact cons_ne_nil _ _
  refine ⟨_, if_neg fun hf => hfits ((found_allocs_iff hnum).1 hf), ?_, ?_⟩
  · exact (hl.freeAll hp h hne).next _
  · rw [retryIndex, retryIndex, hl.held.canvasMax_eq, h.canvasMax_eq]

/-! ## A set -/

/-- Whether a set is found depends on the canvases above 0 only. -/
theorem fits_congr {a b : CanvasPool} (hmax : a.canvasMax = b.canvasMax)
    (hnext : a.nextAllocedIndex = b.nextAllocedIndex) (hpos : 0 < a.nextAllocedIndex)
    (hmap : ∀ i, 0 < i → a.canvasMap i = b.canvasMap i) (n : ℕ) : a.Fits n ↔ b.Fits n := by
  have hidx : a.allocIndex = b.allocIndex := by
    rw [allocIndex, allocIndex, ← hmax, ← hnext,
      findNextZeroBit_congr fun i hi => hmap i (by omega),
      findNextZeroBit_congr fun i hi => hmap i (lt_of_lt_of_le one_pos hi)]
  rw [Fits, Fits, hidx]
  refine and_congr_right fun h => forall₂_congr fun j _ => ?_
  rw [hmax, hmap _ (by omega)]

/-- The pool with the index the search goes on from. -/
def retried (p : CanvasPool) (type : CanvasMapType) : CanvasPool :=
  { p with nextAllocedIndex := p.retryIndex type p.nextAllocedIndex }

/-- A set of the type is found: where the search starts, or where it goes on. -/
def Available (p : CanvasPool) (type : CanvasMapType) : Prop :=
  p.Fits type.num ∨ (p.retried type).Fits type.num

instance (p : CanvasPool) (type : CanvasMapType) : Decidable (p.Available type) :=
  inferInstanceAs (Decidable (_ ∨ _))

theorem leak_of_next_pos (h : 0 < q.nextAllocedIndex) : q.leak = ∅ := if_neg fun hz => by
    have := hz.1
    omega

theorem continueLoop_of_some {start n v : ℕ} (h : q.continueTurn owner type start = (q', some v)) :
    continueLoop owner type start (n + 1) q = (q', some v) := by
  rw [continueLoop, h]

theorem continueLoop_of_none {start : ℕ} (n : ℕ)
    (h : q.continueTurn owner type start = (q', none)) :
    continueLoop owner type start (n + 1) q = continueLoop owner type start n q' := by
  rw [continueLoop, h]

/-- Once no set is found where the search goes on, none is found. -/
theorem Held.continueLoop_of_not_fits (hp : p.Inv) (owner : String) (start n : ℕ) :
    ∀ {q}, Held p q s → q.nextAllocedIndex = q.retryIndex type start → ¬q.Fits type.num →
      ∃ q', continueLoop owner type start n q = (q', none) ∧ Held p q' s := by
  induction n with
  | zero =>
    intro q h _ _
    exact ⟨q, rfl, h⟩
  | succ n ih =>
    intro q h hnext hfits
    have hpos : 0 < q.nextAllocedIndex := hnext ▸ retryIndex_pos q type start
    obtain ⟨q', hturn, h', hnext'⟩ := h.continueTurn_of_not_fits hp owner start hfits
    rw [leak_of_next_pos hpos, union_empty] at h'
    have hmax : q.canvasMax = q'.canvasMax := h.canvasMax_eq.trans h'.canvasMax_eq.symm
    obtain ⟨q'', hloop, hres⟩ := ih h' (by rw [hnext', retryIndex, retryIndex, hmax])
      (fun hf => hfits ((fits_congr hmax (hnext.trans hnext'.symm) hpos
        (fun i _ => by rw [h.map_eq, h'.map_eq]) _).2 hf))
    exact ⟨q'', (continueLoop_of_none n hturn).trans hloop, hres⟩

/-- What `canvas_pool_map_alloc_canvas_continue_set` does: it takes a set if one is
    available, and otherwise leaves the pool as it was, but for canvas 0. -/
theorem Held.mapAllocCanvasContinueSet (hp : p.Inv) (h : Held p q s) (owner : String)
    (type : CanvasMapType) : (q.Available type ∧
      ∃ q' c, q.mapAllocCanvasContinueSet owner type = (q', some (pack type (run c type.num))) ∧
        SetTaken p q' type (s ∪ q.leak) c) ∨ (¬q.Available type ∧
      ∃ q', q.mapAllocCanvasContinueSet owner type = (q', none) ∧ Held p q' (s ∪ q.leak)) := by
  have hq : 0 < q.canvasMax := h.canvasMax_eq ▸ hp.canvasMax_pos
  by_cases hfits : q.Fits type.num
  · obtain ⟨q', hturn, htaken⟩ := h.continueTurn_of_fits hp owner q.nextAllocedIndex hfits
    have hleak : q.leak = ∅ := if_neg fun hz => hfits.1.ne' (allocIndex_of_takesZero hz hq)
    rw [hleak, union_empty]
    exact .inl ⟨.inl hfits, q', _, continueLoop_of_some hturn, htaken⟩
  -- The search goes on from the same index in each of the turns that follow.
  obtain ⟨q₁, hturn, h₁, hnext⟩ := h.continueTurn_of_not_fits hp owner q.nextAllocedIndex hfits
  have hmax : q₁.canvasMax = q.canvasMax := h₁.canvasMax_eq.trans h.canvasMax_eq.symm
  have hpos : 0 < q₁.nextAllocedIndex := hnext ▸ retryIndex_pos q type _
  have hcongr : q₁.Fits type.num ↔ (q.retried type).Fits type.num := by
    refine fits_congr (b := q.retried type) hmax hnext hpos (fun i hi => ?_) _
    have : i ∉ q.leak := fun hmem => hi.ne' (mem_leak.1 hmem).1
    rw [h₁.map_eq]
    simp [retried, this, h.map_eq]
  obtain ⟨m, hm⟩ : ∃ m, q.canvasMax = m + 1 := ⟨q.canvasMax - 1, by omega⟩
  have hset : q.mapAllocCanvasContinueSet owner type =
      continueLoop owner type q.nextAllocedIndex (m + 1) q₁ := by
    rw [CanvasPool.mapAllocCanvasContinueSet, continueLoop_of_none _ hturn, hm]
  rw [hset, Available, or_iff_right hfits, ← hcongr]
  by_cases hfits₁ : q₁.Fits type.num
  · obtain ⟨q', hturn', htaken⟩ := h₁.continueTurn_of_fits hp owner q.nextAllocedIndex hfits₁
    exact .inl ⟨hfits₁, q', _, continueLoop_of_some hturn', htaken⟩
  · have hretry : q₁.nextAllocedIndex = q₁.retryIndex type q.nextAllocedIndex := by
      rw [hnext, retryIndex, retryIndex, hmax]
    exact .inr ⟨hfits₁, h₁.continueLoop_of_not_fits hp owner _ (m + 1) hretry hfits₁⟩

end CanvasPool

end CommonDrivers.Media
