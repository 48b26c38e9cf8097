import CommonDrivers.Dvb.DmcMem

/-!
# A range of secure memory

The invariant of a range (`DmcRange.Inv`) and what each function does to it. The regions
of a range lie one before the other, and all of them before the free tail, so that a
region that is cut off the tail is apart from all others. The start of the tail is kept
in 32 bits: it wraps around to 0 if the range ends with the address space, but only once
the tail is empty.

What a function does to the buffers in use (`DmcRange.live`) is said up to their order:
a buffer that is got is added to them, and one that is freed is removed.
-/

namespace CommonDrivers.Dvb

open Extent List Option

/-- The addresses of a region. -/
def MemRegion.extent (m : MemRegion) : Extent := ⟨m.startPhy, m.len⟩

namespace DmcRange

/-- The memory of the range, `[buf_start_phy, buf_start_phy + size)`. -/
def extent (r : DmcRange) : Extent := ⟨r.bufStartPhy, r.size⟩

/-- The pages the range is handed out, which it may not fill. -/
def pages (r : DmcRange) : Extent := ⟨r.bufStartPhy, r.bufPageNum * pageSize⟩

/-- The free tail. -/
def tail (r : DmcRange) : Extent := ⟨r.freeStartPhy, r.freeLen⟩

/-- The regions in use. -/
def live (r : DmcRange) : List Extent := (r.regionList.filter (·.status)).map MemRegion.extent

/-- What holds of a range between calls. The tail ends where the range ends, unless it is
    empty: then its start may have wrapped around to 0. -/
structure Inv (r : DmcRange) : Prop where
  ref_eq : r.ref = r.regionList.countP (·.status)
  apart : r.regionList.Pairwise fun m m' => Apart m.extent m'.extent
  pos : ∀ m ∈ r.regionList, 0 < m.len
  within : ∀ m ∈ r.regionList, Within m.extent r.extent
  tail_eq : r.freeLen ≠ 0 → r.freeStartPhy + r.freeLen = r.bufStartPhy + r.size
  le_tail : r.freeLen ≠ 0 → r.bufStartPhy ≤ r.freeStartPhy ∧
    ∀ m ∈ r.regionList, m.startPhy + m.len ≤ r.freeStartPhy
  room : r.regionList.length + r.freeLen ≤ r.size
  end_le : r.bufStartPhy + r.size ≤ 2 ^ 32
  size_lt : r.size < 2 ^ 32
  unused : r.used = false → r.regionList = [] ∧ r.freeLen = 0

variable {r r' : DmcRange} {mm : CodecMm} {w w' : World} {len phys : ℕ} {m : MemRegion}

theorem inv_zeroRange {size : ℕ} (h : size < 2 ^ 32) : (DmcMem.zeroRange size).Inv where
  ref_eq := rfl
  apart := .nil
  pos := by simp [DmcMem.zeroRange]
  within := by simp [DmcMem.zeroRange]
  tail_eq := by simp [DmcMem.zeroRange]
  le_tail := by simp [DmcMem.zeroRange]
  room := by simp [DmcMem.zeroRange]
  end_le := by simpa [DmcMem.zeroRange] using h.le
  size_lt := h
  unused _ := ⟨rfl, rfl⟩

theorem size_le_pages (r : DmcRange) : r.size ≤ r.bufPageNum * pageSize := by
  have : pageSize = 4096 := rfl
  rw [bufPageNum, this]
  omega

/-- The number of regions in use fits in `ref`. -/
theorem Inv.countP_lt (h : r.Inv) : r.regionList.countP (·.status) < 2 ^ 32 := by
  have := countP_le_length (p := fun m : MemRegion => m.status) (l := r.regionList)
  have := h.room
  have := h.size_lt
  omega

/-! ## The regions -/

/-- The region that is found was not in use, and now is. -/
theorem reuse_eq_some {len : ℕ} {l ms : List MemRegion} (h : reuse len l = some (m, ms)) :
    ∃ l₁ l₂, l = l₁ ++ m :: l₂ ∧ ms = l₁ ++ { m with status := true } :: l₂ ∧ m.len = len ∧
      m.status = false := by
  induction l generalizing ms with
  | nil => simp [reuse] at h
  | cons x l ih =>
    rw [reuse] at h
    split at h
    · next hx =>
      cases h
      exact ⟨[], l, rfl, rfl, hx⟩
    obtain ⟨⟨m', ms'⟩, h', heq⟩ := map_eq_some_iff.1 h
    simp only [Prod.mk.injEq] at heq
    obtain ⟨rfl, rfl⟩ := heq
    obtain ⟨l₁, l₂, rfl, rfl, hm⟩ := ih h'
    exact ⟨x :: l₁, l₂, rfl, rfl, hm⟩

theorem release_eq_some {phys : ℕ} {l ms : List MemRegion} (h : release phys l = some ms) :
    ∃ m l₁ l₂, l = l₁ ++ m :: l₂ ∧ ms = l₁ ++ { m with status := false } :: l₂ ∧
      m.startPhy = phys ∧ m.status = true := by
  induction l generalizing ms with
  | nil => simp [release] at h
  | cons x l ih =>
    rw [release] at h
    split at h
    · next hx =>
      cases h
      exact ⟨x, [], l, rfl, rfl, hx⟩
    · obtain ⟨ms', h', rfl⟩ := map_eq_some_iff.1 h
      obtain ⟨m, l₁, l₂, rfl, rfl, hm⟩ := ih h'
      exact ⟨m, x :: l₁, l₂, rfl, rfl, hm⟩

/-- The regions keep their places when the status of one changes. -/
theorem Inv.setStatus (h : r.Inv) {l₁ l₂ : List MemRegion} (hl : r.regionList = l₁ ++ m :: l₂)
    (b : Bool) {ref : ℕ} (href : ref = (l₁ ++ { m with status := b } :: l₂).countP (·.status)) :
    Inv { r with regionList := l₁ ++ { m with status := b } :: l₂, ref := ref } := by
  have hmem {P : MemRegion → Prop} (hP : P m → P { m with status := b })
      (hall : ∀ x ∈ r.regionList, P x) : ∀ x ∈ l₁ ++ { m with status := b } :: l₂, P x := by
    intro x hx
    rw [hl] at hall
    rcases mem_append.1 hx with hx | hx
    · exact hall x (mem_append_left _ hx)
    rcases mem_cons.1 hx with rfl | hx
    · exact hP (hall m (by simp))
    · exact hall x (by simp [hx])
  refine ⟨href, ?_, hmem (fun h => h) h.pos, hmem (fun h => h) h.within, h.tail_eq,
    fun hne => ⟨(h.le_tail hne).1, hmem (fun h => h) (h.le_tail hne).2⟩, ?_, h.end_le, h.size_lt,
    fun hu => ?_⟩
  · have := h.apart
    rw [hl, pairwise_append, pairwise_cons] at this
    rw [pairwise_append, pairwise_cons]
    obtain ⟨h₁, h₂, h₃⟩ := this
    refine ⟨h₁, h₂, fun x hx y hy => ?_⟩
    rcases mem_cons.1 hy with rfl | hy
    · exact h₃ x hx m (by simp)
    · exact h₃ x hx y (by simp [hy])
  · have := h.room
    rw [hl] at this
    simpa using this
  · have := (h.unused hu).1
    rw [hl] at this
    simp at this

/-- `r'` is `r` but for its regions and its tail. -/
def SameMemory (r r' : DmcRange) : Prop :=
  r'.used = r.used ∧ r'.bufStartPhy = r.bufStartPhy ∧ r'.size = r.size

theorem SameMemory.pages_eq (h : SameMemory r r') : r'.pages = r.pages := by
  rw [pages, pages, bufPageNum, bufPageNum, h.2.1, h.2.2]

theorem live_setStatus (l₁ l₂ : List MemRegion) (m : MemRegion) :
    (((l₁ ++ { m with status := true } :: l₂).filter (·.status)).map MemRegion.extent).Perm
      (m.extent :: ((l₁ ++ { m with status := false } :: l₂).filter (·.status)).map
        MemRegion.extent) := by
  simp only [filter_append, filter_cons, Bool.false_eq_true, if_false, if_true,
    map_append, map_cons]
  exact perm_middle

theorem countP_setStatus (l₁ l₂ : List MemRegion) (m : MemRegion) :
    (l₁ ++ { m with status := true } :: l₂).countP (·.status) =
      (l₁ ++ { m with status := false } :: l₂).countP (·.status) + 1 := by
  simp [countP_append, Nat.add_assoc]

/-- A region that is cut off lies in the tail, and leaves the rest of it. -/
theorem Inv.cut (h : r.Inv) (hpos : 0 < len) (hle : len ≤ r.freeLen) (virt : ℕ) :
    (r.cut len virt).Inv := by
  have hne : r.freeLen ≠ 0 := by omega
  have htail := h.tail_eq hne
  obtain ⟨hbuf, hend⟩ := h.le_tail hne
  have hend_le := h.end_le
  have hroom := h.room
  -- The new start of the tail wraps around only if the tail is used up.
  set start := (r.freeStartPhy + len) % 2 ^ 32 with hstart
  set keep := 4096 - start % 4096 with hkeep
  have hcut : (r.cut len virt).freeLen ≠ 0 → r.freeStartPhy + len ≤ (r.cut len virt).freeStartPhy ∧
        (r.cut len virt).freeStartPhy + (r.cut len virt).freeLen = r.bufStartPhy + r.size := by
    intro hne'
    simp only [DmcRange.cut, ← hstart, ← hkeep] at hne' ⊢
    split at hne'
    · next hal =>
      rw [if_pos hal, if_pos hal]
      omega
    · next hal =>
      rw [if_neg hal, if_neg hal]
      omega
  refine ⟨?_, ?_, ?_, ?_, fun hne' => (hcut hne').2, fun hne' => ⟨?_, ?_⟩, ?_, h.end_le, h.size_lt,
    fun hu => absurd (h.unused hu).2 hne⟩
  · change (r.ref + 1) % 2 ^ 32 = countP _ (_ :: _)
    have := h.size_lt
    have := countP_le_length (p := fun m : MemRegion => m.status) (l := r.regionList)
    rw [countP_cons, h.ref_eq, if_pos rfl, Nat.mod_eq_of_lt (by omega)]
  · refine pairwise_cons.2 ⟨fun m hm => .inr (hend m hm), h.apart⟩
  · exact forall_mem_cons.2 ⟨hpos, h.pos⟩
  · refine forall_mem_cons.2 ⟨⟨hbuf, ?_⟩, h.within⟩
    change r.freeStartPhy + len ≤ r.bufStartPhy + r.size
    omega
  · exact hbuf.trans ((Nat.le_add_right _ _).trans (hcut hne').1)
  · refine forall_mem_cons.2 ⟨(hcut hne').1, fun m hm => ?_⟩
    exact (hend m hm).trans ((Nat.le_add_right _ _).trans (hcut hne').1)
  · change r.regionList.length + 1 + _ ≤ r.size
    omega

/-- What `dmc_range_get_block` does, when it finds a buffer. -/
theorem Inv.getBlock (h : r.Inv) (hpos : 0 < len) {b : MemBuf}
    (hget : r.getBlock mm len w = (w', some (r', b))) :
    r'.Inv ∧ SameMemory r r' ∧ r'.live.Perm (⟨b.phys, len⟩ :: r.live) := by
  rw [DmcRange.getBlock] at hget
  split at hget
  · next m ms hreuse =>
    cases hget
    obtain ⟨l₁, l₂, hl, rfl, rfl, hm⟩ := reuse_eq_some hreuse
    have hm' : { m with status := false } = m := by rw [← hm]
    refine ⟨h.setStatus hl true ?_, ⟨rfl, rfl, rfl⟩, ?_⟩
    · have hroom := h.room
      have hsize := h.size_lt
      have hcount := countP_le_length (p := fun m : MemRegion => m.status)
        (l := l₁ ++ { m with status := true } :: l₂)
      rw [hl] at hroom
      rw [countP_setStatus, hm'] at hcount ⊢
      simp only [length_append, length_cons] at hcount hroom
      rw [h.ref_eq, hl, Nat.mod_eq_of_lt (by omega)]
    · have := live_setStatus l₁ l₂ m
      rw [hm', ← hl] at this
      exact this
  · split at hget
    · cases hget
    next hlt =>
    split at hget
    · cases hget
    dsimp only at hget
    split at hget
    · cases hget
    · cases hget
      exact ⟨h.cut hpos (by omega) _, ⟨rfl, rfl, rfl⟩, List.Perm.refl _⟩

/-- The world after `dmc_range_get_block`: only calls were made. -/
theorem getBlock_world {o : Option (DmcRange × MemBuf)} (hget : r.getBlock mm len w = (w', o)) :
    w'.held = w.held ∧ w'.destroyed = w.destroyed := by
  rw [DmcRange.getBlock] at hget
  split at hget
  · cases hget
    exact ⟨rfl, rfl⟩
  dsimp only at hget
  split at hget
  · cases hget
    exact ⟨rfl, rfl⟩
  split at hget
  · cases hget
    exact ⟨rfl, rfl⟩
  · split at hget <;> cases hget <;> exact ⟨rfl, rfl⟩

/-- What `dmc_range_free_block` does, when it finds the buffer. -/
theorem Inv.freeBlock (h : r.Inv) (hfree : r.freeBlock phys = some r') :
    r'.Inv ∧ SameMemory r r' ∧ ∃ e : Extent, e.start = phys ∧ r.live.Perm (e :: r'.live) := by
  obtain ⟨ms, hrel, rfl⟩ := map_eq_some_iff.1 hfree
  obtain ⟨m, l₁, l₂, hl, rfl, rfl, hm⟩ := release_eq_some hrel
  have hm' : { m with status := true } = m := by rw [← hm]
  refine ⟨h.setStatus hl false ?_, ⟨rfl, rfl, rfl⟩, m.extent, rfl, ?_⟩
  · have hlt := h.countP_lt
    have hcount := countP_setStatus l₁ l₂ m
    rw [hm', ← hl] at hcount
    rw [h.ref_eq]
    omega
  · have := live_setStatus l₁ l₂ m
    rw [hm', ← hl] at this
    exact this

/-- What `dmc_range_init` does: the range gets memory that is fresh, and keeps its address, if that
    has 32 bits. -/
theorem Inv.init (h : r.Inv) (hlow : mm.Low) (hpos : 0 < r.size) {level : ℕ}
    (hinit : r.init mm level w = (w', some r')) :
    r'.Inv ∧ r'.used = true ∧ r'.size = r.size ∧ r'.live = [] ∧
      w'.held = r'.pages :: w.held ∧ w'.destroyed = w.destroyed ∧
        ∀ e ∈ w.held, Apart r'.pages e := by
  rw [DmcRange.init] at hinit
  dsimp only at hinit
  split at hinit
  · cases hinit
  next hstart =>
  split at hinit
  · cases hinit
  cases hinit
  have hend := hlow _ _ _ hstart
  have hfresh := mm.fresh _ _ _ hstart
  have hpages := r.size_le_pages
  rw [Nat.mod_eq_of_lt (by omega)]
  refine ⟨⟨rfl, .nil, by simp, by simp, fun _ => rfl, fun _ => ⟨le_rfl, by simp⟩, by simp,
    ?_, h.size_lt, by simp⟩, rfl, rfl, rfl, rfl, rfl, hfresh⟩
  exact (Nat.add_le_add_left hpages _).trans hend

/-- If it fails, no memory is kept. -/
theorem init_none {level : ℕ} (hinit : r.init mm level w = (w', none)) :
    w'.held = w.held ∧ w'.destroyed = w.destroyed := by
  rw [DmcRange.init] at hinit
  dsimp only at hinit
  split at hinit
  · cases hinit
    exact ⟨rfl, rfl⟩
  split at hinit
  · cases hinit
    exact ⟨by simp [World.freeForDma, World.tick], rfl⟩
  · cases hinit

theorem Inv.live_eq_nil (h : r.Inv) (href : r.ref = 0) : r.live = [] := by
  rw [h.ref_eq, countP_eq_zero] at href
  rw [live, filter_eq_nil_iff.2 href, map_nil]

/-- A range that has no buffer is destroyed, and could be initialised anew. -/
theorem Inv.destroy (h : r.Inv) (href : r.ref = 0) :
    (r.destroy w).2.Inv ∧ (r.destroy w).2.used = false ∧ (r.destroy w).2.live = [] := by
  rw [DmcRange.destroy]
  split
  · refine ⟨⟨href, .nil, by simp, by simp, by simp, by simp, by simp, ?_, h.size_lt,
      fun _ => ⟨rfl, rfl⟩⟩, rfl, rfl⟩
    simpa using h.size_lt.le
  · next hu => exact ⟨h, by simpa using hu, h.live_eq_nil href⟩

theorem Inv.mem_live (h : r.Inv) {e : Extent} (he : e ∈ r.live) :
    r.used = true ∧ 0 < e.len ∧ Within e r.pages := by
  obtain ⟨m, hm, rfl⟩ := mem_map.1 he
  have hm := (mem_filter.1 hm).1
  refine ⟨?_, h.pos m hm, (h.within m hm).trans ⟨le_rfl, ?_⟩⟩
  · by_contra hu
    rw [(h.unused (by simpa using hu)).1] at hm
    exact not_mem_nil hm
  · exact Nat.add_le_add_left r.size_le_pages _

theorem Inv.live_apart (h : r.Inv) : r.live.Pairwise Apart := pairwise_map.2 (h.apart.filter _)

end DmcRange

end CommonDrivers.Dvb
