import CommonDrivers.Dvb.DmcRange

/-!
# The safety of the secure memory

The ranges of a level (`Ranges`) have memory of their own, which is handed out to them.
`dmc_mem_malloc` only adds fresh memory to it (`Extends`), and `dmc_mem_free` gives back
only memory of its level (`DmcMem.Kept`), so what holds of one level is not disturbed by
the others (`DmcState.Inv.setLevel`).

`DmcState.memory_safe` draws the conclusion for every sequence of calls, on any levels:
no two buffers overlap, and none is given back while it is in use. It asks that the memory
lies below 4 GiB, as its addresses are kept in 32 bits: a buffer above may be taken for
one below (`DmcState.memory_unsafe_high`).
-/

namespace CommonDrivers.Dvb

open Extent Function
open List hiding Disjoint

/-! ## The ranges of a level -/

/-- The buffers in use of some ranges. -/
def liveOf (rs : List DmcRange) : List Extent := rs.flatMap DmcRange.live

/-- What holds of the ranges of a level, when `held` is handed out: each one that is in use
    has memory of its own. -/
structure Ranges (held : List Extent) (rs : List DmcRange) : Prop where
  inv : ∀ r ∈ rs, r.Inv
  size_pos : ∀ r ∈ rs, r.used = true → 0 < r.size
  mem_held : ∀ r ∈ rs, r.used = true → r.pages ∈ held
  apart : rs.Pairwise fun r r' => r.used = true → r'.used = true → Apart r.pages r'.pages

/-- The memory of a range is known already, or fresh. -/
def Known (held : List Extent) (rs : List DmcRange) (r' : DmcRange) : Prop :=
  (∃ r ∈ rs, r.used = true ∧ r.pages = r'.pages) ∨ ∀ e ∈ held, Apart r'.pages e

/-- From the ranges `rs` to `rs'` only fresh memory is added, and none is given back. -/
structure Extends (held : List Extent) (rs : List DmcRange) (held' : List Extent)
    (rs' : List DmcRange) : Prop where
  ranges : Ranges held' rs'
  mono : held ⊆ held'
  known : ∀ r' ∈ rs', r'.used = true → Known held rs r'

section Extends

variable {held held' held'' : List Extent} {rs rs' rs'' : List DmcRange} {r r' : DmcRange}

theorem Ranges.nil : Ranges held [] := ⟨by simp, by simp, by simp, .nil⟩

theorem ranges_cons : Ranges held (r :: rs) ↔
    r.Inv ∧ (r.used = true → 0 < r.size ∧ r.pages ∈ held) ∧ Ranges held rs ∧
      ∀ r' ∈ rs, r.used = true → r'.used = true → Apart r.pages r'.pages := by
  constructor
  · intro h
    obtain ⟨hinv, hinv'⟩ := forall_mem_cons.1 h.inv
    obtain ⟨hsize, hsize'⟩ := forall_mem_cons.1 h.size_pos
    obtain ⟨hheld, hheld'⟩ := forall_mem_cons.1 h.mem_held
    obtain ⟨hapart, hapart'⟩ := pairwise_cons.1 h.apart
    exact ⟨hinv, fun hu => ⟨hsize hu, hheld hu⟩, ⟨hinv', hsize', hheld', hapart'⟩, hapart⟩
  · rintro ⟨hinv, hused, h, hapart⟩
    exact ⟨forall_mem_cons.2 ⟨hinv, h.inv⟩,
      forall_mem_cons.2 ⟨fun hu => (hused hu).1, h.size_pos⟩,
      forall_mem_cons.2 ⟨fun hu => (hused hu).2, h.mem_held⟩,
      pairwise_cons.2 ⟨hapart, h.apart⟩⟩

theorem Extends.refl (h : Ranges held rs) : Extends held rs held rs :=
  ⟨h, fun _ he => he, fun r hr hu => .inl ⟨r, hr, hu, rfl⟩⟩

theorem Extends.trans (h : Extends held rs held' rs') (h' : Extends held' rs' held'' rs'') :
    Extends held rs held'' rs'' := by
  refine ⟨h'.ranges, fun e he => h'.mono (h.mono he), fun r'' hr'' hu'' => ?_⟩
  rcases h'.known r'' hr'' hu'' with ⟨r', hr', hu', hpages⟩ | hfresh
  · rcases h.known r' hr' hu' with ⟨r, hr, hu, hpages'⟩ | hfresh
    · exact .inl ⟨r, hr, hu, hpages'.trans hpages⟩
    · exact .inr (hpages ▸ hfresh)
  · exact .inr fun e he => hfresh e (h.mono he)

/-- The ranges after one may change by themselves. -/
theorem Extends.cons (h : Ranges held (r :: rs)) (h' : Extends held rs held' rs') :
    Extends held (r :: rs) held' (r :: rs') := by
  obtain ⟨hinv, hused, -, hapart⟩ := ranges_cons.1 h
  refine ⟨ranges_cons.2 ⟨hinv, fun hu => ⟨(hused hu).1, h'.mono (hused hu).2⟩, h'.ranges,
    fun r' hr' hu hu' => ?_⟩, h'.mono, forall_mem_cons.2 ⟨fun hu => ?_, fun r' hr' hu' => ?_⟩⟩
  · rcases h'.known r' hr' hu' with ⟨q, hq, huq, hpages⟩ | hfresh
    · exact hpages ▸ hapart q hq hu huq
    · exact (hfresh _ (hused hu).2).symm
  · exact .inl ⟨r, mem_cons_self, hu, rfl⟩
  · exact (h'.known r' hr' hu').imp_left fun ⟨q, hq, hpages⟩ =>
      ⟨q, mem_cons_of_mem _ hq, hpages⟩

/-- A range that keeps its memory. -/
theorem Extends.sameMemory (h : Ranges held (r :: rs)) (hinv : r'.Inv)
    (hsame : DmcRange.SameMemory r r') : Extends held (r :: rs) held (r' :: rs) := by
  obtain ⟨-, hused, hrs, hapart⟩ := ranges_cons.1 h
  have hpages := hsame.pages_eq
  refine ⟨ranges_cons.2 ⟨hinv, ?_, hrs, ?_⟩, fun _ he => he,
    forall_mem_cons.2 ⟨fun hu => ?_, fun q hq hu => ?_⟩⟩
  · rw [hsame.1, hsame.2.2, hpages]
    exact hused
  · rw [hsame.1, hpages]
    exact hapart
  · exact .inl ⟨r, mem_cons_self, hsame.1 ▸ hu, hpages.symm⟩
  · exact .inl ⟨q, mem_cons_of_mem _ hq, hu, rfl⟩

/-- A range that gets fresh memory. -/
theorem Extends.fresh (h : Ranges held (r :: rs)) (hinv : r'.Inv) (hsize : 0 < r'.size)
    (hfresh : ∀ e ∈ held, Apart r'.pages e) :
    Extends held (r :: rs) (r'.pages :: held) (r' :: rs) := by
  obtain ⟨-, -, hrs, -⟩ := ranges_cons.1 h
  refine ⟨ranges_cons.2 ⟨hinv, fun _ => ⟨hsize, mem_cons_self⟩,
      ⟨hrs.inv, hrs.size_pos, fun q hq hu => mem_cons_of_mem _ (hrs.mem_held q hq hu),
        hrs.apart⟩, fun q hq _ hu => hfresh _ (hrs.mem_held q hq hu)⟩,
    subset_cons_self _ _, forall_mem_cons.2 ⟨fun _ => .inr hfresh, fun q hq hu => ?_⟩⟩
  exact .inl ⟨q, mem_cons_of_mem _ hq, hu, rfl⟩

/-- The buffers of the ranges lie in memory that is handed out. -/
theorem Ranges.mem_liveOf (h : Ranges held rs) {e : Extent} (he : e ∈ liveOf rs) :
    0 < e.len ∧ ∃ r ∈ rs, r.used = true ∧ Within e r.pages := by
  obtain ⟨r, hr, he⟩ := mem_flatMap.1 he
  obtain ⟨hu, hpos, hwithin⟩ := (h.inv r hr).mem_live he
  exact ⟨hpos, r, hr, hu, hwithin⟩

theorem Ranges.liveOf_apart (h : Ranges held rs) : (liveOf rs).Pairwise Apart := by
  refine pairwise_flatMap.2 ⟨fun r hr => (h.inv r hr).live_apart, ?_⟩
  refine h.apart.imp_of_mem fun {r r'} hr hr' hapart e he e' he' => ?_
  obtain ⟨hu, -, hwithin⟩ := (h.inv r hr).mem_live he
  obtain ⟨hu', -, hwithin'⟩ := (h.inv r' hr').mem_live he'
  exact (hapart hu hu').mono hwithin hwithin'

/-- Where no memory is added, all memory is known. -/
theorem Extends.exists_pages_eq (h : Extends held rs held rs') (hr' : r' ∈ rs')
    (hu' : r'.used = true) : ∃ r ∈ rs, r.used = true ∧ r.pages = r'.pages := by
  rcases h.known r' hr' hu' with h' | hfresh
  · exact h'
  · have hpos := (h.ranges.size_pos r' hr' hu').trans_le r'.size_le_pages
    exact absurd rfl ((hfresh _ (h.ranges.mem_held r' hr' hu')).start_ne hpos hpos)

end Extends

namespace DmcMem

variable {mm : CodecMm} {w : World} {rs : List DmcRange} {len : ℕ} {r : DmcRange}

theorem ready_some (hlow : mm.Low) {level : ℕ} {r r' : DmcRange} {w' : World}
    (h : Ranges w.held (r :: rs)) (hready : ready mm level r w = (w', some r')) :
    Extends w.held (r :: rs) w'.held (r' :: rs) ∧ w'.destroyed = w.destroyed ∧
      r'.live = r.live := by
  obtain ⟨hinv, -⟩ := ranges_cons.1 h
  rw [ready] at hready
  split at hready
  · next hr =>
    have hpos := Nat.pos_of_ne_zero hr.2
    obtain ⟨hinv', -, hsize, hlive, hheld, hdes, hfresh⟩ := hinv.init hlow hpos hready
    have hlive' : r.live = [] := by
      rw [DmcRange.live, (hinv.unused hr.1).1, filter_nil, map_nil]
    rw [hheld, hlive, hlive']
    exact ⟨.fresh h hinv' (hsize ▸ hpos) hfresh, hdes, rfl⟩
  · cases hready
    exact ⟨.refl h, rfl, rfl⟩

theorem ready_none {level : ℕ} {w' : World} (hready : ready mm level r w = (w', none)) :
    w'.held = w.held ∧ w'.destroyed = w.destroyed := by
  rw [ready] at hready
  split at hready
  · exact DmcRange.init_none hready
  · cases hready

/-- What the loop of `dmc_mem_get_block` does: the buffer that is got, if any, is a new
    one. -/
theorem getBlockLoop_spec (hlow : mm.Low) (level : ℕ) (hpos : 0 < len) (rs : List DmcRange) :
    ∀ {w}, Ranges w.held rs → Extends w.held rs (getBlockLoop mm level len rs w).1.held
          (getBlockLoop mm level len rs w).2.1 ∧
        (getBlockLoop mm level len rs w).1.destroyed = w.destroyed ∧
        (liveOf (getBlockLoop mm level len rs w).2.1).Perm
          ((getBlockLoop mm level len rs w).2.2.toList.map (⟨·.phys, len⟩) ++ liveOf rs) := by
  induction rs with
  | nil => exact fun h => ⟨.refl h, rfl, .refl _⟩
  | cons r rs ih =>
    intro w h
    rw [getBlockLoop]
    rcases hready : ready mm level r w with ⟨w₁, _ | r₁⟩
    · obtain ⟨hheld, hdes⟩ := ready_none hready
      rw [hheld]
      exact ⟨.refl h, hdes, .refl _⟩
    obtain ⟨h₁, hdes₁, hlive₁⟩ := ready_some hlow h hready
    obtain ⟨hinv₁, -, hrs, -⟩ := ranges_cons.1 h₁.ranges
    dsimp only
    rcases hget : r₁.getBlock mm len w₁ with ⟨w₂, _ | ⟨r₂, b⟩⟩
    · -- The range has no room for the buffer: it is looked for in the next one.
      obtain ⟨hheld₂, hdes₂⟩ := DmcRange.getBlock_world hget
      obtain ⟨h₃, hdes₃, hlive₃⟩ := ih (w := w₂) (hheld₂ ▸ hrs)
      refine ⟨h₁.trans (.cons h₁.ranges (hheld₂ ▸ h₃)), hdes₃.trans (hdes₂.trans hdes₁), ?_⟩
      simp only [liveOf, flatMap_cons, hlive₁] at hlive₃ ⊢
      refine (hlive₃.append_left _).trans ?_
      rw [← append_assoc, ← append_assoc]
      exact perm_append_comm.append_right _
    · obtain ⟨hheld₂, hdes₂⟩ := DmcRange.getBlock_world hget
      obtain ⟨hinv₂, hsame, hlive₂⟩ := hinv₁.getBlock hpos hget
      rw [hheld₂]
      refine ⟨h₁.trans (.sameMemory h₁.ranges hinv₂ hsame), hdes₂.trans hdes₁, ?_⟩
      rw [hlive₁] at hlive₂
      exact hlive₂.append_right _

/-! ### Freeing -/

/-- What the loop of `dmc_mem_free_block` does, when it finds the buffer. -/
theorem freeBlockLoop_spec {held : List Extent} {phys : ℕ} {q : DmcRange} :
    ∀ {rs rs' : List DmcRange}, Ranges held rs → freeBlockLoop phys rs = some (rs', q) →
      Extends held rs held rs' ∧
        ∃ e : Extent, e.start = phys ∧ (liveOf rs).Perm (e :: liveOf rs') := by
  intro rs
  induction rs with
  | nil =>
    intro rs' _ hfree
    cases hfree
  | cons r rs ih =>
    intro rs' h hfree
    obtain ⟨hinv, -, hrs, -⟩ := ranges_cons.1 h
    rw [freeBlockLoop] at hfree
    split at hfree
    · next r' hr =>
      cases hfree
      split at hr
      · obtain ⟨hinv', hsame, e, he, hlive⟩ := hinv.freeBlock hr
        refine ⟨.sameMemory h hinv' hsame, e, he, ?_⟩
        exact hlive.append_right _
      · cases hr
    · obtain ⟨⟨rs₁, q₁⟩, hrec, heq⟩ := Option.map_eq_some_iff.1 hfree
      cases heq
      obtain ⟨h₁, e, he, hlive⟩ := ih hrs hrec
      refine ⟨.cons h h₁, e, he, ?_⟩
      exact (hlive.append_left _).trans perm_middle

/-- Only memory of the ranges `rs` is given back. -/
def Kept (held : List Extent) (rs : List DmcRange) (held' : List Extent) : Prop :=
  ∀ e ∈ held, e ∈ held' ∨ ∃ r ∈ rs, r.used = true ∧ r.bufStartPhy = e.start

theorem Kept.refl (held : List Extent) (rs : List DmcRange) : Kept held rs held :=
  fun _ he => .inl he

theorem pages_pos (h : 0 < r.size) : 0 < r.pages.len := h.trans_le r.size_le_pages

/-- Memory apart from that of `rs` is not given back. -/
theorem Kept.mem {held held' : List Extent} (h : Kept held rs held') {e : Extent}
    (he : e ∈ held) (hpos : 0 < e.len) (hsize : ∀ r ∈ rs, r.used = true → 0 < r.size)
    (hapart : ∀ r ∈ rs, r.used = true → Apart e r.pages) : e ∈ held' := by
  rcases h e he with h | ⟨r, hr, hu, hstart⟩
  · exact h
  · exact absurd hstart.symm ((hapart r hr hu).start_ne hpos (pages_pos (hsize r hr hu)))

/-- What the loop of `dmc_mem_destroy` does: the ranges without a buffer are destroyed. -/
theorem destroyLoop_spec (rs : List DmcRange) : ∀ {w : World}, Ranges w.held rs →
      Ranges (destroyLoop rs w).1.held (destroyLoop rs w).2 ∧
        Kept w.held rs (destroyLoop rs w).1.held ∧
        (∀ r ∈ (destroyLoop rs w).2, r.used = true → r ∈ rs) ∧
        liveOf (destroyLoop rs w).2 = liveOf rs ∧
        ∀ d ∈ (destroyLoop rs w).1.destroyed, d ∈ w.destroyed ∨ d ∈ rs ∧ d.ref = 0 := by
  induction rs with
  | nil => exact fun h => ⟨h, .refl _ _, by simp [destroyLoop], rfl, fun d hd => .inl hd⟩
  | cons r rs ih =>
    intro w h
    obtain ⟨hinv, hused, hrs, hapart⟩ := ranges_cons.1 h
    rw [destroyLoop]
    by_cases href : r.ref = 0
    · -- the range is destroyed, and its buffer is no longer held
      obtain ⟨hinv₁, hunused, hlive₁⟩ := hinv.destroy (w := w) href
      have hkept₁ : ∀ e ∈ w.held, e ∈ (r.destroy w).1.held ∨
          (r.used = true ∧ r.bufStartPhy = e.start) := by
        intro e he
        rw [DmcRange.destroy]
        split
        · next hu =>
          by_cases hstart : r.bufStartPhy = e.start
          · exact .inr ⟨hu, hstart⟩
          · refine .inl ((mem_eraseP_of_neg ?_).2 he)
            simpa using fun heq => hstart heq.symm
        · exact .inl he
      have hrs₁ : Ranges (r.destroy w).1.held rs := by
        refine ⟨hrs.inv, hrs.size_pos, fun q hq hu => ?_, hrs.apart⟩
        rcases hkept₁ _ (hrs.mem_held q hq hu) with h | ⟨hur, hstart⟩
        · exact h
        · exact absurd hstart ((hapart q hq hur hu).start_ne (pages_pos (hused hur).1)
            (pages_pos (hrs.size_pos q hq hu)))
      obtain ⟨h₂, hkept₂, hmem, hlive, hdes⟩ := ih hrs₁
      rw [if_pos href]
      refine ⟨ranges_cons.2 ⟨hinv₁, by simp [hunused], h₂, by simp [hunused]⟩, fun e he => ?_,
        forall_mem_cons.2 ⟨by simp [hunused], fun q hq hu =>
          mem_cons_of_mem _ (hmem q hq hu)⟩, ?_, fun d hd => ?_⟩
      · rcases hkept₁ e he with he | ⟨hu, hstart⟩
        · exact (hkept₂ e he).imp_right (.imp fun q => .imp_left (mem_cons_of_mem _))
        · exact .inr ⟨r, mem_cons_self, hu, hstart⟩
      · simp only [liveOf, flatMap_cons] at hlive ⊢
        rw [hlive, hlive₁, hinv.live_eq_nil href]
      rcases hdes d hd with hd | ⟨hd, hd0⟩
      · rw [DmcRange.destroy] at hd
        split at hd
        · rcases mem_cons.1 hd with rfl | hd
          · exact .inr ⟨mem_cons_self, href⟩
          · exact .inl hd
        · exact .inl hd
      · exact .inr ⟨mem_cons_of_mem _ hd, hd0⟩
    · -- the range stays, and the buffers of the others are not its own
      obtain ⟨h₂, hkept₂, hmem, hlive, hdes⟩ := ih hrs
      rw [if_neg href]
      refine ⟨ranges_cons.2 ⟨hinv, fun hu => ⟨(hused hu).1, ?_⟩, h₂, fun q hq hu huq =>
          hapart q (hmem q hq huq) hu huq⟩, fun e he => ?_,
        forall_mem_cons.2 ⟨fun _ => mem_cons_self, fun q hq hu =>
          mem_cons_of_mem _ (hmem q hq hu)⟩, ?_, fun d hd => ?_⟩
      · exact hkept₂.mem (hused hu).2 (pages_pos (hused hu).1) hrs.size_pos fun q hq huq =>
          hapart q hq hu huq
      · exact (hkept₂ e he).imp_right (.imp fun q => .imp_left (mem_cons_of_mem _))
      · simp only [liveOf, flatMap_cons] at hlive ⊢
        rw [hlive]
      · exact (hdes d hd).imp_right (.imp_left (mem_cons_of_mem _))

end DmcMem

/-- What holds of a level, when `held` is handed out and the buffers `live` are not freed. -/
structure DmcMem.Inv (held : List Extent) (mem : DmcMem) (live : List Extent) : Prop where
  ranges : Ranges held mem.range
  range_eq_nil : mem.init = false → mem.range = []
  totalSize_lt : mem.totalSize < 2 ^ 32
  live_perm : live.Perm (liveOf mem.range)

namespace DmcMem

variable {mm : CodecMm} {mem mem' : DmcMem} {w w' : World} {live : List Extent} {len : ℕ}
  {secLevel : ℕ}

theorem rangeSizes_lt {t : ℕ} (h : t < 2 ^ 32) :
    (rangeSizes t).1 < 2 ^ 32 ∧ (rangeSizes t).2 < 2 ^ 32 := by
  rw [rangeSizes, dmcMemDefaultSize]
  split_ifs <;> constructor <;> dsimp only <;> omega

theorem Inv.memReady_some (h : mem.Inv w.held live)
    (hready : mem.memReady mm secLevel w = (w', some mem')) :
    mem'.Inv w'.held live ∧ mem'.init = true ∧ w'.destroyed = w.destroyed ∧
      Extends w.held mem.range w'.held mem'.range := by
  rw [memReady] at hready
  split at hready
  · next hinit =>
    cases hready
    exact ⟨h, hinit, rfl, .refl h.ranges⟩
  next hinit =>
  have hnil := h.range_eq_nil (by simpa using hinit)
  rw [memInit] at hready
  split at hready
  · cases hready
  cases hready
  obtain ⟨h₁, h₂⟩ := rangeSizes_lt h.totalSize_lt
  have hranges : Ranges w.held
      [zeroRange (rangeSizes mem.totalSize).1, zeroRange (rangeSizes mem.totalSize).2] :=
    ranges_cons.2 ⟨DmcRange.inv_zeroRange h₁, by simp [zeroRange], ranges_cons.2
      ⟨DmcRange.inv_zeroRange h₂, by simp [zeroRange], .nil, by simp⟩, by simp [zeroRange]⟩
  refine ⟨⟨hranges, by simp, h.totalSize_lt, ?_⟩, rfl, rfl, hranges, fun _ he => he,
    by simp [zeroRange]⟩
  have hlive := h.live_perm
  rw [hnil] at hlive
  simpa [liveOf, DmcRange.live, zeroRange] using hlive

theorem memReady_none (hready : mem.memReady mm secLevel w = (w', none)) :
    w'.held = w.held ∧ w'.destroyed = w.destroyed := by
  rw [memReady] at hready
  split at hready
  · cases hready
  · rw [memInit] at hready
    split at hready <;> cases hready
    exact ⟨rfl, rfl⟩

theorem Inv.getBlock (h : mem.Inv w.held live) (hlow : mm.Low) (hinit : mem.init = true)
    (hpos : 0 < len) : (mem.getBlock mm len w).2.1.Inv (mem.getBlock mm len w).1.held
        ((mem.getBlock mm len w).2.2.toList.map (⟨·.phys, len⟩) ++ live) ∧
      (mem.getBlock mm len w).1.destroyed = w.destroyed ∧
      Extends w.held mem.range (mem.getBlock mm len w).1.held
        (mem.getBlock mm len w).2.1.range := by
  obtain ⟨hext, hdes, hlive⟩ := getBlockLoop_spec hlow mem.level hpos mem.range h.ranges
  refine ⟨⟨hext.ranges, fun hf => ?_, h.totalSize_lt, ?_⟩, hdes, hext⟩
  · cases hinit.symm.trans hf
  · exact (h.live_perm.append_left _).trans hlive.symm

/-- The buffers that live after the one at `phys` is freed. -/
theorem eraseP_perm {rs rs' : List DmcRange} (h : Ranges w.held rs)
    (hlive : live.Perm (liveOf rs)) {e : Extent} (hperm : (liveOf rs).Perm (e :: liveOf rs')) :
    (live.eraseP (·.start = e.start)).Perm (liveOf rs') := by
  have hpair : (liveOf rs).Pairwise fun a b =>
      decide (a.start = e.start) = true → decide (b.start = e.start) = true → False := by
    refine h.liveOf_apart.imp_of_mem fun {a b} ha hb hapart hae hbe => ?_
    refine hapart.start_ne (h.mem_liveOf ha).1 (h.mem_liveOf hb).1 ?_
    exact (of_decide_eq_true hae).trans (of_decide_eq_true hbe).symm
  refine (List.Perm.eraseP _ ?_ (hlive.trans hperm)).trans ?_
  · refine (Perm.pairwise_iff ?_ hlive).2 hpair
    exact fun hab hb ha => hab ha hb
  · rw [eraseP_cons_of_pos (by simp)]

/-- What `dmc_mem_free_block` does, when it finds the buffer: memory of the level may be
    given back, if no buffer is left in it. -/
theorem Inv.freeBlock (h : mem.Inv w.held live) (hinit : mem.init = true) {phys : ℕ}
    {keepAlive : Bool} (hfree : mem.freeBlock phys keepAlive w = some (w', mem')) :
    mem'.Inv w'.held (live.eraseP (·.start = phys)) ∧
      (∀ r ∈ mem'.range, r.used = true → Known w.held mem.range r) ∧ Kept w.held mem.range w'.held ∧
      ∀ d ∈ w'.destroyed, d ∈ w.destroyed ∨ d.ref = 0 ∧ d.live = [] := by
  obtain ⟨⟨rs, q⟩, hloop, heq⟩ := Option.map_eq_some_iff.1 hfree
  obtain ⟨hext, e, rfl, hperm⟩ := freeBlockLoop_spec h.ranges hloop
  have hlive := eraseP_perm h.ranges h.live_perm hperm
  split at heq
  · -- The range has no buffer left.
    obtain ⟨hranges, hkept, hmem, hlive', hdes⟩ := destroyLoop_spec rs hext.ranges
    have hkept' : Kept w.held mem.range (destroyLoop rs w).1.held := by
      intro a ha
      refine (hkept a ha).imp_right fun ⟨r', hr', hu', hstart⟩ => ?_
      obtain ⟨r, hr, hu, hpages⟩ := hext.exists_pages_eq hr' hu'
      exact ⟨r, hr, hu, (congrArg Extent.start hpages).trans hstart⟩
    have hdes' : ∀ d ∈ (destroyLoop rs w).1.destroyed,
        d ∈ w.destroyed ∨ d.ref = 0 ∧ d.live = [] := fun d hd =>
      (hdes d hd).imp_right fun ⟨hd, hd0⟩ => ⟨hd0, (hext.ranges.inv d hd).live_eq_nil hd0⟩
    rw [destroy] at heq
    split at heq
    · cases heq
      exact ⟨⟨hranges, fun hf => absurd (hinit.symm.trans hf) (by simp), h.totalSize_lt,
        hlive' ▸ hlive⟩, fun r hr hu => hext.known r (hmem r hr hu) hu, hkept', hdes'⟩
    next hany =>
    cases heq
    have hnil : liveOf (destroyLoop rs w).2 = [] := by
      refine eq_nil_iff_forall_not_mem.2 fun a ha => hany ?_
      obtain ⟨-, r, hr, hu, -⟩ := hranges.mem_liveOf ha
      exact any_eq_true.2 ⟨r, hr, hu⟩
    refine ⟨⟨.nil, fun _ => rfl, h.totalSize_lt, ?_⟩, by simp, hkept', hdes'⟩
    rwa [← hlive', hnil] at hlive
  · cases heq
    exact ⟨⟨hext.ranges, fun hf => absurd (hinit.symm.trans hf) (by simp), h.totalSize_lt, hlive⟩,
      hext.known, .refl _ _, fun d hd => .inl hd⟩

end DmcMem

/-! ## All levels -/

namespace DmcState

/-- What holds between calls: the levels have memory of their own, and what is given back
    was not in use. -/
structure Inv (s : DmcState) : Prop where
  level : ∀ i, (s.dmcMemLevel i).Inv s.world.held (s.live i)
  apart : ∀ i j, i ≠ j → ∀ r ∈ (s.dmcMemLevel i).range, ∀ q ∈ (s.dmcMemLevel j).range,
    r.used = true → q.used = true → Apart r.pages q.pages
  destroyed : ∀ d ∈ s.world.destroyed, d.ref = 0 ∧ d.live = []

variable {mm : CodecMm} {s : DmcState} {i : ℕ} {mem : DmcMem} {w : World}

theorem inv_start : start.Inv :=
  ⟨fun _ => ⟨.nil, fun _ => rfl, by simp [start], .refl _⟩, by simp [start], by simp [start]⟩

/-- Calls of the kernel that change nothing. -/
theorem Inv.setWorld (h : s.Inv) (hheld : w.held = s.world.held)
    (hdes : w.destroyed = s.world.destroyed) : Inv { s with world := w } :=
  ⟨fun i => hheld ▸ h.level i, h.apart, fun d hd => h.destroyed d (hdes ▸ hd)⟩

/-- A level may change if it adds only fresh memory, and gives back only its own. -/
theorem Inv.setLevel (h : s.Inv) {live : List Extent} (hmem : mem.Inv w.held live)
    (hknown : ∀ r ∈ mem.range, r.used = true → Known s.world.held (s.dmcMemLevel i).range r)
    (hkept : DmcMem.Kept s.world.held (s.dmcMemLevel i).range w.held)
    (hdes : ∀ d ∈ w.destroyed, d.ref = 0 ∧ d.live = []) :
    Inv { s.setLevel i mem w with live := Function.update s.live i live } := by
  have hold {j : ℕ} (hj : j ≠ i) : (s.setLevel i mem w).dmcMemLevel j = s.dmcMemLevel j :=
    update_of_ne hj _ _
  have hnew : (s.setLevel i mem w).dmcMemLevel i = mem := update_self _ _ _
  have hapart : ∀ r ∈ mem.range, ∀ j ≠ i, ∀ q ∈ (s.dmcMemLevel j).range, r.used = true →
      q.used = true → Apart r.pages q.pages := by
    intro r hr j hj q hq hu huq
    rcases hknown r hr hu with ⟨r', hr', hu', hpages⟩ | hfresh
    · exact hpages ▸ h.apart i j hj.symm r' hr' q hq hu' huq
    · exact hfresh _ ((h.level j).ranges.mem_held q hq huq)
  refine ⟨fun j => ?_, fun j k hjk => ?_, hdes⟩
  · change ((s.setLevel i mem w).dmcMemLevel j).Inv w.held (Function.update s.live i live j)
    by_cases hj : j = i
    · subst hj
      rwa [hnew, update_self]
    rw [hold hj, update_of_ne hj]
    obtain ⟨hr, hnil, hsize, hlive⟩ := h.level j
    refine ⟨⟨hr.inv, hr.size_pos, fun r hr' hu => ?_, hr.apart⟩, hnil, hsize, hlive⟩
    exact hkept.mem (hr.mem_held r hr' hu) (DmcMem.pages_pos (hr.size_pos r hr' hu))
      (h.level i).ranges.size_pos fun q hq huq => h.apart j i hj r hr' q hq hu huq
  · by_cases hj : j = i
    · subst hj
      rw [hnew, hold hjk.symm]
      exact fun r hr => hapart r hr k hjk.symm
    rw [hold hj]
    by_cases hk : k = i
    · subst hk
      rw [hnew]
      exact fun r hr q hq hu huq => (hapart q hq j hj r hr huq hu).symm
    · rw [hold hk]
      exact h.apart j k hjk

/-! ### `dmc_mem_malloc` -/

theorem Inv.malloc (h : s.Inv) (hlow : mm.Low) (secLevel : ℤ) {len : ℕ} (hpos : 0 < len) :
    (s.malloc mm secLevel len).Inv := by
  rw [DmcState.malloc, memMalloc]
  dsimp only
  split_ifs with hidx
  · exact h
  rcases hready : (s.dmcMemLevel (secLevel - 1).toNat).memReady mm secLevel.toNat s.world with
    ⟨w, _ | mem⟩
  · obtain ⟨hheld, hdes⟩ := DmcMem.memReady_none hready
    exact h.setWorld hheld hdes
  obtain ⟨hmem, hinit, hdes, hext⟩ := (h.level _).memReady_some hready
  obtain ⟨hmem', hdes', hext'⟩ := hmem.getBlock hlow hinit hpos
  have hext := hext.trans hext'
  have hset := h.setLevel hmem' hext.known (fun e he => .inl (hext.mono he)) fun d hd =>
    h.destroyed d (hdes ▸ hdes' ▸ hd)
  cases hb : (mem.getBlock mm len w).2.2 with
  | none | some =>
    simpa [hb, DmcState.setLevel] using hset

/-! ### `dmc_mem_free` and `dmc_mem_set_size` -/

theorem Inv.free (h : s.Inv) (buf : ℕ) (secLevel : ℤ) (keepAlive : Bool) :
    (s.free buf secLevel keepAlive).Inv := by
  rw [DmcState.free, memFree]
  dsimp only
  split_ifs with hidx hinit
  · exact h
  · exact h
  rcases hfree : (s.dmcMemLevel (secLevel - 1).toNat).freeBlock buf keepAlive s.world with
    _ | ⟨w, mem⟩
  · exact h
  · obtain ⟨hmem, hknown, hkept, hdes⟩ := (h.level _).freeBlock (by simpa using hinit) hfree
    exact h.setLevel hmem hknown hkept fun d hd => (hdes d hd).elim (h.destroyed d) id

theorem Inv.memSetSize (h : s.Inv) (secLevel : ℤ) {memSize : ℕ} (hlt : memSize < 2 ^ 32) :
    (s.memSetSize secLevel memSize).Inv := by
  rw [DmcState.memSetSize]
  dsimp only
  split_ifs with hidx hinit
  · exact h
  · exact h
  obtain ⟨hranges, hnil, -, hlive⟩ := h.level (secLevel - 1).toNat
  have hmem : DmcMem.Inv s.world.held
      { s.dmcMemLevel (secLevel - 1).toNat with
        totalSize := memSize / (64 * 1024) * (64 * 1024) } (s.live (secLevel - 1).toNat) :=
    ⟨hranges, hnil, by dsimp only; omega, hlive⟩
  have hset := h.setLevel hmem (Extends.refl hranges).known (.refl _ _) h.destroyed
  simpa [DmcState.setLevel] using hset

theorem Reachable.inv (h : Reachable mm s) (hlow : mm.Low) : s.Inv := by
  induction h with
  | start => exact inv_start
  | malloc _ secLevel pos _ ih => exact ih.malloc hlow secLevel pos
  | free _ buf secLevel keepAlive ih => exact ih.free buf secLevel keepAlive
  | setSize _ secLevel lt ih => exact ih.memSetSize secLevel lt

end DmcState

/-! ## Safety -/

/-- The regions of a range do not get into each other's way, nor into that of the tail. -/
structure DmcRange.Sound (r : DmcRange) : Prop where
  disjoint : (r.regionList.filter (·.status)).Pairwise fun m m' =>
    Disjoint m.extent.addrs m'.extent.addrs
  subset : ∀ m ∈ r.regionList, m.status = true →
    m.extent.addrs ⊆ Set.Ico r.bufStartPhy (r.bufStartPhy + r.size)
  disjoint_tail : ∀ m ∈ r.regionList,
    Disjoint m.extent.addrs (Set.Ico r.freeStartPhy (r.freeStartPhy + r.freeLen))
  ref_eq : r.ref = (r.regionList.filter (·.status)).length

theorem DmcRange.Inv.sound {r : DmcRange} (h : r.Inv) : r.Sound where
  disjoint := (h.apart.filter _).imp fun hapart => hapart.disjoint
  subset m hm _ := (h.within m hm).subset
  disjoint_tail m hm := by
    by_cases hne : r.freeLen = 0
    · simp [hne]
    · exact Apart.disjoint (b := r.tail) (.inl ((h.le_tail hne).2 m hm))
  ref_eq := by rw [h.ref_eq, countP_eq_length_filter]

/-- The memory of all levels is safe: besides what holds of each range, the buffers that
    were got and not freed are the regions in use, no two of them overlap, all of them lie
    in memory that is handed out, and no range was given back while it had any. -/
structure DmcState.Safe (s : DmcState) : Prop where
  sound : ∀ i, ∀ r ∈ (s.dmcMemLevel i).range, r.Sound
  live_perm : ∀ i, (s.live i).Perm (liveOf (s.dmcMemLevel i).range)
  disjoint : ∀ i, (s.live i).Pairwise fun a b => Disjoint a.addrs b.addrs
  disjoint_of_ne : ∀ i j, i ≠ j → ∀ a ∈ s.live i, ∀ b ∈ s.live j, Disjoint a.addrs b.addrs
  subset_held : ∀ i, ∀ a ∈ s.live i, ∃ e ∈ s.world.held, a.addrs ⊆ e.addrs
  destroyed : ∀ d ∈ s.world.destroyed, d.ref = 0 ∧ ∀ m ∈ d.regionList, m.status = false

namespace DmcState

variable {mm : CodecMm} {s : DmcState}

/-- A buffer that lives lies in a range in use. -/
theorem Inv.mem_live (h : s.Inv) {i : ℕ} {a : Extent} (ha : a ∈ s.live i) :
    ∃ r ∈ (s.dmcMemLevel i).range, r.used = true ∧ Within a r.pages :=
  ((h.level i).ranges.mem_liveOf ((h.level i).live_perm.mem_iff.1 ha)).2

/-- The memory is safe after every sequence of calls, if the memory manager hands out only memory
    with addresses of 32 bits. -/
theorem memory_safe (hlow : mm.Low) (h : Reachable mm s) : s.Safe := by
  have hinv := h.inv hlow
  refine ⟨fun i r hr => ((hinv.level i).ranges.inv r hr).sound, fun i => (hinv.level i).live_perm,
    fun i => ?_, fun i j hij a ha b hb => ?_, fun i a ha => ?_, fun d hd => ?_⟩
  · refine .imp Apart.disjoint ?_
    exact (Perm.pairwise_iff Apart.symm (hinv.level i).live_perm).2
      (hinv.level i).ranges.liveOf_apart
  · obtain ⟨r, hr, hu, hwithin⟩ := hinv.mem_live ha
    obtain ⟨q, hq, huq, hwithin'⟩ := hinv.mem_live hb
    exact ((hinv.apart i j hij r hr q hq hu huq).mono hwithin hwithin').disjoint
  · obtain ⟨r, hr, hu, hwithin⟩ := hinv.mem_live ha
    exact ⟨r.pages, (hinv.level i).ranges.mem_held r hr hu, hwithin.subset⟩
  · obtain ⟨href, hlive⟩ := hinv.destroyed d hd
    refine ⟨href, fun m hm => ?_⟩
    have hnil := map_eq_nil_iff.1 hlive
    simpa using filter_eq_nil_iff.1 hnil m hm

/-- A kernel that hands out the first of some places that has room below an address. -/
def firstFitMm (places : List ℕ) (limit : ℕ) : CodecMm where
  allocForDma _ held n := (places.find? fun p =>
    p + n * pageSize ≤ limit ∧ ∀ e ∈ held, Apart ⟨p, n * pageSize⟩ e).getD 0
  fresh _ held n h := by
    cases hfind : places.find? fun p =>
        p + n * pageSize ≤ limit ∧ ∀ e ∈ held, Apart ⟨p, n * pageSize⟩ e with
    | none => exact absurd (by rw [hfind]; rfl) h
    | some p =>
      have hfit := find?_some hfind
      exact (of_decide_eq_true hfit).2
  physToVirt _ phys := phys
  vmalloc _ := true
  teeProtectMem _ := 1

theorem low_firstFitMm (places : List ℕ) : (firstFitMm places (2 ^ 32)).Low := by
  intro t held n h
  rw [firstFitMm] at h ⊢
  dsimp only at h ⊢
  cases hfind : places.find? _ with
  | none => exact absurd (by rw [hfind]; rfl) h
  | some p =>
    have hfit := find?_some hfind
    exact (of_decide_eq_true hfit).1

/-- Memory for two ranges of 20 MB on a level. -/
def twoRanges : DmcState := start.memSetSize 1 (2 * dmcMemDefaultSize)

theorem reachable_twoRanges (mm : CodecMm) : Reachable mm twoRanges := .setSize .start 1 (by decide)

/-- The buffers of two ranges are apart, also one that is got again, and the second range is given
    back with its buffer. -/
theorem memory_safe_three_buffers :
    let mm := firstFitMm [4096, 2 ^ 30] (2 ^ 32)
    let s := (((twoRanges.malloc mm 1 188).malloc mm 1 64).free 4096 1 false).malloc mm 1 188
    let s₁ := s.malloc mm 1 dmcMemDefaultSize
    let s₂ := s₁.free (2 ^ 30) 1 false
    s₁.live 0 = [⟨2 ^ 30, dmcMemDefaultSize⟩, ⟨4096, 188⟩, ⟨8192, 64⟩] ∧ s₁.Safe ∧
      s₂.live 0 = [⟨4096, 188⟩, ⟨8192, 64⟩] ∧ s₂.world.destroyed.length = 1 ∧ s₂.Safe := by
  intro mm s s₁ s₂
  have hlow : mm.Low := low_firstFitMm _
  have htwo : Reachable mm ((twoRanges.malloc mm 1 188).malloc mm 1 64) :=
    ((reachable_twoRanges mm).malloc 1 (by decide) (by decide)).malloc 1 (by decide) (by decide)
  have hs : Reachable mm s := (htwo.free 4096 1 false).malloc 1 (by decide) (by decide)
  have hs₁ : Reachable mm s₁ := hs.malloc 1 (by decide) (by decide)
  exact ⟨by decide +kernel, memory_safe hlow hs₁, by decide +kernel, by decide +kernel,
    memory_safe hlow (hs₁.free (2 ^ 30) 1 false)⟩

/-- The first range is at 5 GiB, and the fields keep 1 GiB of that: two buffers have the same
    addresses, and the free of one of them gives back the memory of the other. -/
theorem memory_unsafe_high :
    let mm := firstFitMm [5 * 2 ^ 30, 2 ^ 30] (2 ^ 33)
    let s := (twoRanges.malloc mm 1 dmcMemDefaultSize).malloc mm 1 dmcMemDefaultSize
    let s' := s.free (2 ^ 30) 1 false
    let buffer : Extent := ⟨2 ^ 30, dmcMemDefaultSize⟩
    Reachable mm s ∧ s.live 0 = [buffer, buffer] ∧ ¬ s.Safe ∧ s'.live 0 = [buffer] ∧
      s'.world.held = [⟨5 * 2 ^ 30, dmcMemDefaultSize⟩] := by
  intro mm s s' buffer
  have hs : Reachable mm s :=
    ((reachable_twoRanges mm).malloc 1 (by decide) (by decide)).malloc 1 (by decide) (by decide)
  have hlive : s.live 0 = [buffer, buffer] := by decide +kernel
  refine ⟨hs, hlive, fun hsafe => ?_, by decide +kernel, by decide +kernel⟩
  have hapart := hsafe.disjoint 0
  rw [hlive, pairwise_pair] at hapart
  have hmem : 2 ^ 30 ∈ buffer.addrs := ⟨le_rfl, Nat.lt_add_of_pos_right (by decide)⟩
  exact Set.disjoint_left.1 hapart hmem hmem

end DmcState

end CommonDrivers.Dvb
