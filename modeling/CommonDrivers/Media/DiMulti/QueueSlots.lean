import CommonDrivers.Lib.Cells
import CommonDrivers.Media.DiMulti.DiQue

/-!
# The slots of the old queues

An old queue holds a list of buffers (`Queue.Holds`): its occupied slots are those of the buffers,
in a ring one after the other. Inserting a buffer puts it behind the others, removing it takes it
out of the list (`Holds.insert`, `Holds.remove`); and the loop over the slots finds exactly the
buffers of the list (`Holds.inQueueLoop`).
-/

namespace CommonDrivers.DiMulti

open List Nat

variable {q q' : Queue} {b : DiBuf} {c : List DiBuf} {i v : ℕ}

/-! ## Words -/

namespace DiBuf

theorem index_lt (b : DiBuf) : (b.index : ℕ) < 256 := by
  have hsize : b.type.size ≤ 256 := by
    cases b.type <;> decide
  exact lt_of_lt_of_le b.index.isLt hsize

theorem code_mod (b : DiBuf) : b.code % 256 = b.index := by
  have := b.index_lt
  rw [code]
  omega

theorem code_ne_zero (b : DiBuf) : b.code ≠ 0 := by
  have hcode : 0 < b.type.code := by
    cases b.type <;> decide
  rw [code]
  omega

theorem code_lt (b : DiBuf) : b.code < 2 ^ 16 := by
  have hindex := b.index_lt
  have hcode : b.type.code < 256 := by
    cases b.type <;> decide
  rw [code]
  omega

theorem ofCode_eq (b : DiBuf) (v : ℕ) (htype : v / 256 % 256 = b.type.code)
    (hindex : v % 256 = b.index) : ofCode v = some b := by
  have hof : VframeType.ofCode b.type.code = some b.type := by
    cases b.type <;> rfl
  rw [ofCode, htype, hof]
  dsimp only
  rw [dif_pos (hindex ▸ b.index.isLt)]
  congr 2
  exact Fin.ext hindex

@[simp]
theorem ofCode_code (b : DiBuf) : ofCode b.code = some b := by
  have hindex := b.index_lt
  have hcode : b.type.code < 256 := by
    cases b.type <;> decide
  refine ofCode_eq b _ ?_ b.code_mod
  rw [code]
  omega

theorem code_injective : Function.Injective code := fun b b' h => by
  have := congrArg ofCode h
  rwa [ofCode_code, ofCode_code, Option.some.injEq] at this

@[simp]
theorem ofCode_pwBuf2Qindex (reserved0 : ℕ) (b : DiBuf) :
    ofCode (pwBuf2Qindex reserved0 b) = some b := by
  have hindex := b.index_lt
  have hcode : b.type.code < 256 := by
    cases b.type <;> decide
  refine ofCode_eq b _ ?_ ?_
  · rw [pwBuf2Qindex, code]
    omega
  · rw [pwBuf2Qindex, code]
    omega

theorem pwBuf2Qindex_injective (reserved0 : ℕ) : Function.Injective (pwBuf2Qindex reserved0) :=
  fun b b' h => by
    have := congrArg ofCode h
    rwa [ofCode_pwBuf2Qindex, ofCode_pwBuf2Qindex, Option.some.injEq] at this

/-- All buffers of the channel. -/
def all : List DiBuf :=
  [VframeType.typeIn, .typeLocal, .typePost].flatMap fun t => (List.finRange t.size).map (⟨t, ·⟩)

theorem mem_all (b : DiBuf) : b ∈ all := by
  obtain ⟨type, index⟩ := b
  refine mem_flatMap.2 ⟨type, ?_, mem_map.2 ⟨index, mem_finRange index, rfl⟩⟩
  cases type <;> decide

/-- There are fewer buffers than slots. -/
theorem length_lt_of_nodup (h : c.Nodup) : c.length < 256 := by
  have hle := (subperm_of_subset h fun b _ => mem_all b).length_le
  have hall : all.length = 53 := by decide
  omega

end DiBuf

/-! ## Slots -/

namespace Queue

@[simp]
theorem setSlot_self (q : Queue) (i v : ℕ) : (q.setSlot i v).pool i = v :=
  Function.update_self (β := fun _ => ℕ) i v q.pool

theorem setSlot_of_ne (q : Queue) (v : ℕ) {k : ℕ} (h : k ≠ i) : (q.setSlot i v).pool k = q.pool k :=
  Function.update_of_ne (β := fun _ => ℕ) h v q.pool

/-- The words in the occupied slots. -/
def cells (q : Queue) : List ℕ := ((List.range 256).map q.pool).filter (· ≠ 0)

theorem map_range_eq (f : ℕ → ℕ) (hi : i < 256) : (range 256).map f =
      (range i).map f ++ f i :: (range' (i + 1) (255 - i)).map f := by
  have hlen : 256 = i + (255 - i + 1) := by omega
  rw [hlen, range_add, map_append, ← range'_eq_map_range, range'_succ, map_cons]

/-- What the slot holds, if anything, and what the others hold. -/
theorem cells_eq (q : Queue) (hi : i < 256) : ∃ l l',
    q.cells = l ++ [q.pool i].filter (· ≠ 0) ++ l' ∧
    ∀ v, (q.setSlot i v).cells = l ++ [v].filter (· ≠ 0) ++ l' := by
  have hset : ∀ v (l : List ℕ), i ∉ l → l.map (q.setSlot i v).pool = l.map q.pool := by
    intro v l hl
    refine map_congr_left fun k hk => ?_
    exact q.setSlot_of_ne v fun hki => hl (hki ▸ hk)
  refine ⟨((range i).map q.pool).filter (· ≠ 0),
    ((range' (i + 1) (255 - i)).map q.pool).filter (· ≠ 0), ?_, fun v => ?_⟩
  · rw [cells, map_range_eq _ hi, ← singleton_append, filter_append, filter_append, append_assoc]
  · rw [cells, map_range_eq _ hi, ← singleton_append, filter_append, filter_append,
      hset v _ (by simp), hset v _ (by simp), append_assoc]
    rw [setSlot_self]

theorem cells_setSlot (hi : i < 256) (h0 : q.pool i = 0) (hv : v ≠ 0) :
    (q.setSlot i v).cells.Perm (v :: q.cells) := by
  obtain ⟨l, l', hcells, hset⟩ := q.cells_eq hi
  rw [hset, hcells, h0, filter_cons_of_pos (by simpa using hv)]
  simp only [filter_nil, append_assoc, singleton_append]
  exact perm_middle

theorem cells_clearSlot (hi : i < 256) (hv : q.pool i ≠ 0) :
    q.cells.Perm (q.pool i :: (q.setSlot i 0).cells) := by
  obtain ⟨l, l', hcells, hset⟩ := q.cells_eq hi
  rw [hset, hcells, filter_cons_of_pos (by simpa using hv)]
  simp only [filter_nil, append_assoc, singleton_append]
  exact perm_middle

theorem mem_cells : v ∈ q.cells ↔ v ≠ 0 ∧ ∃ i < 256, q.pool i = v := by
  simp only [cells, mem_filter, mem_map, mem_range, decide_eq_true_eq]
  exact and_comm

/-- The slots of a ring from the head on are those of the buffers, one after the other. -/
structure InRing (q : Queue) (c : List DiBuf) : Prop where
  outIdx : q.outIdx < 256
  inIdx : q.inIdx = (q.outIdx + c.length) % 256
  window : Ring.window 256 q.pool q.outIdx c.length = c.map DiBuf.code
  free : ∀ k, c.length ≤ k → k < 256 → q.pool ((q.outIdx + k) % 256) = 0

/-- The queue holds the buffers, in this order if it is a ring. -/
structure Holds (q : Queue) (c : List DiBuf) : Prop where
  num : q.num = c.length
  cells : q.cells.Perm (c.map DiBuf.code)
  ring : q.type = .fifo → q.InRing c
  fixed : q.type = .fixed → ∀ i < 256, q.pool i ≠ 0 → q.pool i % 256 = i

theorem findSlot_eq_some {p : ℕ → Bool} {start : ℕ} (h : q.findSlot start p = some i) :
    start ≤ i ∧ i < 256 ∧ p (q.pool i) ∧ ∀ k, start ≤ k → k < i → ¬ p (q.pool k) := by
  obtain ⟨hp, l, l', hl, hall⟩ := find?_eq_some_iff_append.1 h
  have hmem : i ∈ range' start (maxQueuePoolSize - start) := by
    rw [hl]
    exact mem_append_right _ mem_cons_self
  rw [mem_range'_1, maxQueuePoolSize] at hmem
  refine ⟨hmem.1, by omega, hp, fun k hk hki => ?_⟩
  -- the slots before `i` in the list are those with a smaller number
  have hkmem : k ∈ l ++ i :: l' := by
    rw [← hl, mem_range'_1, maxQueuePoolSize]
    omega
  have hsorted : (l ++ i :: l').Pairwise (· < ·) := hl ▸ pairwise_lt_range'
  rcases mem_append.1 hkmem with hkl | hkl
  · simpa using hall k hkl
  rcases mem_cons.1 hkl with rfl | hkl
  · omega
  · have := rel_of_pairwise_cons (pairwise_append.1 hsorted).2.1 hkl
    omega

theorem findSlot_eq_none {p : ℕ → Bool} {start : ℕ} (h : q.findSlot start p = none) {k : ℕ}
    (hk : start ≤ k) (hlt : k < 256) : ¬ p (q.pool k) := by
  refine find?_eq_none.1 h k (mem_range'_1.2 ⟨hk, ?_⟩)
  rw [maxQueuePoolSize]
  omega

/-! ## Insertion and removal -/

theorem nextIdx_eq (h : i < 256) : nextIdx i = (i + 1) % 256 := by
  rw [nextIdx, maxQueuePoolSize]
  split <;> omega

theorem InRing.insert (h : q.InRing c) (hlt : c.length < 256) :
    InRing { q.setSlot q.inIdx b.code with inIdx := nextIdx q.inIdx, num := q.num + 1 }
      (c ++ [b]) := by
  have hin : q.inIdx < 256 := h.inIdx ▸ mod_lt _ (by decide)
  have hne : ∀ k < 256, k ≠ c.length →
      (q.setSlot q.inIdx b.code).pool ((q.outIdx + k) % 256) = q.pool ((q.outIdx + k) % 256) := by
    intro k hk hkc
    refine q.setSlot_of_ne _ fun heq => ?_
    rw [h.inIdx] at heq
    omega
  refine ⟨h.outIdx, ?_, ?_, fun k hk hk256 => ?_⟩
  · rw [nextIdx_eq hin, h.inIdx, length_append, length_singleton, mod_add_mod, Nat.add_assoc]
    rfl
  · have hlast : Ring.window 256 (q.setSlot q.inIdx b.code).pool q.inIdx 1 = [b.code] := by
      rw [Ring.window_succ, mod_eq_of_lt hin, setSlot_self]
      rfl
    change Ring.window 256 (q.setSlot q.inIdx b.code).pool q.outIdx (c ++ [b]).length = _
    rw [length_append, length_singleton, Ring.window_add, ← h.inIdx, hlast,
      Ring.window_congr fun k (hk : k < c.length) => hne k (by omega) (by omega), h.window,
      map_append, map_singleton]
  · rw [length_append, length_singleton] at hk
    exact (hne k hk256 (by omega)).trans (h.free k (by omega) hk256)

theorem InRing.head (h : q.InRing (b :: c)) : q.pool q.outIdx = b.code := by
  have hw := h.window
  rw [length_cons, Ring.window_succ, map_cons, mod_eq_of_lt h.outIdx] at hw
  exact (cons.inj hw).1

theorem InRing.remove (h : q.InRing (b :: c)) (hlt : c.length < 256) :
    InRing { q.setSlot q.outIdx 0 with outIdx := nextIdx q.outIdx, num := q.num - 1 } c := by
  have hout := h.outIdx
  have hlen : (b :: c).length = c.length + 1 := length_cons
  have hne : ∀ k < 255, (q.setSlot q.outIdx 0).pool ((nextIdx q.outIdx + k) % 256) =
      q.pool ((q.outIdx + (k + 1)) % 256) := by
    intro k hk
    rw [nextIdx_eq hout, mod_add_mod, show q.outIdx + 1 + k = q.outIdx + (k + 1) by omega]
    exact q.setSlot_of_ne _ (by omega)
  refine ⟨?_, ?_, ?_, fun k hk hk256 => ?_⟩
  · rw [nextIdx_eq hout]
    exact mod_lt _ (by decide)
  · change q.inIdx = (nextIdx q.outIdx + c.length) % 256
    rw [h.inIdx, nextIdx_eq hout, mod_add_mod, hlen]
    congr 1
    omega
  · have hw := h.window
    rw [length_cons, Ring.window_succ, map_cons] at hw
    refine Eq.trans (map_congr_left fun k hk => ?_) (cons.inj hw).2
    rw [mem_range] at hk
    refine (hne k (by omega)).trans ?_
    rw [Nat.add_right_comm q.outIdx 1 k, Nat.add_assoc]
  · rcases Nat.lt_or_ge k 255 with hk255 | hk255
    · exact (hne k hk255).trans (h.free (k + 1) (by omega) (by omega))
    -- the slot before the new head is the one that was cleared
    obtain rfl : k = 255 := by omega
    rw [nextIdx_eq hout, show ((q.outIdx + 1) % 256 + 255) % 256 = q.outIdx by omega, setSlot_self]

namespace Holds

variable (h : q.Holds c)
include h

theorem mem_iff : b ∈ c ↔ ∃ i < 256, q.pool i = b.code := by
  rw [← mem_map_of_injective DiBuf.code_injective, ← h.cells.mem_iff, mem_cells]
  exact and_iff_right b.code_ne_zero

/-- Each occupied slot is that of a buffer. -/
theorem exists_code (hi : i < 256) (h0 : q.pool i ≠ 0) : ∃ b ∈ c, q.pool i = b.code := by
  have hmem : q.pool i ∈ c.map DiBuf.code := h.cells.mem_iff.1 (mem_cells.2 ⟨h0, i, hi, rfl⟩)
  obtain ⟨b, hb, heq⟩ := mem_map.1 hmem
  exact ⟨b, hb, heq.symm⟩

theorem cells_insert (hi : i < 256) (h0 : q.pool i = 0) :
    (q.setSlot i b.code).cells.Perm ((c ++ [b]).map DiBuf.code) := by
  refine (cells_setSlot hi h0 b.code_ne_zero).trans ?_
  rw [map_append, map_singleton]
  exact (h.cells.cons _).trans (perm_append_singleton _ _).symm

theorem cells_remove (hi : i < 256) (hv : q.pool i = b.code) :
    b ∈ c ∧ (q.setSlot i 0).cells.Perm ((c.erase b).map DiBuf.code) := by
  have hb : b ∈ c := h.mem_iff.2 ⟨i, hi, hv⟩
  have hcells := cells_clearSlot (q := q) hi (hv ▸ b.code_ne_zero)
  have hmap := (perm_cons_erase hb).map DiBuf.code
  rw [hv] at hcells
  exact ⟨hb, (hcells.symm.trans (h.cells.trans hmap)).cons_inv⟩

/-- Where the indexes are fixed, a slot can only be that of a buffer with its index. -/
theorem fixed_insert (hq : q.type = .fixed) : ∀ i < 256, (q.setSlot b.index b.code).pool i ≠ 0 →
      (q.setSlot b.index b.code).pool i % 256 = i := by
  intro i hi h0
  rcases eq_or_ne i b.index with rfl | hne
  · rw [setSlot_self, b.code_mod]
  · rw [q.setSlot_of_ne _ hne] at h0 ⊢
    exact h.fixed hq i hi h0

theorem fixed_remove (hq : q.type = .fixed) (j : ℕ) :
    ∀ i < 256, (q.setSlot j 0).pool i ≠ 0 → (q.setSlot j 0).pool i % 256 = i := by
  intro i hi h0
  rcases eq_or_ne i j with rfl | hne
  · exact absurd (setSlot_self q i 0) h0
  · rw [q.setSlot_of_ne _ hne] at h0 ⊢
    exact h.fixed hq i hi h0

theorem insert (hlt : c.length < 256) (hq : q.insert b = some q') :
    q'.type = q.type ∧ q'.Holds (c ++ [b]) := by
  have hnum : q.num + 1 = (c ++ [b]).length := by
    rw [length_append, length_singleton, h.num]
  rw [Queue.insert] at hq
  split at hq
  · next htype =>
    cases hq
    have hring := h.ring htype
    have hin : q.inIdx < 256 := hring.inIdx ▸ mod_lt _ (by decide)
    have hfree : q.pool q.inIdx = 0 := hring.inIdx ▸ hring.free c.length le_rfl hlt
    exact ⟨rfl, hnum, h.cells_insert hin hfree, fun _ => hring.insert hlt,
      fun hfix => absurd (htype.symm.trans hfix) (by decide)⟩
  · next htype =>
    split at hq
    · cases hq
    next i hi =>
    cases hq
    obtain ⟨-, hlt, h0, -⟩ := findSlot_eq_some hi
    exact ⟨rfl, hnum, h.cells_insert hlt (of_decide_eq_true h0),
      fun hring => absurd (htype.symm.trans hring) (by decide),
      fun hfix => absurd (htype.symm.trans hfix) (by decide)⟩
  · next htype =>
    split at hq
    · next hfree =>
      cases hq
      exact ⟨rfl, hnum, h.cells_insert hfree.1 hfree.2,
        fun hring => absurd (htype.symm.trans hring) (by decide), fun _ => h.fixed_insert htype⟩
    · cases hq

theorem remove (hlt : c.length < 256) (hq : q.remove b = some q') : b ∈ c ∧
    q'.type = q.type ∧ q'.Holds (c.erase b) ∧ (q.type = .fifo → c.head? = some b) := by
  have hnum : b ∈ c → q.num - 1 = (c.erase b).length := fun hb => by
    rw [length_erase_of_mem hb, h.num]
  rw [Queue.remove] at hq
  split at hq
  · cases hq
  next h0 =>
  split at hq
  · next htype =>
    split at hq
    · next hv =>
      cases hq
      have hring := h.ring htype
      obtain ⟨hb, hcells⟩ := h.cells_remove hring.outIdx hv
      -- the head of a ring is the first of its buffers
      obtain ⟨b', l, rfl⟩ := exists_cons_of_ne_nil (ne_nil_of_mem hb)
      obtain rfl : b' = b := DiBuf.code_injective (hring.head.symm.trans hv)
      refine ⟨hb, rfl, ⟨hnum hb, hcells, fun _ => ?_, fun hfix => ?_⟩, fun _ => rfl⟩
      · rw [erase_cons_head]
        exact hring.remove (lt_of_succ_lt hlt)
      · exact absurd (htype.symm.trans hfix) (by decide)
    · cases hq
  · next htype =>
    split at hq
    · cases hq
    next i hi =>
    cases hq
    obtain ⟨-, hlt, hv, -⟩ := findSlot_eq_some hi
    obtain ⟨hb, hcells⟩ := h.cells_remove hlt (of_decide_eq_true hv)
    exact ⟨hb, rfl, ⟨hnum hb, hcells, fun hring => absurd (htype.symm.trans hring) (by decide),
      fun hfix => absurd (htype.symm.trans hfix) (by decide)⟩,
      fun hring => absurd (htype.symm.trans hring) (by decide)⟩
  · next htype =>
    split at hq
    · next hv =>
      cases hq
      obtain ⟨hb, hcells⟩ := h.cells_remove hv.1 hv.2
      exact ⟨hb, rfl, ⟨hnum hb, hcells, fun hring => absurd (htype.symm.trans hring) (by decide),
        fun _ => h.fixed_remove htype _⟩, fun hring => absurd (htype.symm.trans hring) (by decide)⟩
    · cases hq

/-- A buffer of the queue is removed, in a ring if it is the first. -/
theorem remove_isSome (hb : b ∈ c) (hhead : q.type = .fifo → c.head? = some b) :
    (q.remove b).isSome := by
  have hnum : q.num ≠ 0 := fun h0 => ne_nil_of_mem hb (length_eq_zero_iff.1 (h.num ▸ h0))
  obtain ⟨i, hi, hv⟩ := h.mem_iff.1 hb
  rw [Queue.remove, if_neg hnum]
  split
  · next htype =>
    obtain ⟨l, rfl⟩ := head?_eq_some_iff.1 (hhead htype)
    rw [if_pos (h.ring htype).head]
    rfl
  · split
    · next hnone => exact absurd (decide_eq_true hv) (findSlot_eq_none hnone (Nat.zero_le i) hi)
    · rfl
  next htype =>
  have hindex : i = b.index := by
    have := h.fixed htype i hi (hv ▸ b.code_ne_zero)
    rw [← this, hv, b.code_mod]
  rw [if_pos ⟨b.index_lt, hindex ▸ hv⟩]
  rfl

/-- The head of a queue that is not empty. -/
theorem headSlot (hc : c ≠ []) : ∃ i b, q.headSlot = some i ∧
    q.pool i = b.code ∧ b ∈ c ∧ (q.type = .fifo → c.head? = some b) := by
  have hnum : q.num ≠ 0 := fun h0 => hc (length_eq_zero_iff.1 (h.num ▸ h0))
  obtain ⟨b, l, rfl⟩ := exists_cons_of_ne_nil hc
  rw [Queue.headSlot, if_neg hnum]
  split
  · next htype =>
    exact ⟨q.outIdx, b, rfl, (h.ring htype).head, mem_cons_self, fun _ => rfl⟩
  next htype =>
  cases hslot : q.findSlot 0 (· ≠ 0) with
  | none =>
    obtain ⟨i, hi, hv⟩ := h.mem_iff.1 (mem_cons_self (a := b))
    exact absurd (decide_eq_true (hv ▸ b.code_ne_zero)) (findSlot_eq_none hslot (Nat.zero_le i) hi)
  | some i =>
    obtain ⟨-, hlt, h0, -⟩ := findSlot_eq_some hslot
    obtain ⟨b', hb', hv⟩ := h.exists_code hlt (of_decide_eq_true h0)
    exact ⟨i, b', rfl, hv, hb', fun hring => absurd hring htype⟩

/-! ## The search -/

/-- From the slot `startPos` of a ring on, the loop finds the buffers that are there. -/
theorem inQueueLoop_ring (htype : q.type = .fifo) (hlt : c.length < 256) :
    ∀ n start, c.length < n + start → (inQueueLoop q b n start ↔ b ∈ c.drop start) := by
  have hring := h.ring htype
  intro n
  induction n with
  | zero =>
    intro start hn
    rw [drop_eq_nil_of_le (by omega)]
    exact ⟨fun hf => Bool.noConfusion hf, fun hf => absurd hf not_mem_nil⟩
  | succ n ih =>
    intro start hn
    rw [inQueueLoop, dimGetBuf, htype]
    dsimp only
    rw [h.num]
    by_cases hs : start < c.length
    · have hidx : (if maxQueuePoolSize ≤ q.outIdx + start then q.outIdx + start - maxQueuePoolSize
          else q.outIdx + start) = (q.outIdx + start) % 256 := by
        have := hring.outIdx
        rw [maxQueuePoolSize]
        split <;> omega
      have hcell : q.pool ((q.outIdx + start) % 256) = (c.get ⟨start, hs⟩).code := by
        have hw := congrArg (fun l => l[start]?) hring.window
        simpa [Ring.window, hs] using hw
      rw [if_pos hs, hidx, hcell, DiBuf.ofCode_code]
      simp only [Option.map_some]
      rw [drop_eq_getElem_cons hs, mem_cons, get_eq_getElem]
      split
      · next heq => exact ⟨fun _ => .inl heq.symm, fun _ => rfl⟩
      · next hne =>
        rw [ih (start + 1) (by omega)]
        exact ⟨.inr, fun hor => hor.resolve_left fun heq => hne heq.symm⟩
    · rw [if_neg hs, drop_eq_nil_of_le (by omega)]
      exact ⟨fun hf => Bool.noConfusion hf, fun hf => absurd hf not_mem_nil⟩

theorem inQueueLoop_slots (htype : q.type ≠ .fifo) : ∀ n start, 256 < n + start →
      (inQueueLoop q b n start ↔ ∃ i, start ≤ i ∧ i < 256 ∧ q.pool i = b.code) := by
  intro n
  induction n with
  | zero =>
    intro start hn
    exact ⟨fun hf => Bool.noConfusion hf, by rintro ⟨i, hi, hlt, -⟩; omega⟩
  | succ n ih =>
    intro start hn
    have hget : dimGetBuf q start = (q.findSlot start (· ≠ 0)).bind fun idx =>
        (DiBuf.ofCode (q.pool idx)).map (·, idx + 1) := by
      rw [dimGetBuf]
      split
      · exact absurd ‹_› htype
      · cases q.findSlot start (· ≠ 0) <;> rfl
    rw [inQueueLoop, hget]
    cases hslot : q.findSlot start (· ≠ 0) with
    | none =>
      refine ⟨fun hf => Bool.noConfusion hf, ?_⟩
      rintro ⟨i, hi, hlt, hv⟩
      exact absurd (decide_eq_true (hv ▸ b.code_ne_zero)) (findSlot_eq_none hslot hi hlt)
    | some idx =>
      obtain ⟨hle, hlt, h0, hbefore⟩ := findSlot_eq_some hslot
      obtain ⟨b', hb', hv⟩ := h.exists_code hlt (of_decide_eq_true h0)
      rw [Option.bind_some, hv, DiBuf.ofCode_code]
      dsimp only [Option.map_some]
      split
      · next heq => exact ⟨fun _ => ⟨idx, hle, hlt, heq ▸ hv⟩, fun _ => rfl⟩
      next hne =>
      rw [ih (idx + 1) (by omega)]
      constructor
      · rintro ⟨i, hi, hlt', hv'⟩
        exact ⟨i, by omega, hlt', hv'⟩
      rintro ⟨i, hi, hlt', hv'⟩
      -- the slots up to `idx` are empty or hold another buffer
      rcases Nat.lt_trichotomy i idx with hi' | rfl | hi'
      · exact absurd (decide_eq_true (hv' ▸ b.code_ne_zero)) (hbefore i hi hi')
      · exact absurd (DiBuf.code_injective (hv.symm.trans hv')) hne
      · exact ⟨i, hi', hlt', hv'⟩

/-- The search of `is_in_queue` ends and finds the buffers of the queue. -/
theorem inQueueLoop_iff (hlt : c.length < 256) :
    inQueueLoop q b (maxQueuePoolSize + 2) 0 ↔ b ∈ c := by
  by_cases htype : q.type = .fifo
  · rw [h.inQueueLoop_ring htype hlt _ 0 (by rw [maxQueuePoolSize]; omega), drop_zero]
  · rw [h.inQueueLoop_slots htype _ 0 (by rw [maxQueuePoolSize]; omega), h.mem_iff]
    simp only [Nat.zero_le, true_and]

end Holds

end Queue

end CommonDrivers.DiMulti
