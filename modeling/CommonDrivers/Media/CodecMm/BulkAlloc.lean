import CommonDrivers.Lib.Run
import CommonDrivers.Lib.While
import CommonDrivers.Media.CodecMm.Pool

/-!
# Many single pages at once

`multi_task_alloc_pages` asks for up to 4096 pages at a time, which come in one array for
everyone: a mutex is taken around each of the requests. When a request is refused the loop is
left before the mutex is released, and the next call waits for it forever.

* `Pool.bulk_alloc`: a call that gets the mutex returns, with the number of entries it wrote, each
  of them once; the mutex is free after it just if none of its requests was refused;
* `Pool.bulk_blocked`: a call after one that was refused does not return.
-/

namespace CommonDrivers.Media.CodecMm.Pool

open List Nat

/-- The variables of the loop. -/
structure BulkPass where
  pool : Pool
  neednum : ℤ
  alloced : ℕ
  /-- The entries of `pages` that were written, with their values. -/
  writes : List (ℕ × Page)

/-- A turn of the loop. It does not end if the mutex is held. -/
def bulkTurn (kern : Kernel) (s : BulkPass) : Option (Turn BulkPass) :=
  if s.neednum ≤ 0 then some (.leave s)
  else if s.pool.allocPageArrayMutex then none
  else
    let pageNum := min s.neednum.toNat maxPageAllocOnce
    match kern.allocPagesArray s.pool.clock s.pool.held pageNum with
    | some pageArray =>
      some (.again
        { pool := (s.pool.holdPages pageArray).tick
          neednum := s.neednum - pageNum
          alloced := s.alloced + pageNum
          writes := s.writes ++ (List.range pageNum).map fun idx =>
            (s.alloced + idx, onePage (pageArray.getD idx 0)) })
    | none => some (.leave { s with pool := { s.pool.tick with allocPageArrayMutex := true } })

/-- The `int` that `nr_pages` is assigned to. -/
def bulkNeednum (nrPages : ℕ) : ℤ := i32 (nrPages % 2 ^ 32)

/-- `multi_task_alloc_pages`: the variables at the end, of which `alloced` is returned. Each turn
    has a page at least, which bounds the turns. -/
def bulkAlloc (kern : Kernel) (nrPages : ℕ) (p : Pool) : Option BulkPass :=
  turns (bulkTurn kern) ((bulkNeednum nrPages).toNat + 1) ⟨p, bulkNeednum nrPages, 0, []⟩

/-- All the requests for `n` pages are granted, one after the other. -/
inductive Granted (kern : Kernel) : ℕ → Pool → Prop
  | done {p : Pool} : Granted kern 0 p
  | more {n : ℕ} {p : Pool} {pageArray : List ℕ} (pos : 0 < n)
      (grant : kern.allocPagesArray p.clock p.held (min n maxPageAllocOnce) = some pageArray)
      (rest : Granted kern (n - min n maxPageAllocOnce) (p.holdPages pageArray).tick) :
      Granted kern n p

variable {kern : Kernel} {p : Pool} {n : ℕ}

theorem granted_iff {pageArray : List ℕ} (hn : 0 < n)
    (h : kern.allocPagesArray p.clock p.held (min n maxPageAllocOnce) = some pageArray) :
    Granted kern n p ↔ Granted kern (n - min n maxPageAllocOnce) (p.holdPages pageArray).tick := by
  constructor
  · intro hgranted
    cases hgranted with
    | done => exact absurd hn (Nat.lt_irrefl 0)
    | more _ grant rest =>
      cases h.symm.trans grant
      exact rest
  · exact .more hn h

theorem not_granted (hn : 0 < n)
    (h : kern.allocPagesArray p.clock p.held (min n maxPageAllocOnce) = none) :
    ¬Granted kern n p := by
  intro hgranted
  cases hgranted with
  | done => exact absurd hn (Nat.lt_irrefl 0)
  | more _ grant _ => exact Option.some_ne_none _ (grant.symm.trans h)

/-! ## A call -/

/-- The entries up to the number that is returned were written, each of them once. -/
def BulkPass.Counts (s : BulkPass) : Prop := s.writes.map Prod.fst = List.range s.alloced

/-- What holds in the loop of a call for `n` pages. -/
structure BulkPass.Inv (kern : Kernel) (n : ℕ) (p : Pool) (s : BulkPass) : Prop where
  counts : s.Counts
  mutex : s.pool.allocPageArrayMutex = false
  granted : Granted kern n p ↔ Granted kern s.neednum.toNat s.pool

/-- What holds at the end of it. -/
structure BulkPass.Done (kern : Kernel) (n : ℕ) (p : Pool) (s : BulkPass) : Prop where
  counts : s.Counts
  mutex : s.pool.allocPageArrayMutex = false ↔ Granted kern n p

theorem BulkPass.Inv.turn {s : BulkPass} (h : s.Inv kern n p) :
    (∃ s', bulkTurn kern s = some (.leave s') ∧ s'.Done kern n p) ∨
      ∃ s', bulkTurn kern s = some (.again s') ∧ s'.Inv kern n p ∧
        s'.neednum.toNat < s.neednum.toNat := by
  rw [bulkTurn]
  by_cases hzero : s.neednum ≤ 0
  · have hdone : Granted kern s.neednum.toNat s.pool := by
      rw [Int.toNat_of_nonpos hzero]
      exact .done
    rw [if_pos hzero]
    exact .inl ⟨s, rfl, h.counts, fun _ => h.granted.2 hdone, fun _ => h.mutex⟩
  have hpos : 0 < s.neednum.toNat := by omega
  rw [if_neg hzero, if_neg (by rw [h.mutex]; decide)]
  dsimp only
  split
  · next pageArray hgrant =>
    have hmin : 0 < min s.neednum.toNat maxPageAllocOnce := lt_min hpos (by decide)
    have hneed : (s.neednum - (min s.neednum.toNat maxPageAllocOnce : ℕ)).toNat =
        s.neednum.toNat - min s.neednum.toNat maxPageAllocOnce := by omega
    refine .inr ⟨_, rfl, ⟨?_, h.mutex, ?_⟩, ?_⟩
    · rw [BulkPass.Counts, map_append, h.counts, map_map, range_add]
      rfl
    · rw [hneed, ← granted_iff hpos hgrant]
      exact h.granted
    · dsimp only
      omega
  · next hrefuse =>
    refine .inl ⟨_, rfl, h.counts, fun hfree => Bool.noConfusion hfree, fun hall => ?_⟩
    exact absurd (h.granted.1 hall) (not_granted hpos hrefuse)

/-- A call that gets the mutex returns. -/
theorem exists_bulkAlloc (kern : Kernel) (hmutex : p.allocPageArrayMutex = false) (nrPages : ℕ) :
    ∃ s, bulkAlloc kern nrPages p = some s ∧ s.Done kern (bulkNeednum nrPages).toNat p :=
  turns_spec (m := fun s : BulkPass => s.neednum.toNat) (fun _ h => h.turn)
    (I := BulkPass.Inv kern (bulkNeednum nrPages).toNat p) ⟨rfl, hmutex, Iff.rfl⟩ (lt_succ_self _)

theorem turns_bulkTurn (fuel : ℕ) {n : ℕ} (hn : n ≤ fuel) (p : Pool) (a : ℕ) (w : List (ℕ × Page)) :
    (turns (bulkTurn kern) (fuel + 1) ⟨p, n, a, w⟩).map (fun s => (s.pool, s.writes.map Prod.snd)) =
      (multiTaskAllocPages kern fuel n p).map fun r => (r.1, w.map Prod.snd ++ r.2) := by
  induction fuel generalizing n p a w with
  | zero =>
    obtain rfl : n = 0 := le_zero.1 hn
    rw [turns_leave (by rw [bulkTurn]; rfl), multiTaskAllocPages]
    simp
  | succ fuel ih =>
    rw [multiTaskAllocPages]
    by_cases hzero : n = 0
    · rw [turns_leave (by rw [bulkTurn, if_pos (by simp [hzero])]), if_pos hzero]
      simp
    have hturn : bulkTurn kern ⟨p, n, a, w⟩ = if p.allocPageArrayMutex then none else
        match kern.allocPagesArray p.clock p.held (min n maxPageAllocOnce) with
        | some pageArray => some (.again ⟨(p.holdPages pageArray).tick,
            (n : ℤ) - (min n maxPageAllocOnce : ℕ), a + min n maxPageAllocOnce,
            w ++ (range (min n maxPageAllocOnce)).map fun idx =>
              (a + idx, onePage (pageArray.getD idx 0))⟩)
        | none => some (.leave ⟨{ p.tick with allocPageArrayMutex := true }, n, a, w⟩) := by
      rw [bulkTurn, if_neg (by dsimp only; omega)]
      rfl
    rw [if_neg hzero, turns, hturn]
    by_cases hmutex : p.allocPageArrayMutex
    · rw [if_pos hmutex, if_pos hmutex]
      rfl
    rw [if_neg hmutex, if_neg hmutex]
    dsimp only
    cases hgrant : kern.allocPagesArray p.clock p.held (min n maxPageAllocOnce) with
    | none => simp
    | some pageArray =>
      have hlen := (kern.allocPagesArray_fresh hgrant).1
      have hpos : 0 < min n maxPageAllocOnce := lt_min (Nat.pos_of_ne_zero hzero) (by decide)
      -- the entries of a turn follow one another
      have hwrites : ((range (min n maxPageAllocOnce)).map fun idx =>
          (a + idx, onePage (pageArray.getD idx 0))).map Prod.snd = pageArray.map onePage := by
        refine ext_getElem (by simp [hlen]) fun i hi hi' => ?_
        have hi : i < pageArray.length := by simpa using hi'
        simp [hi]
      dsimp only
      rw [← cast_sub (min_le_left _ _), ih (by omega), map_append, hwrites]
      cases multiTaskAllocPages kern fuel (n - min n maxPageAllocOnce)
          (p.holdPages pageArray).tick with
      | none => rfl
      | some r => simp

/-- The pages of a call are those of `multiTaskAllocPages`. -/
theorem map_bulkAlloc {nrPages : ℕ} (h : nrPages < 2 ^ 31) (p : Pool) :
    (bulkAlloc kern nrPages p).map (fun s => (s.pool, s.writes.map Prod.snd)) =
      multiTaskAllocPages kern nrPages nrPages p := by
  have hneed : bulkNeednum nrPages = nrPages := by
    rw [bulkNeednum, mod_eq_of_lt (h.trans (by decide)), i32_of_lt h]
  rw [bulkAlloc, hneed, Int.toNat_natCast, turns_bulkTurn nrPages le_rfl]
  simp

/-! ## Runs -/

/-- The pool after a call, if it returns. -/
def bulkStep (kern : Kernel) (p : Pool) (nrPages : ℕ) : Option Pool :=
  (bulkAlloc kern nrPages p).map BulkPass.pool

/-- The requests of a call are granted. -/
def BulkGranted (kern : Kernel) (p : Pool) (nrPages : ℕ) : Prop :=
  Granted kern (bulkNeednum nrPages).toNat p

/-- The mutex is free as long as no request is refused. -/
theorem mutex_of_reached
    (h : Reached (fun p => p.allocPageArrayMutex = false) (bulkStep kern) (BulkGranted kern) p) :
    p.allocPageArrayMutex = false := by
  refine h.inv (I := fun p : Pool => p.allocPageArrayMutex = false) (fun _ hp => hp) ?_
  intro p nrPages p' hp hgranted hstep
  obtain ⟨s, hs, hdone⟩ := exists_bulkAlloc kern hp nrPages
  rw [bulkStep, hs] at hstep
  cases hstep
  exact hdone.mutex.2 hgranted

/-- After calls whose requests were granted, the next call returns the number of entries it wrote,
    each of them once, and leaves the mutex free if its requests are granted, too. -/
theorem bulk_alloc (kern : Kernel)
    (h : Reached (fun p => p.allocPageArrayMutex = false) (bulkStep kern) (BulkGranted kern) p)
    (nrPages : ℕ) : ∃ s, bulkAlloc kern nrPages p = some s ∧ s.writes.length = s.alloced ∧
      s.writes.map Prod.fst = range s.alloced ∧
      (s.pool.allocPageArrayMutex = false ↔ BulkGranted kern p nrPages) := by
  obtain ⟨s, hs, hdone⟩ := exists_bulkAlloc kern (mutex_of_reached h) nrPages
  refine ⟨s, hs, ?_, hdone.counts, hdone.mutex⟩
  rw [← length_map Prod.fst, hdone.counts, length_range]

/-- A kernel that has all the single pages it is asked for after the first `n` requests, and
    refuses these. Its pages come after the memory that is handed out. -/
def lateKernel (n : ℕ) : Kernel where
  allocPagesArray t held num :=
    if t < n then none
    else some ((List.range num).map ((held.map fun e => e.start + e.len).sum + ·))
  allocPagesArray_fresh {t held num pfns} h := by
    split at h
    · cases h
    cases h
    refine ⟨by simp, List.nodup_range.map fun _ _ => Nat.add_left_cancel, ?_⟩
    intro pfn hpfn x hx
    obtain ⟨k, -, rfl⟩ := mem_map.1 hpfn
    have hle := le_sum_of_mem (mem_map_of_mem (f := fun e : Extent => e.start + e.len) hx)
    exact .inr (by dsimp only at hle ⊢; omega)

/-- The pool of a new manager. -/
def newPool : Pool := ⟨false, [], 0⟩

theorem map_bulkAlloc_two :
    (bulkAlloc (lateKernel 0) 2 newPool).map (fun s => (s.pool, s.writes.map Prod.snd)) =
      multiTaskAllocPages (lateKernel 0) 2 2 newPool := map_bulkAlloc (by decide) newPool

/-- Two calls are granted. -/
theorem bulk_alloc_two : ∃ p s, bulkStep (lateKernel 0) newPool 2 = some p ∧
    bulkAlloc (lateKernel 0) 1 p = some s ∧ s.writes.length = s.alloced ∧ s.alloced = 1 ∧
      s.pool.allocPageArrayMutex = false := by
  have hgranted : BulkGranted (lateKernel 0) newPool 2 := .more (by decide) rfl .done
  have hreached : Reached (fun p => p.allocPageArrayMutex = false) (bulkStep (lateKernel 0))
      (BulkGranted (lateKernel 0)) ((newPool.holdPages [0, 1]).tick) :=
    .more 2 (.start rfl) hgranted rfl
  obtain ⟨s, hs, hlen, -, hmutex⟩ := bulk_alloc (lateKernel 0) hreached 1
  refine ⟨_, s, rfl, hs, hlen, ?_, hmutex.2 (.more (by decide) rfl .done)⟩
  cases hs
  rfl

/-- The first call is refused and returns with the mutex held. The next call waits for it,
    whatever it is asked for. -/
theorem bulk_blocked : ∃ p, bulkStep (lateKernel 1) newPool 1 = some p ∧
    p.allocPageArrayMutex = true ∧ ∀ nrPages, 0 < bulkNeednum nrPages →
      bulkAlloc (lateKernel 1) nrPages p = none := by
  refine ⟨_, rfl, rfl, fun nrPages hpos => ?_⟩
  rw [bulkAlloc, turns, bulkTurn, if_neg (by dsimp only; omega)]
  rfl

end CommonDrivers.Media.CodecMm.Pool
