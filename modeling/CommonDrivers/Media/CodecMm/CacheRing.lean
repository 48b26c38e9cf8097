import CommonDrivers.Lib.Run
import CommonDrivers.Media.CodecMm.Scatter

/-!
# The ring of a cache

The pages of a cache are put in at the head and taken out at the tail, each time by one
copy, or two if they go round the end of `pages_list`. A queue whose head is at its tail
counts as empty, so that a unit of `scatter_align_pages_size` pages is kept free. The unit
is configured, and the room is an unsigned number.

* `CacheHistory.fifo`: the pages come out in the order in which they were put in, and no
  copy leaves the list, if the unit is neither 0 nor larger than the list, or if the pages
  put in leave a cell free anyway;
* `CacheHistory.not_fifo`: without a unit the ring can be filled up, and looks empty; with
  a unit that is too large the room wraps, and the copies leave the list.
-/

namespace CommonDrivers.Media.CodecMm

open List Nat

/-! ## Queues -/

namespace CacheQueue

variable {q : CacheQueue} {n : ℕ}

/-- The head and the tail are cells of the ring. -/
structure Wf (q : CacheQueue) : Prop where
  head_lt : q.head < cacheQueueLen
  tail_lt : q.tail < cacheQueueLen

theorem len_lt (q : CacheQueue) : q.len < cacheQueueLen := mod_lt _ (by decide)

/-- The head is the length of the queue after the tail. -/
theorem Wf.head_eq (h : q.Wf) : q.head = (q.tail + q.len) % cacheQueueLen := by
  obtain ⟨hhead, htail⟩ := h
  rw [len]
  unfold cacheQueueLen at *
  omega

theorem wf_headAdd (h : q.Wf) (n : ℕ) : (q.headAdd n).Wf := ⟨mod_lt _ (by decide), h.tail_lt⟩

theorem wf_tailAdd (h : q.Wf) (n : ℕ) : (q.tailAdd n).Wf := ⟨h.head_lt, mod_lt _ (by decide)⟩

/-- The queue gets longer, unless it is filled up. -/
theorem Wf.len_headAdd (h : q.Wf) (hn : q.len + n < cacheQueueLen) :
    (q.headAdd n).len = q.len + n := by
  obtain ⟨hhead, htail⟩ := h
  simp only [len, headAdd] at hn ⊢
  unfold cacheQueueLen at *
  omega

theorem Wf.len_tailAdd (h : q.Wf) (hn : n ≤ q.len) : (q.tailAdd n).len = q.len - n := by
  obtain ⟨hhead, htail⟩ := h
  simp only [len, tailAdd] at hn ⊢
  unfold cacheQueueLen at *
  omega

end CacheQueue

/-! ## Caches -/

namespace Cache

variable {c : Cache} {ps : List Page}

/-- The pages of the cache, from the tail to the head. -/
def pages (c : Cache) : List Page :=
  Ring.window cacheQueueLen c.mms.pagesList c.queue.tail c.queue.len

@[simp]
theorem length_pages (c : Cache) : c.pages.length = c.queue.len := Ring.length_window _ _ _ _

/-- Pages that are put in come after those there are, if they do not fill the ring up. -/
theorem pages_produce (hq : c.queue.Wf) (hroom : c.queue.len + ps.length < cacheQueueLen) :
    (c.produce ps).pages = c.pages ++ ps := by
  rw [pages, produce, hq.len_headAdd hroom]
  rw [hq.head_eq]
  exact Ring.window_put _ (by decide) hroom.le

/-- Pages that are taken out are the first there are. -/
theorem pages_consume (hq : c.queue.Wf) (n : ℕ) :
    c.pages = (c.consume n).2 ++ (c.consume n).1.pages := by
  have hk : min c.queue.len n ≤ c.queue.len := min_le_left _ _
  have hlen := c.queue.len_lt
  rw [consume, pages, pages]
  dsimp only
  rw [Ring.get_eq_window _ hq.tail_lt (hk.trans hlen.le), hq.len_tailAdd hk]
  conv_lhs => rw [← Nat.add_sub_cancel' hk, Ring.window_add]
  congr 1
  refine Ring.window_congr fun k hk' => (Ring.put_of_ne _ hq.tail_lt (mod_lt _ (by decide))
    fun j hj heq => ?_).symm
  -- a cell that is cleared is before those that are left
  rw [length_replicate] at hj
  rw [mod_add_mod] at heq
  exact Ring.mod_ne_mod (show c.queue.tail + j < c.queue.tail + min c.queue.len n + k by omega)
    (by omega) heq

end Cache

/-! ## The room in a queue -/

/-- A cell of the queue stays free when the pages are put in: there are not too many of
    them, or a unit is kept free that is not 0 and fits in the queue. -/
def Config.Fits (cfg : Config) (len supplyNum : ℕ) : Prop := supplyNum + len < cacheQueueLen ∨
    1 ≤ cfg.getUnitPages ∧ cfg.getUnitPages + len ≤ cacheQueueLen

namespace Cache

variable {cfg : Config} {c : Cache} {supplyNum : ℕ}

theorem produceNum_le (cfg : Config) (c : Cache) (supplyNum : ℕ) :
    c.produceNum cfg supplyNum ≤ supplyNum :=
  ((i32_toNat_le _).trans (min_le_right _ _)).trans (u32_le_toNat (Int.natCast_nonneg supplyNum))

theorem produceNum_le_room (cfg : Config) (c : Cache) (supplyNum : ℕ) :
    c.produceNum cfg supplyNum ≤ c.room cfg := (i32_toNat_le _).trans (min_le_left _ _)

/-- The room is what is left but for a unit, if there is as much. -/
theorem room_lt (h₁ : 1 ≤ cfg.getUnitPages) (h₂ : cfg.getUnitPages + c.queue.len ≤ cacheQueueLen) :
    c.room cfg + c.queue.len < cacheQueueLen := by
  rw [room, u32]
  omega

theorem produceNum_lt (h : cfg.Fits c.queue.len supplyNum) :
    c.queue.len + c.produceNum cfg supplyNum < cacheQueueLen := by
  rcases h with h | ⟨h₁, h₂⟩
  · have := produceNum_le cfg c supplyNum
    omega
  · have := produceNum_le_room cfg c supplyNum
    have := room_lt h₁ h₂
    omega

end Cache

/-! ## The copies -/

/-- The entries that a copy of `num * sizeof(phy_addr_type)` bytes goes over. -/
def copyLen (num : ℤ) : ℕ := (num % 2 ^ 61).toNat

/-- The stretches of `pages_list` that `num` pages are copied to or from, at `i`. -/
def copies (i : ℕ) (num : ℤ) : List Extent :=
  if i32 (u32 (i + num)) ≤ cacheQueueLen then [⟨i, copyLen num⟩]
  else [⟨i, copyLen (cacheQueueLen - i)⟩, ⟨0, copyLen (i32 (u32 (i + num)) - cacheQueueLen)⟩]

/-- The stretches are all in the list. -/
def InList (l : List Extent) : Prop := ∀ e ∈ l, e.Within ⟨0, cacheQueueLen⟩

instance (l : List Extent) : Decidable (InList l) :=
  inferInstanceAs (Decidable (∀ e ∈ l, 0 ≤ e.start ∧ e.start + e.len ≤ 0 + cacheQueueLen))

theorem copyLen_natCast {n : ℕ} (h : n < 2 ^ 61) : copyLen n = n := by
  rw [copyLen]
  omega

/-- A copy that does not go round more than once is in the list. -/
theorem inList_copies {i n : ℕ} (hi : i < cacheQueueLen) (hn : n ≤ cacheQueueLen) :
    InList (copies i n) := by
  have hlen : cacheQueueLen = 16384 := rfl
  have hsum : i32 (u32 ((i : ℤ) + n)) = (i + n : ℕ) := by
    rw [show ((i : ℤ) + n) = ((i + n : ℕ) : ℤ) by push_cast; rfl, u32_natCast (by omega),
      i32_of_lt (by omega)]
  rw [copies, hsum]
  split
  · next hle =>
    rw [copyLen_natCast (by omega)]
    intro e he
    obtain rfl := mem_singleton.1 he
    exact ⟨Nat.zero_le _, by dsimp only; omega⟩
  next hlt =>
  rw [show ((cacheQueueLen : ℤ) - i) = ((cacheQueueLen - i : ℕ) : ℤ) by omega,
    show (((i + n : ℕ) : ℤ) - cacheQueueLen) = ((i + n - cacheQueueLen : ℕ) : ℤ) by omega,
    copyLen_natCast (by omega), copyLen_natCast (by omega)]
  intro e he
  rcases mem_cons.1 he with rfl | he
  · exact ⟨Nat.zero_le _, by dsimp only; omega⟩
  · obtain rfl := mem_singleton.1 he
    exact ⟨Nat.zero_le _, by dsimp only; omega⟩

namespace Cache

variable (cfg : Config) (c : Cache)

/-- `codec_mm_cache_queue_produce` with a producer, an array of `supply_num` pages: the cache
    and the array after it, and what is returned. There is no result if a copy leaves
    `pages_list`. -/
def queueProduce (producer : List Page) : Option (Cache × List Page × ℤ) :=
  let num := i32 (min (c.room cfg) (u32 producer.length))
  if InList (copies c.queue.head num) then
    some (c.produce (producer.take num.toNat),
      List.replicate num.toNat Page.zero ++ producer.drop num.toNat, num)
  else none

/-- `codec_mm_cache_queue_consume`: the cache after it, and the pages that are copied to the
    consumer. There is no result if a copy leaves `pages_list`. -/
def queueConsume (needNum : ℕ) : Option (Cache × List Page) :=
  let num := i32 (min c.queue.len (u32 needNum))
  if InList (copies c.queue.tail num) then some (c.consume (u32 needNum)) else none

variable {cfg c}

/-- Pages that leave a cell free are put in. -/
theorem queueProduce_eq (hq : c.queue.Wf) {producer : List Page}
    (hfits : cfg.Fits c.queue.len producer.length) :
    ∃ n, c.queue.len + n < cacheQueueLen ∧ n ≤ c.room cfg ∧ n ≤ producer.length ∧
      c.queueProduce cfg producer = some (c.produce (producer.take n),
        replicate n Page.zero ++ producer.drop n, (n : ℤ)) := by
  have hlt := produceNum_lt hfits
  have hlen : cacheQueueLen = 16384 := rfl
  have hsmall : min (c.room cfg) (u32 producer.length) < 2 ^ 31 := by
    rcases hfits with hfits | ⟨h₁, h₂⟩
    · refine lt_of_le_of_lt (min_le_right _ _) ?_
      rw [u32_natCast (by omega)]
      omega
    · refine lt_of_le_of_lt (min_le_left _ _) ?_
      have := room_lt h₁ h₂
      omega
  have hnum : i32 (min (c.room cfg) (u32 producer.length)) = c.produceNum cfg producer.length := by
    rw [produceNum, i32_of_lt hsmall, Int.toNat_natCast]
  refine ⟨c.produceNum cfg producer.length, hlt, produceNum_le_room _ _ _, produceNum_le _ _ _, ?_⟩
  rw [queueProduce, hnum, if_pos (inList_copies hq.head_lt (by omega)), Int.toNat_natCast]

theorem queueConsume_eq (hq : c.queue.Wf) (needNum : ℕ) :
    c.queueConsume needNum = some (c.consume (u32 needNum)) := by
  have hlt := c.queue.len_lt
  have hlen : cacheQueueLen = 16384 := rfl
  rw [queueConsume, i32_of_lt (by omega)]
  exact if_pos (inList_copies hq.tail_lt (by omega))

end Cache

/-! ## Runs -/

/-- A cache, with the pages that were put in and taken out. -/
structure CacheHistory where
  cache : Cache
  produced : List Page
  consumed : List Page

namespace CacheHistory

/-- A call on the cache. -/
inductive Op
  | produce (producer : List Page)
  | consume (needNum : ℕ)

/-- A call is made, if no copy leaves the list. -/
def step (cfg : Config) (s : CacheHistory) : Op → Option CacheHistory
  | .produce producer => do
    let (cache, _, num) ← s.cache.queueProduce cfg producer
    some { s with cache, produced := s.produced ++ producer.take num.toNat }
  | .consume needNum => do
    let (cache, pages) ← s.cache.queueConsume needNum
    some { s with cache, consumed := s.consumed ++ pages }

/-- A new cache (`codec_mm_cache_queue_init`). -/
def Fresh (s : CacheHistory) : Prop := s.cache.queue = ⟨0, 0⟩ ∧ s.produced = [] ∧ s.consumed = []

/-- The unit is neither 0 nor too large, or the pages put in leave a cell free anyway. -/
def Leaves (cfg : Config) (s : CacheHistory) : Op → Prop
  | .produce producer => 1 ≤ cfg.getUnitPages ∧ cfg.getUnitPages ≤ cacheQueueLen ∨
      producer.length + s.cache.queue.len < cacheQueueLen
  | .consume _ => True

/-- The pages are taken out in the order in which they were put in, none is lost or there
    twice, and the queue counts those that are in it. -/
structure Fifo (s : CacheHistory) : Prop where
  produced_eq : s.produced = s.consumed ++ s.cache.pages
  len_eq : s.cache.queue.len + s.consumed.length = s.produced.length

/-- What holds between the calls. -/
structure Inv (cfg : Config) (s : CacheHistory) : Prop where
  wf : s.cache.queue.Wf
  produced_eq : s.produced = s.consumed ++ s.cache.pages
  /-- A unit that fits in the list is kept free. -/
  unit_le : 1 ≤ cfg.getUnitPages → cfg.getUnitPages ≤ cacheQueueLen →
    cfg.getUnitPages + s.cache.queue.len ≤ cacheQueueLen

variable {cfg : Config} {s : CacheHistory} {op : Op}

theorem Inv.isFifo (h : s.Inv cfg) : s.Fifo := by
  refine ⟨h.produced_eq, ?_⟩
  rw [h.produced_eq, length_append, Cache.length_pages, Nat.add_comm]

/-- A call that leaves a cell free is made without leaving the list. -/
theorem Inv.step (h : s.Inv cfg) (hop : Leaves cfg s op) :
    ∃ s', step cfg s op = some s' ∧ s'.Inv cfg := by
  cases op with
  | produce producer =>
    have hfits : cfg.Fits s.cache.queue.len producer.length := by
      rcases hop with ⟨h₁, h₂⟩ | hroom
      · exact .inr ⟨h₁, h.unit_le h₁ h₂⟩
      · exact .inl hroom
    obtain ⟨n, hlt, hroom, hn, heq⟩ := Cache.queueProduce_eq h.wf hfits
    have hlen : (producer.take n).length = n := length_take_of_le hn
    refine ⟨_, by rw [CacheHistory.step, heq]; rfl, CacheQueue.wf_headAdd h.wf _, ?_, ?_⟩
    · rw [Int.toNat_natCast, Cache.pages_produce h.wf (by rwa [hlen]), h.produced_eq, append_assoc]
    intro h₁ h₂
    change _ + ((s.cache.queue.headAdd (producer.take n).length).len : ℤ) ≤ _
    rw [hlen, h.wf.len_headAdd hlt]
    have hunit := h.unit_le h₁ h₂
    rw [Cache.room, u32] at hroom
    omega
  | consume needNum =>
    refine ⟨{ s with
        cache := (s.cache.consume (u32 needNum)).1
        consumed := s.consumed ++ (s.cache.consume (u32 needNum)).2 },
      by rw [CacheHistory.step, Cache.queueConsume_eq h.wf]; rfl,
      CacheQueue.wf_tailAdd h.wf _, ?_, ?_⟩
    · rw [append_assoc, ← Cache.pages_consume h.wf]
      exact h.produced_eq
    intro h₁ h₂
    change _ + ((s.cache.queue.tailAdd (min s.cache.queue.len (u32 needNum))).len : ℤ) ≤ _
    rw [h.wf.len_tailAdd (min_le_left _ _)]
    have hunit := h.unit_le h₁ h₂
    omega

theorem inv_of_fresh (cfg : Config) (h : Fresh s) : s.Inv cfg := by
  obtain ⟨hq, hprod, hcons⟩ := h
  have hlen : s.cache.queue.len = 0 := by
    rw [hq]
    decide
  refine ⟨?_, ?_, fun _ hle => ?_⟩
  · rw [hq]
    exact ⟨by decide, by decide⟩
  · rw [hprod, hcons, Cache.pages, hlen]
    rfl
  · rw [hlen]
    simpa using hle

theorem inv_of_reached (h : Reached Fresh (step cfg) (Leaves cfg) s) : s.Inv cfg := by
  refine h.inv (fun _ => inv_of_fresh cfg) fun s op s' hs hop hstep => ?_
  obtain ⟨t, ht, hinv⟩ := hs.step hop
  obtain rfl : t = s' := Option.some.inj (ht.symm.trans hstep)
  exact hinv

/-- The ring of a cache is a queue, and the copies stay in its list. -/
theorem fifo (cfg : Config) (h : Reached Fresh (step cfg) (Leaves cfg) s) :
    s.Fifo ∧ ∀ op, Leaves cfg s op → (step cfg s op).isSome := by
  have hinv := inv_of_reached h
  refine ⟨hinv.isFifo, fun op hop => ?_⟩
  obtain ⟨s', hs', -⟩ := hinv.step hop
  rw [hs']
  rfl

/-- A configuration with a unit. -/
def unitOf (n : ℕ) : Config := ⟨n⟩

/-- A cache that is not used yet. -/
def fresh : CacheHistory := ⟨⟨⟨0, fun _ => Page.zero, 16384, 0, -1, 0, 1000⟩, ⟨0, 0⟩⟩, [], []⟩

theorem fresh_fresh : Fresh fresh := ⟨rfl, rfl, rfl⟩

/-- Three pages are put in and two are taken out, without a unit. -/
theorem fifo_three : ∃ s, step (unitOf 0) fresh (.produce [⟨1, 0⟩, ⟨2, 0⟩, ⟨3, 0⟩]) = some s ∧
    s.Fifo ∧ (step (unitOf 0) s (.consume 2)).isSome := by
  have hop : Leaves (unitOf 0) fresh (.produce [⟨1, 0⟩, ⟨2, 0⟩, ⟨3, 0⟩]) := .inr (by decide)
  obtain ⟨s, hs, -⟩ := (inv_of_fresh (unitOf 0) fresh_fresh).step hop
  have hreached : Reached Fresh (step (unitOf 0)) (Leaves (unitOf 0)) s :=
    .more _ (.start fresh_fresh) hop hs
  obtain ⟨hfifo, hnext⟩ := fifo (unitOf 0) hreached
  exact ⟨s, hs, hfifo, hnext (.consume 2) trivial⟩

/-- What a new cache does with pages for which it seems to have room. -/
theorem step_fresh (cfg : Config) {producer : List Page} {n : ℕ} (hlen : producer.length = n)
    (hn : n < 2 ^ 31) (hroom : n ≤ fresh.cache.room cfg) : step cfg fresh (.produce producer) =
      if InList (copies 0 n) then some ⟨fresh.cache.produce producer, producer, []⟩ else none := by
  have hnum : i32 (min (fresh.cache.room cfg) (u32 producer.length)) = n := by
    rw [hlen, u32_natCast (by omega), min_eq_right hroom, i32_of_lt hn]
  rw [step, Cache.queueProduce, hnum, Int.toNat_natCast, ← hlen, take_length]
  change (if InList (copies 0 producer.length) then _ else none).bind _ = _
  split
  · rw [Option.bind_some]
    dsimp only
    rw [Int.toNat_natCast, take_length]
    rfl
  · rfl

/-- Without a unit the pages fill the ring up, which then counts none of them. With a unit that is
    larger than the list the room is almost `2 ^ 32`, and the pages are copied beyond the list. -/
theorem not_fifo : (∃ producer s, step (unitOf 0) fresh (.produce producer) = some s ∧
        s.produced.length = cacheQueueLen ∧ s.consumed = [] ∧ s.cache.queue.len = 0 ∧ ¬s.Fifo) ∧
      ∃ producer, step (unitOf 16385) fresh (.produce producer) = none := by
  constructor
  · have hlen : (replicate cacheQueueLen Page.zero).length = cacheQueueLen := length_replicate
    have hstep := step_fresh (unitOf 0) hlen (by decide) (by decide)
    have hcount : (fresh.cache.produce (replicate cacheQueueLen Page.zero)).queue.len = 0 := by
      rw [Cache.produce, hlen]
      decide
    refine ⟨_, _, hstep, hlen, rfl, hcount, fun hfifo => ?_⟩
    have hsum := hfifo.len_eq
    rw [hlen] at hsum
    dsimp only at hsum
    rw [hcount] at hsum
    exact absurd hsum (by decide)
  · have hlen : (replicate 40000 Page.zero).length = 40000 := length_replicate
    refine ⟨replicate 40000 Page.zero, ?_⟩
    rw [step_fresh (unitOf 16385) hlen (by decide) (by decide), if_neg (by decide)]

end CacheHistory

end CommonDrivers.Media.CodecMm
