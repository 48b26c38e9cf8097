import CommonDrivers.Lib.Cells
import CommonDrivers.Media.CodecMm.Pool

/-!
# Scatters and their caches

A *scatter* is the list of pages of one user of the scatter memory. A manager has, next
to the scatters of its users, two scatters that are *caches* (`codec_mm_scatter.c`): the
pages a user frees are put there for the next, and the monitor fills them up. A cache
keeps its pages in a ring, between a tail and a head.
-/

namespace CommonDrivers.Media.CodecMm

/-- `scatter_align_pages_size`, of `u32`. -/
structure Config where
  scatterAlignPagesSize : ℕ

/-- `scatter_get_unit_pages`. -/
def Config.getUnitPages (cfg : Config) : ℤ := i32 (u32 cfg.scatterAlignPagesSize)

/-- `struct codec_mm_scatter`. A scatter is known by its `id`, for its address. -/
structure Scatter where
  id : ℕ
  pagesList : ℕ → Page
  pageMaxCnt : ℤ
  pageCnt : ℤ
  pageTail : ℤ
  pageUsed : ℤ
  userCnt : ℤ

/-! ## Caches -/

/-- `CACHE_QUEUE_LEN`. -/
def cacheQueueLen : ℕ := 16384

/-- `struct codec_mm_cache_queue`. -/
structure CacheQueue where
  head : ℕ
  tail : ℕ

/-- A scatter that has a queue. -/
structure Cache where
  mms : Scatter
  queue : CacheQueue

namespace CacheQueue

variable (q : CacheQueue)

/-- `codec_mm_queue_len`. -/
def len : ℕ := (q.head + cacheQueueLen - q.tail) % cacheQueueLen

/-- `codec_mm_cache_queue_head_add`. -/
def headAdd (num : ℕ) : CacheQueue := { q with head := (q.head + num) % cacheQueueLen }

/-- `codec_mm_cache_queue_tail_add`. -/
def tailAdd (num : ℕ) : CacheQueue := { q with tail := (q.tail + num) % cacheQueueLen }

end CacheQueue

namespace Cache

variable (cfg : Config) (c : Cache)

/-- The room that is left in the queue but for a unit, which is unsigned. -/
def room : ℕ := u32 (cacheQueueLen - c.queue.len - cfg.getUnitPages)

/-- The number of pages `codec_mm_cache_queue_produce` puts in, of those supplied. -/
def produceNum (supplyNum : ℕ) : ℕ := (i32 (min (c.room cfg) (u32 supplyNum))).toNat

/-- The pages are put in at the head. -/
def produce (pages : List Page) : Cache :=
  { mms :=
      { c.mms with
        pagesList := Ring.put cacheQueueLen c.mms.pagesList c.queue.head pages }
    queue := c.queue.headAdd pages.length }

/-- `codec_mm_cache_queue_consume`: the pages that are taken out at the tail. -/
def consume (needNum : ℕ) : Cache × List Page :=
  let num := min c.queue.len needNum
  ({ mms :=
      { c.mms with
        pagesList :=
          Ring.put cacheQueueLen c.mms.pagesList c.queue.tail (List.replicate num Page.zero) }
     queue := c.queue.tailAdd num },
   Ring.get cacheQueueLen c.mms.pagesList c.queue.tail num)

end Cache

/-- The numerals of `Fin 2` rest on it. -/
scoped instance neZero_two : NeZero 2 := ⟨two_ne_zero⟩

end CommonDrivers.Media.CodecMm
