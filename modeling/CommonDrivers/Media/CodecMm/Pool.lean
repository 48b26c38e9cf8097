import CommonDrivers.Lib.Extent
import CommonDrivers.Lib.Word

/-!
# The single pages of the scatter memory

Video decoders take their memory page by page from a scatter manager (`codec_mm_scatter.c`). Some
of it are *single pages*, which come one by one, or many in one array.

Physical addresses are counted in pages. The calls into the rest of the kernel are answered by a
`Kernel`, which may fail at any call and assumes no more than that memory that is handed out is not
handed out already. A function that does not return is `none`.
-/

namespace CommonDrivers.Media.CodecMm

open Function

/-- `ONE_PAGE_SID`. -/
def onePageSid : ℕ := 0xfff

/-- An entry of a list of pages, of `phy_addr_type`: the address of the page and, in the
    bits that are 0 in the address, the id of the list its slot is in. -/
structure Page where
  pfn : ℕ
  sid : ℕ
  deriving DecidableEq, Repr

/-- A cleared entry. -/
def Page.zero : Page := ⟨0, 0⟩

/-- What the rest of the kernel answers. The first argument is the time of the call, so that the
    answers may differ from call to call. -/
structure Kernel where
  /-- `aml_alloc_pages_array`, by the memory handed out and the number of pages. -/
  allocPagesArray : ℕ → List Extent → ℕ → Option (List ℕ)
  allocPagesArray_fresh : ∀ {t held n pfns}, allocPagesArray t held n = some pfns →
    pfns.length = n ∧ pfns.Nodup ∧ ∀ pfn ∈ pfns, ∀ x ∈ held, Extent.Apart ⟨pfn, 1⟩ x

/-- What of `struct codec_mm_scatter_mgt` the single pages are taken with. -/
structure Pool where
  /-- Whether `alloc_page_array_mutex` is held. -/
  allocPageArrayMutex : Bool
  /-- The memory that is handed out to the manager. -/
  held : List Extent
  /-- The time, for the answers of the kernel. -/
  clock : ℕ

namespace Pool

variable (kern : Kernel)

/-- A call into the rest of the kernel is made. -/
def tick (p : Pool) : Pool := { p with clock := p.clock + 1 }

/-- A single page is handed out. -/
def onePage (pfn : ℕ) : Page := ⟨pfn, onePageSid⟩

/-- The single pages are handed out. -/
def holdPages (p : Pool) (pfns : List ℕ) : Pool :=
  { p with held := pfns.map (⟨·, 1⟩) ++ p.held }

/-- `MAX_PAGE_ALLOC_ONCE`. -/
def maxPageAllocOnce : ℕ := 4096

/-- `multi_task_alloc_pages`. When pages cannot be had, the loop is left with the mutex
    held. `fuel` bounds the rounds, each of which has a page at least. -/
def multiTaskAllocPages : (fuel neednum : ℕ) → Pool → Option (Pool × List Page)
  | 0, _, p => some (p, [])
  | fuel + 1, neednum, p =>
    if neednum = 0 then some (p, [])
    else if p.allocPageArrayMutex then none
    else
      let pageNum := min neednum maxPageAllocOnce
      match kern.allocPagesArray p.clock p.held pageNum with
      | none => some ({ p.tick with allocPageArrayMutex := true }, [])
      | some pfns => do
        let (p', pages) ← multiTaskAllocPages fuel (neednum - pageNum) (p.holdPages pfns).tick
        some (p', pfns.map onePage ++ pages)

end Pool

end CommonDrivers.Media.CodecMm
