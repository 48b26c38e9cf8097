import CommonDrivers.Lib.Word

/-!
# The PTS server

A table keeps the timestamps of one stream by their offset in it. Its records are allocated by
pages when the table is started, and are in one of two lists: those with a timestamp, in the order
of the check-ins (`validList`), and the free ones. A lookup starts at the record that `ptsSearch`
points to, and goes through the list of the valid ones forwards or backwards.

The records of a table are numbered; a pointer into a list is the number of a record, or the head
of the list. A result is `none` where the code takes something for a record that is none: the head
of the list, or a record that is not in the list it goes through.

The times of the system (`timestamp_*`, `tsync_*`), the bit rates and the messages have no effect on
the lists, and are left out.
-/

namespace CommonDrivers.FrameSync

open Function

/-- `PTS_TYPE_*`. -/
inductive PtsType
  | video
  | audio
  | hevc
  deriving DecidableEq

/-- `PTS_IDLE` and so on. -/
inductive PtsStatus
  | idle
  | init
  | loading
  | running
  | deinit
  deriving DecidableEq

/-- A pointer to an entry of the list of the valid records. -/
inductive Entry
  | null
  | head
  | node (r : ℕ)
  deriving DecidableEq

/-- `struct pts_rec_s`. -/
structure PtsRec where
  offset : UInt32
  val : UInt32
  size : UInt32
  ptsUs64 : UInt64

/-- `struct pts_table_s`. The records are those below `recCount`, and `ptsRecs` is their memory. -/
structure PtsTable where
  status : PtsStatus
  recNum : ℤ
  lookupThreshold : ℤ
  lookupCacheOffset : UInt32
  lookupCacheValid : Bool
  lookupCachePts : UInt32
  lookupCachePtsUs64 : UInt64
  firstCheckinPts : UInt32
  firstCheckinPtsUs64 : UInt64
  firstLookupOk : Bool
  firstLookupIsFail : Bool
  lastCheckinOffset : UInt32
  recCount : ℕ
  ptsRecs : ℕ → PtsRec
  ptsSearch : Entry
  validList : List ℕ
  freeList : List ℕ

/-- `EINVAL`, `EBUSY` and `ENOMEM`. -/
def einval : ℤ := 22
def ebusy : ℤ := 16
def enomem : ℤ := 12

/-! ## Offsets -/

/-- `OFFSET_DIFF` and `VAL_DIFF`. -/
def offsetDiff (x y : UInt32) : ℤ := i32 (x - y).toNat

def offsetLater (x y : UInt32) : Bool := 0 < offsetDiff x y

def offsetEqlater (x y : UInt32) : Bool := 0 ≤ offsetDiff x y

/-- `PTS_VALID_OFFSET_TO_CHECK`. -/
def ptsValidOffsetToCheck : ℤ := 0x08000000

/-- `INTERPOLATE_AUDIO_RESOLUTION`. -/
def interpolateAudioResolution : ℤ := 9000 * 10

/-- `abs` of an `int`; the least `int` stays as it is. -/
def absInt (x : ℤ) : ℤ := if x < 0 then i32 (u32 (-x)) else x

/-! ## Lists -/

namespace PtsTable

/-- `list_move_tail` to the list of the free records, from whichever list the record is in. -/
def moveTailFree (t : PtsTable) (r : ℕ) : PtsTable :=
  { t with validList := t.validList.erase r, freeList := t.freeList.erase r ++ [r] }

/-- `list_move_tail` to the list of the valid records. -/
def moveTailValid (t : PtsTable) (r : ℕ) : PtsTable :=
  { t with validList := t.validList.erase r ++ [r], freeList := t.freeList.erase r }

/-- The entry before the record in the list of the valid ones. -/
def prev (t : PtsTable) (r : ℕ) : Entry :=
  match (t.validList.takeWhile (· ≠ r)).getLast? with
  | none => .head
  | some q => .node q

/-- The record behind the given one in the list, or the first of them. -/
def first : List ℕ → Entry
  | [] => .head
  | r :: _ => .node r

/-- The records behind the given one in the list of the valid ones. -/
def behind (t : PtsTable) (r : ℕ) : List ℕ := (t.validList.dropWhile (· ≠ r)).tail

/-- The records before the given one, the nearest of them first. -/
def before (t : PtsTable) (r : ℕ) : List ℕ := (t.validList.takeWhile (· ≠ r)).reverse

def offset (t : PtsTable) (r : ℕ) : UInt32 := (t.ptsRecs r).offset

def setRec (t : PtsTable) (r : ℕ) (x : PtsRec) : PtsTable :=
  { t with ptsRecs := fun q => if q = r then x else t.ptsRecs q }

end PtsTable

/-! ## Check-ins -/

/-- The record that a check-in takes: the first free one, or else the oldest valid one. -/
def checkinRec (t : PtsTable) : Option ℕ :=
  match t.freeList with
  | r :: _ => some r
  | [] => t.validList.head?

/-- The size of the record before is known when the next one comes. -/
def sizePrev (t : PtsTable) (offset : UInt32) : PtsTable :=
  match t.validList.getLast? with
  | none => t
  | some q =>
    let p := t.ptsRecs q
    if p.offset = t.lastCheckinOffset then
      t.setRec q { p with
        size := if t.lastCheckinOffset < offset then offset - t.lastCheckinOffset else 0 }
    else t

/-- The size of a new record. -/
def sizeNew (t : PtsTable) (offset : UInt32) : UInt32 :=
  if 0 < t.lastCheckinOffset ∧ t.lastCheckinOffset < offset then offset - t.lastCheckinOffset
  else
    match t.validList.getLast? with
    | none => 0
    | some q => (t.ptsRecs q).size

def setFirstCheckin (type : PtsType) (t : PtsTable) (val : UInt32) (us64 : UInt64) : PtsTable :=
  if (type = .video ∨ type = .audio) ∧ t.firstCheckinPts = 0xffffffff then
    { t with firstCheckinPts := val, firstCheckinPtsUs64 := us64 }
  else t

def ptsCheckinOffsetInline (type : PtsType) (t : PtsTable) (offset val : UInt32) (us64 : UInt64) :
    Option (PtsTable × ℤ) :=
  if t.status = .running ∨ t.status = .loading then
    match checkinRec t with
    -- the head of the list is taken for a record
    | none => none
    | some r =>
      let t := sizePrev (setFirstCheckin type t val us64) offset
      let t := t.setRec r ⟨offset, val, sizeNew t offset, us64⟩
      let t := { t with
        lastCheckinOffset :=
          if 0 < offsetDiff offset t.lastCheckinOffset then offset else t.lastCheckinOffset }
      some ({ t.moveTailValid r with status := .running }, 0)
  else some (t, -einval)

def ptsCheckinOffset (type : PtsType) (t : PtsTable) (offset val : UInt32) :
    Option (PtsTable × ℤ) := ptsCheckinOffsetInline type t offset val (val.toUInt64 * 100 / 9)

/-! ## Lookups -/

/-- What a lookup answers: what it returns, and what it writes. -/
structure Lookup where
  ret : ℤ
  val : Option UInt32
  us64 : Option UInt64
  frameSize : Option UInt32

def Lookup.fail : Lookup := ⟨-1, none, none, none⟩

/-- How far the offset may be from that of a record. -/
def threshold (t : PtsTable) (ptsMargin : UInt32) : ℤ :=
  let x := if ptsMargin = 0 then t.lookupThreshold else i32 ptsMargin.toNat
  if t.firstLookupOk then x else i32 (u32 (2 * x))

/-- The records that are far behind the offset are freed, from the oldest one on. -/
def prune (offset : UInt32) (t : PtsTable) : List ℕ → PtsTable
  | [] => t
  | r :: next =>
    if ptsValidOffsetToCheck < offsetDiff offset (t.offset r) then
      let t := if t.ptsSearch = .node r then { t with ptsSearch := PtsTable.first next } else t
      prune offset (t.moveTailFree r) next
    else t

/-- The loop forwards. The record `p2` is the candidate; audio frees the candidates that are
    passed. The result has the last candidate and the record where the loop ends, `none` for the
    head. -/
def searchForward (type : PtsType) (offset : UInt32) (t : PtsTable) (p2 : ℕ) :
    List ℕ → PtsTable × ℕ × Option ℕ
  | [] => (t, p2, none)
  | p :: next =>
    if offsetLater (t.offset p) offset then (t, p2, some p)
    else searchForward type offset (if type = .audio then t.moveTailFree p2 else t) p next

/-- A candidate that is too far away gives way to the record behind it. -/
def nearer (type : PtsType) (offset : UInt32) (thr : ℤ) (t : PtsTable) (p2 : ℕ) : Option ℕ → ℕ
  | none => p2
  | some p =>
    if type = .video ∧ thr < offsetDiff offset (t.offset p2) ∧
        absInt (offsetDiff offset (t.offset p)) < thr then p
    else p2

/-- The search from the record `p`: the candidate, if there is one, and where it has ended. -/
def search (type : PtsType) (offset : UInt32) (thr : ℤ) (t : PtsTable) (p : ℕ) :
    PtsTable × Option ℕ × Option ℕ :=
  if offsetLater offset (t.offset p) then
    let (t, p2, q) := searchForward type offset t p (t.behind p)
    (t, some (nearer type offset thr t p2 q), q)
  else if offsetLater (t.offset p) offset then
    let q := (t.before p).find? fun q => offsetEqlater offset (t.offset q)
    (t, q, q)
  else (t, some p, some p)

/-- The record where a lookup starts; `none` if the cursor is not in the list. -/
def searchStart (t : PtsTable) : Option ℕ :=
  match t.ptsSearch with
  | .null => none
  | .head => t.validList.head?
  | .node r => if r ∈ t.validList then some r else none

/-- The answer is remembered, the record is freed, and the next lookup starts before it. -/
def checkout (t : PtsTable) (offset : UInt32) (p2 : ℕ) (val : UInt32) (us64 : Option UInt64) :
    PtsTable :=
  { ({ t with ptsSearch := t.prev p2 }.moveTailFree p2) with
    lookupCachePts := val
    lookupCachePtsUs64 := us64.getD t.lookupCachePtsUs64
    lookupCacheOffset := offset
    lookupCacheValid := true
    firstLookupOk := true }

/-- The value between two records. -/
def interpolate (p2 p : PtsRec) (offset : UInt32) : UInt32 :=
  ((p.val.toUInt64 - p2.val.toUInt64) * (offset - p2.offset).toUInt64 /
    (p.offset - p2.offset).toUInt64).toUInt32 + p2.val

/-- The end of a lookup that has found no record near enough. -/
def lookupFailed (t : PtsTable) (frameSize : Option UInt32) : PtsTable × Lookup :=
  if t.firstLookupOk then (t, ⟨-1, none, none, frameSize⟩)
  else ({ t with firstLookupOk := true, firstLookupIsFail := true },
    ⟨0, some t.firstCheckinPts, some t.firstCheckinPtsUs64, frameSize⟩)

/-- The lookup of a candidate `p2`. -/
def lookupCandidate (type : PtsType) (t : PtsTable) (offset : UInt32) (thr : ℤ)
    (frameSize : Option UInt32) (p2 : ℕ) : PtsTable × Lookup :=
  if offsetDiff offset (t.offset p2) < thr then
    let x := t.ptsRecs p2
    let x := if x.val = 0 then { x with val := 1 } else x
    (checkout (t.setRec p2 x) offset p2 x.val (some x.ptsUs64),
      ⟨0, some x.val, some x.ptsUs64, some x.size⟩)
  else
    match t.behind p2 with
    | [] => lookupFailed t frameSize
    | p :: _ =>
      let d := offsetDiff (t.ptsRecs p).val (t.ptsRecs p2).val
      if type ≠ .audio then lookupFailed t frameSize
      else if d < interpolateAudioResolution ∧ 0 ≤ d then
        let val := interpolate (t.ptsRecs p2) (t.ptsRecs p) offset
        (checkout t offset p2 val none, ⟨0, some val, some (val.toUInt64 <<< 32), frameSize⟩)
      else (t, ⟨-1, none, none, frameSize⟩)

def ptsLookupOffsetInlineLocked (type : PtsType) (t : PtsTable) (offset ptsMargin : UInt32) :
    Option (PtsTable × Lookup) :=
  let thr := threshold t ptsMargin
  if t.status ≠ .running then some (t, .fail)
  else if t.lookupCacheValid ∧ offset = t.lookupCacheOffset then
    some (t, ⟨0, some t.lookupCachePts, some t.lookupCachePtsUs64, none⟩)
  else
    let t := if type = .video then prune offset t t.validList else t
    if t.validList = [] then some (t, .fail)
    else
      match searchStart t with
      | none => none
      | some p =>
        let (t, p2, q) := search type offset thr t p
        -- at the head of the list this reads what is no size
        let frameSize := if type = .hevc then none else q.map fun q => (t.ptsRecs q).size
        match p2 with
        | none => some (lookupFailed t frameSize)
        | some p2 => some (lookupCandidate type t offset thr frameSize p2)

/-- The search of a pick, which frees nothing. -/
def pick (offset : UInt32) (t : PtsTable) (p : ℕ) : Option ℕ :=
  if offsetLater offset (t.offset p) then
    some (searchForward .video offset t p (t.behind p)).2.1
  else if offsetLater (t.offset p) offset then
    (t.before p).find? fun q => offsetEqlater offset (t.offset q)
  else some p

def ptsPickByOffsetInlineLocked (type : PtsType) (t : PtsTable) (offset ptsMargin : UInt32) :
    Option (PtsTable × Lookup) :=
  let thr := threshold t ptsMargin
  if t.status ≠ .running then some (t, .fail)
  else if t.lookupCacheValid ∧ offset = t.lookupCacheOffset then
    some (t, ⟨0, some t.lookupCachePts, none, none⟩)
  else
    let t := if type = .video then prune offset t t.validList else t
    if t.validList = [] then some (t, .fail)
    else
      match searchStart t with
      | none => none
      | some p =>
        match pick offset t p with
        | none => some (t, .fail)
        | some p2 =>
          if offsetDiff offset (t.offset p2) < thr then
            some (t, ⟨0, some (t.ptsRecs p2).val, some (t.ptsRecs p2).ptsUs64, none⟩)
          else some (t, .fail)

/-! ## Starting and stopping -/

/-- The number of records that a page of 4096 bytes has: each takes 40 bytes. -/
def recsPerPage : ℕ := 4096 / 40

/-- `n * sizeof(struct pts_rec_s) / PAGE_SIZE`, in the unsigned arithmetic of `sizeof`, as an
    `int`. -/
def pagesOf (n : ℤ) : ℤ := i32 (u32 (n * 40 % 2 ^ 64 / 4096))

/-- The number of pages. The condition of the second step is on `PAGE_SIZE / sizeof(..)`, which is
    not 0. -/
def pageNums (recNum : ℤ) : ℤ := pagesOf (i32 (u32 (recNum + pagesOf recNum + 1)))

/-- The memory that the allocator has: if there is a list for the pages, and how many pages. -/
structure Memory where
  pagesList : Bool
  pages : ℕ

def PtsTable.initLists (t : PtsTable) : PtsTable :=
  { t with recCount := 0, validList := [], freeList := [] }

/-- `alloc_pts_list`. A list for a negative number of pages has a size that no allocator grants,
    unless it is empty; then the end mark is written before it. -/
def allocPtsList (mem : Memory) (t : PtsTable) : Option (PtsTable × ℤ) :=
  let t := t.initLists
  let n := pageNums t.recNum
  if ¬ mem.pagesList ∨ n < -1 then some (t, -enomem)
  else if n = -1 then none
  else if mem.pages < n then some (t, -enomem)
  else
    let count := n.toNat * recsPerPage
    some ({ t with recCount := count, freeList := List.range count }, 0)

/-- The values that `pts_start` sets. -/
def startValues (type : PtsType) (hevc : Bool) (t : PtsTable) : PtsTable :=
  let t := if type = .hevc ∧ ¬ hevc then t
    else { t with
      firstCheckinPts := 0xffffffff, firstLookupOk := false, firstLookupIsFail := false }
  { t with
    lastCheckinOffset := 0, ptsSearch := .head, status := .loading, lookupCacheValid := false }

/-- `pts_start`; `hevc` is `has_hevc_vdec()`. -/
def ptsStart (type : PtsType) (hevc : Bool) (mem : Memory) (t : PtsTable) : Option (PtsTable × ℤ) :=
  if t.status = .idle then
    match allocPtsList mem { t with status := .init } with
    | none => none
    | some (t, ret) => if ret = 0 then some (startValues type hevc t, 0) else some (t, -enomem)
  else some (t, -ebusy)

def ptsStop (t : PtsTable) : PtsTable × ℤ :=
  if t.status = .running ∨ t.status = .loading then
    ({ t.initLists with status := .idle, lastCheckinOffset := 0 }, 0)
  else (t, -ebusy)

def ptsSetRecSize (t : PtsTable) (val : UInt32) : PtsTable × ℤ :=
  if t.status = .idle then ({ t with recNum := i32 val.toNat }, 0) else (t, -ebusy)

/-! ## Runs -/

/-- The calls of the server. -/
inductive Call
  | setRecSize (val : UInt32)
  | start (mem : Memory)
  | checkinOffset (offset val : UInt32)
  | lookupOffset (offset ptsMargin : UInt32)
  | pickoutOffset (offset ptsMargin : UInt32)
  | stop

/-- The tables of the types. -/
abbrev Tables := PtsType → PtsTable

/-- A table before the first call. -/
def PtsTable.unused (recNum lookupThreshold : ℤ) : PtsTable where
  status := .idle
  recNum := recNum
  lookupThreshold := lookupThreshold
  lookupCacheOffset := 0
  lookupCacheValid := false
  lookupCachePts := 0
  lookupCachePtsUs64 := 0
  firstCheckinPts := 0xffffffff
  firstCheckinPtsUs64 := 0
  firstLookupOk := false
  firstLookupIsFail := false
  lastCheckinOffset := 0
  recCount := 0
  ptsRecs := fun _ => ⟨0, 0, 0, 0⟩
  ptsSearch := .null
  validList := []
  freeList := []

/-- `pts_table`; the table of HEVC has no values of its own. -/
def ptsTable : Tables
  | .video => .unused (8192 * 2) 2500
  | .audio => .unused (8192 * 2) 1024
  | .hevc => { PtsTable.unused 0 0 with firstCheckinPts := 0 }

/-- The table that `pts_start` and `pts_stop` are about: HEVC is started as video, where there is a
    decoder for it. -/
def startType (hevc : Bool) : PtsType → PtsType
  | .hevc => if hevc then .video else .hevc
  | type => type

/-- A call for a type. -/
def step (hevc : Bool) (s : Tables) (type : PtsType) : Call → Option Tables
  | .setRecSize val => some (update s type (ptsSetRecSize (s type) val).1)
  | .start mem =>
    (ptsStart type hevc mem (s (startType hevc type))).map fun r =>
      update s (startType hevc type) r.1
  | .checkinOffset offset val =>
    (ptsCheckinOffset type (s type) offset val).map fun r => update s type r.1
  | .lookupOffset offset ptsMargin =>
    (ptsLookupOffsetInlineLocked type (s type) offset ptsMargin).map fun r =>
      update s type r.1
  | .pickoutOffset offset ptsMargin =>
    (ptsPickByOffsetInlineLocked type (s type) offset ptsMargin).map fun r =>
      update s type r.1
  | .stop => some (update s (startType hevc type) (ptsStop (s (startType hevc type))).1)

/-- The calls one after the other. -/
def run (hevc : Bool) : Tables → List (PtsType × Call) → Option Tables
  | s, [] => some s
  | s, (type, c) :: cs => (step hevc s type c).bind fun s => run hevc s cs

end CommonDrivers.FrameSync
