import CommonDrivers.Media.CodecMm.Scatter

/-!
# The users of a scatter

A scatter has one counter for three kinds of users (`codec_mm_scatter.c`): its *owner*
counts 1000, a *keeper*, which shows a frame of it, 100, and the monitor takes 100000
away from a scatter it is about to free. Who is not alone with the counter goes back.

The threads here are calls to the driver that are under way. What a thread does under the
list lock of a manager is one step, together with what it does under the lock of the
scatter. A manager has one monitor, as the monitor lock is held throughout. A step is
`none` when the thread is elsewhere, or when it would touch memory that is not there.
-/

namespace CommonDrivers.Media.CodecMm

/-- `MAX_SC_LIST`. -/
def maxScList : ℕ := 256

/-- A scatter at its address, with the fields its users need. -/
structure UserScatter extends Scatter where
  manager : Fin 2
  tofreeJiffies : ℕ

/-- `atomic_add_return`, of an `int`. -/
def atomicAdd (cnt v : ℤ) : ℤ := i32 (u32 (v + cnt))

/-- `time_after`, of an `unsigned long`. -/
def timeAfter (a b : ℕ) : Prop := 2 ^ 63 ≤ ((b : ℤ) - a) % 2 ^ 64

instance (a b : ℕ) : Decidable (timeAfter a b) := inferInstanceAs (Decidable (_ ≤ _))

/-- The jiffies after a delay, which is `delay_free_ms * HZ / 1000`. -/
def delayJiffies (jiffies : ℕ) (delay : ℤ) : ℕ := ((jiffies + delay) % 2 ^ 64).toNat

/-! ## Threads -/

/-- Who uses a scatter, but for the monitor. -/
inductive Role where
  | owner
  | keeper
  deriving DecidableEq

/-- What a user adds to the counter. -/
def Role.cnt : Role → ℤ
  | .owner => 1000
  | .keeper => 100

/-- Where a thread is, between two steps. -/
inductive Thread where
  | idle
  /-- `codec_mm_scatter_alloc` has found no scatter. -/
  | allocNew (istvp : Fin 2) (requirePagesMax requirePages : ℤ)
  /-- `codec_mm_scatter_alloc` has a scatter, and wants its pages. -/
  | wantPages (id : ℕ) (requirePages : ℤ)
  /-- `codec_mm_scatter_alloc` has not got them. -/
  | allocFailed (id : ℕ)
  /-- `codec_mm_scatter_inc_user_in` is to ask the second manager. -/
  | inc (id : ℕ)
  /-- A user of the scatter, between the calls. -/
  | holding (r : Role) (id : ℕ)
  /-- `codec_mm_scatter_dec_user_in` is to ask the second manager. -/
  | dec (r : Role) (id : ℕ) (delay : ℤ)
  deriving DecidableEq

/-- The scatter that the thread uses, and as what. -/
def Thread.held : Thread → Option (Role × ℕ)
  | .wantPages id _ => some (.owner, id)
  | .allocFailed id => some (.owner, id)
  | .holding r id => some (r, id)
  | .dec r id _ => some (r, id)
  | _ => none

/-- The thread uses the scatter. -/
def Thread.Holds (t : Thread) (id : ℕ) : Prop := ∃ r, t.held = some (r, id)

/-- The thread is an owner that is about to want pages of the scatter. -/
def Thread.Wants (id : ℕ) : Thread → Prop
  | .wantPages id' _ => id' = id
  | _ => False

instance (id : ℕ) : (t : Thread) → Decidable (t.Wants id)
  | .wantPages id' _ => inferInstanceAs (Decidable (id' = id))
  | .idle | .allocNew _ _ _ | .allocFailed _ | .inc _ | .holding _ _ | .dec _ _ _ =>
    inferInstanceAs (Decidable False)

/-- What the thread adds to the counter of the scatter. -/
def Thread.users (id : ℕ) (t : Thread) : ℤ :=
  match t.held with
  | some (r, id') => if id' = id then r.cnt else 0
  | none => 0

/-- Where the monitor of a manager is. -/
inductive Monitor where
  | idle
  /-- `codec_mm_scatter_scatter_clear` has a scatter to free. -/
  | reap (id : ℕ) (less : Option ℕ)
  /-- `codec_mm_scatter_free_on_nouser` has taken it from the map. -/
  | free (id : ℕ) (less : Option ℕ)
  /-- The unused pages are to be freed next. -/
  | unused (toFree less : Option ℕ)
  deriving DecidableEq

/-! ## The managers -/

/-- The part of `struct codec_mm_scatter_mgt` the users need. -/
structure UserMgt where
  scatterList : List ℕ
  scmap : List (Option ℕ)
  monitor : Monitor

/-- `codec_mm_scatter_map_add_locked`. A map without a free place stays as it is. -/
def mapAdd (id : ℕ) : List (Option ℕ) → List (Option ℕ)
  | [] => []
  | none :: l => some id :: l
  | some x :: l => some x :: mapAdd id l

/-- `codec_mm_scatter_map_del_locked`. -/
def mapDel (id : ℕ) : List (Option ℕ) → List (Option ℕ)
  | [] => []
  | x :: l => if x = some id then none :: l else x :: mapDel id l

/-- `codec_mm_scatter_valid_locked`. -/
def UserMgt.valid (m : UserMgt) (id : ℕ) : Bool := some id ∈ m.scmap

/-- The scatters that are there, the two managers and the threads. -/
structure Users where
  mem : ℕ → Option UserScatter
  mgt : Fin 2 → UserMgt
  threads : List Thread

namespace Users

/-- A scatter is written, or freed. -/
def setMem (s : Users) (id : ℕ) (mms : Option UserScatter) : Users :=
  { s with mem := Function.update s.mem id mms }

/-- A manager is changed. -/
def setMgt (s : Users) (i : Fin 2) (m : UserMgt) : Users :=
  { s with mgt := Function.update s.mgt i m }

/-- A thread goes on. -/
def setThread (s : Users) (n : ℕ) (t : Thread) : Users := { s with threads := s.threads.set n t }

/-- The monitor of a manager goes on. -/
def setMonitor (s : Users) (i : Fin 2) (monitor : Monitor) : Users :=
  s.setMgt i { s.mgt i with monitor }

/-! ## Owners and keepers -/

/-- The search of `codec_mm_scatter_alloc` for a scatter without users. -/
def findFree (requirePagesMax : ℤ) : List ℕ → Users → Option (Users × Option ℕ)
  | [], s => some (s, none)
  | id :: l, s => do
    let mms ← s.mem id
    if mms.pageMaxCnt ≥ requirePagesMax ∧ mms.userCnt = 0 then
      let cnt := atomicAdd 1000 mms.userCnt
      if cnt = 1000 then
        some (s.setMem id (some { mms with userCnt := cnt, pageUsed := mms.pageCnt }), some id)
      else
        findFree requirePagesMax l
          (s.setMem id (some { mms with userCnt := atomicAdd (-1000) cnt }))
    else findFree requirePagesMax l s

/-- `codec_mm_scatter_alloc`, up to its first unlock. -/
def alloc (s : Users) (n : ℕ) (istvp : Fin 2) (requirePagesMax requirePages : ℤ) :
    Option Users := do
  match ← findFree requirePagesMax (s.mgt istvp).scatterList.reverse s with
  | (s, some id) => some (s.setThread n (.wantPages id requirePages))
  | (s, none) => some (s.setThread n (.allocNew istvp requirePagesMax requirePages))

/-- `codec_mm_scatter_alloc_new` of a scatter without pages, whose memory is at the
    address if there is any. -/
def allocNew (s : Users) (n : ℕ) (istvp : Fin 2) (requirePagesMax requirePages : ℤ) :
    Option ℕ → Users
  | none => s.setThread n .idle
  | some id =>
    if requirePagesMax < 0 then s.setThread n .idle
    else
      let mms : UserScatter :=
        { id, pagesList := fun _ => Page.zero, pageMaxCnt := requirePagesMax, pageCnt := 0
          pageTail := -1, pageUsed := 0, userCnt := 1000, manager := istvp, tofreeJiffies := 0 }
      let m := s.mgt istvp
      ((s.setMem id (some mms)).setMgt istvp
        { m with scatterList := m.scatterList ++ [id], scmap := mapAdd id m.scmap }).setThread n
          (.wantPages id requirePages)

/-- `codec_mm_scatter_alloc_want_pages_in`, when `pages` are allocated. -/
def wantPagesIn (mms : UserScatter) (wantPages : ℤ) (pages : List Page) : UserScatter × Bool :=
  if wantPages > mms.pageMaxCnt then (mms, false)
  else
    let mms := { mms with pageUsed := wantPages }
    if wantPages ≤ mms.pageCnt then (mms, true)
    else if pages = [] then (mms, false)
    else
      let mms :=
        { mms with
          pagesList := fill mms.pagesList (mms.pageTail + 1).toNat pages
          pageCnt := mms.pageCnt + pages.length
          pageTail := mms.pageTail + pages.length }
      (mms, ¬ mms.pageCnt < wantPages)

/-- The pages of a scatter that was found, or is new. -/
def wantPages (s : Users) (n id : ℕ) (requirePages : ℤ) (pages : List Page) : Option Users := do
  let mms ← s.mem id
  let (mms, ok) := wantPagesIn mms requirePages pages
  some ((s.setMem id (some mms)).setThread n (if ok then .holding .owner id else .allocFailed id))

/-- The owner of a scatter without pages goes back: `atomic_sub`. -/
def allocFailed (s : Users) (n id : ℕ) : Option Users := do
  let mms ← s.mem id
  some ((s.setMem id (some { mms with userCnt := atomicAdd (-1000) mms.userCnt })).setThread n
    .idle)

/-- `codec_mm_scatter_inc_user_in1`, and what it returns. -/
def incUserIn1 (s : Users) (i : Fin 2) (id : ℕ) (cnt : ℤ) (jiffies : ℕ) : Option (Users × ℤ) :=
  if ¬ (s.mgt i).valid id then some (s, -1)
  else do
    let mms ← s.mem id
    if mms.userCnt ≥ 0 then
      let ret := atomicAdd cnt mms.userCnt
      some (s.setMem id (some
        { mms with
          userCnt := ret
          tofreeJiffies := if mms.userCnt = 1 then jiffies else mms.tofreeJiffies }),
        if ret ≤ 0 then ret else 0)
    else some (s, -1)

/-- `codec_mm_scatter_dec_user_in1`, and what it returns. -/
def decUserIn1 (s : Users) (i : Fin 2) (id : ℕ) (delay cnt : ℤ) (jiffies : ℕ) :
    Option (Users × ℤ) :=
  if ¬ (s.mgt i).valid id then some (s, -1)
  else do
    let mms ← s.mem id
    if mms.userCnt ≥ 1 then
      let afterUsers := atomicAdd (-cnt) mms.userCnt
      some (s.setMem id (some
        { mms with
          userCnt := afterUsers
          tofreeJiffies :=
            if afterUsers = 0 then delayJiffies jiffies delay else mms.tofreeJiffies }), 0)
    else some (s, 0)

/-- `codec_mm_scatter_inc_for_keeper` with one of the managers, the second if the first
    does not have the scatter. -/
def incForKeeper (s : Users) (n : ℕ) (i : Fin 2) (id jiffies : ℕ) : Option Users := do
  let (s, ret) ← s.incUserIn1 i id Role.keeper.cnt jiffies
  some (s.setThread n (if ret < 0 then if i = 0 then .inc id else .idle else .holding .keeper id))

/-- `codec_mm_scatter_dec_keeper_user` and `codec_mm_scatter_dec_owner_user` with one of the
    managers, the second if the first does not have the scatter. -/
def decUser (s : Users) (n : ℕ) (i : Fin 2) (r : Role) (id : ℕ) (delay : ℤ) (jiffies : ℕ) :
    Option Users := do
  let (s, ret) ← s.decUserIn1 i id delay r.cnt jiffies
  some (s.setThread n (if ret < 0 ∧ i = 0 then .dec r id delay else .idle))

/-! ## Monitors -/

/-- The loop of `codec_mm_scatter_scatter_clear`: the scatter without users that is to be
    freed first, how many there are, and a scatter with unused pages, at which it ends. -/
def clearLoop (s : Users) :
    List ℕ → Option (ℕ × UserScatter) → ℕ → Option (Option (ℕ × UserScatter) × ℕ × Option ℕ)
  | [], toFree, cnt => some (toFree, cnt, none)
  | id :: l, toFree, cnt => do
    let mms ← s.mem id
    let (toFree, cnt) :=
      if mms.userCnt = 0 then
        (if ∀ f ∈ toFree, mms.tofreeJiffies < f.2.tofreeJiffies then some (id, mms) else toFree,
          cnt + 1)
      else (toFree, cnt)
    if mms.pageUsed < mms.pageCnt then some (toFree, cnt, some id)
    else clearLoop s l toFree cnt

/-- `codec_mm_scatter_scatter_clear`, under the list lock. -/
def clear (s : Users) (i : Fin 2) (force delayFreeOn : Bool) (jiffies : ℕ) : Option Users := do
  let m := s.mgt i
  let (toFree, toFreeCnt, less) ← s.clearLoop m.scatterList none 0
  match toFree with
  | none => some (s.setMonitor i (.unused none less))
  | some (id, mms) =>
    if ((toFreeCnt > 1 ∨ ¬ delayFreeOn) ∧ timeAfter jiffies mms.tofreeJiffies) ∨ force then
      let cnt := atomicAdd (-100000) mms.userCnt
      if cnt ≠ -100000 then
        some ((s.setMem id (some { mms with userCnt := atomicAdd 100000 cnt })).setMonitor i
          (.unused none less))
      else
        some ((s.setMem id (some { mms with userCnt := cnt })).setMgt i
          { m with scatterList := m.scatterList.erase id, monitor := .reap id less })
    else some (s.setMonitor i (.unused none less))

/-- `codec_mm_scatter_free_on_nouser`, under the list lock. -/
def freeOnNouser (s : Users) (i : Fin 2) (id : ℕ) (less : Option ℕ) : Option Users := do
  let mms ← s.mem id
  let m := s.mgt i
  if mms.userCnt > 0 then some (s.setMonitor i (.unused (some id) less))
  else
    some (s.setMgt i
      { scatterList := m.scatterList.erase id
        scmap := mapDel id m.scmap
        monitor := .free id less })

/-- The end of `codec_mm_scatter_free_on_nouser`: the pages and the scatter are freed. -/
def free (s : Users) (i : Fin 2) (id : ℕ) (less : Option ℕ) : Option Users := do
  let _ ← s.mem id
  some ((s.setMem id none).setMonitor i (.unused (some id) less))

/-- `codec_mm_scatter_free_unused_pages`, of pages that the manager knows. -/
def freeUnusedPages (mms : UserScatter) : UserScatter :=
  if mms.pageUsed < 0 ∨ mms.pageUsed ≥ mms.pageCnt ∨ mms.pageTail < 0 then mms
  else
    let num := (mms.pageTail - mms.pageUsed + 1).toNat
    { mms with
      pagesList := fill mms.pagesList mms.pageUsed.toNat (List.replicate num Page.zero)
      pageCnt := mms.pageCnt - num
      pageTail := mms.pageTail - num }

/-- The end of `codec_mm_scatter_scatter_clear`. -/
def freeUnused (s : Users) (i : Fin 2) (toFree less : Option ℕ) : Option Users :=
  match less with
  | none => some (s.setMonitor i .idle)
  | some id =>
    if toFree = some id then some (s.setMonitor i .idle)
    else do
      let mms ← s.mem id
      some ((s.setMem id (some (freeUnusedPages mms))).setMonitor i .idle)

/-! ## Runs -/

/-- The steps, with what comes from outside. -/
inductive Step where
  | alloc (n : ℕ) (istvp : Fin 2) (requirePagesMax requirePages : ℤ)
  | inc (n id : ℕ)
  | dec (n : ℕ) (delay : ℤ)
  /-- The thread goes on with its call: with the memory it is given, if it needs some, and
      the pages. -/
  | thread (n : ℕ) (addr : Option ℕ) (pages : List Page)
  | clear (i : Fin 2) (force delayFreeOn : Bool)
  | monitor (i : Fin 2)

/-- A thread goes on with its call. -/
def stepThread (s : Users) (n : ℕ) (addr : Option ℕ) (pages : List Page) (jiffies : ℕ) :
    Thread → Option Users
  | .allocNew istvp requirePagesMax requirePages =>
    -- memory that is allocated was free
    if ∀ id ∈ addr, s.mem id = none then
      some (s.allocNew n istvp requirePagesMax requirePages addr)
    else none
  | .wantPages id requirePages => s.wantPages n id requirePages pages
  | .allocFailed id => s.allocFailed n id
  | .inc id => s.incForKeeper n 1 id jiffies
  | .dec r id delay => s.decUser n 1 r id delay jiffies
  | .idle => none
  | .holding _ _ => none

/-- The monitor goes on. -/
def stepMonitor (s : Users) (i : Fin 2) : Option Users :=
  match (s.mgt i).monitor with
  | .reap id less => s.freeOnNouser i id less
  | .free id less => s.free i id less
  | .unused toFree less => s.freeUnused i toFree less
  | .idle => none

/-- One step, at some time. -/
def step (s : Users) (jiffies : ℕ) : Step → Option Users
  | .alloc n istvp requirePagesMax requirePages =>
    if s.threads[n]? = some .idle then s.alloc n istvp requirePagesMax requirePages else none
  | .inc n id => if s.threads[n]? = some .idle then s.incForKeeper n 0 id jiffies else none
  | .dec n delay =>
    match s.threads[n]? with
    | some (.holding r id) => s.decUser n 0 r id delay jiffies
    | _ => none
  | .thread n addr pages => s.threads[n]?.bind (s.stepThread n addr pages jiffies)
  | .clear i force delayFreeOn =>
    if (s.mgt i).monitor = .idle then s.clear i force delayFreeOn jiffies else none
  | .monitor i => s.stepMonitor i

/-- The managers as they start, with any number of threads. -/
def init (n : ℕ) : Users where
  mem _ := none
  mgt _ := ⟨[], List.replicate maxScList none, .idle⟩
  threads := List.replicate n .idle

end Users

end CommonDrivers.Media.CodecMm
