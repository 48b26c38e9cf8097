import CommonDrivers.Lib.Run
import CommonDrivers.Media.FrameSync.PtsServ

/-!
# The pool of the records of a table

`pts_start` allocates the records of a table page by page, and `pts_stop` frees them. The pages are
in `pages_list`, up to an entry that is 0. A `Pool` has this list, and what has been allocated for
the table and not freed.

* `pools_kept`: in every run of starts and stops, a table that is not started has no memory, and a
  started one has one pool.
* `pools_settled`: if each start gets its memory, no call leaves a table between idle and started.
* `start_without_memory`: a table whose start has failed can be neither started nor stopped.
-/

namespace CommonDrivers.FrameSync

open Function List

/-- The pages of a table: which entries of `pages_list` are pages, and how many lists and pages are
    allocated. -/
structure Pool where
  pagesList : Option (List Bool)
  lists : ℤ
  pages : ℤ
  deriving DecidableEq

/-- There is memory for a list of `n` pages, and for the pages. -/
def Memory.Grants (mem : Memory) (n : ℤ) : Prop := mem.pagesList ∧ 0 ≤ n ∧ n ≤ mem.pages

namespace Pool

def empty : Pool := ⟨none, 0, 0⟩

/-- One list, of `n` pages and the end mark. -/
def full (n : ℕ) : Pool := ⟨some (replicate n true ++ [false]), 1, n⟩

/-- The number of pages before the end mark, which has to be there. -/
def pagesBefore : List Bool → Option ℕ
  | [] => none
  | true :: l => (pagesBefore l).map (· + 1)
  | false :: _ => some 0

/-- `free_pts_list`. -/
def freePtsList (p : Pool) : Option Pool :=
  (p.pagesList.bind pagesBefore).map fun n => ⟨none, p.lists - 1, p.pages - n⟩

/-- A page is allocated, and is in the list. -/
def addPage (p : Pool) (i : ℕ) : Pool :=
  { p with pagesList := p.pagesList.map (·.set i true), pages := p.pages + 1 }

/-- `alloc_pts_list`, for `n` pages. -/
def allocPtsList (mem : Memory) (n : ℤ) (p : Pool) : Option Pool :=
  if ¬ mem.pagesList ∨ n < -1 then some { p with pagesList := none }
  else if n = -1 then none
  else
    let zeros := replicate (n.toNat + 1) false
    let p := (range (min n.toNat mem.pages)).foldl addPage ⟨some zeros, p.lists + 1, p.pages⟩
    if mem.pages < n then p.freePtsList else some p

theorem foldl_addPage {k n : ℕ} (hk : k ≤ n) :
    (range k).foldl addPage ⟨some (replicate (n + 1) false), 1, 0⟩ =
      ⟨some (replicate k true ++ replicate (n + 1 - k) false), 1, k⟩ := by
  induction k with
  | zero => rfl
  | succ k ih =>
    have hrest : n + 1 - k = n + 1 - (k + 1) + 1 := by omega
    rw [range_succ, foldl_append, ih (Nat.le_of_succ_le hk), hrest, replicate_succ]
    simp [addPage, replicate_succ']

theorem pagesBefore_replicate (n : ℕ) (l : List Bool) :
    pagesBefore (replicate n true ++ false :: l) = some n := by
  induction n with
  | zero => rfl
  | succ n ih => rw [replicate_succ, cons_append, pagesBefore, ih]; rfl

theorem freePtsList_full (n : ℕ) : (full n).freePtsList = some empty := by
  simp [freePtsList, full, pagesBefore_replicate, empty]

variable {mem : Memory} {n : ℤ}

theorem allocPtsList_full (h : mem.Grants n) : allocPtsList mem n empty = some (full n.toNat) := by
  obtain ⟨hlist, hlo, hhi⟩ := h
  have hk : min n.toNat mem.pages = n.toNat := by omega
  have hnone : ¬ (¬ mem.pagesList ∨ n < -1) := by simp [hlist]; omega
  rw [allocPtsList, if_neg hnone, if_neg (by omega), if_neg (by omega), hk]
  dsimp only [empty]
  rw [zero_add, foldl_addPage le_rfl, Nat.add_sub_cancel_left]
  rfl

/-- An allocation that fails is undone. -/
theorem eq_empty_of_allocPtsList (h : ¬ mem.Grants n) {p : Pool}
    (halloc : allocPtsList mem n empty = some p) : p = empty := by
  rw [allocPtsList] at halloc
  split_ifs at halloc with hnone hn hpages
  · cases halloc
    rfl
  · have hk : min n.toNat mem.pages = mem.pages := by omega
    obtain ⟨k, hrest⟩ : ∃ k, n.toNat + 1 - mem.pages = k + 1 := ⟨n.toNat - mem.pages, by omega⟩
    dsimp only [empty] at halloc
    rw [hk, zero_add, foldl_addPage (by omega), hrest, replicate_succ] at halloc
    simpa [freePtsList, pagesBefore_replicate, empty, eq_comm] using halloc
  · obtain ⟨hlist, hlo⟩ := not_or.1 hnone
    exact absurd ⟨not_not.1 hlist, by omega, by omega⟩ h

end Pool

/-! ## Starts and stops -/

/-- A call of `pts_start` or `pts_stop`. -/
inductive Request
  | start (mem : Memory)
  | stop

/-- A call, with what it does to the memory of the table. -/
def request (hevc : Bool) (type : PtsType) (x : PtsTable × Pool) :
    Request → Option (PtsTable × Pool)
  | .start mem => (ptsStart type hevc mem x.1).bind fun r =>
    (if x.1.status = .idle then x.2.allocPtsList mem (pageNums x.1.recNum)
      else some x.2).map (r.1, ·)
  | .stop =>
    (if x.1.status = .running ∨ x.1.status = .loading then x.2.freePtsList else some x.2).map
      ((ptsStop x.1).1, ·)

/-- The table and the memory of each type. -/
abbrev Pools := PtsType → PtsTable × Pool

def Pools.step (hevc : Bool) (s : Pools) (c : PtsType × Request) : Option Pools :=
  (request hevc c.1 (s (startType hevc c.1)) c.2).map (update s (startType hevc c.1))

/-- A started table has one pool, and another one has no memory. -/
def Kept (x : PtsTable × Pool) : Prop :=
  if x.1.status = .running ∨ x.1.status = .loading then ∃ n, x.2 = .full n else x.2 = .empty

/-- A table that is idle or started, and not in between. -/
def Settled (x : PtsTable × Pool) : Prop :=
  x.1.status = .idle ∨ x.1.status = .loading ∨ x.1.status = .running

/-- A start of an idle table gets its memory. -/
def Granted (x : PtsTable × Pool) : Request → Prop
  | .start mem => x.1.status = .idle → mem.Grants (pageNums x.1.recNum)
  | .stop => True

variable {hevc : Bool} {type : PtsType} {mem : Memory} {t : PtsTable} {x x' : PtsTable × Pool}
  {c : Request}

theorem allocPtsList_of_grants (hg : mem.Grants (pageNums t.initLists.recNum)) :
    ∃ t', allocPtsList mem t = some (t', 0) := by
  obtain ⟨hlist, hlo, hhi⟩ := hg
  have hnone : ¬ (¬ mem.pagesList ∨ pageNums t.initLists.recNum < -1) := by simp [hlist]; omega
  rw [allocPtsList, if_neg hnone, if_neg (by omega), if_neg (by omega)]
  exact ⟨_, rfl⟩

theorem allocPtsList_of_not_grants {r : PtsTable × ℤ}
    (hg : ¬ mem.Grants (pageNums t.initLists.recNum)) (h : allocPtsList mem t = some r) :
    r = (t.initLists, -enomem) := by
  rw [allocPtsList] at h
  split_ifs at h with hnone hn hpages
  · exact (Option.some.inj h).symm
  · exact (Option.some.inj h).symm
  · obtain ⟨hlist, hlo⟩ := not_or.1 hnone
    exact absurd ⟨not_not.1 hlist, by omega, by omega⟩ hg

/-- With its memory, an idle table is started. -/
theorem start_of_grants (hidle : x.1.status = .idle) (hempty : x.2 = .empty)
    (hg : mem.Grants (pageNums x.1.recNum)) : ∃ t n,
      request hevc type x (.start mem) = some (t, .full n) ∧ t.status = .loading := by
  obtain ⟨t, ht⟩ := allocPtsList_of_grants (t := { x.1 with status := .init }) hg
  rw [request, ptsStart, if_pos hidle, ht]
  dsimp only [Option.bind_some]
  rw [if_pos hidle, hempty, Pool.allocPtsList_full hg]
  exact ⟨_, _, rfl, rfl⟩

/-- Without it, the table stays between idle and started, and has no memory. -/
theorem start_of_not_grants (hidle : x.1.status = .idle) (hempty : x.2 = .empty)
    (hg : ¬ mem.Grants (pageNums x.1.recNum))
    (h : request hevc type x (.start mem) = some x') : x'.1.status = .init ∧ x'.2 = .empty := by
  obtain ⟨r, hr, h⟩ := Option.bind_eq_some_iff.1 h
  obtain ⟨p, hp, rfl⟩ := Option.map_eq_some_iff.1 h
  rw [if_pos hidle, hempty] at hp
  rw [ptsStart, if_pos hidle] at hr
  split at hr
  · cases hr
  next halloc =>
  cases allocPtsList_of_not_grants (t := { x.1 with status := .init }) hg halloc
  cases hr
  exact ⟨rfl, Pool.eq_empty_of_allocPtsList hg hp⟩

theorem Kept.request (h : Kept x) : (∀ x', request hevc type x c = some x' → Kept x') ∧
    (Settled x → Granted x c → ∃ x', request hevc type x c = some x' ∧ Settled x') := by
  cases c with
  | start mem =>
    by_cases hidle : x.1.status = .idle
    · have hempty : x.2 = .empty := by simpa [Kept, hidle] using h
      by_cases hg : mem.Grants (pageNums x.1.recNum)
      · obtain ⟨t, n, ht, hloading⟩ := start_of_grants hidle hempty hg
        rw [ht]
        refine ⟨fun x' hx' => ?_, fun _ _ => ⟨_, rfl, .inr (.inl hloading)⟩⟩
        cases hx'
        simp [Kept, hloading]
      · refine ⟨fun x' hx' => ?_, fun _ hgranted => absurd (hgranted hidle) hg⟩
        obtain ⟨hinit, hempty⟩ := start_of_not_grants hidle hempty hg hx'
        simp [Kept, hinit, hempty]
    · have hx : FrameSync.request hevc type x (.start mem) = some x := by
        simp [FrameSync.request, ptsStart, hidle]
      rw [hx]
      refine ⟨fun x' hx' => ?_, fun hsettled _ => ⟨x, rfl, hsettled⟩⟩
      cases hx'
      exact h
  | stop =>
    by_cases hstarted : x.1.status = .running ∨ x.1.status = .loading
    · obtain ⟨n, hfull⟩ : ∃ n, x.2 = .full n := by simpa [Kept, hstarted] using h
      have hidle : (ptsStop x.1).1.status = .idle := by rw [ptsStop, if_pos hstarted]
      rw [FrameSync.request, if_pos hstarted, hfull, Pool.freePtsList_full]
      refine ⟨fun x' hx' => ?_, fun _ _ => ⟨_, rfl, .inl hidle⟩⟩
      cases hx'
      simp [Kept, hidle]
    · rw [FrameSync.request, if_neg hstarted, ptsStop, if_neg hstarted]
      refine ⟨fun x' hx' => ?_, fun hsettled _ => ⟨x, rfl, hsettled⟩⟩
      cases hx'
      exact h

variable {s : Pools}

/-- The tables before a run: idle or started. -/
def Pools.Initial (s : Pools) : Prop := ∀ type, Kept (s type) ∧ Settled (s type)

/-- A start of the table in the run gets its memory. -/
def Pools.Grants (hevc : Bool) (s : Pools) (c : PtsType × Request) : Prop :=
  Granted (s (startType hevc c.1)) c.2

/-- In every run, a table that is not started has no memory, and a started one has one pool. -/
theorem pools_kept (h : Reached Pools.Initial (Pools.step hevc) (fun _ _ => True) s)
    (type : PtsType) : Kept (s type) := by
  revert type
  refine h.inv (I := fun s => ∀ type, Kept (s type)) (fun s hs type => (hs type).1) ?_
  intro s c s' hs _ hstep
  obtain ⟨x, hx, rfl⟩ := Option.map_eq_some_iff.1 hstep
  exact (forall_update_iff s fun _ => Kept).2 ⟨(hs _).request.1 x hx, fun type _ => hs type⟩

/-- If each start gets its memory, every call returns, and leaves each table idle or started, with
    one pool if and only if it is not idle. -/
theorem pools_settled (h : Reached Pools.Initial (Pools.step hevc) (Pools.Grants hevc) s) :
    (∀ type, Kept (s type) ∧ Settled (s type)) ∧ ∀ c, s.Grants hevc c → (s.step hevc c).isSome := by
  have hs : ∀ type, Kept (s type) ∧ Settled (s type) := by
    refine h.inv (I := Pools.Initial) (fun s hs => hs) fun s c s' hs hg hstep => ?_
    obtain ⟨x, hx, rfl⟩ := Option.map_eq_some_iff.1 hstep
    obtain ⟨hkept, hsettled⟩ := (hs _).1.request
    obtain ⟨x', hx', hsettled'⟩ := hsettled (hs _).2 hg
    cases hx.symm.trans hx'
    exact (forall_update_iff s fun _ x => Kept x ∧ Settled x).2
      ⟨⟨hkept x hx, hsettled'⟩, fun type _ => hs type⟩
  refine ⟨hs, fun c hg => ?_⟩
  obtain ⟨x, hx, -⟩ := (hs _).1.request.2 (hs _).2 hg
  rw [Pools.step, hx]
  rfl

/-- Tables of one page each. -/
def onePageEach : Pools := fun _ => (.unused 102 2500, .empty)

theorem pools_kept_noPage : ∃ s, onePageEach.step true (.video, .start ⟨true, 0⟩) = some s ∧
    Kept (s .video) := by
  have h : onePageEach.Initial := fun _ => ⟨rfl, .inl rfl⟩
  exact ⟨_, rfl, @pools_kept true _ (.more (.video, .start ⟨true, 0⟩) (.start h) trivial rfl) _⟩

theorem pools_settled_onePageEach :
    ∃ s, onePageEach.step true (.video, .start ⟨true, 1⟩) = some s ∧ (s .video).2 = .full 1 ∧
      (∀ type, Kept (s type) ∧ Settled (s type)) ∧
      ∀ c, s.Grants true c → (s.step true c).isSome := by
  have hinit : onePageEach.Initial := fun _ => ⟨rfl, .inl rfl⟩
  have hg : onePageEach.Grants true (.video, .start ⟨true, 1⟩) := fun _ => by
    exact ⟨rfl, by decide, by decide⟩
  exact ⟨_, rfl, rfl, pools_settled (.more _ (.start hinit) hg rfl)⟩

/-- A start without a page leaves the table between idle and started; it can then be neither
    started, with whatever memory there is, nor stopped. -/
theorem start_without_memory : ∃ t, ptsStart .video true ⟨true, 0⟩ (ptsTable .video) =
    some (t, -enomem) ∧ t.status = .init ∧ ptsStop t = (t, -ebusy) ∧
      ∀ mem, ptsStart .video true mem t = some (t, -ebusy) := ⟨_, rfl, rfl, rfl, fun _ => rfl⟩

end CommonDrivers.FrameSync
