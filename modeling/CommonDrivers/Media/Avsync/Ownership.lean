import CommonDrivers.Lib.Tally
import CommonDrivers.Media.Avsync.Msync

/-!
# Whose a session is

A session is in one of few situations, and each id belongs to one of them: nobody has it, a thread
creates the session, the session is in the list, or a thread frees it. The threads that have an id
of their own are tallied (`owns`), and so are those that are to free a session that is still
in the list (`frees`); both tallies are at most 1.

`Inv` is kept by the steps that are `Fits`. Those leave out

* a walk over a list that has sessions, but not the one asked for, as the walk then ends with
  another one;
* the removal of what is already removed, as the reference of an open file goes then;
* `session_open` where the session has gone between the walk and the increment;
* an allocation that fails after the id is marked, as the id is not given back.
-/

namespace CommonDrivers.Msync

open Function List Thread

/-- The id that the thread has for itself, to create the session or to give the id back. -/
def Thread.own : Thread → Option Id
  | .reserved _ i => some i
  | .creating _ i => some i
  | .linking _ i => some i
  | .failed _ i => some i
  | .freed _ i => some i
  | _ => none

/-- The session that the thread is to take from the list. -/
def Thread.toFree : Thread → Option Id
  | .freeing _ j => some j
  | _ => none

def Thread.owns (j : Id) (t : Thread) : ℤ := if t.own = some j then 1 else 0

def Thread.frees (j : Id) (t : Thread) : ℤ := if t.toFree = some j then 1 else 0

/-- The session that the thread has found is the one it was asked for. -/
def Thread.Named : Thread → Prop
  | .opening id j => (j : ℕ) = id
  | .dropping _ id j => j = id
  | _ => True

namespace Sync

/-- The references to a session: its allocation, and the open files. -/
def refs (s : Sync) (j : Id) : ℤ := (if s.allocated j then 1 else 0) + s.files.count j

/-- The id is listed, or some session would be found in its place. -/
def Finds (s : Sync) (id : ℕ) : Prop := s.head = [] ∨ ∃ j ∈ s.head, ((s.session j).id : ℕ) = id

/-- The next steps of a thread that the lifetimes are kept by. -/
def FitsThread (s : Sync) (ok : Bool) : Thread → Prop
  | .reserved _ _ => ok = true
  | .opening _ j => j ∈ s.head ∧ 0 < (s.session j).refcnt
  | .removing _ id => s.Finds id
  | .dropping _ id _ => s.allocated id = true
  | _ => True

/-- The steps that the lifetimes are kept by. -/
def Fits (s : Sync) : Op → Prop
  | .sessionOpen _ id => s.Finds id
  | .goOn n ok => ∀ t ∈ s.threads[n]?, s.FitsThread ok t
  | _ => True

/-- What holds of a session, with the tallies of its threads. -/
structure Sound (s : Sync) (owners freers : ℤ) (j : Id) : Prop where
  pool : owners + s.head.count j = if s.idPool j then 1 else 0
  freeing : freers = if j ∈ s.head ∧ (s.session j).refcnt = 0 then 1 else 0
  listed : j ∈ s.head → (s.session j).refcnt = s.refs j ∧ (s.session j).id = j
  unlisted : j ∉ s.head → s.refs j = 0

end Sync

/-- What a thread knows of its session. -/
def Thread.Ok (s : Sync) : Thread → Prop
  | .linking _ i => s.session i = ⟨i, 1⟩
  | .freed _ j => (s.session j).id = j
  | t => t.Named

namespace Sync

structure Inv (s : Sync) : Prop where
  sessions : ∀ j, s.Sound (tally (owns j) s.threads) (tally (frees j) s.threads) j
  threads : ∀ t ∈ s.threads, t.Ok s

variable {s s' : Sync} {n f : ℕ} {t t' : Thread} {j : Id} {owners freers : ℤ} {id : ℕ}

/-! ## Steps in general -/

/-- Nothing of a session changes. -/
structure Same (s s' : Sync) (j : Id) : Prop where
  pool : s'.idPool j = s.idPool j
  session : s'.session j = s.session j
  count : s'.head.count j = s.head.count j
  refs : s'.refs j = s.refs j

theorem Same.mem_iff (h : Same s s' j) : j ∈ s'.head ↔ j ∈ s.head := by
  rw [← count_pos_iff, h.count, count_pos_iff]

theorem Sound.of_same (h : s.Sound owners freers j) (hsame : Same s s' j) :
    s'.Sound owners freers j where
  pool := by rw [hsame.count, hsame.pool, h.pool]
  freeing := by simp only [h.freeing, hsame.session, hsame.mem_iff]
  listed := by
    rw [hsame.session, hsame.mem_iff, hsame.refs]
    exact h.listed
  unlisted := by
    rw [hsame.mem_iff, hsame.refs]
    exact h.unlisted

theorem owns_nonneg (j : Id) (t : Thread) : 0 ≤ t.owns j := by
  rw [owns]
  split_ifs <;> decide

theorem frees_nonneg (j : Id) (t : Thread) : 0 ≤ t.frees j := by
  rw [frees]
  split_ifs <;> decide

/-- Another thread does not lose what it knows: a session changes only where no other has it. -/
theorem Ok.keep {m : ℕ} {u : Thread} (hu : u.Ok s) (hmem : s.threads[m]? = some u) (hmn : m ≠ n)
    (ht : s.threads[n]? = some t) (hsame : ∀ i ≠ j, s'.session i = s.session i)
    (hkeep : s'.session j = s.session j ∨ tally (owns j) s.threads = t.owns j) :
    u.Ok s' := by
  have hsession : ∀ i, u.owns i = 1 → s'.session i = s.session i := by
    intro i hi
    by_cases hij : i = j
    · subst hij
      refine hkeep.resolve_right fun htally => ?_
      -- without thread `n` nobody has the id
      have hrest := tally_set (owns i) ht .idle
      have hmem' : u ∈ s.threads.set n .idle :=
        mem_of_getElem? (i := m) (by rwa [getElem?_set_ne (Ne.symm hmn)])
      have hle := le_tally (owns_nonneg i) hmem'
      have hidle : idle.owns i = 0 := rfl
      omega
    · exact hsame i hij
  cases u with
  | linking f i => exact (hsession i (if_pos rfl)).trans hu
  | freed f i =>
    change (s'.session i).id = i
    rw [hsession i (if_pos rfl)]
    exact hu
  | _ => exact hu

/-- A step of a thread that changes what belongs to one session. -/
theorem Inv.change (h : s.Inv) (ht : s.threads[n]? = some t)
    (hthreads : s'.threads = s.threads.set n t') (hsame : ∀ i ≠ j, Same s s' i)
    (htally : ∀ i ≠ j, t'.owns i = t.owns i ∧ t'.frees i = t.frees i)
    (hj : s'.Sound (tally (owns j) s.threads + (t'.owns j - t.owns j))
      (tally (frees j) s.threads + (t'.frees j - t.frees j)) j) (hok : t'.Ok s')
    (hkeep : s'.session j = s.session j ∨ tally (owns j) s.threads = t.owns j) : s'.Inv where
  sessions i := by
    rw [hthreads, tally_set _ ht, tally_set _ ht]
    by_cases hij : i = j
    · subst hij
      exact hj
    · rw [(htally i hij).1, (htally i hij).2, sub_self, sub_self, add_zero, add_zero]
      exact (h.sessions i).of_same (hsame i hij)
  threads u hu := by
    rw [hthreads] at hu
    rcases exists_of_mem_set hu with rfl | ⟨m, hmn, hm⟩
    · exact hok
    · exact Ok.keep (h.threads u (mem_of_getElem? hm)) hm hmn ht
        (fun i hij => (hsame i hij).session) hkeep

/-- A step of a thread that changes nothing of the sessions. -/
theorem Inv.setThread (h : s.Inv) (ht : s.threads[n]? = some t) (hown : t'.own = t.own)
    (hfree : t'.toFree = t.toFree) (hok : t'.Ok (s.setThread n t')) : (s.setThread n t').Inv := by
  have htally : ∀ i, t'.owns i = t.owns i ∧ t'.frees i = t.frees i := fun i => by
    rw [owns, frees, hown, hfree]
    exact ⟨rfl, rfl⟩
  refine h.change (j := 0) ht rfl (fun i _ => ⟨rfl, rfl, rfl, rfl⟩) (fun i _ => htally i) ?_ hok
    (.inl rfl)
  rw [(htally 0).1, (htally 0).2, sub_self, sub_self, add_zero, add_zero]
  exact (h.sessions 0).of_same ⟨rfl, rfl, rfl, rfl⟩

/-- The control files do not count. -/
theorem Inv.setCtl (h : s.Inv) (f : ℕ) (p : Option (Option Id)) : (s.setCtl f p).Inv where
  sessions j := (h.sessions j).of_same ⟨rfl, rfl, rfl, rfl⟩
  threads t ht := by
    have hok := h.threads t ht
    cases t <;> exact hok

theorem Inv.finish (h : (s.setThread n .idle).Inv) (k : Option ℕ) : (s.finish n k).Inv := by
  cases k with
  | none => exact h
  | some f => exact h.setCtl f (some none)

/-! ## Whose the session is -/

theorem Sound.of_owner (h : s.Sound owners freers j) (howners : 1 ≤ owners) :
    owners = 1 ∧ j ∉ s.head ∧ s.idPool j = true := by
  have hpool := h.pool
  rw [← count_eq_zero]
  split_ifs at hpool with hid
  · exact ⟨by omega, by omega, hid⟩
  · omega

theorem Sound.of_mem (h : s.Sound owners freers j) (howners : 0 ≤ owners) (hmem : j ∈ s.head) :
    owners = 0 ∧ s.head.count j = 1 ∧ s.idPool j = true := by
  have hpool := h.pool
  have hcount := count_pos_iff.2 hmem
  split_ifs at hpool with hid
  · exact ⟨by omega, by omega, hid⟩
  · omega

theorem Inv.of_owner (h : s.Inv) (ht : s.threads[n]? = some t) (hown : t.own = some j) :
    tally (owns j) s.threads = 1 ∧ t.owns j = 1 ∧ j ∉ s.head ∧ s.idPool j = true := by
  have howns : t.owns j = 1 := if_pos hown
  have hle := le_tally (owns_nonneg j) (mem_of_getElem? ht)
  obtain ⟨hone, hmem, hid⟩ := (h.sessions j).of_owner (howns ▸ hle)
  exact ⟨hone, howns, hmem, hid⟩

theorem Inv.of_mem (h : s.Inv) (hmem : j ∈ s.head) :
    tally (owns j) s.threads = 0 ∧ s.head.count j = 1 ∧ s.idPool j = true :=
  (h.sessions j).of_mem (tally_nonneg (owns_nonneg j) _) hmem

theorem owns_of_ne {i : Id} (h : t.own = some j) (hij : i ≠ j) : t.owns i = 0 :=
  if_neg fun hi => hij (Option.some.inj (hi.symm.trans h))

theorem owns_of_none (h : t.own = none) (i : Id) : t.owns i = 0 := by
  rw [owns, h]
  rfl

theorem frees_of_ne {i : Id} (h : t.toFree = some j) (hij : i ≠ j) : t.frees i = 0 :=
  if_neg fun hi => hij (Option.some.inj (hi.symm.trans h))

theorem frees_of_none (h : t.toFree = none) (i : Id) : t.frees i = 0 := by
  rw [frees, h]
  rfl

theorem refs_nonneg (s : Sync) (j : Id) : 0 ≤ s.refs j := by
  rw [refs]
  split_ifs <;> omega

section

variable (h : s.Inv)
include h

theorem Inv.mem_of_refs (hrefs : 0 < s.refs j) : j ∈ s.head := by
  by_contra hno
  have := (h.sessions j).unlisted hno
  omega

/-! ## Creation -/

theorem Inv.reserve (ht : s.threads[n]? = some .idle) (hid : s.idPool j = false) :
    ((s.setId j true).setThread n (.reserved f j)).Inv := by
  have hj := h.sessions j
  have hpool := hj.pool
  rw [hid] at hpool
  refine h.change (j := j) ht rfl (fun i hij => ⟨update_of_ne hij _ _, rfl, rfl, rfl⟩)
    (fun i hij => ⟨(owns_of_ne rfl hij).trans (owns_of_none rfl i).symm, rfl⟩) ?_ trivial (.inl rfl)
  have hnew : (reserved f j).owns j = 1 := if_pos rfl
  refine ⟨?_, ?_, hj.listed, hj.unlisted⟩
  · change _ + (s.head.count j : ℤ) = if update s.idPool j true j then 1 else 0
    rw [hnew, owns_of_none rfl j, update_self]
    simp only [Bool.false_eq_true, if_false] at hpool
    simp only [if_true]
    omega
  · rw [frees_of_none rfl j, frees_of_none rfl j, sub_self, add_zero]
    exact hj.freeing

/-- The session is written while the thread has the id. -/
theorem Inv.write (ht : s.threads[n]? = some t) (hown : t.own = some j) (hown' : t'.own = some j)
    (hfree : t.toFree = none) (hfree' : t'.toFree = none) (x : Session)
    (hok : t'.Ok ((s.setSession j x).setThread n t')) :
    ((s.setSession j x).setThread n t').Inv := by
  obtain ⟨hone, howns, hmem, -⟩ := h.of_owner ht hown
  have hj := h.sessions j
  refine h.change (j := j) ht rfl (fun i hij => ⟨rfl, update_of_ne hij _ _, rfl, rfl⟩)
    (fun i hij => ⟨?_, ?_⟩) ?_ hok (.inr (hone.trans howns.symm))
  · rw [owns_of_ne hown' hij, owns_of_ne hown hij]
  · rw [frees_of_none hfree', frees_of_none hfree]
  rw [howns, frees_of_none hfree, frees_of_none hfree',
    show t'.owns j = 1 from if_pos hown', sub_self, sub_self, add_zero, add_zero]
  refine ⟨hj.pool, ?_, fun hm => absurd hm hmem, hj.unlisted⟩
  rw [hj.freeing, if_neg fun hm => hmem hm.1, if_neg fun hm => hmem hm.1]

theorem Inv.link (ht : s.threads[n]? = some (.linking f j)) :
    ({ s with head := j :: s.head, allocated := update s.allocated j true }.setThread n
      (.attaching f j)).Inv := by
  obtain ⟨hone, howns, hmem, hid⟩ := h.of_owner ht rfl
  have hj := h.sessions j
  have hsession : s.session j = ⟨j, 1⟩ := h.threads _ (mem_of_getElem? ht)
  have hrefs := hj.unlisted hmem
  refine h.change (j := j) ht rfl (fun i hij => ⟨rfl, rfl, count_cons_of_ne hij.symm, ?_⟩)
    (fun i hij => ⟨(owns_of_none rfl i).trans (owns_of_ne rfl hij).symm, rfl⟩) ?_ trivial (.inl rfl)
  · change (if update s.allocated j true i = true then 1 else 0) + (s.files.count i : ℤ) = _
    rw [update_of_ne hij]
    rfl
  rw [hone, howns, owns_of_none rfl j, frees_of_none rfl j, frees_of_none rfl j, hj.freeing,
    if_neg fun hm => hmem hm.1]
  refine ⟨?_, ?_, fun _ => ?_, fun hno => absurd mem_cons_self hno⟩
  · change 1 + (0 - 1) + ((j :: s.head).count j : ℤ) = if s.idPool j = true then 1 else 0
    rw [count_cons_self, count_eq_zero.2 hmem, hid]
    rfl
  · change (0 : ℤ) + (0 - 0) = if j ∈ j :: s.head ∧ (s.session j).refcnt = 0 then 1 else 0
    rw [hsession, if_neg fun hm => absurd hm.2 one_ne_zero]
    rfl
  change (s.session j).refcnt = (if update s.allocated j true j = true then 1 else 0) +
    (s.files.count j : ℤ) ∧ (s.session j).id = j
  rw [hsession, update_self]
  -- the session had no references before
  have hcount : (s.files.count j : ℤ) = 0 := by
    rw [refs] at hrefs
    split_ifs at hrefs <;> omega
  rw [hcount]
  exact ⟨rfl, rfl⟩

/-- An id is given back by the thread that has it. -/
theorem Inv.giveBack (ht : s.threads[n]? = some t) (hown : t.own = some j)
    (hfree : t.toFree = none) : ((s.setId j false).setThread n .idle).Inv := by
  obtain ⟨hone, howns, hmem, hid⟩ := h.of_owner ht hown
  have hj := h.sessions j
  refine h.change (j := j) ht rfl (fun i hij => ⟨update_of_ne hij _ _, rfl, rfl, rfl⟩)
    (fun i hij => ⟨(owns_of_none rfl i).trans (owns_of_ne hown hij).symm,
      (frees_of_none rfl i).trans (frees_of_none hfree i).symm⟩) ?_ trivial (.inl rfl)
  rw [hone, howns, owns_of_none rfl j, frees_of_none rfl j, frees_of_none hfree, sub_self, add_zero]
  refine ⟨?_, hj.freeing, hj.listed, hj.unlisted⟩
  change 1 + (0 - 1) + (s.head.count j : ℤ) = if update s.idPool j false j then 1 else 0
  rw [update_self, count_eq_zero.2 hmem]
  rfl

/-! ## References -/

theorem Inv.open (ht : s.threads[n]? = some (.opening id j)) (hmem : j ∈ s.head)
    (hpos : 0 < (s.session j).refcnt) :
    ({ s.addRef j 1 with files := j :: s.files }.setThread n .idle).Inv := by
  obtain ⟨hzero, -, -⟩ := h.of_mem hmem
  have hj := h.sessions j
  obtain ⟨hrefcnt, hid⟩ := hj.listed hmem
  refine h.change (j := j) ht rfl
    (fun i hij => ⟨rfl, update_of_ne hij _ _, rfl, ?_⟩) (fun i _ => ⟨rfl, rfl⟩) ?_ trivial
    (.inr (hzero.trans (owns_of_none rfl j).symm))
  · change (if s.allocated i = true then 1 else 0) + ((j :: s.files).count i : ℤ) = _
    rw [count_cons_of_ne hij.symm]
    rfl
  rw [owns_of_none rfl j, owns_of_none rfl j, frees_of_none rfl j, frees_of_none rfl j, sub_self,
    add_zero, add_zero]
  have hsession : ({ s.addRef j 1 with files := j :: s.files }.setThread n .idle).session j =
      { s.session j with refcnt := (s.session j).refcnt + 1 } := update_self ..
  refine ⟨hj.pool, ?_, fun _ => ?_, fun hno => absurd hmem hno⟩
  · rw [hj.freeing, hsession, if_neg fun hm => hpos.ne' hm.2, if_neg fun hm => ?_]
    have : (s.session j).refcnt + 1 = 0 := hm.2
    omega
  rw [hsession]
  refine ⟨?_, hid⟩
  change (s.session j).refcnt + 1 =
    (if s.allocated j = true then 1 else 0) + ((j :: s.files).count j : ℤ)
  rw [hrefcnt, refs, count_cons_self]
  push_cast
  ring

/-- A reference is given up, by a file that closes or an allocation that is removed. -/
theorem Inv.decAndTest (ht : s.threads[n]? = some t) (hown : t.own = none)
    (hfree : t.toFree = none) (k : Option ℕ) {files : List Id} {allocated : Id → Bool}
    (hother : ∀ i ≠ j, refs { s with files, allocated } i = s.refs i)
    (hrefs : refs { s with files, allocated } j = s.refs j - 1) :
    ({ s with files, allocated }.decAndTest n k j).Inv := by
  have hnonneg := refs_nonneg { s with files, allocated } j
  have hmem : j ∈ s.head := h.mem_of_refs (by omega)
  obtain ⟨hzero, -, -⟩ := h.of_mem hmem
  have hj := h.sessions j
  obtain ⟨hrefcnt, hid⟩ := hj.listed hmem
  have hfreeing : tally (frees j) s.threads = 0 := by
    rw [hj.freeing, if_neg fun hm => ?_]
    omega
  have hsession : ({ s with files, allocated }.addRef j (-1)).session j =
      { s.session j with refcnt := (s.session j).refcnt - 1 } := update_self ..
  have hend : ∀ t' : Thread, t'.own = none → (∀ u, t'.Ok u) → (∀ i ≠ j, t'.frees i = 0) →
      t'.frees j = (if (s.session j).refcnt - 1 = 0 then 1 else 0) →
      (({ s with files, allocated }.addRef j (-1)).setThread n t').Inv := by
    intro t' hown' hok hne hfrees
    refine h.change (j := j) ht rfl (fun i hij => ⟨rfl, update_of_ne hij _ _, rfl, hother i hij⟩)
      (fun i hij => ⟨?_, ?_⟩) ?_ (hok _) (.inr (hzero.trans (owns_of_none hown j).symm))
    · rw [owns_of_none hown', owns_of_none hown]
    · rw [frees_of_none hfree, hne i hij]
    rw [owns_of_none hown, owns_of_none hown', hfreeing, frees_of_none hfree, hfrees, sub_self,
      add_zero, sub_zero, zero_add]
    refine ⟨hj.pool, ?_, fun _ => ?_, fun hno => absurd hmem hno⟩
    · change _ = if j ∈ s.head ∧
        ((({ s with files, allocated } : Sync).addRef j (-1)).session j).refcnt = 0 then 1 else 0
      simp only [hsession, hmem, true_and]
    change ((({ s with files, allocated } : Sync).addRef j (-1)).session j).refcnt =
      refs { s with files, allocated } j ∧
      ((({ s with files, allocated } : Sync).addRef j (-1)).session j).id = j
    rw [hsession, hrefs]
    exact ⟨by rw [hrefcnt], hid⟩
  rw [Sync.decAndTest, hsession]
  split
  · next hlast =>
    refine hend (.freeing k j) rfl (fun _ => trivial) (fun i hij => frees_of_ne rfl hij) ?_
    rw [if_pos hlast]
    exact if_pos rfl
  · next hlast =>
    refine (hend .idle rfl (fun _ => trivial) (fun _ _ => rfl) ?_).finish k
    rw [if_neg hlast]
    rfl

/-! ## Freeing -/

theorem Inv.unlink {k : Option ℕ} (ht : s.threads[n]? = some (.freeing k j)) :
    j ∈ s.head ∧ ({ s with head := s.head.erase j }.setThread n (.freed k j)).Inv := by
  have hj := h.sessions j
  have hfrees : (freeing k j).frees j = 1 := if_pos rfl
  have hle := le_tally (frees_nonneg j) (mem_of_getElem? ht)
  have hfreeing := hj.freeing
  split_ifs at hfreeing with hlast
  swap
  · omega
  obtain ⟨hmem, hcnt⟩ := hlast
  obtain ⟨hzero, hcount, hid⟩ := h.of_mem hmem
  obtain ⟨hrefcnt, hself⟩ := hj.listed hmem
  have herase : (s.head.erase j).count j = 0 := by rw [count_erase_self, hcount]
  have hgone : j ∉ s.head.erase j := count_eq_zero.1 herase
  refine ⟨hmem, h.change (j := j) ht rfl
    (fun i hij => ⟨rfl, rfl, count_erase_of_ne hij, rfl⟩) (fun i hij => ⟨?_, ?_⟩) ?_ hself
    (.inl rfl)⟩
  · rw [owns_of_ne rfl hij, owns_of_none rfl]
  · rw [frees_of_none rfl, frees_of_ne rfl hij]
  rw [hzero, owns_of_none (t := .freeing k j) rfl, hfreeing, hfrees, frees_of_none rfl]
  refine ⟨?_, ?_, fun hm => absurd hm hgone, fun _ => hrefcnt.symm.trans hcnt⟩
  · change 0 + ((freed k j).owns j - 0) + ((s.head.erase j).count j : ℤ) =
      if s.idPool j = true then 1 else 0
    rw [show (freed k j).owns j = 1 from if_pos rfl, herase, hid]
    rfl
  · exact (if_neg fun hm => hgone hm.1).symm

/-! ## Every step -/

omit h in
theorem walk_of_mem {l : List Id} (h : ∃ j ∈ l, ((s.session j).id : ℕ) = id) (seen : Option Id) :
    ∃ j ∈ l, s.walk id l seen = some j ∧ ((s.session j).id : ℕ) = id := by
  induction l generalizing seen with
  | nil =>
    obtain ⟨j, hj, -⟩ := h
    cases hj
  | cons i l ih =>
    rw [walk]
    split
    · next hi => exact ⟨i, mem_cons_self, rfl, hi⟩
    next hi =>
    obtain ⟨j, hj, hid⟩ := h
    rcases mem_cons.1 hj with rfl | hj
    · exact absurd hid hi
    · obtain ⟨j', hj', hwalk⟩ := ih ⟨j, hj, hid⟩ (some i)
      exact ⟨j', mem_cons_of_mem i hj', hwalk⟩

/-- A walk for an id that is listed ends with its session. -/
theorem Inv.find (hfinds : s.Finds id) (hj : s.find id = some j) : (j : ℕ) = id := by
  rcases hfinds with hnil | hmem
  · rw [Sync.find, hnil] at hj
    cases hj
  · obtain ⟨i, hi, hwalk, hid⟩ := walk_of_mem hmem none
    obtain rfl : i = j := Option.some.inj (hwalk.symm.trans hj)
    rw [← hid, ((h.sessions i).listed hi).2]

theorem Inv.removeId (ht : s.threads[n]? = some .idle) (k : Option ℕ) (id : Id) :
    (s.removeId n k id).Inv := by
  rw [Sync.removeId]
  split
  · exact h.setThread ht rfl rfl trivial
  · exact h

theorem Inv.sessionRelease (ht : s.threads[n]? = some .idle)
    (hstep : s.sessionRelease n j = some s') : s'.Inv := by
  rw [Sync.sessionRelease] at hstep
  split at hstep
  · next hmem =>
    cases hstep
    refine h.decAndTest ht rfl rfl none (fun i hij => ?_) ?_
    · change (if s.allocated i = true then 1 else 0) + ((s.files.erase j).count i : ℤ) = _
      rw [count_erase_of_ne hij]
      rfl
    have hpos := count_pos_iff.2 hmem
    change (if s.allocated j = true then 1 else 0) + ((s.files.erase j).count j : ℤ) = _
    rw [count_erase_self, refs]
    omega
  · cases hstep

theorem Inv.goOn {ok : Bool} (ht : s.threads[n]? = some t) (hfits : s.FitsThread ok t)
    (hstep : s.goOn n ok t = some s') : s'.Inv := by
  cases t with
  | idle => cases hstep
  | reserved f i =>
    cases hstep
    obtain rfl : ok = true := hfits
    exact h.setThread ht rfl rfl trivial
  | creating f i =>
    rw [Sync.goOn] at hstep
    split at hstep
    · cases hstep
      exact h.write ht rfl rfl rfl rfl _ (update_self ..)
    · cases hstep
      exact h.write ht rfl rfl rfl rfl _ trivial
  | linking f i =>
    cases hstep
    exact h.link ht
  | failed f i =>
    cases hstep
    exact h.giveBack ht rfl rfl
  | attaching f i =>
    cases hstep
    exact (h.setCtl f _).setThread ht rfl rfl trivial
  | opening id j =>
    cases hstep
    exact h.open ht hfits.1 hfits.2
  | removing k id =>
    rw [Sync.goOn] at hstep
    split at hstep
    · cases hstep
      exact .finish (h.setThread ht rfl rfl trivial) k
    next j hfind =>
    cases hstep
    exact h.setThread ht rfl rfl (Fin.ext (h.find hfits hfind))
  | dropping k id j =>
    -- the allocation gives up its reference
    obtain rfl : j = id := h.threads _ (mem_of_getElem? ht)
    have hallocated : s.allocated j = true := hfits
    cases hstep
    refine h.decAndTest ht rfl rfl k (fun i hij => ?_) ?_
    · change (if update s.allocated j false i = true then 1 else 0) + (s.files.count i : ℤ) = _
      rw [update_of_ne hij]
      rfl
    · change (if update s.allocated j false j = true then 1 else 0) + (s.files.count j : ℤ) = _
      rw [update_self, refs, hallocated]
      simp
  | freeing k j =>
    obtain ⟨hmem, hinv⟩ := h.unlink ht
    rw [Sync.goOn, if_pos hmem] at hstep
    cases hstep
    exact hinv
  | freed k j =>
    -- the id that is given back is the one that was taken
    have hself : (s.session j).id = j := h.threads _ (mem_of_getElem? ht)
    rw [Sync.goOn, hself] at hstep
    cases hstep
    exact (h.giveBack ht rfl rfl).finish k

end

theorem call_eq_some {o : Option Sync} (h : s.call n o = some s') :
    s.threads[n]? = some .idle ∧ o = some s' := by
  rw [call] at h
  split at h
  · next ht => exact ⟨ht, h⟩
  · cases h

theorem Inv.step (h : s.Inv) {op : Op} (hfits : s.Fits op) (hstep : s.step op = some s') :
    s'.Inv := by
  cases op with
  | msyncOpen f =>
    rw [Sync.step, msyncOpen] at hstep
    split at hstep
    · cases hstep
      exact h.setCtl f (some none)
    · cases hstep
  | allocSession n f =>
    obtain ⟨ht, hstep⟩ := call_eq_some hstep
    rw [allocSession] at hstep
    split at hstep
    · cases hstep
    split at hstep
    · exact Option.some.inj hstep ▸ h
    · next i hfind =>
      cases hstep
      exact h.reserve ht (by simpa using find?_some hfind)
  | removeSession n f id =>
    obtain ⟨ht, hstep⟩ := call_eq_some hstep
    rw [removeSession] at hstep
    split at hstep
    · cases hstep
    split at hstep
    · exact Option.some.inj hstep ▸ h.removeId ht (some f) _
    · exact Option.some.inj hstep ▸ h
  | msyncRelease n f =>
    obtain ⟨ht, hstep⟩ := call_eq_some hstep
    rw [msyncRelease] at hstep
    split at hstep
    · cases hstep
    split at hstep
    · cases hstep
    · exact Option.some.inj hstep ▸ h.setCtl f none
    · exact Option.some.inj hstep ▸ (h.setCtl f none).removeId ht none _
  | sessionOpen n id =>
    obtain ⟨ht, hstep⟩ := call_eq_some hstep
    cases hstep
    rw [sessionOpen]
    split
    · exact h
    · next j hfind => exact h.setThread ht rfl rfl (h.find hfits hfind)
  | sessionRelease n j =>
    obtain ⟨ht, hstep⟩ := call_eq_some hstep
    exact h.sessionRelease ht hstep
  | goOn n ok =>
    rw [Sync.step] at hstep
    split at hstep
    · cases hstep
    · next t ht => exact h.goOn ht (hfits t ht) hstep

theorem inv_init (n : ℕ) : (init n).Inv where
  sessions j := by
    have hidle : ∀ t ∈ replicate n idle, t = .idle := fun t ht =>
      eq_of_mem_replicate ht
    have howns : tally (owns j) (init n).threads = 0 :=
      tally_eq_zero fun t ht => by rw [hidle t ht]; rfl
    have hfrees : tally (frees j) (init n).threads = 0 :=
      tally_eq_zero fun t ht => by rw [hidle t ht]; rfl
    rw [howns, hfrees]
    exact ⟨rfl, rfl, nofun, fun _ => rfl⟩
  threads t ht := by
    rw [eq_of_mem_replicate ht]
    trivial

theorem Reachable.inv (h : Reachable (fun s op => s.Fits op) s) : s.Inv := by
  induction h with
  | init n => exact inv_init n
  | step _ hfits hstep ih => exact ih.step hfits hstep

end Sync

end CommonDrivers.Msync
