import CommonDrivers.Lib.Run

/-!
# The owners of a buffer

A buffer has a table with the name of an owner for each of its references. `codec_mm_release` puts
the last name of the table in the place of the one that leaves, wherever it finds that one: an
owner with two references loses both, unless the last name is its own.

`owners_counted`: as long as the owner that leaves has one reference, or the last name is its own,
the table has the owners of the outstanding references, and the buffer goes, with one run of its
callbacks, when the last of them is given back.
-/

namespace CommonDrivers.Media.CodecMm

open List

/-- `struct codec_mm_s`, with the entries of `owner` that `use_cnt` counts. -/
structure Buffer where
  owner : List String
  releaseCbList : List ℕ
  /-- The callbacks that have been run. -/
  called : List ℕ
  /-- The buffer is in the list of the manager. -/
  valid : Bool

/-- `codec_mm_has_owner`. -/
def Buffer.hasOwner (mem : Buffer) (owner : String) : Bool := mem.valid && mem.owner.contains owner

/-- `codec_mm_request_shared_mem`. -/
def Buffer.requestSharedMem (mem : Buffer) (owner : String) : Int × Buffer :=
  if mem.valid = false then (-2, mem)
  else if 7 < mem.owner.length then (-3, mem)
  else (0, { mem with owner := mem.owner ++ [owner] })

/-- `codec_mm_release`; `vzalloc` gives the memory for a list of the callbacks, or does not. -/
def Buffer.release (mem : Buffer) (owner : String) (vzalloc : Bool) : Buffer :=
  if mem.valid = false then mem
  else if mem.owner.length - 1 = 0 then
    ⟨[], [], mem.called ++ if vzalloc then mem.releaseCbList else [], false⟩
  else { mem with
    owner := mem.owner.dropLast.map fun o => if o = owner then mem.owner.getLastD "" else o }

/-- A buffer, and the owners of the references to it that are outstanding. -/
structure Shared where
  mem : Buffer
  refs : List String

inductive OwnerOp
  | request (owner : String)
  | release (owner : String) (vzalloc : Bool)

namespace Shared

variable {cbs : List ℕ} {s s' : Shared} {owner : String}

/-- A step: only an owner with a reference gives one back. -/
def step (s : Shared) : OwnerOp → Option Shared
  | .request owner =>
    let r := s.mem.requestSharedMem owner
    some ⟨r.2, if r.1 = 0 then owner :: s.refs else s.refs⟩
  | .release owner vzalloc =>
    if owner ∈ s.refs then some ⟨s.mem.release owner vzalloc, s.refs.erase owner⟩ else none

/-- The owner that leaves has one reference, or the last name is its own; and the last release gets
    the memory for the callbacks. -/
def Single (s : Shared) : OwnerOp → Prop
  | .request _ => True
  | .release owner vzalloc => (s.refs.count owner = 1 ∨ s.mem.owner.getLastD "" = owner) ∧
      (s.refs.length = 1 → vzalloc = true)

/-- The table has the owners of the references, and the callbacks wait for the last one. -/
inductive Counted (cbs : List ℕ) : Shared → Prop
  | live {table refs : List String} : table ≠ [] → table.Perm refs →
    Counted cbs ⟨⟨table, cbs, [], true⟩, refs⟩
  | freed : Counted cbs ⟨⟨[], [], cbs, false⟩, []⟩

/-- The last name in the place of the one that leaves. -/
theorem perm_erase {d : List String} {last : String}
    (h : (last :: d).count owner = 1 ∨ last = owner) :
    (d.map fun o => if o = owner then last else o).Perm ((last :: d).erase owner) := by
  rcases eq_or_ne last owner with rfl | hlast
  · have hid : (fun o => if o = last then last else o) = id := by
      funext o
      exact ite_eq_right_iff.2 Eq.symm
    rw [hid, map_id, erase_cons_head]
  replace h := h.resolve_right hlast
  rw [count_cons_of_ne hlast] at h
  rw [erase_cons_tail (by simpa using hlast)]
  induction d with
  | nil => cases h
  | cons o d ih =>
    rcases eq_or_ne o owner with rfl | ho
    · rw [count_cons_self, Nat.succ_inj, count_eq_zero] at h
      rw [map_cons, if_pos rfl, erase_cons_head, map_congr_left (g := id), map_id]
      exact fun x hx => if_neg fun heq : x = o => h (heq ▸ hx)
    · rw [count_cons_of_ne ho] at h
      rw [map_cons, if_neg ho, erase_cons_tail (by simpa using ho)]
      exact ((ih h).cons o).trans (.swap ..)

theorem Counted.step {op : OwnerOp} (h : Counted cbs s) (hop : s.Single op)
    (hstep : s.step op = some s') : Counted cbs s' := by
  cases h with
  | freed =>
    cases op with
    | request owner =>
      cases hstep
      exact .freed
    | release owner vzalloc => cases hstep
  | live hne hperm =>
    cases op with
    | request owner =>
      simp only [Shared.step, Buffer.requestSharedMem, Bool.true_eq_false, if_false] at hstep
      split at hstep
      · cases hstep
        exact .live hne hperm
      · cases hstep
        exact .live (by simp) (perm_append_comm.trans (hperm.cons owner))
    | release owner vzalloc =>
      obtain ⟨-, hstep⟩ := Option.ite_none_right_eq_some.1 hstep
      cases hstep
      obtain ⟨d, last, rfl⟩ := (eq_nil_or_concat' _).resolve_left hne
      have hcons : (last :: d).Perm _ := (perm_append_singleton last d).symm.trans hperm
      have herase := (perm_erase (d := d) (by
        simpa [hcons.count_eq] using hop.1)).trans (hcons.erase owner)
      rw [Buffer.release, if_neg nofun]
      split
      · next hone =>
        obtain rfl : d = [] := by simpa using hone
        rw [hop.2 (by simpa using hcons.length_eq.symm), nil_perm.1 herase]
        exact .freed
      · next hmore =>
        simp only [dropLast_concat, getLastD_concat]
        exact .live (by simpa using hmore) herase

/-- A buffer of `codec_mm_alloc`, with the callbacks that were added to it. -/
def alloc (cbs : List ℕ) (owner : String) : Shared := ⟨⟨[owner], cbs, [], true⟩, [owner]⟩

def Initial (cbs : List ℕ) (s : Shared) : Prop := ∃ owner, s = alloc cbs owner

/-- The owners of a buffer are those with a reference to it, and its callbacks run, once, with the
    release of the last one. -/
theorem owners_counted (h : Reached (Initial cbs) step Single s) :
    (∀ owner, s.mem.hasOwner owner = true ↔ owner ∈ s.refs) ∧
      (s.mem.valid = false ↔ s.refs = []) ∧ s.mem.called = if s.refs = [] then cbs else [] := by
  have hs : Counted cbs s := by
    refine h.inv (fun s hs => ?_) fun s op s' hs hop hstep => hs.step hop hstep
    obtain ⟨owner, rfl⟩ := hs
    exact .live nofun (.refl _)
  cases hs with
  | freed => simp [Buffer.hasOwner]
  | live hne hperm =>
    have hrefs := mt (fun hnil => (hperm.trans (.of_eq hnil)).eq_nil) hne
    simp [Buffer.hasOwner, hperm.mem_iff, hrefs]

theorem owners_counted_two : ∃ s, exec step (fun _ _ => True) [.request "b", .release "a" true]
    (alloc [1] "a") = some s ∧ s.mem.hasOwner "b" = true ∧ s.mem.called = [] := by
  have hrun : Reached (Initial [1]) step Single ⟨⟨["b"], [1], [], true⟩, ["b"]⟩ :=
    .more (.release "a" true) (.more (.request "b") (.start ⟨"a", rfl⟩) trivial rfl)
      ⟨.inl (by decide), fun _ => rfl⟩ rfl
  exact ⟨_, rfl, ((owners_counted hrun).1 "b").2 (by decide), (owners_counted hrun).2.2⟩

/-- An owner with two references has none in the table when it gives back one of them; and no
    callback is run without the memory for the list. -/
theorem owner_lost :
    (∃ s, exec step (fun _ _ => True) [.request "a", .request "b", .release "a" true]
      (alloc [1] "a") = some s ∧ "a" ∈ s.refs ∧ s.mem.hasOwner "a" = false) ∧
    ∃ s, (alloc [1] "a").step (.release "a" false) = some s ∧ s.mem.valid = false ∧
      s.mem.called = [] :=
  ⟨⟨_, rfl, by decide, by decide⟩, _, rfl, rfl, rfl⟩

end Shared

end CommonDrivers.Media.CodecMm
