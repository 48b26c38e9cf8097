import CommonDrivers.Lib.Tally
import CommonDrivers.Media.CodecMm.Keeper

/-!
# What is masked is kept

`Keeper.kept` says of every run that a handle with more masks than unmasks is kept, that an
unmask finds the entry its id was returned for, and that the memory is given back once when
they balance. A mask of a handle that is kept already returns the id of its entry and does
not raise the users of it (`not_kept_twice`), and the ids start again after 2 ^ 31, while an
entry keeps its id. The result is therefore of the runs in which a mask is of a handle that
is not kept, and its id that of no entry (`Op.Fits`).
-/

namespace CommonDrivers.Media.CodecMm

open List Function Option

namespace Keeper

/-! ## Entries -/

variable {k k' : Keeper} {i j handle : ℕ} {info info' : KeepMemInfo} {force : ℤ} {keepId : ℤ}
  {type : MemType} {memHandle : Option ℕ} {l : List KeepMemInfo} {op : Op} {jiffies : ℕ}

/-- An entry of the handle counts 1. -/
def ofHandle (handle : ℕ) (info : KeepMemInfo) : ℤ := if info.handle = some handle then 1 else 0

/-- An entry with the id counts 1. -/
def ofId (keepId : ℤ) (info : KeepMemInfo) : ℤ := if info.keepId = keepId then 1 else 0

/-- An entry with a handle counts 1. -/
def inUse (info : KeepMemInfo) : ℤ := if info.handle.isSome then 1 else 0

theorem ofHandle_nonneg (handle : ℕ) (info : KeepMemInfo) : 0 ≤ ofHandle handle info := by
  rw [ofHandle]
  split <;> decide

theorem ofId_nonneg (keepId : ℤ) (info : KeepMemInfo) : 0 ≤ ofId keepId info := by
  rw [ofId]
  split <;> decide

/-- The entries have the references, the handles and the ids that are out. -/
structure Inv (k : Keeper) : Prop where
  length : k.keepList.length = maxKeepFrame
  nextId : startKeepId ≤ k.nextId ∧ k.nextId < maxKeepId
  num_eq : k.num = tally inUse k.keepList
  refs_eq : ∀ handle, k.refs handle = tally (ofHandle handle) k.keepList
  handle_le : ∀ handle, tally (ofHandle handle) k.keepList ≤ 1
  id_le : ∀ keepId, startKeepId ≤ keepId → tally (ofId keepId) k.keepList ≤ 1
  /-- An entry of a handle has a user while its id is out. -/
  entry : ∀ info ∈ k.keepList, ∀ handle, info.handle = some handle →
    info.type ≠ .other ∧ startKeepId ≤ info.keepId ∧ info.keepId < maxKeepId ∧
      ((info.user = 1 ∧ (info.keepId, handle) ∈ k.ids) ∨
        (info.user = 0 ∧ ∀ keepId, (keepId, handle) ∉ k.ids))
  ids : ∀ p ∈ k.ids, ∃ info ∈ k.keepList, info.handle = some p.2 ∧ info.keepId = p.1
  nodup : (k.ids.map Prod.snd).Nodup

theorem inv_init : init.Inv where
  length := length_replicate
  nextId := by decide
  num_eq := (tally_eq_zero fun info h => by rw [eq_of_mem_replicate h]; rfl).symm
  refs_eq handle := (tally_eq_zero fun info h => by rw [eq_of_mem_replicate h]; rfl).symm
  handle_le handle := by
    rw [tally_eq_zero fun info h => by rw [eq_of_mem_replicate h]; rfl]
    exact zero_le_one
  id_le keepId hid := by
    rw [tally_eq_zero fun info h => ?_]
    · exact zero_le_one
    · rw [eq_of_mem_replicate h]
      exact if_neg (by rintro rfl; exact absurd hid (by decide))
  entry info hinfo handle hhandle := by
    rw [eq_of_mem_replicate hinfo] at hhandle
    cases hhandle
  ids p hp := absurd hp not_mem_nil
  nodup := .nil

/-- Without an entry of the handle, the loop finds one without a handle, if there is any. -/
theorem findKeep_spec (hl : ∀ info ∈ l, info.handle ≠ some handle) (n : ℕ)
    (slot : Option (ℕ × KeepMemInfo)) : (findKeep handle l n slot).2 = none ∧
      ((findKeep handle l n slot).1 = slot ∨ ∃ i info, l[i]? = some info ∧ info.handle = none ∧
        (findKeep handle l n slot).1 = some (n + i, info)) := by
  induction l generalizing n slot with
  | nil => exact ⟨rfl, .inl rfl⟩
  | cons info l ih =>
    have hrest : ∀ info ∈ l, info.handle ≠ some handle := fun x hx =>
      hl x (mem_cons_of_mem _ hx)
    have hself : info.handle ≠ some handle := hl info mem_cons_self
    have hshift (i : ℕ) (x : KeepMemInfo) : some (n + 1 + i, x) = some (n + (i + 1), x) := by
      rw [Nat.add_right_comm, Nat.add_assoc]
    rw [findKeep, if_neg hself]
    split
    · next hfree =>
      obtain ⟨hnone, hslot⟩ := ih hrest (n + 1) (some (n, info))
      refine ⟨hnone, .inr ?_⟩
      rcases hslot with hslot | ⟨i, info', hi, hhandle, hslot⟩
      · exact ⟨0, info, rfl, hfree.1, hslot⟩
      · exact ⟨i + 1, info', hi, hhandle, hslot.trans (hshift i info')⟩
    · obtain ⟨hnone, hslot⟩ := ih hrest (n + 1) slot
      refine ⟨hnone, hslot.imp_right ?_⟩
      rintro ⟨i, info', hi, hhandle, hslot⟩
      exact ⟨i + 1, info', hi, hhandle, hslot.trans (hshift i info')⟩

theorem nextIdAfter_mem (h : startKeepId ≤ k.nextId ∧ k.nextId < maxKeepId) :
    startKeepId ≤ nextIdAfter k.nextId ∧ nextIdAfter k.nextId < maxKeepId := by
  rw [nextIdAfter]
  split
  · decide
  · omega

/-- The loop finds the first entry with the id. -/
theorem exists_unmaskLoop (delayOn : ℕ) (h : ∃ info ∈ l, info.keepId = keepId) :
    ∃ i info, l[i]? = some info ∧ info.keepId = keepId ∧ unmaskLoop keepId delayOn l =
      l.set i { info with user := i32 (u32 (info.user - 1)), delayOnJiffies64 := delayOn } := by
  induction l with
  | nil =>
    obtain ⟨info, hinfo, -⟩ := h
    cases hinfo
  | cons x l ih =>
    rw [unmaskLoop]
    split
    · next heq => exact ⟨0, x, rfl, heq.symm, rfl⟩
    next hne =>
    obtain ⟨info, hinfo, hkeep⟩ := h
    have hmem : info ∈ l := (mem_cons.1 hinfo).resolve_left fun heq => by
      rw [heq] at hkeep
      exact hne hkeep.symm
    obtain ⟨i, info', hi, hkeep', hloop⟩ := ih ⟨info, hmem, hkeep⟩
    exact ⟨i + 1, info', hi, hkeep', by rw [hloop]; rfl⟩

theorem freeKeep_spec (k : Keeper) (i : ℕ) (info : KeepMemInfo) : (k.freeKeep i info).keepList =
      k.keepList.set i { info with handle := none, delayOnJiffies64 := 0 } ∧
    (k.freeKeep i info).ids = k.ids := by
  rw [freeKeep]
  split
  · exact ⟨rfl, rfl⟩
  · split <;> exact ⟨rfl, rfl⟩

theorem wantFree.user_le (hforce : force = 0 ∨ force = 2) (h : wantFree force jiffies info) :
    info.user ≤ 0 := by
  rcases h with rfl | ⟨-, h⟩ | ⟨h, -⟩
  · exact absurd hforce (by decide)
  · exact h
  · exact h

section

variable (h : k.Inv)
include h

theorem Inv.mem_ids_erase_iff (hmem : (keepId, handle) ∈ k.ids) {p : ℤ × ℕ} :
    p ∈ k.ids.erase (keepId, handle) ↔ p ∈ k.ids ∧ p.2 ≠ handle := by
  have hnodup : k.ids.Nodup := h.nodup.of_map _
  rw [hnodup.mem_erase_iff]
  constructor
  · rintro ⟨hne, hp⟩
    refine ⟨hp, fun heq => hne ?_⟩
    exact inj_on_of_nodup_map h.nodup hp hmem heq
  · rintro ⟨hp, hne⟩
    exact ⟨fun heq => hne (congrArg Prod.snd heq), hp⟩

section

variable (hi : k.keepList[i]? = some info)
include hi

/-- The entry with an id is one. -/
theorem Inv.eq_of_keepId (hj : k.keepList[j]? = some info') (hid : info'.keepId = info.keepId)
    (hle : startKeepId ≤ info.keepId) : i = j :=
  eq_of_tally_le_one (ofId_nonneg _) (h.id_le _ hle) hi hj (if_pos rfl) (if_pos hid)

/-- The entry of a handle is one. -/
theorem Inv.eq_of_handle (hj : k.keepList[j]? = some info') (hhandle : info.handle = some handle)
    (hhandle' : info'.handle = some handle) : i = j :=
  eq_of_tally_le_one (ofHandle_nonneg _) (h.handle_le _) hi hj (if_pos hhandle) (if_pos hhandle')

/-- An entry is written: what it counts changes, a new handle or id is of no entry before. -/
theorem Inv.setEntry (new : KeepMemInfo)
    (hlist : k'.keepList = k.keepList.set i new)
    (hnext : startKeepId ≤ k'.nextId ∧ k'.nextId < maxKeepId)
    (hnum : k'.num = k.num + (inUse new - inUse info))
    (hrefs : ∀ x, k'.refs x = k.refs x + (ofHandle x new - ofHandle x info))
    (hhandle : ∀ x, new.handle = some x → info.handle = some x ∨
      ∀ y ∈ k.keepList, y.handle ≠ some x)
    (hid : new.keepId = info.keepId ∨ ∀ y ∈ k.keepList, y.keepId ≠ new.keepId)
    (hentry : ∀ y ∈ k.keepList.set i new, ∀ x, y.handle = some x →
      y.type ≠ .other ∧ startKeepId ≤ y.keepId ∧ y.keepId < maxKeepId ∧
        ((y.user = 1 ∧ (y.keepId, x) ∈ k'.ids) ∨ (y.user = 0 ∧ ∀ keepId, (keepId, x) ∉ k'.ids)))
    (hids : ∀ p ∈ k'.ids, ∃ y ∈ k.keepList.set i new, y.handle = some p.2 ∧ y.keepId = p.1)
    (hnodup : (k'.ids.map Prod.snd).Nodup) : k'.Inv := by
  refine ⟨?_, hnext, ?_, fun x => ?_, fun x => ?_, fun x hx => ?_, hlist ▸ hentry,
    hlist ▸ hids, hnodup⟩
  · rw [hlist, length_set, h.length]
  · rw [hlist, tally_set _ hi, hnum, h.num_eq]
  · rw [hlist, tally_set _ hi, hrefs, h.refs_eq]
  · rw [hlist]
    exact tally_set_le_one (h.handle_le x) hi (hhandle x)
  · rw [hlist]
    exact tally_set_le_one (h.id_le x hx) hi fun heq => hid.imp (·.symm.trans heq) (heq ▸ ·)

/-! ## Masks and unmasks -/

theorem Inv.addEntry (hfree : ∀ info ∈ k.keepList, info.handle ≠ some handle)
    (hid : ∀ info ∈ k.keepList, info.keepId ≠ k.nextId) (htype : type ≠ .other)
    (hnone : info.handle = none) : Inv { k.addRef handle 1 with
      nextId := nextIdAfter k.nextId
      keepList := k.keepList.set i
        { info with handle := some handle, keepId := k.nextId, type, user := 1 }
      num := k.num + 1
      ids := (k.nextId, handle) :: k.ids } := by
  set new : KeepMemInfo := { info with handle := some handle, keepId := k.nextId, type, user := 1 }
    with hnew
  refine h.setEntry hi new rfl (nextIdAfter_mem h.nextId) ?_ (fun x => ?_)
    (fun x hx => .inr ?_) (.inr hid) ?_ ?_ ?_
  · simp [inUse, hnone, hnew]
  · change update k.refs handle (k.refs handle + 1) x = _
    by_cases hx : x = handle
    · subst hx
      simp [ofHandle, hnone, hnew]
    · simp [ofHandle, hnone, hnew, hx, Ne.symm hx]
  · cases hx
    exact hfree
  · intro info' hinfo' handle' hhandle'
    rcases mem_set_cases hinfo' with rfl | hinfo'
    · cases hhandle'
      exact ⟨htype, h.nextId.1, h.nextId.2, .inl ⟨rfl, mem_cons_self⟩⟩
    obtain ⟨htype', hlo, hhi, hcase⟩ := h.entry info' hinfo' handle' hhandle'
    have hne : handle' ≠ handle := fun heq => hfree info' hinfo' (heq ▸ hhandle')
    refine ⟨htype', hlo, hhi, hcase.imp ?_ ?_⟩
    · exact fun ⟨huser, hmem⟩ => ⟨huser, mem_cons_of_mem _ hmem⟩
    refine fun ⟨huser, hnot⟩ => ⟨huser, fun keepId hmem => ?_⟩
    rcases mem_cons.1 hmem with heq | hmem
    · exact hne (congrArg Prod.snd heq)
    · exact hnot keepId hmem
  · intro p hp
    rcases mem_cons.1 hp with rfl | hp
    · refine ⟨new, mem_set ?_ _, rfl, rfl⟩
      exact (List.getElem?_eq_some_iff.1 hi).1
    obtain ⟨info', hinfo', hhandle, hkeep⟩ := h.ids p hp
    refine ⟨info', mem_set_of_ne hinfo' hi ?_ _, hhandle, hkeep⟩
    rintro rfl
    cases hnone.symm.trans hhandle
  · refine nodup_cons.2 ⟨fun hmem => ?_, h.nodup⟩
    obtain ⟨p, hp, rfl⟩ := mem_map.1 hmem
    obtain ⟨info', hinfo', hhandle, -⟩ := h.ids _ hp
    exact hfree info' hinfo' hhandle

theorem Inv.unmask {delayOn : ℕ} (hmem : (keepId, handle) ∈ k.ids)
    (hhandle : info.handle = some handle) : Inv { k with
      keepList := k.keepList.set i { info with user := 0, delayOnJiffies64 := delayOn }
      ids := k.ids.erase (keepId, handle) } := by
  set new : KeepMemInfo := { info with user := 0, delayOnJiffies64 := delayOn } with hnew
  have herase {p : ℤ × ℕ} : p ∈ k.ids.erase (keepId, handle) ↔ p ∈ k.ids ∧ p.2 ≠ handle :=
    h.mem_ids_erase_iff hmem
  refine h.setEntry hi new rfl h.nextId (by simp [inUse, hnew]) (fun x => by simp [ofHandle, hnew])
    (fun x hx => .inl hx) (.inl rfl) ?_ ?_ ?_
  · intro info' hinfo' handle' hhandle'
    rcases exists_of_mem_set hinfo' with rfl | ⟨j, hij, hj⟩
    · obtain ⟨htype, hlo, hhi, -⟩ := h.entry info (mem_of_getElem? hi) handle hhandle
      cases hhandle.symm.trans hhandle'
      exact ⟨htype, hlo, hhi, .inr ⟨rfl, fun keepId' hmem' => (herase.1 hmem').2 rfl⟩⟩
    obtain ⟨htype, hlo, hhi, hcase⟩ := h.entry info' (mem_of_getElem? hj) handle' hhandle'
    have hne : handle' ≠ handle := fun heq => hij (h.eq_of_handle hj hi (heq ▸ hhandle') hhandle)
    refine ⟨htype, hlo, hhi, hcase.imp ?_ ?_⟩
    · exact fun ⟨huser', hmem'⟩ => ⟨huser', herase.2 ⟨hmem', hne⟩⟩
    · exact fun ⟨huser', hnot⟩ => ⟨huser', fun keepId' hmem' => hnot keepId' (herase.1 hmem').1⟩
  · intro p hp
    obtain ⟨hp, hne⟩ := herase.1 hp
    obtain ⟨info', hinfo', hhandle', hkeep'⟩ := h.ids p hp
    refine ⟨info', mem_set_of_ne hinfo' hi ?_ _, hhandle', hkeep'⟩
    rintro rfl
    exact hne (some.inj (hhandle'.symm.trans hhandle))
  · exact h.nodup.sublist (erase_sublist.map _)

/-- An entry without users is freed. -/
theorem Inv.freeKeep (hhandle : info.handle = some handle) (huser : info.user ≤ 0) :
    (k.freeKeep i info).Inv := by
  obtain ⟨htype, hlo, hhi, hcase⟩ := h.entry info (mem_of_getElem? hi) handle hhandle
  have hnot : ∀ keepId, (keepId, handle) ∉ k.ids := by
    rcases hcase with ⟨hone, -⟩ | ⟨-, hnot⟩
    · omega
    · exact hnot
  set new : KeepMemInfo := { info with handle := none, delayOnJiffies64 := 0 } with hnew
  rw [Keeper.freeKeep, hhandle]
  dsimp only
  rw [if_neg htype]
  refine h.setEntry hi new rfl h.nextId ?_ (fun x => ?_) (fun x hx => nomatch hx) (.inl rfl) ?_ ?_
    h.nodup
  · simp [inUse, hnew, hhandle]
    rfl
  · change update k.refs handle (k.refs handle + -1) x = _
    by_cases hx : x = handle
    · subst hx
      simp [ofHandle, hnew, hhandle]
    · simp [ofHandle, hnew, hhandle, hx, Ne.symm hx]
  · intro info' hinfo' handle' hhandle'
    rcases mem_set_cases hinfo' with rfl | hinfo'
    · cases hhandle'
    · exact h.entry info' hinfo' handle' hhandle'
  · intro p hp
    obtain ⟨info', hinfo', hhandle', hkeep'⟩ := h.ids p hp
    refine ⟨info', mem_set_of_ne hinfo' hi ?_ _, hhandle', hkeep'⟩
    rintro rfl
    cases hhandle'.symm.trans hhandle
    exact hnot p.1 hp

end

/-! ## Memory that is given back -/

/-- What `codec_mm_keeper_free_all_keep` has done up to the entry `n`. -/
structure Freed (force : ℤ) (jiffies : ℕ) (k : Keeper) (n : ℕ) (k' : Keeper) : Prop where
  inv : k'.Inv
  ids_eq : k'.ids = k.ids
  /-- The entries that have a handle are as they were. -/
  same : ∀ {i : ℕ} {info : KeepMemInfo}, k'.keepList[i]? = some info → info.handle ≠ none →
    k.keepList[i]? = some info
  /-- Those that were looked at are not to be freed. -/
  done : ∀ {i : ℕ} {info : KeepMemInfo}, i < n → k'.keepList[i]? = some info →
    info.handle ≠ none → ¬ wantFree force jiffies info

omit h in
theorem Freed.turn {jiffies n : ℕ} (hforce : force = 0 ∨ force = 2)
    (h : Freed force jiffies k n k') :
    Freed force jiffies k (n + 1) (freeTurn force jiffies k' n) := by
  -- an entry that stays as it is must not be one to be freed
  have hkeep (hn : ∀ info, k'.keepList[n]? = some info → info.handle ≠ none →
      ¬ wantFree force jiffies info) : Freed force jiffies k (n + 1) k' := by
    refine ⟨h.inv, h.ids_eq, h.same, fun {i info} hi hinfo => ?_⟩
    rcases Nat.lt_succ_iff_lt_or_eq.1 hi with hi | rfl
    · exact h.done hi hinfo
    · exact hn info hinfo
  rw [freeTurn]
  split
  · next hnone => exact hkeep fun info hinfo => absurd (hnone.symm.trans hinfo) (by simp)
  next info hinfo =>
  split
  · next hskip =>
    refine hkeep fun info' hinfo' hhandle => ?_
    cases hinfo.symm.trans hinfo'
    obtain ⟨handle, hhandle'⟩ := ne_none_iff_exists'.1 hhandle
    obtain ⟨-, hlo, -⟩ := h.inv.entry info (mem_of_getElem? hinfo) handle hhandle'
    rcases hskip with hskip | hskip
    · exact absurd hskip hhandle
    · exact absurd (hlo.trans_lt hskip) (by decide)
  next hskip =>
  split
  · next hwant =>
    obtain ⟨handle, hhandle⟩ := ne_none_iff_exists'.1 fun hnone => hskip (.inl hnone)
    have hset {i : ℕ} {info' : KeepMemInfo} (hi : (k'.freeKeep n info).keepList[i]? = some info')
        (hhandle' : info'.handle ≠ none) : i ≠ n ∧ k'.keepList[i]? = some info' := by
      rw [(freeKeep_spec ..).1, getElem?_set] at hi
      split at hi
      · split at hi
        · cases hi
          exact absurd rfl hhandle'
        · cases hi
      · next hne => exact ⟨Ne.symm hne, hi⟩
    refine ⟨h.inv.freeKeep hinfo hhandle (hwant.user_le hforce), ?_, ?_, ?_⟩
    · rw [(freeKeep_spec ..).2, h.ids_eq]
    · exact fun hi hhandle' => h.same (hset hi hhandle').2 hhandle'
    · intro i info' hi hinfo' hhandle'
      obtain ⟨hne, hold⟩ := hset hinfo' hhandle'
      exact h.done (by omega) hold hhandle'
  · next hwant =>
    refine hkeep fun info' hinfo' _ => ?_
    cases hinfo.symm.trans hinfo'
    exact hwant

theorem Inv.freed_foldl (hforce : force = 0 ∨ force = 2) (jiffies n : ℕ) :
    Freed force jiffies k n ((range n).foldl (freeTurn force jiffies) k) := by
  induction n with
  | zero => exact ⟨h, rfl, fun hi _ => hi, fun hi => absurd hi (Nat.not_lt_zero _)⟩
  | succ n ih =>
    rw [range_succ, foldl_append]
    exact ih.turn hforce

theorem Inv.freeAllKeep (hforce : force = 0 ∨ force = 2) (jiffies : ℕ) :
    Freed force jiffies k maxKeepFrame (k.freeAllKeep force jiffies) :=
  h.freed_foldl hforce jiffies maxKeepFrame

/-! ## The keeper -/

/-- What an operation that fits does: a mask fails, or takes an entry without a handle, an unmask
    takes the user of the entry that has the handle its id was returned for. -/
inductive Turn (k : Keeper) : Op → Keeper → Prop
  | failed {memHandle type ok nextId} : startKeepId ≤ nextId ∧ nextId < maxKeepId →
      Turn k (.mask memHandle type ok) { k with nextId }
  | masked {handle i : ℕ} {type ok info} : (∀ info ∈ k.keepList, info.handle ≠ some handle) →
      type ≠ .other → k.keepList[i]? = some info → info.handle = none →
      Turn k (.mask (some handle) type ok) { k.addRef handle 1 with
        nextId := nextIdAfter k.nextId
        keepList := k.keepList.set i
          { info with handle := some handle, keepId := k.nextId, type, user := 1 }
        num := k.num + 1
        ids := (k.nextId, handle) :: k.ids }
  | unmasked {keepId : ℤ} {handle delayOn i : ℕ} {info} : (keepId, handle) ∈ k.ids →
      k.keepList[i]? = some info → info.handle = some handle → info.keepId = keepId →
      info.user = 1 → Turn k (.unmask keepId handle delayOn) { k with
        keepList := k.keepList.set i { info with user := 0, delayOnJiffies64 := delayOn }
        ids := k.ids.erase (keepId, handle) }
  | freed {force : ℤ} {jiffies : ℕ} : force = 0 ∨ force = 2 →
      Turn k (.freeAll force jiffies) (k.freeAllKeep force jiffies)

theorem Inv.mask_turn {ok : Bool} (hfits : (Op.mask memHandle type ok).Fits k)
    (hstep : k.step (.mask memHandle type ok) = some k') : Turn k (.mask memHandle type ok) k' := by
  have hfailed (keepId nextId : ℤ) (hneg : keepId < 0)
      (hnext : startKeepId ≤ nextId ∧ nextId < maxKeepId)
      (hmask : k.maskKeepMem memHandle type ok = ({ k with nextId }, keepId)) :
      Turn k (.mask memHandle type ok) k' := by
    rw [step, hmask] at hstep
    dsimp only at hstep
    rw [if_pos hneg] at hstep
    cases hstep
    exact .failed hnext
  cases memHandle with
  | none => exact hfailed (-2) _ (by decide) h.nextId rfl
  | some handle =>
  by_cases htype : type = .other
  · exact hfailed (-3) _ (by decide) h.nextId (if_pos htype)
  by_cases hok : ¬ ok
  · exact hfailed (-4) _ (by decide) h.nextId ((if_neg htype).trans (if_pos hok))
  have hnot : ∀ info ∈ k.keepList, info.handle ≠ some handle := fun info hinfo heq => by
    rcases (hfits info hinfo).1 with hnone | hne
    · cases hnone.symm.trans heq
    · exact hne heq
  obtain ⟨hnone, hslot⟩ := findKeep_spec hnot 0 none
  rw [maskKeepMem, if_neg htype, if_neg hok] at hfailed
  rw [step, maskKeepMem, if_neg htype, if_neg hok] at hstep
  dsimp only [addRef] at hstep hfailed
  generalize findKeep handle k.keepList 0 none = r at hnone hslot hstep hfailed
  obtain ⟨slot, samed⟩ := r
  obtain rfl : samed = none := hnone
  rcases hslot with hslot | ⟨i, info, hi, hhandle, hslot⟩
  · obtain rfl : slot = none := hslot
    exact hfailed (-1) _ (by decide) (nextIdAfter_mem h.nextId) (by simp)
  obtain rfl : slot = some (0 + i, info) := hslot
  rw [Nat.zero_add] at hstep
  dsimp only at hstep
  rw [if_neg (not_lt.2 ((by decide : (0 : ℤ) ≤ startKeepId).trans h.nextId.1))] at hstep
  cases hstep
  exact .masked hnot htype hi hhandle

/-- An unmask lowers the user of the entry that has the handle its id was returned for. -/
theorem Inv.exists_unmask (hmem : (keepId, handle) ∈ k.ids) (delayOn : ℕ) :
    ∃ i info, k.keepList[i]? = some info ∧ info.handle = some handle ∧ info.keepId = keepId ∧
      info.user = 1 ∧ k.unmaskKeeper keepId delayOn =
        { k with
          keepList := k.keepList.set i { info with user := 0, delayOnJiffies64 := delayOn } } := by
  obtain ⟨info', hinfo', hhandle, rfl⟩ := h.ids _ hmem
  obtain ⟨-, hlo, hhi, hcase⟩ := h.entry info' hinfo' handle hhandle
  obtain ⟨i, info, hi, hkeep, hloop⟩ := exists_unmaskLoop delayOn ⟨info', hinfo', rfl⟩
  obtain ⟨j, hj⟩ := mem_iff_getElem?.1 hinfo'
  obtain rfl : j = i := h.eq_of_keepId hj hi hkeep hlo
  obtain rfl := some.inj (hi.symm.trans hj)
  have huser : info.user = 1 := by
    rcases hcase with ⟨huser, -⟩ | ⟨-, hnot⟩
    · exact huser
    · exact absurd hmem (hnot _)
  refine ⟨j, info, hi, hhandle, rfl, huser, ?_⟩
  rw [unmaskKeeper, if_neg (by omega), hloop, huser]
  rfl

/-- The keeper has what its entries say, and what is masked is kept. -/
structure Kept (k : Keeper) : Prop where
  num_eq : k.num = k.keepList.countP (·.handle.isSome)
  /-- A handle has one reference while it has an entry, and none otherwise. -/
  refs : ∀ handle, k.refs handle =
    if ∃ info ∈ k.keepList, info.handle = some handle then 1 else 0
  kept : ∀ p ∈ k.ids, k.refs p.2 = 1

theorem Inv.refs_eq_ite (handle : ℕ) : k.refs handle =
    if ∃ info ∈ k.keepList, info.handle = some handle then 1 else 0 := by
  rw [h.refs_eq]
  split
  · next hex =>
    obtain ⟨info, hinfo, hhandle⟩ := hex
    have hle := le_tally (ofHandle_nonneg handle) hinfo
    rw [show ofHandle handle info = 1 from if_pos hhandle] at hle
    exact le_antisymm (h.handle_le handle) hle
  · next hnot => exact tally_eq_zero fun info hinfo => if_neg fun heq => hnot ⟨info, hinfo, heq⟩

theorem Inv.isKept : k.Kept where
  num_eq := h.num_eq.trans (tally_eq_countP (fun info : KeepMemInfo => info.handle.isSome) _)
  refs := h.refs_eq_ite
  kept p hp := by
    obtain ⟨info, hinfo, hhandle, -⟩ := h.ids p hp
    rw [h.refs_eq_ite]
    exact if_pos ⟨info, hinfo, hhandle⟩

/-- Memory that nobody keeps is given back, with `force` or when its delay is over. -/
theorem Inv.refs_freeAllKeep (hforce : force = 0 ∨ force = 2)
    (hnot : ∀ keepId, (keepId, handle) ∉ k.ids)
    (htime : force = 2 ∨ ∀ info ∈ k.keepList, info.handle = some handle →
      timeAfter64 jiffies info.delayOnJiffies64) :
    (k.freeAllKeep force jiffies).refs handle = 0 := by
  have hfreed := h.freeAllKeep hforce jiffies
  rw [hfreed.inv.refs_eq_ite]
  refine if_neg ?_
  rintro ⟨info, hinfo, hhandle⟩
  obtain ⟨i, hi⟩ := mem_iff_getElem?.1 hinfo
  have hsome : info.handle ≠ none := by simp [hhandle]
  have hlt : i < maxKeepFrame := hfreed.inv.length ▸ (List.getElem?_eq_some_iff.1 hi).1
  obtain ⟨-, -, -, hcase⟩ := hfreed.inv.entry info hinfo handle hhandle
  rw [hfreed.ids_eq] at hcase
  have huser : info.user ≤ 0 := by
    rcases hcase with ⟨-, hmem⟩ | ⟨hzero, -⟩
    · exact absurd hmem (hnot _)
    · exact hzero.le
  refine hfreed.done hlt hi hsome (.inr ?_)
  rcases htime with htwo | htime
  · exact .inl ⟨htwo, huser⟩
  · refine .inr ⟨huser, htime info (mem_of_getElem? (hfreed.same hi hsome)) hhandle⟩

variable (hfits : op.Fits k) (hstep : k.step op = some k')
include hfits hstep

theorem Inv.turn : k.Turn op k' := by
  cases op with
  | mask memHandle type ok => exact h.mask_turn hfits hstep
  | unmask keepId handle delayOn =>
    obtain ⟨hmem, hstep⟩ := ite_some_none_eq_some.1 hstep
    obtain ⟨i, info, hi, hhandle, hkeep, huser, hunmask⟩ := h.exists_unmask hmem delayOn
    rw [hunmask] at hstep
    cases hstep
    exact .unmasked hmem hi hhandle hkeep huser
  | freeAll force jiffies =>
    obtain ⟨hforce, rfl⟩ := ite_some_none_eq_some.1 hstep
    exact .freed hforce

theorem Inv.step : k'.Inv := by
  cases h.turn hfits hstep with
  | failed hnext => exact { h with nextId := hnext }
  | masked hnot htype hi hnone =>
    exact h.addEntry hi hnot (fun info hinfo => (hfits info hinfo).2) htype hnone
  | unmasked hmem hi hhandle => exact h.unmask hi hmem hhandle
  | freed hforce => exact (h.freeAllKeep hforce _).inv

/-- Memory is given back only when nobody keeps the handle. -/
theorem Inv.not_mem_of_refs_lt (hlt : k'.refs handle < k.refs handle) (keepId : ℤ) :
    (keepId, handle) ∉ k.ids := by
  intro hmem
  -- a handle whose id stays out has its reference before and after
  have hout (hmem' : (keepId, handle) ∈ k'.ids) : False := by
    rw [(h.step hfits hstep).isKept.kept _ hmem', h.isKept.kept _ hmem] at hlt
    exact lt_irrefl _ hlt
  cases h.turn hfits hstep with
  | failed => exact hout hmem
  | masked => exact hout (mem_cons_of_mem _ hmem)
  | unmasked => exact lt_irrefl _ hlt
  | freed hforce => exact hout (by rwa [(h.freeAllKeep hforce _).ids_eq])

end

theorem Reachable.inv (h : Reachable (fun k op => op.Fits k) k) : k.Inv := by
  induction h with
  | init => exact inv_init
  | step op _ hfits hstep ih => exact ih.step hfits hstep

/-- In every run whose masks fit, what is masked is kept: an unmask lowers the users of the
    entry its id was returned for, and of no other; a handle loses its one reference only
    when its masks and unmasks balance, and then when the entries are freed. -/
theorem kept (h : Reachable (fun k op => op.Fits k) k) :
    k.Kept ∧ ∀ op k', op.Fits k → k.step op = some k' →
      (∀ keepId handle delayOn, op = .unmask keepId handle delayOn →
        ∃ i info, k.keepList[i]? = some info ∧ info.handle = some handle ∧
          info.keepId = keepId ∧ k'.keepList = k.keepList.set i
            { info with user := info.user - 1, delayOnJiffies64 := delayOn }) ∧
      (∀ handle, k'.refs handle < k.refs handle → ∀ keepId, (keepId, handle) ∉ k.ids) ∧
      ∀ force jiffies handle, op = .freeAll force jiffies → (∀ keepId, (keepId, handle) ∉ k.ids) →
        (force = 2 ∨ ∀ info ∈ k.keepList, info.handle = some handle →
          timeAfter64 jiffies info.delayOnJiffies64) → k'.refs handle = 0 := by
  refine ⟨h.inv.isKept, fun op k' hfits hstep => ⟨?_, ?_, ?_⟩⟩
  · rintro keepId handle delayOn rfl
    cases h.inv.turn hfits hstep with
    | unmasked hmem hi hhandle hkeep huser =>
      refine ⟨_, _, hi, hhandle, hkeep, ?_⟩
      rw [huser]
      rfl
  · exact fun handle hlt => h.inv.not_mem_of_refs_lt hfits hstep hlt
  · rintro force jiffies handle rfl hnot htime
    cases h.inv.turn hfits hstep with
    | freed hforce => exact h.inv.refs_freeAllKeep hforce hnot htime

/-- A handle that is masked and unmasked once is kept until the entries are freed. -/
theorem kept_once : ∃ k k', Reachable (fun k op => op.Fits k) k ∧ k.Kept ∧ k.refs 5 = 1 ∧
    k.step (.freeAll 2 0) = some k' ∧ k'.refs 5 = 0 := by
  have hrun : (do
      let k₁ ← init.step (.mask (some 5) .codecMm true)
      let k₂ ← k₁.step (.unmask 9 5 0)
      let _ ← k₂.step (.freeAll 2 0)
      some (k₂.ids, k₂.refs 5)) = some ([], 1) := by
    decide +kernel
  obtain ⟨k₁, h₁, hrun⟩ := bind_eq_some_iff.1 hrun
  obtain ⟨k₂, h₂, hrun⟩ := bind_eq_some_iff.1 hrun
  obtain ⟨k₃, h₃, hrun⟩ := bind_eq_some_iff.1 hrun
  obtain ⟨hids, hrefs⟩ := Prod.mk.inj (some.inj hrun)
  have h : Reachable (fun k op => op.Fits k) k₂ := .step (.unmask 9 5 0) (.step _ .init
    (fun info hinfo => by rw [eq_of_mem_replicate hinfo]; decide) h₁) trivial h₂
  have hnot : ∀ keepId, (keepId, 5) ∉ k₂.ids := fun keepId => by simp [hids]
  exact ⟨k₂, k₃, h, (kept h).1, hrefs, h₃,
    ((kept h).2 (.freeAll 2 0) k₃ trivial h₃).2.2 2 0 5 rfl hnot (.inl rfl)⟩

/-- A handle that is masked twice and unmasked once is given back. -/
theorem not_kept_twice : ∃ k, Reachable (fun _ _ => True) k ∧ ¬ k.Kept := by
  have hrun : (do
      let k₁ ← init.step (.mask (some 5) .codecMm true)
      let k₂ ← k₁.step (.mask (some 5) .codecMm true)
      let k₃ ← k₂.step (.unmask 9 5 0)
      let k₄ ← k₃.step (.freeAll 2 0)
      some (k₄.ids, k₄.refs 5)) = some ([(9, 5)], 0) := by
    decide +kernel
  obtain ⟨k₁, h₁, hrun⟩ := bind_eq_some_iff.1 hrun
  obtain ⟨k₂, h₂, hrun⟩ := bind_eq_some_iff.1 hrun
  obtain ⟨k₃, h₃, hrun⟩ := bind_eq_some_iff.1 hrun
  obtain ⟨k₄, h₄, hrun⟩ := bind_eq_some_iff.1 hrun
  obtain ⟨hids, hrefs⟩ := Prod.mk.inj (some.inj hrun)
  refine ⟨k₄, .step _ (.step _ (.step _ (.step _ .init trivial h₁) trivial h₂) trivial h₃) trivial
    h₄, fun h => ?_⟩
  have hkept := h.kept (9, 5) (hids ▸ mem_cons_self)
  rw [hrefs] at hkept
  exact absurd hkept (by decide)

end Keeper

end CommonDrivers.Media.CodecMm
