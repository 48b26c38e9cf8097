import CommonDrivers.Dvb.SwDemux.Registry

/-!
# Ownership in the registry

The pointers of the filters and the lists of the PID filters say the same thing:
which filter runs in which PID filter (`Inv`). Every operation keeps it, and
so follows no pointer to an object that was freed (`Inv.exec`). A PID filter
is there as long as a filter runs in it, so that freeing the filters of a demux
frees all of it (`Inv.swdmxDemuxFree`).

An operation that moves a filter is a few writes, between which the invariant does
not hold. What each write keeps is said first, with the writes that must come
together taken together (`Core.link`, `Core.unlink`), and leaving empty
PID filters aside (`Core`).
-/

namespace CommonDrivers.Dvb.SwDemux

open List Function Option Demux

namespace Demux

/-! ## The invariant -/

/-- The invariant, but for PID filters left empty. -/
structure Core (d : Demux) : Prop where
  nodup_pidFilterList : d.pidFilterList.Nodup
  nodup_filterList : ∀ k, (d.filterList k).Nodup
  /-- A pointer is to an object of one kind. -/
  kind_eq : ∀ {k k' q}, q ∈ d.filterList k → q ∈ d.filterList k' → k = k'
  notMem_pidFilterList : ∀ {k q}, q ∈ d.filterList k → q ∉ d.pidFilterList
  pid_inj : ∀ {e e'}, e ∈ d.pidFilterList → e' ∈ d.pidFilterList →
    (d.pidFilter e).pid = (d.pidFilter e').pid → e = e'
  run_iff : ∀ {k q}, q ∈ d.filterList k →
    ((d.filter k q).state = .run ↔ (d.filter k q).pidFilter ≠ none)
  /-- The lists of a PID filter hold the filters that point at it. -/
  mem_iff : ∀ {k q e}, e ∈ d.pidFilterList → (q ∈ (d.pidFilter e).filterList k ↔
      q ∈ d.filterList k ∧ (d.filter k q).pidFilter = some e)
  /-- A filter points at the PID filter of its PID. -/
  pidFilter_mem : ∀ {k q e}, q ∈ d.filterList k → (d.filter k q).pidFilter = some e →
    e ∈ d.pidFilterList ∧ (d.pidFilter e).pid = (d.filter k q).params.pid
  nodup_list : ∀ {e}, e ∈ d.pidFilterList → ∀ k, ((d.pidFilter e).filterList k).Nodup
  arrays_eq : ∀ {k q}, q ∈ d.filterList k → (d.filter k q).state ≠ .init →
    (d.filter k q).arrays = (d.filter k q).params.arrays

/-- The invariant of the registry. -/
structure Inv (d : Demux) : Prop extends Core d where
  /-- A filter is left in every PID filter. -/
  nonempty : ∀ {e}, e ∈ d.pidFilterList → ∃ k, (d.pidFilter e).filterList k ≠ []

theorem IsNew.inv {d : Demux} (h : d.IsNew) : d.Inv := by
  obtain ⟨h1, h2, -⟩ := h
  constructor
  · constructor <;> simp [h1, h2]
  · simp [h1]

variable {d : Demux} {k k' : Kind} {q q' e e' : Ptr} {f f' : Filter k}

/-! What the writes change, and what they do not. -/

@[simp]
theorem pidFilterList_setFilter : (d.setFilter k q f).pidFilterList = d.pidFilterList := rfl

@[simp]
theorem filterList_setFilter : (d.setFilter k q f).filterList = d.filterList := rfl

@[simp]
theorem pidFilter_setFilter : (d.setFilter k q f).pidFilter = d.pidFilter := rfl

@[simp]
theorem filter_setFilter_self : (d.setFilter k q f).filter k q = f := by simp [setFilter]

theorem filter_setFilter_of_ne (h : ¬(k' = k ∧ q' = q)) :
    (d.setFilter k q f).filter k' q' = d.filter k' q' := by
  by_cases hk : k' = k
  · subst hk
    have hq : q' ≠ q := fun hq => h ⟨rfl, hq⟩
    simp [setFilter, hq]
  · simp [setFilter, hk]

/-- What holds of the filter written, and of the others before, holds of all. -/
theorem forall_setFilter {P : (k : Kind) → Ptr → Filter k → Prop} (h : P k q f)
    (h' : ∀ k' q', ¬(k' = k ∧ q' = q) → P k' q' (d.filter k' q')) (k' : Kind) (q' : Ptr) :
    P k' q' ((d.setFilter k q f).filter k' q') := by
  by_cases hkq : k' = k ∧ q' = q
  · obtain ⟨rfl, rfl⟩ := hkq
    rwa [filter_setFilter_self]
  · rw [filter_setFilter_of_ne hkq]
    exact h' k' q' hkq

@[simp]
theorem setFilter_setFilter : (d.setFilter k q f).setFilter k q f' = d.setFilter k q f' := by
  simp [setFilter]

theorem filter_link : (d.link k q e).filter = d.filter := rfl

@[simp]
theorem pid_link : ((d.link k q e).pidFilter e').pid = (d.pidFilter e').pid := by
  by_cases he : e' = e
  · subst he
    simp [link]
  · simp [link, he]

theorem list_link_self :
    ((d.link k q e).pidFilter e).filterList k = (d.pidFilter e).filterList k ++ [q] := by
  simp [link]

theorem list_link_of_ne (h : ¬(k' = k ∧ e' = e)) :
    ((d.link k q e).pidFilter e').filterList k' = (d.pidFilter e').filterList k' := by
  by_cases he : e' = e
  · subst he
    have hk : k' ≠ k := fun hk => h ⟨hk, rfl⟩
    simp [link, hk]
  · simp [link, he]

@[simp]
theorem pidFilterList_unlink : (d.unlink k q).pidFilterList = d.pidFilterList := rfl

@[simp]
theorem pid_unlink : ((d.unlink k q).pidFilter e).pid = (d.pidFilter e).pid := rfl

theorem list_unlink_self :
    ((d.unlink k q).pidFilter e).filterList k = ((d.pidFilter e).filterList k).erase q := by
  simp [unlink]

theorem list_unlink_of_ne (h : k' ≠ k) :
    ((d.unlink k q).pidFilter e).filterList k' = (d.pidFilter e).filterList k' := by
  simp [unlink, h]

namespace Core

variable (h : d.Core)
include h

/-- A filter is written, and the lists of the PID filters with it: it is then in those of the PID
    filter that it points at. -/
theorem write {p : Ptr → PidFilter} (hpid : ∀ e, (p e).pid = (d.pidFilter e).pid)
    (hnodup : ∀ e ∈ d.pidFilterList, ∀ k', ((p e).filterList k').Nodup)
    (hself : ∀ e ∈ d.pidFilterList, q ∈ (p e).filterList k ↔
      q ∈ d.filterList k ∧ f.pidFilter = some e)
    (hother : ∀ e ∈ d.pidFilterList, ∀ k' q', ¬(k' = k ∧ q' = q) →
      (q' ∈ (p e).filterList k' ↔ q' ∈ (d.pidFilter e).filterList k'))
    (hmem : ∀ e, f.pidFilter = some e → e ∈ d.pidFilterList ∧ (d.pidFilter e).pid = f.params.pid)
    (hrun : f.state = .run ↔ f.pidFilter ≠ none)
    (harr : f.state ≠ .init → f.arrays = f.params.arrays) :
    { d.setFilter k q f with pidFilter := p }.Core where
  nodup_pidFilterList := h.nodup_pidFilterList
  nodup_filterList := h.nodup_filterList
  kind_eq := h.kind_eq
  notMem_pidFilterList := h.notMem_pidFilterList
  pid_inj he he' hp := h.pid_inj he he' (by simpa only [hpid] using hp)
  run_iff {k' q'} := forall_setFilter (P := fun k q f => q ∈ d.filterList k →
    (f.state = .run ↔ f.pidFilter ≠ none)) (fun _ => hrun) (fun _ _ _ => h.run_iff) k' q'
  mem_iff {k' q' e} he := forall_setFilter (P := fun k q f => q ∈ (p e).filterList k ↔
      q ∈ d.filterList k ∧ f.pidFilter = some e) (hself e he)
    (fun k' q' hne => (hother e he k' q' hne).trans (h.mem_iff he)) k' q'
  pidFilter_mem {k' q' e} := forall_setFilter (P := fun k q f => q ∈ d.filterList k →
      f.pidFilter = some e → e ∈ d.pidFilterList ∧ (p e).pid = f.params.pid)
    (fun _ he => hpid e ▸ hmem e he) (fun _ _ _ => hpid e ▸ h.pidFilter_mem) k' q'
  nodup_list he := hnodup _ he
  arrays_eq {k' q'} := forall_setFilter (P := fun k q f => q ∈ d.filterList k →
    f.state ≠ .init → f.arrays = f.params.arrays) (fun _ => harr) (fun _ _ _ => h.arrays_eq) k' q'

/-- A filter may be written if its PID filter and PID are kept. -/
theorem setFilter (hq : q ∈ d.filterList k)
    (hpf : f.pidFilter = (d.filter k q).pidFilter) (hrun : f.state = .run ↔ f.pidFilter ≠ none)
    (hpid : f.pidFilter ≠ none → f.params.pid = (d.filter k q).params.pid)
    (harr : f.state ≠ .init → f.arrays = f.params.arrays) : (d.setFilter k q f).Core :=
  h.write (fun _ => rfl) (fun _ => h.nodup_list) (fun _ he => hpf ▸ h.mem_iff he)
    (fun _ _ _ _ _ => .rfl)
    (fun e he => hpid (by simp [he]) ▸ h.pidFilter_mem hq (hpf ▸ he)) hrun harr

/-- A filter that is in no PID filter may enter the one of its PID. -/
theorem link (hq : q ∈ d.filterList k) (hnone : (d.filter k q).pidFilter = none)
    (he : e ∈ d.pidFilterList) (hpid : (d.pidFilter e).pid = f.params.pid)
    (hpf : f.pidFilter = some e) (hrun : f.state = .run)
    (harr : f.arrays = f.params.arrays) : ((d.setFilter k q f).link k q e).Core := by
  have hnot : ∀ e' ∈ d.pidFilterList, q ∉ (d.pidFilter e').filterList k := fun e' he' => by
    simp [h.mem_iff he', hnone]
  refine h.write (p := (d.link k q e).pidFilter) (fun _ => pid_link) (fun e' he' k' => ?_)
    (fun e' he' => ?_) (fun e' he' k' q' hne => ?_)
    (fun e' he' => some.inj (hpf.symm.trans he') ▸ ⟨he, hpid⟩) (by simp [hrun, hpf]) fun _ => harr
  · by_cases hke : k' = k ∧ e' = e
    · obtain ⟨rfl, rfl⟩ := hke
      rw [list_link_self]
      exact (h.nodup_list he _).append (nodup_singleton q) (by simpa using hnot e' he)
    · rw [list_link_of_ne hke]
      exact h.nodup_list he' k'
  · by_cases hee : e' = e
    · subst hee
      simp [list_link_self, hq, hpf]
    · rw [list_link_of_ne (by simp [hee])]
      simp [hnot e' he', hpf, Ne.symm hee]
  · by_cases hke : k' = k ∧ e' = e
    · obtain ⟨rfl, rfl⟩ := hke
      have hqq : q' ≠ q := fun hqq => hne ⟨rfl, hqq⟩
      simp [list_link_self, hqq]
    · rw [list_link_of_ne hke]

/-- A filter may leave its PID filter. -/
theorem unlink (hpf : f.pidFilter = none)
    (hrun : f.state ≠ .run) (harr : f.state ≠ .init → f.arrays = f.params.arrays) :
    ((d.unlink k q).setFilter k q f).Core := by
  refine h.write (p := (d.unlink k q).pidFilter) (fun _ => pid_unlink) (fun e' he' k' => ?_)
    (fun e' he' => ?_) (fun e' he' k' q' hne => ?_) (fun e' he' => by simp [hpf] at he')
    (by simp [hrun, hpf]) harr
  · by_cases hk : k' = k
    · subst hk
      rw [list_unlink_self]
      exact (h.nodup_list he' k').erase q
    · rw [list_unlink_of_ne hk]
      exact h.nodup_list he' k'
  · rw [list_unlink_self, (h.nodup_list he' k).mem_erase_iff]
    simp [hpf]
  · by_cases hk : k' = k
    · subst hk
      rw [list_unlink_self, mem_erase_of_ne fun hqq => hne ⟨rfl, hqq⟩]
    · rw [list_unlink_of_ne hk]

end Core

/-! ## The operations keep the invariant -/

theorem mem_ptrs_of_mem_filterList (h : q ∈ d.filterList k) : q ∈ d.ptrs := by
  cases k <;> simp [ptrs, h]

theorem mem_ptrs_of_mem_pidFilterList (h : e ∈ d.pidFilterList) : e ∈ d.ptrs := by
  simp [ptrs, h]

variable {pid : UInt16} {malloc : Ptr}

theorem mem_addPidFilter :
    e ∈ (d.addPidFilter pid malloc).pidFilterList ↔ e ∈ d.pidFilterList ∨ e = malloc := by
  simp [addPidFilter]

theorem pidFilter_addPidFilter_self :
    (d.addPidFilter pid malloc).pidFilter malloc = ⟨pid, fun _ => [], .fresh⟩ := by
  simp [addPidFilter]

theorem pidFilter_addPidFilter_of_ne (h : e ≠ malloc) :
    (d.addPidFilter pid malloc).pidFilter e = d.pidFilter e := by
  simp [addPidFilter, h]

/-- A PID filter is an old one, which is kept, or the new one, which is empty. -/
theorem forall_addPidFilter {P : Ptr → PidFilter → Prop} (hm : malloc ∉ d.pidFilterList)
    (hnew : P malloc ⟨pid, fun _ => [], .fresh⟩) (h : ∀ e ∈ d.pidFilterList, P e (d.pidFilter e))
    (he : e ∈ (d.addPidFilter pid malloc).pidFilterList) :
    P e ((d.addPidFilter pid malloc).pidFilter e) := by
  rcases mem_addPidFilter.1 he with he | rfl
  · rw [pidFilter_addPidFilter_of_ne (ne_of_mem_of_not_mem he hm)]
    exact h e he
  · rwa [pidFilter_addPidFilter_self]

/-- A PID filter may be added for a PID that has none. -/
theorem Core.addPidFilter (h : d.Core) (hm : malloc ∉ d.ptrs)
    (hpid : ∀ e ∈ d.pidFilterList, (d.pidFilter e).pid ≠ pid) :
    (d.addPidFilter pid malloc).Core := by
  have hm' : malloc ∉ d.pidFilterList := fun he => hm (mem_ptrs_of_mem_pidFilterList he)
  constructor
  · refine nodup_append.2 ⟨h.nodup_pidFilterList, by simp, ?_⟩
    simpa using fun e he => ne_of_mem_of_not_mem he hm'
  · exact h.nodup_filterList
  · exact h.kind_eq
  · intro k q hq
    rw [mem_addPidFilter, not_or]
    have hmem := mem_ptrs_of_mem_filterList (d := d) hq
    exact ⟨h.notMem_pidFilterList hq, ne_of_mem_of_not_mem hmem hm⟩
  · intro e e' he he'
    refine forall_addPidFilter (P := fun e p => p.pid = _ → e = e') hm'
      (forall_addPidFilter (P := fun e' p => pid = p.pid → malloc = e') hm' (fun _ => rfl)
        (fun e' he' hp => absurd hp.symm (hpid e' he')) he') (fun e he => ?_) he
    exact forall_addPidFilter (P := fun e' p => (d.pidFilter e).pid = p.pid → e = e') hm'
      (fun hp => absurd hp (hpid e he)) (fun e' he' => h.pid_inj he he') he'
  · exact h.run_iff
  · intro k q e he
    refine forall_addPidFilter (P := fun e p => q ∈ p.filterList k ↔
      q ∈ d.filterList k ∧ (d.filter k q).pidFilter = some e) hm' ?_ (fun e => h.mem_iff) he
    simpa using fun hq he => hm' (h.pidFilter_mem hq he).1
  · intro k q e hq he
    obtain ⟨hmem, hp⟩ := h.pidFilter_mem hq he
    rw [pidFilter_addPidFilter_of_ne (ne_of_mem_of_not_mem hmem hm')]
    exact ⟨mem_addPidFilter.2 (.inl hmem), hp⟩
  · intro e he
    exact forall_addPidFilter (P := fun e p => ∀ k, (p.filterList k).Nodup) hm' (by simp)
      (fun e he => h.nodup_list he) he
  · exact h.arrays_eq

/-- The PID filter of a PID, found or added. -/
theorem Core.pidFilterGet (h : d.Core) (hm : malloc ∉ d.ptrs) {d₁ : Demux}
    (hget : d.pidFilterGet pid malloc = (e, d₁)) :
    d₁.Core ∧ e ∈ d₁.pidFilterList ∧ (d₁.pidFilter e).pid = pid ∧ d₁.filterList = d.filterList ∧
      d₁.filter = d.filter ∧ ∀ e' ∈ d₁.pidFilterList, e' ≠ e →
        e' ∈ d.pidFilterList ∧ d₁.pidFilter e' = d.pidFilter e' := by
  rw [Demux.pidFilterGet] at hget
  split at hget
  · next e₀ hfind =>
    cases hget
    exact ⟨h, mem_of_find?_eq_some hfind, by simpa using find?_some hfind, rfl, rfl,
      fun e' he' _ => ⟨he', rfl⟩⟩
  next hfind =>
  cases hget
  refine ⟨h.addPidFilter hm (by simpa using find?_eq_none.1 hfind),
    mem_addPidFilter.2 (.inr rfl), by rw [pidFilter_addPidFilter_self], rfl, rfl,
    fun e' he' hne => ⟨?_, pidFilter_addPidFilter_of_ne hne⟩⟩
  exact (mem_addPidFilter.1 he').resolve_right hne

theorem pidFilterGet_setFilter : (d.setFilter k q f).pidFilterGet pid malloc =
    ((d.pidFilterGet pid malloc).1, (d.pidFilterGet pid malloc).2.setFilter k q f) := by
  rw [pidFilterGet, pidFilterGet, pidFilterList_setFilter, pidFilter_setFilter]
  cases d.pidFilterList.find? fun e => (d.pidFilter e).pid = pid <;> rfl

theorem attach_setFilter : (d.setFilter k q f').attach k q f malloc = d.attach k q f malloc := by
  simp only [attach, pidFilterGet_setFilter, setFilter_setFilter]

/-- An empty PID filter may be freed. -/
theorem Core.freePidFilter (h : d.Core) (hempty : ∀ k, (d.pidFilter e).filterList k = []) :
    (d.freePidFilter e).Core :=
  { h with
    nodup_pidFilterList := h.nodup_pidFilterList.erase e
    notMem_pidFilterList hq he := h.notMem_pidFilterList hq (mem_of_mem_erase he)
    pid_inj he he' := h.pid_inj (mem_of_mem_erase he) (mem_of_mem_erase he')
    mem_iff he := h.mem_iff (mem_of_mem_erase he)
    pidFilter_mem {k q e'} hq he' := by
      obtain ⟨hmem, hpid⟩ := h.pidFilter_mem hq he'
      refine ⟨(mem_erase_of_ne ?_).2 hmem, hpid⟩
      rintro rfl
      have := (h.mem_iff hmem).2 ⟨hq, he'⟩
      rw [hempty] at this
      cases this
    nodup_list he := h.nodup_list (mem_of_mem_erase he) }

theorem mem_eraseFilter (h : d.Core) :
    q' ∈ (d.eraseFilter k q).filterList k' ↔ q' ∈ d.filterList k' ∧ ¬(k' = k ∧ q' = q) := by
  by_cases hk : k' = k
  · subst hk
    simp [eraseFilter, (h.nodup_filterList k').mem_erase_iff, and_comm]
  · simp [eraseFilter, hk]

theorem ptrs_eraseFilter (hq : q ∈ d.filterList k) :
    d.ptrs.Perm (q :: (d.eraseFilter k q).ptrs) := by
  have h := perm_cons_erase hq
  cases k with
  | ts =>
    exact ((h.append_right _).append_right _)
  | sec =>
    simp only [ptrs, eraseFilter, update_self, update_of_ne, ne_eq, reduceCtorEq, not_false_eq_true]
    refine ((h.append_left _).append_right _).trans ?_
    simp [perm_middle]

theorem Core.nodup_ptrs (h : d.Core) : d.ptrs.Nodup := by
  simp only [ptrs, nodup_append, mem_append]
  refine ⟨⟨h.nodup_filterList _, h.nodup_filterList _, fun q hq q' hq' heq => ?_⟩,
    h.nodup_pidFilterList, fun q hq e he heq => ?_⟩
  · subst heq
    exact absurd (h.kind_eq hq hq') (by simp)
  · subst heq
    exact hq.elim (fun hq => h.notMem_pidFilterList hq he) fun hq => h.notMem_pidFilterList hq he

section

variable (h : d.Inv)
include h

/-- A filter is allocated, out of any PID filter. -/
theorem Inv.allocFilter (hq : q ∉ d.ptrs) (mem : Filter k) : (d.allocFilter k q mem).Inv := by
  have hne {k'} : q ∉ d.filterList k' := fun hq' => hq (mem_ptrs_of_mem_filterList hq')
  have hmem {k' q'} : q' ∈ (d.allocFilter k q mem).filterList k' ↔
      q' ∈ d.filterList k' ∨ k' = k ∧ q' = q := by
    by_cases hk : k' = k
    · subst hk
      simp [Demux.allocFilter]
    · simp [Demux.allocFilter, hk]
  have hold {k' q'} (hq' : q' ∈ d.filterList k') :
      (d.allocFilter k q mem).filter k' q' = d.filter k' q' := by
    refine filter_setFilter_of_ne ?_
    rintro ⟨rfl, rfl⟩
    exact hne hq'
  have hnew : (d.allocFilter k q mem).filter k q =
      { mem with state := .init, pidFilter := none, cbList := [] } := filter_setFilter_self
  -- the new filter is not running, and the others are as they were
  refine ⟨⟨h.nodup_pidFilterList, fun k' => ?_, fun hq₁ hq₂ => ?_, fun hq' => ?_, h.pid_inj,
    fun hq' => ?_, fun {k' q' e} he => ?_, fun hq' he => ?_, h.nodup_list, fun hq' hs => ?_⟩,
    h.nonempty⟩
  · by_cases hk : k' = k
    · subst hk
      simp only [Demux.allocFilter, update_self]
      exact (h.nodup_filterList k').append (by simp) (by simpa using hne)
    · simpa [Demux.allocFilter, hk] using h.nodup_filterList k'
  · rcases hmem.1 hq₁ with hq₁ | ⟨rfl, rfl⟩ <;> rcases hmem.1 hq₂ with hq₂ | ⟨hk, hq₂⟩
    · exact h.kind_eq hq₁ hq₂
    · exact absurd (hq₂ ▸ hq₁) hne
    · exact absurd hq₂ hne
    · exact hk.symm
  · rcases hmem.1 hq' with hq' | ⟨rfl, rfl⟩
    · exact h.notMem_pidFilterList hq'
    · exact fun he => hq (mem_ptrs_of_mem_pidFilterList he)
  · rcases hmem.1 hq' with hq' | ⟨rfl, rfl⟩
    · rw [hold hq']
      exact h.run_iff hq'
    · simp [hnew]
  · refine (h.mem_iff he).trans ⟨fun ⟨hq', hp⟩ => ⟨hmem.2 (.inl hq'), by rwa [hold hq']⟩, ?_⟩
    rintro ⟨hq', hp⟩
    rcases hmem.1 hq' with hq' | ⟨rfl, rfl⟩
    · exact ⟨hq', by rwa [hold hq'] at hp⟩
    · simp [hnew] at hp
  · rcases hmem.1 hq' with hq' | ⟨rfl, rfl⟩
    · rw [hold hq'] at he ⊢
      exact h.pidFilter_mem hq' he
    · simp [hnew] at he
  · rcases hmem.1 hq' with hq' | ⟨rfl, rfl⟩
    · rw [hold hq'] at hs ⊢
      exact h.arrays_eq hq' hs
    · simp [hnew] at hs

/-- A filter that is in no PID filter may be freed. -/
theorem Inv.eraseFilter (hnone : (d.filter k q).pidFilter = none) : (d.eraseFilter k q).Inv := by
  have hmem {k' q'} (hq' : q' ∈ (d.eraseFilter k q).filterList k') : q' ∈ d.filterList k' :=
    ((mem_eraseFilter h.toCore).1 hq').1
  refine ⟨⟨h.nodup_pidFilterList, fun k' => ?_, fun hq₁ hq₂ => h.kind_eq (hmem hq₁) (hmem hq₂),
    fun hq' => h.notMem_pidFilterList (hmem hq'), h.pid_inj, fun hq' => h.run_iff (hmem hq'),
    fun {k' q' e} he => ?_, fun hq' => h.pidFilter_mem (hmem hq'), h.nodup_list,
    fun hq' => h.arrays_eq (hmem hq')⟩, h.nonempty⟩
  · by_cases hk : k' = k
    · subst hk
      simpa [Demux.eraseFilter] using (h.nodup_filterList k').erase q
    · simpa [Demux.eraseFilter, hk] using h.nodup_filterList k'
  rw [mem_eraseFilter h.toCore, and_assoc]
  refine (h.mem_iff he).trans (and_congr_right fun hq' => ⟨fun hp => ⟨?_, hp⟩, And.right⟩)
  rintro ⟨rfl, rfl⟩
  rw [hnone] at hp
  cases hp

section

variable (hq : q ∈ d.filterList k)
include hq

/-- A filter that is in no PID filter may enter the one of its PID. -/
theorem Inv.attach (hm : malloc ∉ d.ptrs) (hnone : (d.filter k q).pidFilter = none)
    (hrun : f.state = .run) (harr : f.arrays = f.params.arrays) : (d.attach k q f malloc).Inv := by
  rw [Demux.attach]
  generalize hget : d.pidFilterGet f.params.pid malloc = r
  obtain ⟨e, d₁⟩ := r
  obtain ⟨hcore, he, hpid, hfl, hf, hother⟩ := h.toCore.pidFilterGet hm hget
  refine ⟨hcore.link (hfl ▸ hq) (by rw [hf, hnone]) he hpid rfl hrun harr, fun {e'} he' => ?_⟩
  by_cases hee : e' = e
  · subst hee
    exact ⟨k, by simp [list_link_self]⟩
  obtain ⟨hmem, heq⟩ := hother e' he' hee
  obtain ⟨k', hk'⟩ := h.nonempty hmem
  refine ⟨k', ?_⟩
  rwa [list_link_of_ne (by simp [hee]), pidFilter_setFilter, heq]

/-- A filter may leave its PID filter, which is freed if it is left empty. What is
    written to the filter afterwards says that it left. -/
theorem Inv.detach (he : (d.filter k q).pidFilter = some e) :
    ∃ d₁ l, d.detach k q e = .ok d₁ ∧ d₁.filterList = d.filterList ∧
      d₁.freed = d.freed ++ l ∧ d.pidFilterList.Perm (l ++ d₁.pidFilterList) ∧
      ∀ f : Filter k, f.pidFilter = none → f.state ≠ .run →
        (f.state ≠ .init → f.arrays = f.params.arrays) → (d₁.setFilter k q f).Inv := by
  obtain ⟨hmem, -⟩ := h.pidFilter_mem hq he
  have hlist : q ∈ (d.pidFilter e).filterList k := (h.mem_iff hmem).2 ⟨hq, he⟩
  -- The lists of other PID filters do not change.
  have hother {e' k'} (he' : e' ∈ d.pidFilterList) (hne : e' ≠ e) :
      ((d.unlink k q).pidFilter e').filterList k' = (d.pidFilter e').filterList k' := by
    by_cases hk : k' = k
    · subst hk
      rw [list_unlink_self, erase_of_not_mem]
      rw [h.mem_iff he', he]
      exact fun hee => hne (some.inj hee.2).symm
    · exact list_unlink_of_ne hk
  rw [Demux.detach, if_pos ⟨e, hmem, hlist⟩, pidFilterRemove, pidFilterList_unlink,
    if_neg (not_not.2 hmem)]
  split
  · next hne =>
    refine ⟨_, [], rfl, rfl, by simp [unlink], by simp, fun f hpf hrun harr =>
      ⟨h.toCore.unlink hpf hrun harr, fun {e'} he' => ?_⟩⟩
    by_cases hee : e' = e
    · subst hee
      rcases hne with hne | hne
      exacts [⟨_, hne⟩, ⟨_, hne⟩]
    · obtain ⟨k', hk'⟩ := h.nonempty he'
      exact ⟨k', by rwa [pidFilter_setFilter, hother he' hee]⟩
  · next hempty =>
    rw [not_or, not_not, not_not] at hempty
    have hempty' : ∀ k', ((d.unlink k q).pidFilter e).filterList k' = []
      | .ts => hempty.1
      | .sec => hempty.2
    refine ⟨_, [e], rfl, rfl, rfl, perm_cons_erase hmem, fun f hpf hrun harr =>
      ⟨(h.toCore.unlink hpf hrun harr).freePidFilter hempty', fun {e'} he' => ?_⟩⟩
    obtain ⟨hne, he'⟩ := h.nodup_pidFilterList.mem_erase_iff.1 he'
    obtain ⟨k', hk'⟩ := h.nonempty he'
    exact ⟨k', by rwa [← hother he' hne] at hk'⟩

/-- A filter that is given a PID stays where it is, or leaves the PID filter of
    another PID. -/
theorem Inv.leave (pid : UInt16) :
    (d.leave k q pid = .ok (d, (d.filter k q).pidFilter) ∧
        ((d.filter k q).pidFilter ≠ none → pid = (d.filter k q).params.pid)) ∨
      (d.filter k q).state = .run ∧ ∃ d₁, d.leave k q pid = .ok (d₁, none) ∧
        d₁.filterList = d.filterList ∧ d₁.pidFilterList ⊆ d.pidFilterList ∧
        ∀ f : Filter k, f.pidFilter = none → f.state ≠ .run →
          (f.state ≠ .init → f.arrays = f.params.arrays) → (d₁.setFilter k q f).Inv := by
  rw [Demux.leave]
  cases he : (d.filter k q).pidFilter with
  | none => exact .inl ⟨rfl, fun hne => absurd rfl hne⟩
  | some e =>
    have hs : (d.filter k q).state = .run := (h.run_iff hq).2 (by simp [he])
    by_cases hpid : (d.filter k q).params.pid = pid
    · exact .inl ⟨if_neg (by simp [hpid]), fun _ => hpid.symm⟩
    obtain ⟨d₁, l, hd₁, hfl, -, hperm, hinv⟩ := h.detach hq he
    refine .inr ⟨hs, d₁, ?_, hfl, fun e he => hperm.mem_iff.2 (mem_append_right _ he), hinv⟩
    refine (if_pos ⟨hs, hpid⟩).trans ?_
    rw [hd₁]
    rfl

theorem Inv.filterSetParams (params : Params k) (hm : malloc ∉ d.ptrs) :
    ∃ d' ok, d.filterSetParams k q params malloc = .ok (d', ok) ∧ d'.Inv := by
  rw [Demux.filterSetParams]
  split
  · exact ⟨d, false, rfl, h⟩
  split
  · exact ⟨d, false, rfl, h⟩
  have hrun := h.run_iff hq
  rcases h.leave hq params.pid with ⟨hleave, hpid⟩ | ⟨hs, d₁, hleave, hfl, hsub, hinv⟩
  · -- The filter stays where it is.
    have hrun' : ((d.filter k q).withParams params (d.filter k q).pidFilter).state = .run ↔
        (d.filter k q).pidFilter ≠ none := by
      rw [← hrun, Filter.withParams]
      split <;> simp_all
    rw [hleave]
    refine ⟨_, true, congrArg Except.ok (if_neg fun hc => hrun'.1 hc.1 hc.2), ?_⟩
    exact ⟨h.toCore.setFilter hq rfl hrun' hpid fun _ => rfl, h.nonempty⟩
  -- The filter moves to the PID filter of its new PID.
  rw [hleave]
  have hs' : ((d.filter k q).withParams params none).state = .run := by
    simp [Filter.withParams, hs]
  refine ⟨_, true, congrArg Except.ok (if_pos ⟨hs', rfl⟩), ?_⟩
  have hinv' := hinv { d.filter k q with pidFilter := none, state := .set } rfl (by simp)
    (fun _ => h.arrays_eq hq (by simp [hs]))
  rw [← attach_setFilter]
  refine hinv'.attach (hfl ▸ hq) ?_ (by simp) hs' rfl
  intro hmem
  refine hm ?_
  simp only [ptrs, filterList_setFilter, pidFilterList_setFilter, hfl, mem_append] at hmem ⊢
  exact hmem.imp id fun he => hsub he

theorem Inv.filterEnable (hm : malloc ∉ d.ptrs) : (d.filterEnable k q malloc).1.Inv := by
  rw [Demux.filterEnable]
  have hrun := h.run_iff hq
  have harr := h.arrays_eq hq
  split
  · exact h
  next hinit =>
  split
  · next hset =>
    refine h.attach hq hm ?_ rfl (harr hinit)
    rwa [hset, ← not_iff_not, not_not, iff_true_left (by simp)] at hrun
  · exact h

theorem Inv.filterDisable :
    ∃ d' ok l, d.filterDisable k q = .ok (d', ok) ∧ d'.Inv ∧ d'.filterList = d.filterList ∧
      (d'.filter k q).pidFilter = none ∧
      d'.freed = d.freed ++ l ∧ d.pidFilterList.Perm (l ++ d'.pidFilterList) := by
  rw [Demux.filterDisable]
  have hrun := h.run_iff hq
  split
  · next hs =>
    obtain ⟨e, he⟩ := ne_none_iff_exists'.1 (hrun.1 hs)
    obtain ⟨d₁, l, hd₁, hfl, hfreed, hperm, hinv⟩ := h.detach hq he
    refine ⟨_, true, l, ?_, hinv { d.filter k q with pidFilter := none, state := .set } rfl
      (by simp) (fun _ => h.arrays_eq hq (by simp [hs])), hfl, by simp, hfreed, hperm⟩
    simp only [he, hd₁]
    rfl
  · next hs =>
    refine ⟨d, true, [], rfl, h, rfl, ?_, by simp, by simp⟩
    by_contra hne
    exact hs (hrun.2 hne)

/-- A filter is freed, and its PID filter too if it is left empty. -/
theorem Inv.filterFree :
    ∃ d' l, d.filterFree k q = .ok d' ∧ d'.Inv ∧
      d'.filterList = update d.filterList k ((d.filterList k).erase q) ∧
      d'.freed = d.freed ++ l ∧ d.ptrs.Perm (l ++ d'.ptrs) := by
  obtain ⟨d₁, ok, l, hd₁, hinv, hfl, hnone, hfreed, hperm⟩ := h.filterDisable hq
  have hptrs : d.ptrs.Perm (l ++ d₁.ptrs) := by
    simp only [ptrs, hfl]
    refine (hperm.append_left _).trans ?_
    rw [← append_assoc, ← append_assoc l]
    exact perm_append_comm.append_right _
  refine ⟨d₁.eraseFilter k q, l ++ [q], ?_, hinv.eraseFilter hnone, ?_, ?_, ?_⟩
  · rw [Demux.filterFree, hd₁]
    rfl
  · simp only [Demux.eraseFilter, hfl]
  · simp only [Demux.eraseFilter, hfreed, append_assoc]
  · rw [append_assoc]
    exact hptrs.trans ((ptrs_eraseFilter (hfl ▸ hq)).append_left l)

end

/-- The loop over a list of filters ends, and frees all of them. -/
theorem Inv.freeFilters {fuel : ℕ} (hfuel : (d.filterList k).length < fuel) :
    ∃ d' l, Demux.freeFilters k fuel d = .ok d' ∧ d'.Inv ∧
      d'.filterList = update d.filterList k [] ∧
      d'.freed = d.freed ++ l ∧ d.ptrs.Perm (l ++ d'.ptrs) := by
  induction fuel generalizing d with
  | zero => cases hfuel
  | succ fuel ih =>
    rw [Demux.freeFilters]
    split
    · next hnil => exact ⟨d, [], rfl, h, by rw [← hnil, update_eq_self], by simp, by simp⟩
    next q qs hcons =>
    have hq : q ∈ d.filterList k := by simp [hcons]
    obtain ⟨d₁, l₁, hd₁, hinv₁, hfl₁, hfreed₁, hperm₁⟩ := h.filterFree hq
    have hlen : (d₁.filterList k).length < fuel := by
      rw [hfl₁, update_self, length_erase_of_mem hq]
      rw [hcons] at hfuel ⊢
      simp only [length_cons] at hfuel ⊢
      omega
    obtain ⟨d', l, hd', hinv, hfl, hfreed, hperm⟩ := ih hinv₁ hlen
    refine ⟨d', l₁ ++ l, ?_, hinv, ?_, ?_, ?_⟩
    · rw [hd₁]
      exact hd'
    · rw [hfl, hfl₁, update_idem]
    · rw [hfreed, hfreed₁, append_assoc]
    · rw [append_assoc]
      exact hperm₁.trans (hperm.append_left l₁)

/-- Without filters, there are no PID filters. -/
theorem Inv.pidFilterList_eq_nil (hnil : ∀ k, d.filterList k = []) : d.pidFilterList = [] := by
  refine eq_nil_iff_forall_not_mem.2 fun e he => ?_
  obtain ⟨k, hk⟩ := h.nonempty he
  obtain ⟨q, hq⟩ := exists_mem_of_ne_nil _ hk
  have := ((h.mem_iff he).1 hq).1
  rw [hnil] at this
  cases this

/-- Freeing the demux ends, without a fault, when all objects are freed. -/
theorem Inv.swdmxDemuxFree {fuel : ℕ} (hfuel : d.ptrs.length < fuel) :
    ∃ d', d.swdmxDemuxFree fuel = .ok d' ∧ d'.ptrs = [] ∧
      ∃ l, d'.freed = d.freed ++ l ∧ l.Perm d.ptrs := by
  simp only [ptrs, length_append] at hfuel
  obtain ⟨d₁, l₁, hd₁, hinv₁, hfl₁, hfreed₁, hperm₁⟩ := @Inv.freeFilters d .ts h fuel (by omega)
  obtain ⟨d₂, l₂, hd₂, hinv₂, hfl₂, hfreed₂, hperm₂⟩ :=
    @Inv.freeFilters d₁ .sec hinv₁ fuel (by simp [hfl₁]; omega)
  have hnil : ∀ k, d₂.filterList k = []
    | .ts => by simp [hfl₂, hfl₁]
    | .sec => by simp [hfl₂]
  have hpid := hinv₂.pidFilterList_eq_nil hnil
  have hptrs : d₂.ptrs = [] := by simp [ptrs, hnil, hpid]
  refine ⟨d₂, ?_, hptrs, l₁ ++ l₂, by rw [hfreed₂, hfreed₁, append_assoc], ?_⟩
  · obtain ⟨fuel, rfl⟩ := Nat.exists_eq_add_of_lt hfuel
    rw [Demux.swdmxDemuxFree, hd₁]
    show ((Demux.freeFilters .sec _ d₁).bind _) = _
    rw [hd₂]
    show freePidFilters (_ + 1) d₂ = _
    rw [freePidFilters, hpid]
  · rw [hptrs, append_nil] at hperm₂
    exact (hperm₁.trans (hperm₂.append_left l₁)).symm

/-! ## Runs -/

/-- Operations do not fault, and keep the invariant. -/
theorem Inv.exec {op : Op} (hop : op.Valid d) : ∃ d', d.exec op = .ok d' ∧ d'.Inv := by
  cases op with
  | alloc k q mem => exact ⟨_, rfl, h.allocFilter hop mem⟩
  | setParams k q params malloc =>
    obtain ⟨d', ok, hd', hinv⟩ := h.filterSetParams hop.1 params hop.2
    exact ⟨d', by rw [Demux.exec, hd']; rfl, hinv⟩
  | enable k q malloc => exact ⟨_, rfl, h.filterEnable hop.1 hop.2⟩
  | disable k q =>
    obtain ⟨d', ok, l, hd', hinv, -⟩ := h.filterDisable hop
    exact ⟨d', by rw [Demux.exec, hd']; rfl, hinv⟩
  | free k q =>
    obtain ⟨d', l, hd', hinv, -⟩ := h.filterFree hop
    exact ⟨d', hd', hinv⟩
  | addCb | removeCb =>
    exact ⟨_, rfl, h.toCore.setFilter hop rfl (h.run_iff hop) (fun _ => rfl) (h.arrays_eq hop),
      h.nonempty⟩

end

theorem Reachable.inv (h : Reachable d) : d.Inv := by
  induction h with
  | new h => exact h.inv
  | exec _ hop hd' ih =>
    obtain ⟨d', h', hinv⟩ := ih.exec hop
    rwa [← Except.ok.inj (h'.symm.trans hd')]

/-- Whatever operations are executed on a new demux: the next one does not fault;
    no two PID filters have the same PID; no PID filter is left empty; a filter
    runs if and only if it has a PID filter, and it is then once in a list of PID
    filters, that of its kind in the PID filter of its PID; and freeing the demux
    ends and frees every object once. -/
theorem registry (h : Reachable d) : (∀ op : Op, op.Valid d → ∃ d', d.exec op = .ok d') ∧
    (d.pidFilterList.map fun e => (d.pidFilter e).pid).Nodup ∧ (∀ e ∈ d.pidFilterList,
      ¬((d.pidFilter e).filterList .ts = [] ∧ (d.pidFilter e).filterList .sec = [])) ∧
    (∀ k, ∀ q ∈ d.filterList k, ((d.filter k q).state = .run ↔ (d.filter k q).pidFilter ≠ none) ∧
      ((d.filter k q).state = .run → ∃ e ∈ d.pidFilterList, (d.filter k q).pidFilter = some e ∧
        (d.pidFilter e).pid = (d.filter k q).params.pid ∧
        ((d.pidFilter e).filterList k).count q = 1 ∧
        ∀ e' ∈ d.pidFilterList, ∀ k', q ∈ (d.pidFilter e').filterList k' → e' = e ∧ k' = k)) ∧
    (∀ fuel, d.ptrs.length < fuel → ∃ d' l, d.swdmxDemuxFree fuel = .ok d' ∧
      d'.freed = d.freed ++ l ∧ l.Nodup ∧ ∀ p, p ∈ l ↔ p ∈ d.ptrs) := by
  have hinv := h.inv
  refine ⟨fun op hop => (hinv.exec hop).imp fun _ h => h.1, ?_, fun e he hempty => ?_,
    fun k q hq => ⟨hinv.run_iff hq, fun hrun => ?_⟩, fun fuel hfuel => ?_⟩
  · exact hinv.nodup_pidFilterList.map_on fun e he e' he' => hinv.pid_inj he he'
  · obtain ⟨k, hk⟩ := hinv.nonempty he
    cases k with
    | ts => exact hk hempty.1
    | sec => exact hk hempty.2
  · obtain ⟨e, he⟩ := ne_none_iff_exists'.1 ((hinv.run_iff hq).1 hrun)
    obtain ⟨hmem, hpid⟩ := hinv.pidFilter_mem hq he
    refine ⟨e, hmem, he, hpid, ?_, fun e' he' k' hq' => ?_⟩
    · exact count_eq_one_of_mem (hinv.nodup_list hmem k) ((hinv.mem_iff hmem).2 ⟨hq, he⟩)
    · obtain ⟨hqk', hqe'⟩ := (hinv.mem_iff he').1 hq'
      obtain rfl := hinv.kind_eq hqk' hq
      exact ⟨some.inj (hqe'.symm.trans he), rfl⟩
  · obtain ⟨d', hd', -, l, hfreed, hperm⟩ := hinv.swdmxDemuxFree hfuel
    exact ⟨d', l, hd', hfreed, hperm.nodup_iff.2 hinv.nodup_ptrs, fun p => hperm.mem_iff⟩

/-- A filter of zeros. -/
def blankFilter : (k : Kind) → Filter k
  | .ts => ⟨none, .init, ⟨0⟩, (), []⟩
  | .sec => ⟨none, .init, ⟨0, 0, 0, 0, 0⟩, ⟨0, 0, 0⟩, []⟩

/-- A new demux, in memory of zeros. -/
def blank : Demux :=
  ⟨[], fun _ => [], fun _ => ⟨0, fun _ => [], .fresh⟩, fun k _ => blankFilter k, []⟩

/-- A demux with a TS filter, which runs on the PID `0x100`. -/
def oneFilter : Demux :=
  let d := blank.allocFilter .ts 1 (blankFilter .ts)
  let d := d.setFilter .ts 1 ((d.filter .ts 1).withParams ⟨0x100⟩ none)
  (d.filterEnable .ts 1 2).1

theorem registry_oneFilter : Reachable oneFilter ∧ oneFilter.pidFilterList = [2] ∧
      ∃ d' l, oneFilter.swdmxDemuxFree 3 = .ok d' ∧ d'.freed = l ∧ l.Nodup ∧
        ∀ p, p ∈ l ↔ p ∈ [1, 2] := by
  have h0 : Reachable blank := .new ⟨rfl, fun _ => rfl, rfl⟩
  have h1 := @Reachable.exec _ _ (.alloc .ts 1 (blankFilter .ts)) h0 (by decide) rfl
  have h2 := @Reachable.exec _ _ (.setParams .ts 1 ⟨0x100⟩ 2) h1 (by decide) rfl
  have h3 : Reachable oneFilter := @Reachable.exec _ _ (.enable .ts 1 2) h2 (by decide) rfl
  obtain ⟨-, -, -, -, hfree⟩ := registry h3
  obtain ⟨d', l, hd', hl⟩ := hfree 3 (by decide)
  exact ⟨h3, rfl, d', l, hd', hl⟩

end Demux

end CommonDrivers.Dvb.SwDemux
