import CommonDrivers.Media.Vfm.Provider

/-!
# The use count of a frame provider

The counter of a provider is the number of its callers while the provider is open, and 100000 less
when it is closed (`Inv.base`). The steps keep this (`Inv.step`) if a registration finds no caller
between its increment and its decrement, and a provider that is gone stays so.
-/

namespace CommonDrivers.Media.Vfm

open List Function Option

variable {P : Type*}

/-- The provider whose counter the thread has incremented. -/
def Thread.held : Thread P → Option P
  | .refused _ p => some p
  | .inUse _ p => some p
  | .running _ p => some p
  | .leaving _ p => some p
  | _ => none

/-- The provider that has accepted the thread, between `use_provider` and `unuse_provider`. -/
def Thread.accepted : Thread P → Option P
  | .inUse _ p => some p
  | .running _ p => some p
  | .leaving _ p => some p
  | _ => none

/-- The provider that the thread registers or unregisters. -/
def Thread.owner : Thread P → Option P
  | .registering p => some p
  | .scanning p _ => some p
  | .closing p => some p
  | .waiting p => some p
  | .draining p => some p
  | _ => none

namespace Providers

/-- The provider is in the table. -/
def Registered (s : Providers P) (p : P) : Prop := ∃ i, (s.table i).vframeProvider = some p

/-- The provider is being registered or unregistered. -/
def Busy (s : Providers P) (p : P) : Prop := ∃ t ∈ s.threads, t.owner = some p

variable [DecidableEq P]

instance (s : Providers P) (p : P) : Decidable (s.Registered p) :=
  inferInstanceAs (Decidable (∃ _, _))

instance (s : Providers P) (p : P) : Decidable (s.Busy p) :=
  inferInstanceAs (Decidable (∃ _ ∈ _, _))

/-- How many callers of the provider are between their increment and their decrement. -/
def out (s : Providers P) (p : P) : ℤ := tally (fun t => if t.held = some p then 1 else 0) s.threads

/-- How many threads register or unregister the provider. -/
def owners (s : Providers P) (p : P) : ℤ :=
  tally (fun t => if t.owner = some p then 1 else 0) s.threads

/-- What the counter is without its callers. -/
def base (s : Providers P) (p : P) : ℤ := s.useCnt p - s.out p

/-! ## The invariant -/

/-- What holds where a thread is. -/
def At (env : Env P) (s : Providers P) : Thread P → Prop
  | .refused _ p => s.base p = closedCnt
  | .inUse _ p => s.base p = closedCnt → .waiting p ∈ s.threads
  | .running _ p => s.base p = closedCnt → .waiting p ∈ s.threads
  | .leaving _ p => s.base p = closedCnt → .waiting p ∈ s.threads
  | .registering p => s.base p = 0 ∧ ¬ s.Registered p ∧ (env.name p).isSome
  | .scanning p i => ∃ j ≥ i, (s.table j).vframeProvider = some p
  | .closing p => s.base p = 0 ∧ ¬ s.Registered p
  | .waiting p => s.base p = closedCnt ∧ ¬ s.Registered p
  | .draining p => s.base p = closedCnt ∧ ¬ s.Registered p
  | _ => True

/-- The providers with their callers. -/
structure Inv (env : Env P) (s : Providers P) : Prop where
  base p : s.base p = 0 ∨ s.base p = closedCnt
  lt p : s.out p < 100000
  opened : ∀ {i p}, (s.table i).vframeProvider = some p → s.base p = 0
  used : ∀ {i p}, (s.table i).vframeProvider = some p → (s.table i).used = true
  unique : ∀ {i j p q}, (s.table i).vframeProvider = some p →
    (s.table j).vframeProvider = some q → env.name p = env.name q → i = j
  once p : s.owners p ≤ 1
  here : ∀ t ∈ s.threads, s.At env t

/-- The provider is closed, and nobody waits for its callers or registers it. -/
def Gone (s : Providers P) (p : P) : Prop := s.base p = closedCnt ∧ ¬ s.Busy p

/-- What a step of a thread that owns `owner` keeps. -/
structure After (env : Env P) (s : Providers P) (owner : Option P) (s' : Providers P) : Prop where
  inv : s'.Inv env
  gone p : s.Gone p → owner ≠ some p → s'.Gone p

/-- The thread has moved, and has let the counter of the provider alone but for its own part. -/
def Moves (s s' : Providers P) (n : ℕ) (t t' : Thread P) (p : P) : Prop :=
  s'.threads = s.threads.set n t' ∧ t'.owner ≠ some p ∧ s'.useCnt p = s.useCnt p +
      ((if t'.held = some p then 1 else 0) - (if t.held = some p then 1 else 0))

variable {env : Env P} {s s' : Providers P} {n m : ℕ} {p q : P} {t t' u : Thread P}
  {c : Call} {i j : Fin maxProviderNum} {table : Table P}

theorem out_nonneg (s : Providers P) (p : P) : 0 ≤ s.out p :=
  tally_nonneg (fun t => by split <;> decide) _

theorem one_le_out (ht : t ∈ s.threads) (hheld : t.held = some p) : 1 ≤ s.out p := by
  have hle := le_tally (f := fun t : Thread P => if t.held = some p then 1 else 0)
    (fun t => by split <;> decide) ht
  rwa [if_pos hheld] at hle

theorem Inv.owner_unique (h : s.Inv env) (ht : s.threads[n]? = some t) (hu : s.threads[m]? = some u)
    (howner : t.owner = some p) (howner' : u.owner = some p) : n = m :=
  eq_of_tally_le_one (fun t => by split <;> decide) (h.once p) ht hu (if_pos howner)
    (if_pos howner')

/-- A provider that is closed and not waited for has accepted no caller. -/
theorem Inv.not_accepted (h : s.Inv env) (hbase : s.base p = closedCnt)
    (hwait : .waiting p ∉ s.threads) (ht : t ∈ s.threads) : t.accepted ≠ some p := by
  intro hacc
  have hat := h.here t ht
  cases t with
  | inUse | running | leaving => exact hwait (by cases hacc; exact hat hbase)
  | _ => cases hacc

/-- A provider that is open and has accepted no caller is not counted. -/
theorem Inv.out_eq_zero (h : s.Inv env) (hbase : s.base p = 0)
    (hacc : ∀ t ∈ s.threads, t.accepted ≠ some p) : s.out p = 0 := by
  refine tally_eq_zero fun t ht => if_neg fun hheld => ?_
  have hat := h.here t ht
  cases t with
  | refused c q =>
    cases hheld
    exact absurd (hbase.symm.trans hat) (by decide)
  | inUse | running | leaving => exact hacc _ ht hheld
  | _ => cases hheld

/-- What a thread knows stays, if it stays for the providers the thread has to do with. -/
theorem At.congr (h : s.At env t) (hheld : ∀ p, t.held = some p → s'.base p = s.base p ∧
      (.waiting p ∈ s.threads → .waiting p ∈ s'.threads))
    (howner : ∀ p, t.owner = some p → s'.base p = s.base p ∧
      ∀ i, (s'.table i).vframeProvider = some p ↔ (s.table i).vframeProvider = some p) :
    s'.At env t := by
  have hreg : ∀ p, t.owner = some p → (s'.Registered p ↔ s.Registered p) := fun p hp =>
    exists_congr (howner p hp).2
  cases t with
  | refused c p => exact (hheld p rfl).1.trans h
  | inUse c p | running c p | leaving c p =>
    exact fun hb => (hheld p rfl).2 (h ((hheld p rfl).1.symm.trans hb))
  | registering p =>
    exact ⟨(howner p rfl).1.trans h.1, fun hr => h.2.1 ((hreg p rfl).1 hr), h.2.2⟩
  | scanning p i =>
    obtain ⟨j, hij, hj⟩ := h
    exact ⟨j, hij, ((howner p rfl).2 j).2 hj⟩
  | closing p | waiting p | draining p =>
    exact ⟨(howner p rfl).1.trans h.1, fun hr => h.2 ((hreg p rfl).1 hr)⟩
  | _ => trivial

/-! ## A thread moves -/

section

variable (ht : s.threads[n]? = some t)
include ht

section

variable (hs' : s'.threads = s.threads.set n t')
include hs'

theorem out_set (p : P) : s'.out p = s.out p +
      ((if t'.held = some p then 1 else 0) - (if t.held = some p then 1 else 0)) := by
  rw [out, hs', tally_set _ ht, ← out]

theorem owners_set (p : P) : s'.owners p = s.owners p +
      ((if t'.owner = some p then 1 else 0) - (if t.owner = some p then 1 else 0)) := by
  rw [owners, hs', tally_set _ ht, ← owners]

theorem out_set_of_eq (heq : t'.held = t.held) (p : P) : s'.out p = s.out p := by
  rw [out_set ht hs', heq, sub_self, add_zero]

end

theorem base_setThread (t' : Thread P) (heq : t'.held = t.held) (f : P → ℤ) (p : P) :
    ({ s with useCnt := f }.setThread n t').base p = f p - s.out p :=
  congrArg (f p - ·) (out_set_of_eq ht rfl heq p)

end

theorem Moves.gone (hmoves : Moves s s' n t t' p) (ht : s.threads[n]? = some t) (h : s.Gone p) :
    s'.Gone p := by
  obtain ⟨hs', howner, hcnt⟩ := hmoves
  refine ⟨?_, ?_⟩
  · rw [← h.1, Providers.base, hcnt, out_set ht hs', Providers.base]
    ring
  rintro ⟨u, hu, hown⟩
  rw [hs'] at hu
  obtain rfl | hmem := mem_set_cases hu
  · exact howner hown
  · exact h.2 ⟨u, hmem, hown⟩

/-- Where a thread goes from is left, and the other threads are where they were. -/
theorem here_set (hs' : s'.threads = s.threads.set n t') (hat : s'.At env t')
    (hothers : ∀ m ≠ n, ∀ u, s.threads[m]? = some u → s'.At env u) :
    ∀ t ∈ s'.threads, s'.At env t := by
  intro u hu
  rw [hs'] at hu
  obtain rfl | ⟨m, hm, hget⟩ := exists_of_mem_set hu
  · exact hat
  · exact hothers m hm u hget

/-- A table in which only what belongs to `p` has changed. -/
structure Changed (env : Env P) (s : Providers P) (p : P) (table : Table P) : Prop where
  others : ∀ i, ∀ q ≠ p, (table i).vframeProvider = some q ↔ (s.table i).vframeProvider = some q
  used : ∀ {i q}, (table i).vframeProvider = some q → (table i).used = true
  unique : ∀ {i j q r}, (table i).vframeProvider = some q →
    (table j).vframeProvider = some r → env.name q = env.name r → i = j

omit [DecidableEq P] in
theorem others_of_not_busy (hbusy : ¬ s.Busy p) :
    ∀ m ≠ n, ∀ u, s.threads[m]? = some u → u.owner ≠ some p := fun _ _ u hu howner =>
  hbusy ⟨u, mem_of_getElem? hu, howner⟩

omit [DecidableEq P] in
theorem vframeProvider_update {e : Entry P} : (update table i e j).vframeProvider = some p ↔
      (j = i ∧ e.vframeProvider = some p) ∨ (j ≠ i ∧ (table j).vframeProvider = some p) := by
  by_cases hji : j = i
  · subst hji
    simp
  · simp [hji]

omit [DecidableEq P] in
/-- What `vf_reg_provider` does to the table. -/
theorem regTable_cases (env : Env P) (table : Table P) (p : P) (name : Name) :
    regTable env table p name = table ∨ ∃ i, (table i).used = false ∧
      (regTable env table p name = update table i { table i with used := true } ∨
        (∀ j, ¬ env.Named (table j) (some name)) ∧ regTable env table p name =
          update table i { used := true, name, vframeProvider := some p }) := by
  rw [regTable]
  split
  · exact .inl rfl
  next hnamed =>
  split
  · next i hfind =>
    have hused : (table i).used = false := by simpa using List.find?_some hfind
    refine .inr ⟨i, hused, ?_⟩
    split
    · exact .inl rfl
    · exact .inr ⟨fun j hj => hnamed ⟨j, hj⟩, rfl⟩
  · exact .inl rfl

section

variable (h : s.Inv env)
include h

theorem Inv.at_get (hu : s.threads[m]? = some u) : s.At env u := h.here u (mem_of_getElem? hu)

theorem Inv.unchanged : Changed env s p s.table := ⟨fun _ _ _ => .rfl, h.used, h.unique⟩

section

variable (ht : s.threads[n]? = some t)
include ht

/-- A caller goes on, and the counter goes with it. -/
theorem Inv.caller (hs' : s'.threads = s.threads.set n t')
    (htable : s'.table = s.table) (howner : t.owner = none) (howner' : t'.owner = none)
    (hcnt : ∀ p, s'.useCnt p = s.useCnt p +
      ((if t'.held = some p then 1 else 0) - (if t.held = some p then 1 else 0)))
    (hlt : ∀ p, t'.held = some p → t.held ≠ some p → s.out p + 1 < 100000) (hat : s.At env t') :
    s.After env none s' := by
  -- the counter changes with the callers
  have hbase : ∀ p, s'.base p = s.base p := fun p => by
    rw [Providers.base, hcnt, out_set ht hs', Providers.base]
    ring
  have hwait : ∀ p, .waiting p ∈ s.threads → .waiting p ∈ s'.threads := fun p hp => by
    rw [hs']
    refine mem_set_of_ne hp ht ?_ t'
    rintro rfl
    cases howner
  have hcongr : ∀ u, s.At env u → s'.At env u := fun u hu =>
    At.congr hu (fun p _ => ⟨hbase p, hwait p⟩) fun p _ => ⟨hbase p, fun i => by rw [htable]⟩
  refine ⟨?_, fun p hp _ => Moves.gone ⟨hs', by rw [howner']; nofun, hcnt p⟩ ht hp⟩
  exact
    { base := fun p => by
        rw [hbase]
        exact h.base p
      lt := fun p => by
        rw [out_set ht hs']
        have hp := h.lt p
        by_cases hheld : t'.held = some p
        · by_cases hold : t.held = some p
          · rwa [hheld, hold, sub_self, add_zero]
          · have := hlt p hheld hold
            omega
        · rw [if_neg hheld]
          split <;> omega
      opened := fun {i p} hi => by
        rw [hbase]
        exact h.opened (by rwa [htable] at hi)
      used := fun {i p} hi => by
        rw [htable] at hi ⊢
        exact h.used hi
      unique := fun {i j p q} hi hj => by
        rw [htable] at hi hj
        exact h.unique hi hj
      once := fun p => by
        rw [owners_set ht hs', howner, howner', sub_self, add_zero]
        exact h.once p
      here := here_set hs' (hcongr t' hat) fun m _ u hu => hcongr u (h.at_get hu) }

/-- A caller goes on without touching the counter. -/
theorem Inv.caller_same (hs' : s'.threads = s.threads.set n t') (htable : s'.table = s.table)
    (hcnt : s'.useCnt = s.useCnt) (howner : t.owner = none) (howner' : t'.owner = none)
    (hheld : t'.held = t.held) (hat : s.At env t') : s.After env none s' := by
  refine h.caller ht hs' htable howner howner' (fun p => ?_) (fun p hp => ?_) hat
  · rw [hcnt, hheld, sub_self, add_zero]
  · exact fun hne => absurd (hheld.symm.trans hp) hne

/-- The owner of a provider goes on, and changes what belongs to it. -/
theorem Inv.owner (hs' : s'.threads = s.threads.set n t') (hheld : t'.held = t.held)
    (howner : ∀ q, t.owner = some q → q = p) (howner' : ∀ q, t'.owner = some q → q = p)
    (hothers : ∀ m ≠ n, ∀ u, s.threads[m]? = some u → u.owner ≠ some p)
    (hcnt : ∀ q ≠ p, s'.useCnt q = s.useCnt q) (htable : Changed env s p s'.table)
    (hbase : s'.base p = 0 ∨ s'.base p = closedCnt) (hopened : s'.Registered p → s'.base p = 0)
    (hat : s'.At env t') (hcallers : ∀ u ∈ s.threads, u.held = some p → s.At env u → s'.At env u) :
    s.After env (some p) s' := by
  have hout : ∀ q, s'.out q = s.out q := out_set_of_eq ht hs' hheld
  have hbase' : ∀ q ≠ p, s'.base q = s.base q := fun q hq => by
    rw [Providers.base, hcnt q hq, hout, ← Providers.base]
  have hwait : ∀ q ≠ p, .waiting q ∈ s.threads → .waiting q ∈ s'.threads := fun q hq hmem => by
    rw [hs']
    refine mem_set_of_ne hmem ht ?_ t'
    rintro rfl
    exact hq (howner q rfl)
  refine ⟨?_, fun q hgone hq => ?_⟩
  rotate_left
  · replace hq : q ≠ p := fun heq => hq (congrArg some heq.symm)
    refine Moves.gone ⟨hs', fun hq' => hq (howner' q hq'), ?_⟩ ht hgone
    rw [hcnt q hq, hheld, sub_self, add_zero]
  exact
    { base := fun q => by
        by_cases hq : q = p
        · subst hq
          exact hbase
        · rw [hbase' q hq]
          exact h.base q
      lt := fun q => by
        rw [hout]
        exact h.lt q
      opened := fun {i q} hi => by
        by_cases hq : q = p
        · subst hq
          exact hopened ⟨i, hi⟩
        · rw [hbase' q hq]
          exact h.opened ((htable.others i q hq).1 hi)
      used := htable.used
      unique := htable.unique
      once := fun q => by
        by_cases hq : q = p
        · subst hq
          -- no other thread owns the provider
          have hzero : tally (fun u => if u.owner = some q then 1 else 0)
              (s.threads.set n .idle) = 0 := tally_eq_zero fun u hu => if_neg fun howns => by
              obtain rfl | ⟨m, hm, hget⟩ := exists_of_mem_set hu
              · cases howns
              · exact hothers m hm u hget howns
          rw [tally_set _ ht] at hzero
          rw [owners_set ht hs', owners]
          omega
        · rw [owners_set ht hs', if_neg fun hq' => hq (howner' q hq'),
            if_neg fun hq' => hq (howner q hq'), sub_self, add_zero]
          exact h.once q
      here := here_set hs' hat fun m hm u hu => by
        have hmem := mem_of_getElem? hu
        -- the callers of this provider, and the threads that do not see it
        by_cases hp : u.held = some p
        · exact hcallers u hmem hp (h.here u hmem)
        refine At.congr (h.here u hmem) (fun q hq => ?_) fun q hq => ?_
        · have hqp : q ≠ p := fun heq => hp (heq ▸ hq)
          exact ⟨hbase' q hqp, hwait q hqp⟩
        · have hqp : q ≠ p := fun heq => hothers m hm u hu (heq ▸ hq)
          exact ⟨hbase' q hqp, fun i => htable.others i q hqp⟩ }

/-- The owner goes on, and only those who hold the provider may see it. -/
theorem Inv.owner_same (hheld : t.held = none) (hheld' : t'.held = none)
    (howner : ∀ q, t.owner = some q → q = p) (howner' : ∀ q, t'.owner = some q → q = p)
    (hothers : ∀ m ≠ n, ∀ u, s.threads[m]? = some u → u.owner ≠ some p) (hat : s.At env t')
    (hwait : t = .waiting p → s.out p = 0) : s.After env (some p) (s.setThread n t') := by
  have heq : t'.held = t.held := hheld'.trans hheld.symm
  have hout : ∀ q, (s.setThread n t').out q = s.out q := out_set_of_eq ht rfl heq
  have hbase : ∀ q, (s.setThread n t').base q = s.base q := fun q => by
    rw [Providers.base, hout]
    rfl
  have hcallers : ∀ u ∈ s.threads, u.held = some p → s.At env u → (s.setThread n t').At env u := by
    intro u hu hp hat
    refine At.congr hat (fun q hq => ⟨hbase q, fun hmem => ?_⟩) fun q _ => ⟨hbase q, fun i => .rfl⟩
    cases hp.symm.trans hq
    refine mem_set_of_ne hmem ht (fun heq => ?_) t'
    have hpos := one_le_out hu hp
    rw [hwait heq.symm] at hpos
    exact absurd hpos (by decide)
  have hat' : (s.setThread n t').At env t' := by
    refine At.congr hat (fun q hq => ?_) fun q _ => ⟨hbase q, fun i => .rfl⟩
    rw [hheld'] at hq
    cases hq
  refine h.owner ht rfl heq howner howner' hothers (fun _ _ => rfl) h.unchanged
    ?_ (fun ⟨i, hi⟩ => ?_) hat' hcallers
  · rw [hbase]
    exact h.base p
  · rw [hbase]
    exact h.opened hi

theorem Inv.others (howner : t.owner = some p) :
    ∀ m ≠ n, ∀ u, s.threads[m]? = some u → u.owner ≠ some p := fun _ hm _ hu howner' =>
  hm (h.owner_unique hu ht howner' howner)

/-- The table changes, with what belongs to a provider that no caller has to ask for. -/
theorem Inv.setTable (hheld : t.held = none)
    (hheld' : t'.held = none) (howner : t.owner = some p)
    (howner' : ∀ q, t'.owner = some q → q = p) (hwait : t ≠ .waiting p)
    (htable : Changed env s p table)
    (hopened : (∃ i, (table i).vframeProvider = some p) → s.base p = 0)
    (hat : ({ s with table }.setThread n t').base p = s.base p →
      ({ s with table }.setThread n t').At env t') :
    s.After env (some p) ({ s with table }.setThread n t') := by
  have hbase : ∀ q, ({ s with table }.setThread n t').base q = s.base q := fun q =>
    congrArg (s.useCnt q - ·) (out_set_of_eq ht rfl (hheld'.trans hheld.symm) q)
  refine h.owner ht rfl (hheld'.trans hheld.symm)
    (fun q hq => some.inj (hq.symm.trans howner)) howner' (h.others ht howner)
    (fun _ _ => rfl) htable ?_ (fun hr => ?_) (hat (hbase p)) fun u hu hp hu' => ?_
  · rw [hbase]
    exact h.base p
  · rw [hbase]
    exact hopened hr
  refine At.congr hu' (fun q hq => ⟨hbase q, fun hmem => ?_⟩) fun q hq => ?_
  · cases hp.symm.trans hq
    exact mem_set_of_ne hmem ht hwait.symm t'
  · cases u <;> cases hp <;> cases hq

/-! ## The steps of the callers -/

theorem Inv.leave (howner : t.owner = none) (hheld : t.held = none)
    (c : Call) : s.After env none (s.leave n c) := by
  unfold Providers.leave
  cases c.locks with
  | true | false => exact h.caller_same ht rfl rfl rfl howner rfl hheld.symm trivial

/-- `unuse_provider`, or the decrement of a caller that is refused. -/
theorem Inv.unuse (howner : t.owner = none)
    (hheld : t.held = some p) (c : Call) : s.After env none ((s.addUse p (-1)).leave n c) := by
  have hmove : ∀ t' : Thread P, t'.owner = none → t'.held = none → s.At env t' →
      s.After env none ((s.addUse p (-1)).setThread n t') := fun t' howner' hheld' hat => by
    refine h.caller ht rfl rfl howner howner' (fun q => ?_) (fun q hq => ?_) hat
    · change update s.useCnt p (s.useCnt p + -1) q = _
      rw [hheld, hheld']
      by_cases hqp : q = p
      · subst hqp
        simp
      · simp [hqp, Ne.symm hqp]
    · rw [hheld'] at hq
      cases hq
  unfold Providers.leave
  cases c.locks with
  | true | false => exact hmove _ rfl rfl trivial

end

theorem Inv.base_of_refused (hret : s.useCnt p + 1 ≤ 0) : s.base p = closedCnt := by
  refine (h.base p).resolve_left fun hzero => ?_
  have hout := s.out_nonneg p
  rw [Providers.base] at hzero
  omega

theorem Inv.useProvider (ht : s.threads[n]? = some (.chosen c (some p)))
    (hlt : s.out p + 1 < 100000) : s.After env none (s.useProvider n c (some p)) := by
  have hmove : ∀ t' : Thread P, t'.owner = none → t'.held = some p → s.At env t' →
      s.After env none ((s.addUse p 1).setThread n t') := fun t' howner' hheld' hat => by
    refine h.caller ht rfl rfl rfl howner' (fun q => ?_) (fun q hq _ => ?_) hat
    · change update s.useCnt p (s.useCnt p + 1) q = _
      rw [hheld']
      by_cases hqp : q = p
      · subst hqp
        simp [Thread.held]
      · simp [hqp, Ne.symm hqp, Thread.held]
    · cases hheld'.symm.trans hq
      exact hlt
  rw [Providers.useProvider]
  by_cases hret : s.useCnt p + 1 ≤ 0
  · rw [if_pos hret]
    exact hmove _ rfl rfl (h.base_of_refused hret)
  rw [if_neg hret]
  -- the callers of a closed provider are too few to make its counter positive
  refine hmove _ rfl rfl fun hbase => absurd hbase ?_
  rw [Providers.base, closedCnt]
  omega

/-! ## The steps of the owner -/

/-- `vf_reg_provider` makes the counter 0. -/
theorem Inv.reg (ht : s.threads[n]? = some .idle) (hreg : ¬ s.Registered p)
    (hbusy : ¬ s.Busy p) (hout : s.out p = 0) (hname : (env.name p).isSome) :
    s.After env (some p)
      ({ s with useCnt := update s.useCnt p 0 }.setThread n (.registering p)) := by
  have hbase : ({ s with useCnt := update s.useCnt p 0 }.setThread n
      (.registering p)).base p = 0 := by
    rw [base_setThread ht (.registering p) rfl, update_self, hout, sub_zero]
  refine h.owner ht rfl rfl nofun (fun q hq => (some.inj hq).symm)
    (others_of_not_busy hbusy) (fun q hq => update_of_ne hq ..) h.unchanged
    (.inl hbase) (fun _ => hbase) ⟨hbase, hreg, hname⟩ fun u hu hheld _ => ?_
  have hpos := one_le_out hu hheld
  rw [hout] at hpos
  exact absurd hpos (by decide)

theorem Inv.unreg (ht : s.threads[n]? = some .idle) (hreg : s.Registered p) (hbusy : ¬ s.Busy p) :
    s.After env (some p) (s.setThread n (.scanning p ⟨0, by decide⟩)) := by
  obtain ⟨j, hj⟩ := hreg
  exact h.owner_same ht rfl rfl nofun (fun q hq => (some.inj hq).symm)
    (others_of_not_busy hbusy) ⟨j, Nat.zero_le _, hj⟩ nofun

/-- `vf_provider_close` finds no caller left. -/
theorem Inv.waited (ht : s.threads[n]? = some (.waiting p))
    (hcnt : ¬ s.useCnt p > closedCnt) : s.After env (some p) (s.setThread n (.draining p)) := by
  have hat := h.at_get ht
  refine h.owner_same ht rfl rfl (fun q hq => (some.inj hq).symm)
    (fun q hq => (some.inj hq).symm) (h.others ht rfl) hat fun _ => ?_
  have hbase := hat.1
  have hout := s.out_nonneg p
  rw [Providers.base] at hbase
  omega

/-- `vf_unreg_provider` returns. -/
theorem Inv.drained (ht : s.threads[n]? = some (.draining p)) :
    s.After env (some p) (s.setThread n .idle) :=
  h.owner_same ht rfl rfl (fun _ hq => (some.inj hq).symm) nofun (h.others ht rfl) trivial
    nofun

/-- `vf_provider_close` takes 100000 from the counter. -/
theorem Inv.close (ht : s.threads[n]? = some (.closing p)) :
    s.After env (some p) (s.close n p) := by
  obtain ⟨hzero, hreg⟩ := h.at_get ht
  have hcnt : s.useCnt p = s.out p := sub_eq_zero.1 hzero
  have hmove : ∀ t' : Thread P, t'.held = none → (∀ q, t'.owner = some q → q = p) →
      (((s.addUse p closedCnt).setThread n t').base p = closedCnt →
        ((s.addUse p closedCnt).setThread n t').At env t') → (0 < s.out p → t' = .waiting p) →
      s.After env (some p) ((s.addUse p closedCnt).setThread n t') :=
    fun t' hheld howner hat hwait => by
    have hbase : ((s.addUse p closedCnt).setThread n t').base p = closedCnt := by
      rw [addUse, base_setThread ht t' hheld, update_self, hcnt]
      omega
    refine h.owner ht rfl hheld (fun q hq => (some.inj hq).symm) howner (h.others ht rfl)
      (fun q hq => update_of_ne hq ..) h.unchanged (.inr hbase)
      (fun hr => absurd hr hreg) (hat hbase) fun u hu hp _ => ?_
    have hmem : .waiting p ∈ ((s.addUse p closedCnt).setThread n t').threads := by
      rw [hwait (one_le_out hu hp)]
      obtain ⟨hn, -⟩ := List.getElem?_eq_some_iff.1 ht
      exact mem_of_getElem? (List.getElem?_set_self hn)
    cases u with
    | refused c q => cases hp; exact hbase
    | inUse | running | leaving => cases hp; exact fun _ => hmem
    | _ => cases hp
  rw [Providers.close]
  split
  · exact hmove _ rfl (fun q hq => (some.inj hq).symm) (fun hb => ⟨hb, hreg⟩) fun _ => rfl
  · refine hmove _ rfl (fun q hq => (some.inj hq).symm) (fun hb => ⟨hb, hreg⟩) fun _ => ?_
    omega

/-- An entry in the loop of `vf_unreg_provider`. The provider is found at the latest in the last
    of them. -/
theorem Inv.scan (ht : s.threads[n]? = some (.scanning p i)) :
    s.After env (some p) (s.scan env n p i) := by
  obtain ⟨j, hij, hj⟩ := h.at_get ht
  rw [Providers.scan]
  split
  · next hnamed =>
    obtain ⟨q, hq, hname⟩ := hnamed
    obtain rfl := h.unique hq hj hname
    have hgone : ∀ {k r}, (update s.table i
        { s.table i with used := false, vframeProvider := none } k).vframeProvider = some r →
        k ≠ i ∧ (s.table k).vframeProvider = some r := fun hr => by
      obtain ⟨-, hr⟩ | hr := vframeProvider_update.1 hr
      · cases hr
      · exact hr
    refine h.setTable ht rfl rfl rfl (fun r hr => (some.inj hr).symm) nofun
      ⟨fun k r hr => ?_, fun {k r} hr => ?_, fun {k l r r'} hr hr' hname => ?_⟩
      (fun _ => h.opened hj) fun hbase => ⟨hbase.trans (h.opened hj), fun ⟨k, hk⟩ => ?_⟩
    · refine ⟨fun hk => (hgone hk).2, fun hk => vframeProvider_update.2 (.inr ⟨?_, hk⟩)⟩
      rintro rfl
      exact hr (some.inj (hk.symm.trans hj))
    · rw [update_of_ne (hgone hr).1]
      exact h.used (hgone hr).2
    · exact h.unique (hgone hr).2 (hgone hr').2 hname
    · exact (hgone hk).1 (h.unique (hgone hk).2 hj rfl)
  · next hnamed =>
    have hlt : i < j := by
      refine lt_of_le_of_ne hij ?_
      rintro rfl
      exact hnamed ⟨p, hj, rfl⟩
    have hnext : (i : ℕ) + 1 < maxProviderNum := lt_of_le_of_lt hlt j.2
    rw [dif_pos hnext]
    exact h.owner_same ht rfl rfl (fun q hq => (some.inj hq).symm)
      (fun q hq => (some.inj hq).symm) (h.others ht rfl) ⟨j, hlt, hj⟩ nofun

theorem Inv.eq_none_of_not_used (hi : (s.table i).used = false) :
    (s.table i).vframeProvider = none := by
  by_contra hne
  obtain ⟨q, hq⟩ := ne_none_iff_exists'.1 hne
  rw [h.used hq] at hi
  cases hi

variable (ht : s.threads[n]? = some (.registering p))
include ht

/-- `vf_reg_provider` returns, with the table that it leaves. -/
theorem Inv.registered (htable : Changed env s p table) :
    s.After env (some p) ({ s with table }.setThread n .idle) :=
  h.setTable ht rfl rfl rfl nofun nofun htable (fun _ => (h.at_get ht).1) fun _ => trivial

/-- The name is too long for the entry. -/
theorem Inv.setUsed :
    s.After env (some p) ({ s with
      table := update s.table i { s.table i with used := true } }.setThread n .idle) := by
  have hsame : ∀ {k q}, (update s.table i
      { s.table i with used := true } k).vframeProvider = some q ↔
      (s.table k).vframeProvider = some q := fun {k q} => by
    by_cases hk : k = i
    · subst hk
      simp
    · simp [hk]
  refine h.registered ht ⟨fun k q _ => hsame, fun {k q} hq => ?_, fun hq hr => ?_⟩
  · by_cases hk : k = i
    · subst hk
      rw [update_self]
    · rw [update_of_ne hk]
      exact h.used (hsame.1 hq)
  · exact h.unique (hsame.1 hq) (hsame.1 hr)

/-- A provider whose name no other one has gets a free entry. -/
theorem Inv.insert {name : Name} (hname : env.name p = some name) (hi : (s.table i).used = false)
    (hnamed : ∀ j, ¬ env.Named (s.table j) (some name)) : s.After env (some p) ({ s with
      table := update s.table i { used := true, name, vframeProvider := some p } }.setThread n
      .idle) := by
  have hnone := h.eq_none_of_not_used hi
  refine h.registered ht ⟨fun k q hq => ?_, fun {k q} hq => ?_, fun {k l q r} hq hr hqr => ?_⟩
  · by_cases hk : k = i
    · subst hk
      simp [hnone, Ne.symm hq]
    · simp [hk]
  · by_cases hk : k = i
    · subst hk
      rw [update_self]
    · rw [update_of_ne hk] at hq ⊢
      exact h.used hq
  obtain ⟨hk, hq⟩ | ⟨hk, hq⟩ := vframeProvider_update.1 hq <;>
    obtain ⟨hl, hr⟩ | ⟨hl, hr⟩ := vframeProvider_update.1 hr
  · rw [hk, hl]
  · cases hq
    exact absurd ⟨r, hr, hqr.symm.trans hname⟩ (hnamed l)
  · cases hr
    exact absurd ⟨q, hq, hqr.trans hname⟩ (hnamed k)
  · exact h.unique hq hr hqr

theorem Inv.regTable {name : Name} (hname : env.name p = some name) :
    s.After env (some p)
      ({ s with table := regTable env s.table p name }.setThread n .idle) := by
  obtain heq | ⟨i, hi, heq | ⟨hnamed, heq⟩⟩ := regTable_cases env s.table p name
  · rw [heq]
    exact h.registered ht h.unchanged
  · rw [heq]
    exact h.setUsed ht
  · rw [heq]
    exact h.insert ht hname hi hnamed

end

end Providers

end CommonDrivers.Media.Vfm
