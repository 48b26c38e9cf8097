import CommonDrivers.Lib.Run
import CommonDrivers.Media.Vfm.ProviderUse

/-!
# The registry of the providers

What `vf_reg_provider`, `vf_unreg_provider` and `vf_ext_light_unreg_provider` leave in the table and
in the providers, one call after the other. A registration resets the use count and the traces of
its provider before it looks whether the name is taken, claims an entry before it looks whether the
name fits, and succeeds if the table is full.

* `registry_right`: as long as a provider is not registered again, and a name that is not taken fits
  and has a free entry, the entries are in order; and exactly then a registration returns what it
  should and changes nothing when it is refused;
* `registry_damaged`: a name that is too long keeps an entry for ever, a provider that is registered
  again loses its trace, and with a full table the registration returns 0.
-/

namespace CommonDrivers.Media.Vfm

open Function Providers

variable {P T : Type*} [DecidableEq P]

/-- The table, and what the calls change of the providers. -/
structure Registry (P T : Type*) where
  table : Table P
  useCnt : P → ℤ
  traceget : P → Option T
  traceput : P → Option T

/-- A call. The traces are those that `vftrace_alloc_trace` gives, if it is asked. -/
inductive Request (P T : Type*) where
  | reg (prov : P) (traceget traceput : Option T)
  | unreg (prov : P)
  | extLightUnreg (prov : P)

/-- The entries are in order: one is used if it has a provider, and no name is there twice. -/
structure Table.Sound (env : Env P) (table : Table P) : Prop where
  used : ∀ i, (table i).used = true ↔ ∃ p, (table i).vframeProvider = some p
  unique : ∀ i j p q, (table i).vframeProvider = some p → (table j).vframeProvider = some q →
    env.name p = env.name q → i = j

namespace Registry

/-- `vf_reg_provider`, with what it returns. -/
def vfRegProvider (env : Env P) (s : Registry P T) (prov : P) (traceget traceput : Option T) :
    Registry P T × ℤ :=
  match env.name prov with
  | none => (s, -1)
  | some name =>
    let table := regTable env s.table prov name
    let useCnt := update s.useCnt prov 0
    let refused : Registry P T :=
      ⟨table, useCnt, update s.traceget prov none, update s.traceput prov none⟩
    if ∃ i, env.Named (s.table i) (some name) then (refused, -1)
    else if (∃ i, (s.table i).used = false) ∧ name.length + 1 > providerTableNameSize then
      (refused, -1)
    -- a full table is only reported
    else (⟨table, useCnt, update s.traceget prov traceget, update s.traceput prov traceput⟩, 0)

/-- The first entry of a provider with the name of this one. -/
def entryOf (env : Env P) (table : Table P) (prov : P) : Option (Fin maxProviderNum) :=
  (List.finRange maxProviderNum).find? fun i => env.Named (table i) (env.name prov)

/-- The entry is given up. -/
def dropEntry (table : Table P) (i : Fin maxProviderNum) : Table P :=
  update table i { table i with used := false, vframeProvider := none }

/-- `vf_unreg_provider`. The traces are those of the provider in the table, the use count is that of
    the caller's. -/
def vfUnregProvider (env : Env P) (s : Registry P T) (prov : P) : Registry P T :=
  match entryOf env s.table prov with
  | some i =>
    { table := dropEntry s.table i
      useCnt := update s.useCnt prov (s.useCnt prov + closedCnt)
      traceget p := if (s.table i).vframeProvider = some p then none else s.traceget p
      traceput p := if (s.table i).vframeProvider = some p then none else s.traceput p }
  | none => s

/-- `vf_ext_light_unreg_provider`. -/
def vfExtLightUnregProvider (env : Env P) (s : Registry P T) (prov : P) : Registry P T :=
  match entryOf env s.table prov with
  | some i => { s with table := dropEntry s.table i }
  | none => s

def step (env : Env P) (s : Registry P T) : Request P T → Option (Registry P T)
  | .reg prov traceget traceput => some (s.vfRegProvider env prov traceget traceput).1
  | .unreg prov => some (s.vfUnregProvider env prov)
  | .extLightUnreg prov => some (s.vfExtLightUnregProvider env prov)

/-- No provider is registered. -/
def Empty (s : Registry P T) : Prop :=
  ∀ i, (s.table i).used = false ∧ (s.table i).vframeProvider = none

/-- The provider is not in the table, and unless its name is taken, it fits and has a free entry. -/
def Proper (env : Env P) (s : Registry P T) : Request P T → Prop
  | .reg prov _ _ => (∀ i, (s.table i).vframeProvider ≠ some prov) ∧
    ∀ name ∈ env.name prov, (∃ i, env.Named (s.table i) (some name)) ∨
      name.length + 1 ≤ providerTableNameSize ∧ ∃ i, (s.table i).used = false
  | _ => True

/-- What a registration should leave and return. -/
structure Right (env : Env P) (s : Registry P T) (prov : P) (r : Registry P T × ℤ) : Prop where
  sound : r.1.table.Sound env
  returned : r.2 = 0 ↔ ∃ i, (r.1.table i).vframeProvider = some prov
  refused : r.2 ≠ 0 → r.1.table = s.table ∧ ∀ i p, (s.table i).vframeProvider = some p →
    r.1.useCnt p = s.useCnt p ∧ r.1.traceget p = s.traceget p ∧ r.1.traceput p = s.traceput p

variable {env : Env P} {s : Registry P T} {table : Table P} {i : Fin maxProviderNum} {prov : P}
  {name : Name} {traceget traceput : Option T}

omit [DecidableEq P] in
theorem sound_dropEntry (h : table.Sound env) : (dropEntry table i).Sound env where
  used j := by
    by_cases hj : j = i
    · subst hj
      simp [dropEntry]
    · simpa [dropEntry, hj] using h.used j
  unique j k p q hp hq hname := by
    obtain ⟨-, hp⟩ | ⟨-, hp⟩ := vframeProvider_update.1 hp
    · cases hp
    obtain ⟨-, hq⟩ | ⟨-, hq⟩ := vframeProvider_update.1 hq
    · cases hq
    exact h.unique j k p q hp hq hname

omit [DecidableEq P] in
theorem sound_update (h : table.Sound env) (hname : env.name prov = some name)
    (hnamed : ¬ ∃ i, env.Named (table i) (some name)) :
    Table.Sound env (update table i ⟨true, name, some prov⟩) where
  used j := by
    by_cases hj : j = i
    · subst hj
      simp
    · simpa [hj] using h.used j
  unique j k p q hp hq hpq := by
    obtain ⟨hj, hp⟩ | ⟨-, hp⟩ := vframeProvider_update.1 hp <;>
      obtain ⟨hk, hq⟩ | ⟨-, hq⟩ := vframeProvider_update.1 hq
    · rw [hj, hk]
    · cases hp
      exact absurd ⟨k, q, hq, hpq.symm.trans hname⟩ hnamed
    · cases hq
      exact absurd ⟨j, p, hp, hpq.trans hname⟩ hnamed
    · exact h.unique j k p q hp hq hpq

omit [DecidableEq P] in
/-- The entry that a provider gets whose name is not taken. -/
theorem exists_regTable (prov : P) (hnamed : ¬ ∃ i, env.Named (table i) (some name))
    (hfree : ∃ i, (table i).used = false) : ∃ i, (table i).used = false ∧
      regTable env table prov name = if name.length + 1 > providerTableNameSize
        then update table i { table i with used := true }
        else update table i ⟨true, name, some prov⟩ := by
  obtain ⟨j, hj⟩ := hfree
  have hsome : ((List.finRange maxProviderNum).find? fun i => !(table i).used).isSome :=
    List.find?_isSome.2 ⟨j, List.mem_finRange j, by simp [hj]⟩
  obtain ⟨i, hi⟩ := Option.isSome_iff_exists.1 hsome
  refine ⟨i, by simpa using List.find?_some hi, ?_⟩
  rw [regTable, if_neg hnamed, hi]

omit [DecidableEq P] in
theorem regTable_full (hfull : ¬ ∃ i, (table i).used = false) :
    regTable env table prov name = table := by
  obtain heq | ⟨i, hi, -⟩ := regTable_cases env table prov name
  · exact heq
  · exact absurd ⟨i, hi⟩ hfull

/-- A refused registration of a provider that is not in the table changes nothing there. -/
theorem refused_update (hprov : ∀ i, (s.table i).vframeProvider ≠ some prov) {p : P}
    (hp : (s.table i).vframeProvider = some p) : update s.useCnt prov 0 p = s.useCnt p ∧
      update s.traceget prov none p = s.traceget p ∧
      update s.traceput prov none p = s.traceput p := by
  have hne : p ≠ prov := by
    rintro rfl
    exact hprov i hp
  simp only [update_of_ne hne, and_self]

theorem right_iff_proper (h : s.table.Sound env) :
    s.Right env prov (s.vfRegProvider env prov traceget traceput) ↔
      s.Proper env (.reg prov traceget traceput) := by
  rw [vfRegProvider, Proper]
  cases hname : env.name prov with
  | none =>
    -- without a name, the call is refused at once
    refine ⟨fun hr => ⟨fun i hi => absurd (hr.returned.2 ⟨i, hi⟩) (by simp), by simp⟩, ?_⟩
    rintro ⟨hprov, -⟩
    refine ⟨h, ⟨by simp, ?_⟩, fun _ => ⟨rfl, fun _ _ _ => ⟨rfl, rfl, rfl⟩⟩⟩
    rintro ⟨i, hi⟩
    exact absurd hi (hprov i)
  | some name =>
    simp only [Option.mem_some_iff, forall_eq']
    by_cases hnamed : ∃ i, env.Named (s.table i) (some name)
    · have htable : regTable env s.table prov name = s.table := if_pos hnamed
      simp only [hnamed, if_true, true_or, and_true, htable]
      refine ⟨fun hr i hi => absurd (hr.returned.2 ⟨i, hi⟩) (by simp), fun hprov => ?_⟩
      refine ⟨h, ⟨by simp, ?_⟩, fun _ => ⟨rfl, fun i p hp => refused_update hprov hp⟩⟩
      rintro ⟨i, hi⟩
      exact absurd hi (hprov i)
    have hprov : ∀ i, (s.table i).vframeProvider ≠ some prov :=
      fun i hi => hnamed ⟨i, prov, hi, hname⟩
    simp only [hnamed, if_false, false_or, and_iff_right hprov]
    by_cases hfree : ∃ i, (s.table i).used = false
    · obtain ⟨i, hi, htable⟩ := exists_regTable prov hnamed hfree
      simp only [hfree, true_and, and_true, htable]
      split
      · next hlen =>
        -- the entry is used and has no provider
        refine ⟨fun hr => ?_, fun hle => absurd hle hlen.not_ge⟩
        obtain ⟨p, hp⟩ := (hr.sound.used i).1 (by simp)
        dsimp only at hp
        rw [update_self] at hp
        have hused := (h.used i).2 ⟨p, hp⟩
        rw [hi] at hused
        cases hused
      · next hlen =>
        refine ⟨fun _ => not_lt.1 hlen, fun _ => ⟨sound_update h hname hnamed, ?_, by simp⟩⟩
        exact ⟨fun _ => ⟨i, by simp⟩, fun _ => rfl⟩
    · -- the call returns 0, and the provider is not in the table
      simp only [hfree, false_and, and_false, if_false, regTable_full hfree, iff_false]
      intro hr
      obtain ⟨i, hi⟩ := hr.returned.1 rfl
      exact hprov i hi

theorem sound_step (h : s.table.Sound env) {op : Request P T} (hproper : s.Proper env op)
    {s' : Registry P T} (hs : s.step env op = some s') : s'.table.Sound env := by
  cases op <;> cases hs
  case reg prov traceget traceput => exact ((right_iff_proper h).2 hproper).sound
  case unreg prov =>
    rw [vfUnregProvider]
    split
    · exact sound_dropEntry h
    · exact h
  case extLightUnreg prov =>
    rw [vfExtLightUnregProvider]
    split
    · exact sound_dropEntry h
    · exact h

end Registry

theorem registry_right {env : Env P} {s : Registry P T}
    (h : Reached Registry.Empty (Registry.step env) (Registry.Proper env) s) :
    s.table.Sound env ∧ ∀ prov traceget traceput,
      s.Right env prov (s.vfRegProvider env prov traceget traceput) ↔
        s.Proper env (.reg prov traceget traceput) := by
  have hsound : s.table.Sound env := h.inv (I := fun s => s.table.Sound env)
    (fun s hs => ⟨by simp [(hs _).1, (hs _).2], by simp [(hs _).2]⟩)
    fun _ _ _ hsound hproper hs => Registry.sound_step hsound hproper hs
  exact ⟨hsound, fun _ _ _ => Registry.right_iff_proper hsound⟩

/-- A provider with a name of some length, and no other. -/
def single (n : ℕ) : Env Unit where
  name _ := some (List.replicate n 'p')
  hasOp _ _ := true

/-- A system in which all entries are free, or used. -/
def unregistered (used : Bool) : Registry Unit Unit where
  table _ := ⟨used, [], none⟩
  useCnt _ := 0
  traceget _ := none
  traceput _ := none

theorem registry_right_single :
    (unregistered false).Right (single 63) ()
      ((unregistered false).vfRegProvider (single 63) () none none) := by
  have hstart : Reached Registry.Empty (Registry.step (single 63)) (Registry.Proper (single 63))
      (unregistered false) := .start fun _ => ⟨rfl, rfl⟩
  refine ((registry_right hstart).2 () none none).2 ⟨fun _ => by simp [unregistered], ?_⟩
  rintro name ⟨⟩
  exact .inr (by decide)

/-- A name of 64 characters keeps its entry without a provider; a second registration is refused but
    takes the trace of the provider in the table; and where such names have taken all entries, a
    registration returns 0. -/
theorem registry_damaged :
    (∃ i, (((unregistered false).vfRegProvider (single 64) () none none).1.table i).used = true ∧
      (((unregistered false).vfRegProvider (single 64) () none none).1.table i).vframeProvider =
        none) ∧
    (∃ s : Registry Unit Unit,
      s = ((unregistered false).vfRegProvider (single 1) () (some ()) none).1 ∧
      (∃ i, (s.table i).vframeProvider = some ()) ∧ s.traceget () = some () ∧
      (s.vfRegProvider (single 1) () (some ()) none).2 = -1 ∧
      (s.vfRegProvider (single 1) () (some ()) none).1.traceget () = none) ∧
    ((unregistered true).vfRegProvider (single 1) () none none).2 = 0 ∧
    ∀ i, (((unregistered true).vfRegProvider (single 1) () none none).1.table i).vframeProvider =
      none := by
  refine ⟨by decide +kernel, ⟨_, rfl, by decide +kernel⟩, by decide +kernel⟩

end CommonDrivers.Media.Vfm
