import CommonDrivers.Media.ResourceMgr.ManagerInv

/-!
# The accounts of the resource manager

`holder_accounting` is about every run of sessions, whether they wait for a resource, preempt others
or not: whenever the lock of a resource is free, its value is what its holders have taken. The
entries of a counter's index list that are taken are those of its holders, one for each.

`resman_capacity_enough` adds the size to the value as an `unsigned int`. A size near the end of its
range makes the sum small, the request passes, and the holders have more than there is
(`accounting_wrapped`). The result is of the runs in which the sums fit (`Step.Fits`). `sess_id` is
incremented without a lock, so that sessions may have one id; it is positive until it has gone all
the way round.
-/

namespace CommonDrivers.Media.ResourceMgr

open List

variable {R S : Type*} [DecidableEq R] [DecidableEq S]

/-- No session is open, and the resources are new. A counter's list is there, so that its length
    is an `int`. -/
def Initial (m : Manager R S) : Prop := (∀ s, m.isOpen s = false) ∧
    ∀ r, ∃ kind, m.resources r = .new kind ∧ ∀ avail, kind = .counter avail → avail < 2 ^ 31

omit [DecidableEq R] [DecidableEq S] in
theorem Initial.inv {m : Manager R S} (h : Initial m) : m.Inv := by
  have hclosed : ∀ {s}, m.isOpen s ≠ true := fun {s} => by
    rw [h.1 s]
    exact Bool.false_ne_true
  have hnodes : ∀ r, (m.resources r).nodes = [] := fun r => by
    obtain ⟨kind, hnew, -⟩ := h.2 r
    rw [hnew]
    rfl
  refine
    { balanced := fun r => ?_, nodup := fun r => ?_, opened := fun {r} n hn => ?_,
      pos := fun hs => absurd hs hclosed, held := fun hs => absurd hs hclosed,
      once := fun hs => absurd hs hclosed, pending := fun hs => absurd hs hclosed }
  · obtain ⟨kind, hnew, havail⟩ := h.2 r
    rw [hnew]
    exact Resource.balanced_new _ havail
  · rw [hnodes r]
    exact nodup_nil
  · rw [hnodes r] at hn
    cases hn

/-- The entries of an index list that are taken, by their indices. -/
theorem exists_indices (items : List (Option ℤ)) : ∃ idx : List ℕ, idx.Nodup ∧
      List.Forall₂ (fun x i => items[i]? = some (some x)) items.reduceOption idx := by
  induction items with
  | nil => exact ⟨[], nodup_nil, .nil⟩
  | cons item items ih =>
    obtain ⟨idx, hnodup, hall⟩ := ih
    have hmap : (idx.map (· + 1)).Nodup := hnodup.map (add_left_injective 1)
    have hshift : List.Forall₂ (fun x i => (item :: items)[i]? = some (some x)) items.reduceOption
        (idx.map (· + 1)) := by
      rw [forall₂_map_right_iff]
      exact hall
    cases item with
    | none => exact ⟨_, hmap, hshift⟩
    | some x =>
      refine ⟨0 :: idx.map (· + 1), nodup_cons.2 ⟨?_, hmap⟩, ?_⟩
      · rintro hmem
        obtain ⟨i, -, hi⟩ := mem_map.1 hmem
        exact Nat.succ_ne_zero i hi
      · exact .cons rfl hshift

/-- Each of the ids has an entry of its own. -/
theorem exists_indices_of_perm {items : List (Option ℤ)} {ids : List ℤ}
    (h : items.reduceOption.Perm ids) :
    ∃ idx : List ℕ, idx.Nodup ∧ List.Forall₂ (fun x i => items[i]? = some (some x)) ids idx := by
  obtain ⟨idx, hnodup, hall⟩ := exists_indices items
  obtain ⟨idx', hall', hperm⟩ := perm_comp_forall₂ h.symm hall
  exact ⟨idx', hperm.nodup_iff.2 hnodup, hall'⟩

/-- Whenever the locks of the resources are free, the holders of a resource are the sessions that
    have it in their lists, and its value is what they have taken together. -/
theorem holder_accounting {cfg : Config R} {m : Manager R S}
    (h : Reached Initial (Manager.step cfg) (fun m op => op.Fits cfg m) m) (r : R) :
    let res := m.resources r
    ((res.nodes.map (·.session)).Nodup ∧
      ∀ s, m.isOpen s = true → (r ∈ m.held s ↔ s ∈ res.nodes.map (·.session))) ∧
    (∀ avail, res.kind = .counter avail → res.value = res.nodes.length ∧ res.value ≤ avail ∧
      res.items.countP (·.isSome) = res.nodes.length ∧ ∃ idx : List ℕ, idx.Nodup ∧ List.Forall₂
        (fun n i => res.items[i]? = some (some (m.sessions n.session).id)) res.nodes idx) ∧
    (∀ total, res.kind = .capacity total →
      res.value = (res.nodes.map (·.use)).sum ∧ (res.nodes.map (·.use)).sum ≤ total) ∧
    (∀ total uhd fhd limit, res.kind = .codecMm total uhd fhd limit →
      res.value = (res.nodes.map (·.score)).sum ∧ res.counterSecure = res.nodes.countP (·.secure) ∧
      res.counterNonsecure = res.nodes.countP (!·.secure)) ∧
    (res.kind = .toggle → Toggled res.value res.nodes) ∧
    (res.nodes = [] → res.value = 0) := by
  have hinv : m.Inv := h.inv (fun _ => Initial.inv) fun _ _ _ h hfits => h.step hfits
  have hbal := hinv.balanced r
  rw [Resource.Balanced] at hbal
  refine ⟨⟨hinv.nodup r, fun s hs => ?_⟩, fun avail hk => ?_, fun total hk => ?_,
    fun total uhd fhd limit hk => ?_, fun hk => ?_, fun hnil => ?_⟩
  · rw [hinv.held hs, mem_map]
  · rw [hk] at hbal
    obtain ⟨-, hvalue, hle, -, hperm⟩ := hbal
    refine ⟨hvalue, hvalue ▸ Int.ofNat_le.2 hle, ?_, ?_⟩
    · rw [← length_map (f := fun n => (m.sessions n.session).id), ← hperm.length_eq,
        reduceOption_length_eq, countP_eq_length_filter]
    · obtain ⟨idx, hnodup, hall⟩ := exists_indices_of_perm hperm
      exact ⟨idx, hnodup, forall₂_map_left_iff.1 hall⟩
  · rw [hk] at hbal
    obtain ⟨hvalue, hle, -⟩ := hbal
    exact ⟨hvalue, Int.ofNat_le.1 (hvalue ▸ hle)⟩
  · rw [hk] at hbal
    obtain ⟨hvalue, hsec, hnon, -⟩ := hbal
    exact ⟨hvalue, hsec, hnon⟩
  · rw [hk] at hbal
    exact hbal.1
  · rw [hnil] at hbal
    -- without holders, every kind of resource has the value 0
    split at hbal
    · exact hbal.2.1
    · obtain ⟨hvalue, -⟩ | ⟨hvalue, -⟩ := hbal.1
      · exact hvalue
      · exact hvalue
    · exact hbal.1
    · exact hbal.1
    · exact hbal.1

/-- What `kstrtou32` gives for decimal digits. -/
def decimal (v : List Char) : Option UInt32 :=
  let n := v.foldl (fun n c => 10 * n + (c.toNat - '0'.toNat)) 0
  if v ≠ [] ∧ v.all Char.isDigit ∧ n < 2 ^ 32 then some (.ofNat n) else none

/-- The numerals of `Fin 3` rest on it. -/
scoped instance neZero_three : NeZero 3 := ⟨three_ne_zero⟩

/-- A manager of one resource. -/
def single (kind : Kind) : Manager Unit (Fin 3) where
  resources _ := .new kind
  sessions _ := { id := 0, status := .inited, prio := 0 }
  isOpen _ := false
  held _ := []
  waiting _ := none

theorem initial_single {kind : Kind} (h : ∀ avail, kind = .counter avail → avail < 2 ^ 31) :
    Initial (single kind) := ⟨fun _ => rfl, fun _ => ⟨kind, rfl, h⟩⟩

/-- The settings of the runs below. -/
def oneResource : Config Unit where
  kstrtou32 := decimal
  preemptTimeoutMs := 2000
  codecMm := none

/-- A codec memory that has nothing, and sessions that can all be reached. -/
def nothing : Outside (Fin 3) where
  first := { freeSize := 0, tvpFreeSize := 0, tvpEnabled := false }
  last := { freeSize := 0, tvpFreeSize := 0, tvpEnabled := false }
  turns := 2
  reach _ _ := true

/-- The second session takes what the first one has released. -/
def handOver : List (Step Unit (Fin 3)) :=
  [.opens 0 1, .opens 1 2, .setAppInfo 0 1, .acquire 0 () false 0 none nothing,
    .acquire 1 () true 0 none nothing, .release 0 (), .wake 1 nothing]

theorem accounting_handOver : ∃ m : Manager Unit (Fin 3), (m.resources ()).kind = .counter 1 ∧
      (m.resources ()).nodes.map (·.session) = [1] ∧ (m.resources ()).value = 1 := by
  have hrun : ∃ m ∈ exec (Manager.step oneResource) (fun m op => op.Fits oneResource m) handOver
      (single (.counter 1)), (m.resources ()).kind = .counter 1 ∧
      (m.resources ()).nodes.map (·.session) = [1] := by decide +kernel
  obtain ⟨m, hexec, hkind, hnodes⟩ := hrun
  have hinit : Initial (single (.counter 1)) := initial_single (by rintro _ ⟨⟩; decide)
  have hcount := (holder_accounting ((Reached.start hinit).exec hexec) ()).2.1 1 hkind
  refine ⟨m, hkind, hnodes, hcount.1.trans ?_⟩
  rw [← length_map (f := (·.session)), hnodes]
  rfl

/-- A size that makes the sum zero. -/
def wrapAround : List (Step Unit (Fin 3)) :=
  [.opens 0 1, .opens 1 2, .acquire 0 () false 0 (some "size:1".toList) nothing,
    .acquire 1 () false 0 (some "size:4294967295".toList) nothing]

/-- The holders of a capacity of 10 have more than that, and its value is zero. -/
theorem accounting_wrapped :
    ∃ m : Manager Unit (Fin 3), Reached Initial (Manager.step oneResource) (fun _ _ => True) m ∧
      (m.resources ()).kind = .capacity 10 ∧ (m.resources ()).value = 0 ∧
      ((m.resources ()).nodes.map (·.use)).sum = 2 ^ 32 := by
  have hrun : ∃ m ∈ exec (Manager.step oneResource) (fun _ _ => True) wrapAround
      (single (.capacity 10)), (m.resources ()).kind = .capacity 10 ∧ (m.resources ()).value = 0 ∧
      ((m.resources ()).nodes.map (·.use)).sum = 2 ^ 32 := by decide +kernel
  obtain ⟨m, hexec, hm⟩ := hrun
  have hinit : Initial (single (.capacity 10)) := initial_single nofun
  exact ⟨m, (Reached.start hinit).exec hexec, hm⟩

end CommonDrivers.Media.ResourceMgr
