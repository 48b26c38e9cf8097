import CommonDrivers.Lib.Bits
import CommonDrivers.Media.CanvasSet

/-!
# The round trip of a canvas table

A table that is allocated and given back should leave the pool as it was, and so
should an allocation that fails. The two sides meet in the bytes of an entry, which
are packed according to the type of the set and unpacked regardless of it.

* An entry of four canvases names these and nothing else, and its round trip is exact.
* An entry of fewer canvases has a byte that is not used and reads as canvas 0.
  `canvas_pool_free_canvas_table` frees that canvas too (`freeEntry_pack`), which is
  registered for an owner when the pool is configured.
* A search that starts at canvas 0 takes it and does not give it back.

`roundTrip_iff` says when the pool is restored in spite of these.
-/

namespace CommonDrivers.Media

open List Nat Finset

namespace CanvasPool

variable {p q : CanvasPool} {s u : Finset ℕ} {c : ℕ} {owner : String} {type : CanvasMapType}
  {tab : List ℕ} {n : ℕ}

/-! ## The bytes of an entry -/

theorem byte_eq (v k : ℕ) : byte v k = v / 256 ^ k % 256 := by
  rw [byte, shiftRight_eq_div_pow, Nat.pow_mul]
  exact and_two_pow_sub_one_eq_mod _ 8

/-- The word of four bytes. -/
def word (b0 b1 b2 b3 : ℕ) : ℕ := b0 ||| b1 <<< 8 ||| b2 <<< 16 ||| b3 <<< 24

theorem byte_word {b0 b1 b2 b3 : ℕ} (h0 : b0 < 256) (h1 : b1 < 256) (h2 : b2 < 256)
    (h3 : b3 < 256) : byte (word b0 b1 b2 b3) 0 = b0 ∧ byte (word b0 b1 b2 b3) 1 = b1 ∧
      byte (word b0 b1 b2 b3) 2 = b2 ∧ byte (word b0 b1 b2 b3) 3 = b3 := by
  have hword : word b0 b1 b2 b3 = b3 * 2 ^ 24 + (b2 * 2 ^ 16 + (b1 * 2 ^ 8 + b0)) := by
    rw [word, or_shiftLeft b1 h0, or_shiftLeft b2 (by omega), or_shiftLeft b3 (by omega)]
  simp only [byte_eq, hword]
  omega

/-- The canvases an entry names, by its bytes. -/
theorem freeEntry_word {b0 b1 b2 b3 : ℕ} (h0 : b0 < 256) (h1 : b1 < 256) (h2 : b2 < 256)
    (h3 : b3 < 256) (q : CanvasPool) : q.freeEntry (word b0 b1 b2 b3) =
      let q := q.mapFreeCanvasIn b0
      let q := if b1 ≠ b0 then q.mapFreeCanvasIn b1 else q
      let q := if b2 ≠ b1 ∧ b2 ≠ b0 then q.mapFreeCanvasIn b2 else q
      if b3 ≠ b2 ∧ b3 ≠ b1 ∧ b3 ≠ b0 then q.mapFreeCanvasIn b3 else q := by
  obtain ⟨e0, e1, e2, e3⟩ := byte_word h0 h1 h2 h3
  rw [freeEntry, e0, e1, e2, e3]

theorem pack_one (c : ℕ) : pack .one (run c 1) = word c 0 0 0 := by
  simp [pack, run, word]

theorem pack_nv21 (c : ℕ) : pack .nv21 (run c 2) = word c (c + 1) (c + 1) 0 := by
  simp [pack, run, word, range'_succ]

theorem pack_yuv (c : ℕ) : pack .yuv (run c 3) = word c (c + 1) (c + 2) 0 := by
  simp only [word, zero_shiftLeft, or_zero]
  rfl

theorem pack_four (c : ℕ) : pack .four (run c 4) = word c (c + 1) (c + 2) (c + 3) := rfl

@[simp]
theorem freeAll_run_zero (q : CanvasPool) : q.freeAll (run c 0) = q := rfl

theorem freeAll_run_succ (hc : 0 < c) (n : ℕ) (q : CanvasPool) :
    q.freeAll (run c (n + 1)) = (q.mapFreeCanvasIn c).freeAll (run (c + 1) n) := by
  change freeAll (if (0 : ℤ) < (c : ℤ) then _ else q) (run (c + 1) n) = _
  rw [if_pos (by omega)]

/-- An entry that is packed is freed: the canvases of the set, and, unless there are four
    of them, canvas 0. -/
theorem freeEntry_pack (hc : 0 < c) (hle : c + type.num ≤ 256) (q : CanvasPool) :
    q.freeEntry (pack type (run c type.num)) =
      if type = .four then q.freeAll (run c type.num)
      else (q.freeAll (run c type.num)).mapFreeCanvasIn 0 := by
  cases type with
  | one =>
    simp only [CanvasMapType.num] at hle ⊢
    rw [pack_one, freeEntry_word (by omega) (by omega) (by omega) (by omega)]
    simp [freeAll_run_succ, hc, hc.ne]
  | nv21 =>
    simp only [CanvasMapType.num] at hle ⊢
    rw [pack_nv21, freeEntry_word (by omega) (by omega) (by omega) (by omega)]
    simp [freeAll_run_succ, hc, hc.ne]
  | yuv =>
    simp only [CanvasMapType.num] at hle ⊢
    rw [pack_yuv, freeEntry_word (by omega) (by omega) (by omega) (by omega)]
    simp [freeAll_run_succ, add_assoc, hc, hc.ne]
  | four =>
    simp only [CanvasMapType.num] at hle ⊢
    rw [pack_four, freeEntry_word (by omega) (by omega) (by omega) (by omega)]
    simp [freeAll_run_succ, add_assoc, hc]

/-! ## Freeing a table -/

/-- The entries name the sets of canvases that make up `u`. -/
inductive Entries (p : CanvasPool) (type : CanvasMapType) : List ℕ → Finset ℕ → Prop
  | nil : Entries p type [] ∅
  | cons {c : ℕ} {tab : List ℕ} {u : Finset ℕ} (pos : 0 < c) (le : c + type.num ≤ p.canvasMax)
      (disjoint : Disjoint (Finset.Ico c (c + type.num)) u) (tail : Entries p type tab u) :
      Entries p type (pack type (run c type.num) :: tab) (Finset.Ico c (c + type.num) ∪ u)

theorem Entries.of_canvasMax_eq (h : Entries p type tab u) (hmax : q.canvasMax = p.canvasMax) :
    Entries q type tab u := by
  induction h with
  | nil => exact .nil
  | cons pos le disjoint _ ih => exact .cons pos (hmax ▸ le) disjoint ih

theorem Entries.zero_not_mem (h : Entries p type tab u) : 0 ∉ u := by
  induction h with
  | nil => simp
  | cons pos _ _ _ ih => simp [pos.ne', ih]

theorem Held.freeAll_run (hp : p.Inv) (h : Held p q s) (hc : 0 < c) (hle : c + n ≤ p.canvasMax)
    (hs : Finset.Ico c (c + n) ⊆ s) : Held p (q.freeAll (run c n)) (s \ Finset.Ico c (c + n)) := by
  have hmem {i : ℕ} (hi : i ∈ range' c n) : c ≤ i ∧ i < c + n := mem_range'_1.1 hi
  have hfree := Held.freeAll hp (range' c n) nodup_range'
    (fun i hi => (hmem hi).2.trans_le hle) h (fun i hi => hs (mem_Ico.2 (hmem hi)))
  rwa [List.filter_eq_self.2 fun i hi => by simpa using hc.trans_le (hmem hi).1,
    toFinset_range'_1] at hfree

/-- If canvas 0 is free, or no entry names it, just the sets are given back. -/
theorem Held.freeCanvasTable (hp : p.Inv) (hzero : type = .four ∨ p.canvasMap 0 = false) :
    ∀ {tab u}, Entries p type tab u → ∀ {q s}, Held p q s → u ⊆ s → (type = .four ∨ 0 ∉ s) →
      Held p (q.freeCanvasTable tab) (s \ u) := by
  intro tab u hentries
  induction hentries with
  | nil =>
    intro q s h _ _
    simpa [CanvasPool.freeCanvasTable] using h
  | @cons c tab u pos le disjoint tail ih =>
    intro q s h hs hs0
    obtain ⟨hs, hus⟩ := union_subset_iff.1 hs
    have hu : u ⊆ s \ Finset.Ico c (c + type.num) := subset_sdiff.2 ⟨hus, disjoint.symm⟩
    have hset := h.freeAll_run hp pos le hs
    change Held p ((q.freeEntry _).freeCanvasTable tab) _
    rw [freeEntry_pack pos (le.trans hp.canvasMax_le), ← sup_eq_union, ← sdiff_sdiff_left]
    by_cases hfour : type = .four
    · rw [if_pos hfour]
      exact ih hset hu (.inl hfour)
    have h0 : 0 ∉ s \ Finset.Ico c (c + type.num) := fun hmem =>
      hs0.resolve_left hfour (sdiff_subset hmem)
    rw [if_neg hfour]
    have hfree := hset.free_canvas hp (hzero.resolve_left hfour) hp.canvasMax_pos
    rw [erase_eq_of_notMem h0] at hfree
    exact ih hfree hu (.inr h0)

/-- Canvas 0 is freed with the first entry of fewer than four canvases. -/
theorem Held.freeCanvasTable_cons (hp : p.Inv) (htype : type ≠ .four) {v : ℕ}
    (hentries : Entries p type (v :: tab) u) (h : Held p q s) (hs : u ⊆ s) :
    Held (p.mapFreeCanvasIn 0) (q.freeCanvasTable (v :: tab)) ((s \ u).erase 0) := by
  cases hentries with
  | @cons c _ u pos le disjoint tail =>
    obtain ⟨hs, hus⟩ := union_subset_iff.1 hs
    have hset := (h.freeAll_run hp pos le hs).free_both hp.canvasMax_pos
    change Held _ ((q.freeEntry _).freeCanvasTable tab) _
    rw [freeEntry_pack pos (le.trans hp.canvasMax_le), if_neg htype, ← sup_eq_union,
      ← sdiff_sdiff_left, ← erase_sdiff_comm]
    refine Held.freeCanvasTable (hp.mapFreeCanvasIn 0) (.inr ?_)
      (tail.of_canvasMax_eq (mapFreeCanvasIn_canvasMax 0)) hset ?_ (.inr (by simp))
    · have := mapFreeCanvasIn_map hp.canvasMax_pos 0
      simpa using this
    · intro i hi
      refine mem_erase.2 ⟨fun h0 => tail.zero_not_mem (h0 ▸ hi), ?_⟩
      exact mem_sdiff.2 ⟨hus hi, fun hmem => Finset.disjoint_left.1 disjoint hmem hi⟩

/-! ## Allocating a table -/

/-- The canvas a table of `n` entries takes and does not give back. -/
def tableLeak (p : CanvasPool) (n : ℕ) : Finset ℕ := if n = 0 then ∅ else p.leak

/-- What the loop takes are the sets its entries name, and what the first search leaks. -/
theorem Held.tableLoop (hp : p.Inv) (owner : String) (type : CanvasMapType) (n : ℕ) :
    ∀ {q s}, Held p q s → ∃ u, Held p (tableLoop owner type n q).1 (s ∪ q.tableLeak n ∪ u) ∧
        Disjoint (s ∪ q.tableLeak n) u ∧ Entries p type (tableLoop owner type n q).2.1 u ∧
        ((tableLoop owner type n q).2.1 = [] ↔ n = 0 ∨ ¬q.Available type) := by
  induction n with
  | zero =>
    intro q s h
    exact ⟨∅, by simpa [tableLeak, CanvasPool.tableLoop] using h, by simp, .nil,
      by simp [CanvasPool.tableLoop]⟩
  | succ n ih =>
    intro q s h
    have hleak : q.tableLeak (n + 1) = q.leak := if_neg n.succ_ne_zero
    rw [hleak]
    rcases h.mapAllocCanvasContinueSet hp owner type with
      ⟨havail, q', c, hset, htaken⟩ | ⟨havail, q', hset, h'⟩
    · obtain ⟨u, hheld, hdisj, hentries, -⟩ := ih htaken.held
      have hleak' : q'.tableLeak n = ∅ := by
        rw [tableLeak, leak, if_neg htaken.not_takesZero, ite_self]
      rw [hleak', union_empty] at hheld hdisj
      obtain ⟨hdisj, hdisj'⟩ := disjoint_union_left.1 hdisj
      rw [CanvasPool.tableLoop, hset]
      refine ⟨Finset.Ico c (c + type.num) ∪ u, ?_, ?_, .cons htaken.pos htaken.le hdisj' hentries,
        by simp [havail]⟩
      · rwa [← union_assoc]
      · exact disjoint_union_right.2 ⟨htaken.disjoint, hdisj⟩
    · rw [CanvasPool.tableLoop, hset]
      exact ⟨∅, by simpa using h', by simp, .nil, by simp [havail]⟩

theorem tableLeak_eq_empty_iff : p.tableLeak n = ∅ ↔ n = 0 ∨ ¬p.TakesZero := by
  rw [tableLeak, leak]
  split <;> simp_all

theorem erase_tableLeak (p : CanvasPool) (n : ℕ) : (p.tableLeak n).erase 0 = ∅ := by
  refine eq_empty_of_forall_notMem fun i hi => ?_
  obtain ⟨hi0, hi⟩ := mem_erase.1 hi
  rw [tableLeak] at hi
  split at hi
  · exact absurd hi (notMem_empty i)
  · exact hi0 (mem_leak.1 hi).1

/-! ## The round trip -/

theorem Held.same_iff (h : Held p q s) : Same p q ↔ s = ∅ := by
  constructor
  · intro hsame
    refine eq_empty_of_forall_notMem fun i hi => ?_
    have hq := h.map_of_mem hi
    rw [hsame.map_eq, h.free i hi] at hq
    simp at hq
  · rintro rfl
    exact h

theorem same_mapFreeCanvasIn_iff (hp : p.Inv) (h : Same (p.mapFreeCanvasIn 0) q) :
    Same p q ↔ p.canvasMap 0 = false := by
  have hmap (j : ℕ) : q.canvasMap j = (p.canvasMap j && decide (j ≠ 0)) := by
    rw [h.map_eq, ← mapFreeCanvasIn_map hp.canvasMax_pos]
    simp
  constructor
  · intro hsame
    have hq := hmap 0
    rw [hsame.map_eq] at hq
    simpa using hq
  intro h0
  have hfree := (Same.refl p).free_canvas hp h0 hp.canvasMax_pos
  exact ⟨h.canvasMax_eq.trans hfree.canvasMax_eq, by simp,
    fun j => by rw [h.map_eq]; simpa using hfree.map_eq j,
    fun j hj => (h.owner_eq j hj).trans (hfree.owner_eq j hj),
    fun j => (h.fixedOwner_eq j).trans (hfree.fixedOwner_eq j)⟩

/-- When a table that is freed leaves the pool as it was before it was allocated. -/
theorem Held.same_freeCanvasTable_iff (hp : p.Inv) (h : Held p q (p.tableLeak n ∪ u))
    (hdisj : Disjoint (p.tableLeak n) u) (hentries : Entries p type tab u) :
    Same p (q.freeCanvasTable tab) ↔
      if type = .four ∨ tab = [] then n = 0 ∨ ¬p.TakesZero else p.canvasMap 0 = false := by
  have hsdiff : (p.tableLeak n ∪ u) \ u = p.tableLeak n := by
    rw [union_sdiff_right, sdiff_eq_self_of_disjoint hdisj]
  by_cases htype : type = .four
  · have hfree := Held.freeCanvasTable hp (.inl htype) hentries h subset_union_right (.inl htype)
    rw [hsdiff] at hfree
    rw [if_pos (.inl htype), hfree.same_iff, tableLeak_eq_empty_iff]
  cases tab with
  | nil =>
    cases hentries
    rw [union_empty] at h
    rw [if_pos (.inr rfl), ← tableLeak_eq_empty_iff]
    exact h.same_iff
  | cons v tab =>
    have hfree := h.freeCanvasTable_cons hp htype hentries subset_union_right
    rw [hsdiff, erase_tableLeak] at hfree
    rw [if_neg (by simp [htype]), same_mapFreeCanvasIn_iff hp hfree]

/-- The pool is as it was, once a table that is allocated is freed, or if it cannot be
    allocated. -/
def RoundTrip (p : CanvasPool) (owner : String) (size : ℤ) (type : CanvasMapType) : Prop :=
  match p.allocCanvasTable owner size type with
  | (q, some tab) => Same p (q.freeCanvasTable tab)
  | (q, none) => Same p q

/-- Either way, the entries that are allocated are freed. -/
theorem roundTrip_iff_same (p : CanvasPool) (owner : String) (size : ℤ) (type : CanvasMapType) :
    ∃ q, (∀ s, Held p (tableLoop owner type size.toNat p).1 s → Held p q s) ∧
      (p.RoundTrip owner size type ↔
        Same p (q.freeCanvasTable (tableLoop owner type size.toNat p).2.1)) := by
  rw [RoundTrip, allocCanvasTable]
  by_cases hok : (tableLoop owner type size.toNat p).2.2 = true
  · rw [if_pos hok]
    exact ⟨_, fun s h => h.next _, Iff.rfl⟩
  · rw [if_neg hok]
    exact ⟨_, fun s h => h, Iff.rfl⟩

theorem Inv.roundTrip_iff_ite (hp : p.Inv) (owner : String) (size : ℤ) (type : CanvasMapType) :
    p.RoundTrip owner size type ↔
      if type = .four ∨ size ≤ 0 ∨ ¬p.Available type then size ≤ 0 ∨ ¬p.TakesZero
      else p.canvasMap 0 = false := by
  obtain ⟨u, hheld, hdisj, hentries, hnil⟩ := (Same.refl p).tableLoop hp owner type size.toNat
  rw [empty_union] at hheld hdisj
  obtain ⟨q, hq, hiff⟩ := p.roundTrip_iff_same owner size type
  rw [hiff, (hq _ hheld).same_freeCanvasTable_iff hp hdisj hentries]
  simp only [hnil, Int.toNat_eq_zero]

/-! ## Reachable pools -/

theorem Inv.of_held (hp : p.Inv) (h : Held p q s) : q.Inv := by
  refine ⟨fun i hi => ?_, h.canvasMax_eq ▸ hp.canvasMax_pos, h.canvasMax_eq ▸ hp.canvasMax_le⟩
  obtain ⟨hfree, hs⟩ := h.free_of_map hi
  rw [h.owner_eq i hs, hp.owner_eq_none i hfree]

theorem Inv.registerConstCanvas (hp : p.Inv) (startIndex endIndex : ℕ) (owner : String) :
    (p.registerConstCanvas startIndex endIndex owner).Inv := by
  rw [CanvasPool.registerConstCanvas]
  generalize range' startIndex (endIndex + 1 - startIndex) = l
  induction l generalizing p with
  | nil => exact hp
  | cons i l ih =>
    refine ih ⟨fun j hj => ?_, hp.canvasMax_pos, hp.canvasMax_le⟩
    by_cases hji : j = i
    · subst hji
      simp [registerIndex] at hj
    · simp only [registerIndex, ne_eq, hji, not_false_eq_true, Function.update_of_ne] at hj ⊢
      exact hp.owner_eq_none j hj

theorem inv_config (isMesonS1aCpu hwCanvasSupport : Bool) :
    (config isMesonS1aCpu hwCanvasSupport).Inv := by
  have hinit : (init isMesonS1aCpu).Inv := by
    refine ⟨fun _ _ => rfl, ?_, ?_⟩ <;> cases isMesonS1aCpu <;> decide
  cases isMesonS1aCpu <;> cases hwCanvasSupport <;>
    repeat refine Inv.registerConstCanvas ?_ _ _ _
  all_goals exact hinit

theorem Inv.mapFreeCanvasIn_ite (hp : p.Inv) (P : Prop) [Decidable P] (index : ℤ) :
    (if P then p.mapFreeCanvasIn index else p).Inv := by
  split
  · exact hp.mapFreeCanvasIn index
  · exact hp

theorem Inv.freeCanvasTable (hp : p.Inv) (tab : List ℕ) : (p.freeCanvasTable tab).Inv := by
  induction tab generalizing p with
  | nil => exact hp
  | cons v tab ih =>
    refine ih ?_
    exact (((hp.mapFreeCanvasIn _).mapFreeCanvasIn_ite _ _).mapFreeCanvasIn_ite _
      _).mapFreeCanvasIn_ite _ _

theorem Inv.allocCanvasTable (hp : p.Inv) (owner : String) (size : ℤ) (type : CanvasMapType) :
    (p.allocCanvasTable owner size type).1.Inv := by
  obtain ⟨u, hheld, -⟩ := (Same.refl p).tableLoop hp owner type size.toNat
  rw [CanvasPool.allocCanvasTable]
  split
  · exact hp.of_held (hheld.next _)
  · exact (hp.of_held hheld).freeCanvasTable _

theorem Inv.mapAllocCanvasIn (hp : p.Inv) (owner : String) : (p.mapAllocCanvasIn owner).1.Inv := by
  rw [CanvasPool.mapAllocCanvasIn]
  split
  · next hlt => exact hp.of_held ((Same.refl p).take owner (map_allocIndex hlt))
  · exact hp

theorem Reachable.inv (h : Reachable p) : p.Inv := by
  induction h with
  | config isMesonS1aCpu hwCanvasSupport => exact inv_config isMesonS1aCpu hwCanvasSupport
  | register _ startIndex endIndex owner ih =>
    exact ih.registerConstCanvas startIndex endIndex owner
  | alloc _ owner ih => exact ih.mapAllocCanvasIn owner
  | free _ index ih => exact ih.mapFreeCanvasIn index
  | allocTable _ owner size type ih => exact ih.allocCanvasTable owner size type
  | freeTable _ tab ih => exact ih.freeCanvasTable tab
  | resetIndex _ ih => exact { ih with }

/-- The round trip of a table restores the pool exactly when no canvas is asked for, or
    canvas 0 is allocated and no entry names it, or it is free and either not looked at or
    freed with the entries. -/
theorem roundTrip_iff (h : Reachable p) (owner : String) (size : ℤ) (type : CanvasMapType) :
    p.RoundTrip owner size type ↔ size ≤ 0 ∨
      (p.canvasMap 0 = true ∧ (type = .four ∨ ¬p.Available type)) ∨
      (p.canvasMap 0 = false ∧ (p.nextAllocedIndex ≠ 0 ∨ type ≠ .four ∧ p.Available type)) := by
  rw [h.inv.roundTrip_iff_ite, TakesZero]
  cases p.canvasMap 0 <;> by_cases hsize : size ≤ 0 <;> by_cases htype : type = .four <;>
    by_cases havail : p.Available type <;> simp [hsize, htype, havail]

/-- A set of four canvases is taken from the pool as configured, and given back. -/
theorem roundTrip_config_four :
    ((config false true).allocCanvasTable "vdec" 1 .four).2 = some [0xc3c2c1c0] ∧
      (config false true).RoundTrip "vdec" 1 .four := by
  have h0 : (config false true).canvasMap 0 = true := by decide +kernel
  refine ⟨by decide +kernel, ?_⟩
  rw [roundTrip_iff (Reachable.config false true)]
  exact .inr (.inl ⟨h0, .inl rfl⟩)

/-- A single canvas is taken from the pool as configured and given back, and with it
    canvas 0, which belongs to the decoder. -/
theorem not_roundTrip_config_one :
    ((config false true).allocCanvasTable "vdec" 1 .one).2 = some [0xc0] ∧
      ¬(config false true).RoundTrip "vdec" 1 .one := by
  refine ⟨by decide +kernel, ?_⟩
  rw [(inv_config false true).roundTrip_iff_ite, if_neg (by decide +kernel)]
  decide +kernel

end CanvasPool

end CommonDrivers.Media
