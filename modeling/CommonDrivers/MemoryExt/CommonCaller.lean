import CommonDrivers.Lib.While

/-!
# The search for a common caller

The page trace (`page_trace.c`) skips the callers that every allocation has. Their functions are in
a table that is sorted by descending address, and `is_common_caller` looks an address up by halving.
An end of the interval is moved past the entry that was looked at and put back in the table, so that
an entry may be looked at again.

* `isCommonCaller_eq`: the search ends, within the table, and finds a function if there is one;
* `isCommonCaller_missed`: not so if an empty range is in the range of a function, or one ends at
  the end of the address space.
-/

namespace CommonDrivers.MemoryExt

open List

variable {w : ℕ}

/-- `struct alloc_caller`, with `unsigned long` of `w` bits. -/
structure AllocCaller (w : ℕ) where
  funcStartAddr : BitVec w
  size : BitVec w

/-- The addresses of the function. -/
def AllocCaller.range (e : AllocCaller w) : Set ℕ :=
  Set.Ico e.funcStartAddr.toNat (e.funcStartAddr.toNat + e.size.toNat)

/-- The variables of `is_common_caller`. -/
structure Search where
  low : ℤ
  high : ℤ
  ret : ℕ

/-- A turn of the loop of `is_common_caller`. It is `none` if it reads outside of the table. -/
def turn (caller : List (AllocCaller w)) (maxHigh : ℤ) (pc : BitVec w) (s : Search) :
    Option (Turn Search) :=
  let mid := (s.high + s.low).tdiv 2
  (if 0 ≤ mid then caller[mid.toNat]? else none).map fun e =>
    let addL := e.funcStartAddr
    let addH := e.funcStartAddr + e.size
    if addL ≤ pc ∧ pc < addH then .leave { s with ret := 1 }
    else if s.low ≥ s.high then .leave s
    else
      let low := if pc < addL then mid + 1 else s.low
      let high := if pc < addL then s.high else mid - 1
      .again
        { s with
          low := if low > maxHigh then maxHigh else low
          high := if high < 0 then 0 else high }

/-- `is_common_caller`, in no more turns than there are entries. -/
def isCommonCaller (caller : List (AllocCaller w)) (maxHigh : ℤ) (pc : BitVec w) : Option ℕ :=
  (turns (turn caller maxHigh pc) caller.length ⟨0, maxHigh, 0⟩).map Search.ret

/-- What may be read of the table with the entries `l`. An empty one has a zero entry. -/
def table (l : List (AllocCaller w)) : List (AllocCaller w) := if l = [] then [⟨0, 0⟩] else l

/-- A range that ends below the end of the address space. -/
def AllocCaller.Proper (e : AllocCaller w) : Prop :=
  e.funcStartAddr.toNat + e.size.toNat < 2 ^ w

/-- The ranges are sorted by descending address, and disjoint. -/
def Descending : List (AllocCaller w) → Prop := Pairwise fun a b =>
  b.funcStartAddr ≤ a.funcStartAddr ∧ Disjoint a.range b.range

/-- Each range ends at or below the start of those before it, as disjoint ranges do that are not
    empty. -/
def Stacked : List (AllocCaller w) → Prop := Pairwise fun a b =>
  b.funcStartAddr.toNat + b.size.toNat ≤ a.funcStartAddr.toNat

variable {l : List (AllocCaller w)} {e : AllocCaller w} {pc : BitVec w} {s : Search} {i j : ℕ}

theorem mem_range_iff (h : e.Proper) : pc.toNat ∈ e.range ↔
    e.funcStartAddr ≤ pc ∧ pc < e.funcStartAddr + e.size := by
  rw [BitVec.le_def, BitVec.lt_def, BitVec.toNat_add_of_lt h]
  rfl

/-- On which side of an entry the address is. -/
theorem side_of_mem (h : Stacked l) (hi : i < l.length) (hj : j < l.length)
    (hmem : pc.toNat ∈ l[i].range) (hj' : pc.toNat ∉ l[j].range) :
    if pc < l[j].funcStartAddr then j < i else i < j := by
  obtain ⟨hstart, hlast⟩ := hmem
  obtain hij | rfl | hij := lt_trichotomy i j
  · have := pairwise_iff_getElem.1 h i j hi hj hij
    rwa [if_neg]
    rw [BitVec.not_lt, BitVec.le_def]
    omega
  · exact absurd ⟨hstart, hlast⟩ hj'
  · have := pairwise_iff_getElem.1 h j i hj hi hij
    rwa [if_pos]
    rw [BitVec.lt_def]
    omega

/-- The interval is in the table, and has the entry that is looked for. -/
structure Within (l : List (AllocCaller w)) (pc : BitVec w) (s : Search) : Prop where
  low : 0 ≤ s.low ∧ s.low < l.length
  high : 0 ≤ s.high ∧ s.high < l.length
  ret : s.ret = 0
  mem (i : ℕ) (hi : i < l.length) : pc.toNat ∈ l[i].range → s.low ≤ i ∧ i ≤ s.high

theorem Within.turn (h : Within l pc s) (hl : Stacked l) (hproper : ∀ e ∈ l, e.Proper) :
    (∃ s', turn l (l.length - 1) pc s = some (.leave s') ∧
      (s'.ret = 1 ∧ (∃ e ∈ l, pc.toNat ∈ e.range) ∨ s'.ret = 0 ∧ ∀ e ∈ l, pc.toNat ∉ e.range)) ∨
    ∃ s', turn l (l.length - 1) pc s = some (.again s') ∧ Within l pc s' ∧
      (s'.high - s'.low).toNat < (s.high - s.low).toNat := by
  obtain ⟨⟨hlow, hlow'⟩, ⟨hhigh, hhigh'⟩, hret, hmem⟩ := h
  obtain ⟨mid, hmid⟩ := Int.eq_ofNat_of_zero_le (show 0 ≤ (s.high + s.low) / 2 by omega)
  have htdiv : (s.high + s.low).tdiv 2 = mid := by
    rw [Int.tdiv_eq_ediv_of_nonneg (by omega), hmid]
  have hlt : mid < l.length := by omega
  have hiff := @mem_range_iff _ _ pc (hproper _ (getElem_mem hlt))
  rw [MemoryExt.turn]
  simp only [htdiv, Int.natCast_nonneg, if_true, Int.toNat_natCast, getElem?_eq_getElem hlt,
    Option.map_some]
  by_cases hin : pc.toNat ∈ l[mid].range
  · rw [if_pos (hiff.1 hin)]
    exact .inl ⟨_, rfl, .inl ⟨rfl, _, getElem_mem hlt, hin⟩⟩
  rw [if_neg (mt hiff.2 hin)]
  by_cases hend : s.low ≥ s.high
  · rw [if_pos hend]
    refine .inl ⟨s, rfl, .inr ⟨hret, fun e he hpc => hin ?_⟩⟩
    obtain ⟨i, hi, rfl⟩ := getElem_of_mem he
    have hbounds := hmem i hi hpc
    obtain rfl : i = mid := by omega
    exact hpc
  rw [if_neg hend]
  refine .inr ⟨_, rfl, ⟨?_, ?_, hret, fun i hi hi' => ?_⟩, ?_⟩
  · dsimp only
    split_ifs <;> omega
  · dsimp only
    split_ifs <;> omega
  · have hside := side_of_mem hl hi hlt hi' hin
    have hbounds := hmem i hi hi'
    dsimp only
    split_ifs at hside ⊢ <;> omega
  · dsimp only
    split_ifs <;> omega

/-- The search ends without reading outside of the table, and gives 1 if the range of an entry has
    the address. -/
theorem isCommonCaller_eq (hl : Stacked l) (hproper : ∀ e ∈ l, e.Proper) (pc : BitVec w) :
    ∃ ret, isCommonCaller (table l) (l.length - 1) pc = some ret ∧
      (ret = 1 ↔ ∃ e ∈ l, pc.toNat ∈ e.range) := by
  by_cases hnil : l = []
  · subst hnil
    refine ⟨0, ?_, by simp⟩
    simp [isCommonCaller, table, turns, turn]
  have hpos := length_pos_of_ne_nil hnil
  rw [table, if_neg hnil, isCommonCaller]
  have hstart : Within l pc ⟨0, l.length - 1, 0⟩ := by
    refine ⟨⟨le_rfl, ?_⟩, ⟨?_, ?_⟩, rfl, fun i hi _ => ⟨?_, ?_⟩⟩ <;> dsimp only <;> omega
  obtain ⟨s, hs, hret⟩ := turns_spec (m := fun s : Search => (s.high - s.low).toNat)
    (fun s hs => Within.turn hs hl hproper) hstart (n := l.length)
    (by dsimp only; omega)
  rw [hs]
  refine ⟨_, rfl, ?_⟩
  rcases hret with ⟨hret, hmem⟩ | ⟨hret, hmem⟩
  · exact iff_of_true hret hmem
  · refine iff_of_false ?_ ?_
    · rw [hret]
      exact zero_ne_one
    · rintro ⟨e, he, hpc⟩
      exact hmem e he hpc

/-- Two functions with a gap. -/
def twoCallers : List (AllocCaller 64) := [⟨0x2000, 0x10⟩, ⟨0x1000, 0x10⟩]

theorem isCommonCaller_two : ∃ ret, isCommonCaller (table twoCallers) 1 0x1008 = some ret ∧
    (ret = 1 ↔ ∃ e ∈ twoCallers, 0x1008 ∈ e.range) := by
  refine isCommonCaller_eq (l := twoCallers) (pairwise_pair.2 (by decide)) ?_ 0x1008
  rintro e (_ | ⟨_, _ | ⟨_, ⟨⟩⟩⟩) <;> rw [AllocCaller.Proper] <;> decide

/-- An empty range in another one, and a range up to the end of the address space. -/
theorem isCommonCaller_missed :
    (Descending [⟨10, 0⟩, (⟨5, 10⟩ : AllocCaller 64)] ∧ 12 ∈ (⟨5, 10⟩ : AllocCaller 64).range ∧
      isCommonCaller (table [⟨10, 0⟩, (⟨5, 10⟩ : AllocCaller 64)]) 1 12 = some 0) ∧
    ((-8 : BitVec 64).toNat ∈ (⟨-16, 16⟩ : AllocCaller 64).range ∧
      isCommonCaller (table [(⟨-16, 16⟩ : AllocCaller 64)]) 0 (-8) = some 0) := by
  refine ⟨⟨pairwise_pair.2 ⟨by decide, ?_⟩, ⟨by decide, by decide⟩, by decide⟩,
    ⟨by decide, by decide⟩, by decide⟩
  exact Set.disjoint_left.2 fun x hx _ => absurd (hx.1.trans_lt hx.2) (by decide)

end CommonDrivers.MemoryExt
