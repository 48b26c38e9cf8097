import Mathlib

/-!
# Tallies

What the members of a list count together, each with its own weight, and how the tally
changes when one of them does.
-/

namespace CommonDrivers

open List Finset

variable {α : Type*}

/-- The weights of the members of a list together. -/
def tally (f : α → ℤ) (l : List α) : ℤ := (l.map f).sum

variable {f : α → ℤ} {l : List α} {a b : α} {n : ℕ}

theorem tally_set (f : α → ℤ) (h : l[n]? = some a) (b : α) :
    tally f (l.set n b) = tally f l + (f b - f a) := by
  obtain ⟨hn, rfl⟩ := List.getElem?_eq_some_iff.1 h
  have hn' : n < (l.map f).length := by rwa [length_map]
  rw [tally, map_set, sum_set', dif_pos hn', getElem_map, tally]
  ring

theorem tally_eq_zero (h : ∀ a ∈ l, f a = 0) : tally f l = 0 := sum_eq_zero fun x hx => by
    obtain ⟨a, ha, rfl⟩ := mem_map.1 hx
    exact h a ha

theorem le_tally (hf : ∀ a, 0 ≤ f a) (ha : a ∈ l) : f a ≤ tally f l := by
  refine single_le_sum (fun x hx => ?_) _ (mem_map_of_mem ha)
  obtain ⟨b, -, rfl⟩ := mem_map.1 hx
  exact hf b

theorem tally_nonneg (hf : ∀ a, 0 ≤ f a) (l : List α) : 0 ≤ tally f l := sum_nonneg fun x hx => by
    obtain ⟨a, -, rfl⟩ := mem_map.1 hx
    exact hf a

theorem tally_eq_countP (p : α → Bool) (l : List α) :
    tally (fun a => if p a then 1 else 0) l = l.countP p := by
  induction l with
  | nil => rfl
  | cons a l ih =>
    rw [countP_cons, Nat.cast_add, ← ih, tally, List.map_cons, List.sum_cons, add_comm]
    by_cases h : p a <;> simp [h, tally]

/-- Of members that count 1 there are no two if the tally is at most 1. -/
theorem eq_of_tally_le_one (hf : ∀ a, 0 ≤ f a) (hle : tally f l ≤ 1) {m : ℕ} (ha : l[n]? = some a)
    (hb : l[m]? = some b) (hfa : f a = 1) (hfb : f b = 1) : n = m := by
  obtain ⟨hn, rfl⟩ := List.getElem?_eq_some_iff.1 ha
  obtain ⟨hm, rfl⟩ := List.getElem?_eq_some_iff.1 hb
  by_contra hne
  have hsum : f l[n] + f l[m] ≤ ∑ i : Fin l.length, f l[i.1] :=
    add_le_sum (fun (i : Fin l.length) _ => hf _) (mem_univ ⟨n, hn⟩) (mem_univ ⟨m, hm⟩)
      (by simpa using hne)
  rw [Fin.sum_univ_fun_getElem, ← tally] at hsum
  omega

/-- At most one member is as `p` says, and stays the only one. -/
theorem tally_set_le_one {p : α → Prop} [DecidablePred p]
    (hle : tally (fun a => if p a then 1 else 0) l ≤ 1) (ha : l[n]? = some a)
    (hb : p b → p a ∨ ∀ x ∈ l, ¬ p x) : tally (fun a => if p a then 1 else 0) (l.set n b) ≤ 1 := by
  rw [tally_set _ ha]
  by_cases hpb : p b
  · rcases hb hpb with hpa | hnone
    · simpa [hpa, hpb] using hle
    · rw [tally_eq_zero fun x hx => if_neg (hnone x hx), if_neg (hnone a (mem_of_getElem? ha))]
      simp [hpb]
  · by_cases hpa : p a <;> simp only [hpa, hpb, if_true, if_false] <;> omega

/-- One summand changes. -/
theorem sum_change {ι : Type*} [Fintype ι] [DecidableEq ι] {f g : ι → ℕ} {i : ι}
    (h : ∀ k ≠ i, g k = f k) : ∑ k, g k + f i = ∑ k, f k + g i := by
  have hrest : ∑ k ∈ Finset.univ.erase i, g k = ∑ k ∈ Finset.univ.erase i, f k :=
    sum_congr rfl fun k hk => h k (ne_of_mem_erase hk)
  rw [← add_sum_erase _ f (mem_univ i), ← add_sum_erase _ g (mem_univ i), hrest]
  omega

theorem mem_set_of_ne (hb : b ∈ l) (ha : l[n]? = some a) (hne : b ≠ a) (c : α) : b ∈ l.set n c := by
  obtain ⟨m, hm⟩ := mem_iff_getElem?.1 hb
  have hnm : n ≠ m := by
    rintro rfl
    exact hne (Option.some.inj (hm.symm.trans ha))
  refine mem_of_getElem? (i := m) ?_
  rwa [getElem?_set_ne hnm]

theorem exists_of_mem_set (h : b ∈ l.set n a) : b = a ∨ ∃ m ≠ n, l[m]? = some b := by
  obtain ⟨m, hm⟩ := mem_iff_getElem?.1 h
  rw [getElem?_set] at hm
  split at hm
  · split at hm <;> cases hm
    exact .inl rfl
  · next hnm => exact .inr ⟨m, Ne.symm hnm, hm⟩

theorem mem_set_cases (h : b ∈ l.set n a) : b = a ∨ b ∈ l := (mem_or_eq_of_mem_set h).symm

end CommonDrivers
