import Mathlib

/-!
# Extents

Stretches of addresses, by where they start and how long they are, and when one lies
within another or apart from it.
-/

namespace CommonDrivers

/-- The addresses `[start, start + len)`. -/
structure Extent where
  start : ℕ
  len : ℕ
  deriving DecidableEq, Repr

namespace Extent

/-- The addresses of the extent. -/
def addrs (a : Extent) : Set ℕ := Set.Ico a.start (a.start + a.len)

/-- One of the extents ends before the other starts. -/
def Apart (a b : Extent) : Prop := a.start + a.len ≤ b.start ∨ b.start + b.len ≤ a.start

instance (a b : Extent) : Decidable (Apart a b) := inferInstanceAs (Decidable (_ ∨ _))

/-- The extent `a` lies in `b`. -/
def Within (a b : Extent) : Prop := b.start ≤ a.start ∧ a.start + a.len ≤ b.start + b.len

variable {a b c d : Extent}

theorem Apart.symm (h : Apart a b) : Apart b a := Or.symm h

theorem Within.trans (h : Within a b) (h' : Within b c) : Within a c :=
  ⟨h'.1.trans h.1, h.2.trans h'.2⟩

theorem Within.subset (h : Within a b) : a.addrs ⊆ b.addrs := Set.Ico_subset_Ico h.1 h.2

/-- What lies in extents that are apart is apart. -/
theorem Apart.mono (h : Apart a b) (ha : Within c a) (hb : Within d b) : Apart c d := by
  rcases h with h | h
  · exact .inl (ha.2.trans (h.trans hb.1))
  · exact .inr (hb.2.trans (h.trans ha.1))

theorem Apart.disjoint (h : Apart a b) : Disjoint a.addrs b.addrs := by
  refine Set.disjoint_left.2 fun x hxa hxb => ?_
  rcases h with h | h
  · exact absurd hxa.2 (not_lt.2 (h.trans hxb.1))
  · exact absurd hxb.2 (not_lt.2 (h.trans hxa.1))

/-- Extents that are apart and not empty start at different addresses. -/
theorem Apart.start_ne (h : Apart a b) (ha : 0 < a.len) (hb : 0 < b.len) : a.start ≠ b.start := by
  rcases h with h | h <;> omega

end Extent

end CommonDrivers
