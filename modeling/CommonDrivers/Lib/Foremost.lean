import Mathlib

/-!
# The first of the largest

Of the elements of a list that count, `Foremost` is the one with the largest key, and the first one
of those. A loop that keeps the largest key above a bound finds it (`foldl_foremost`), and so does
a search for a key that none exceeds (`foremost_of_find?`).
-/

namespace CommonDrivers

open List

variable {α β : Type*} [LinearOrder β] {key : α → β} {P Q : α → Prop} {l : List α} {a : α}

/-- `a` counts, those before it that count have smaller keys, and those after it have no larger
    ones. -/
def Foremost (key : α → β) (P : α → Prop) (l : List α) (a : α) : Prop :=
  ∃ pre post, l = pre ++ a :: post ∧ P a ∧ (∀ x ∈ pre, P x → key x < key a) ∧
    ∀ x ∈ post, P x → key x ≤ key a

namespace Foremost

theorem mem (h : Foremost key P l a) : a ∈ l := by
  obtain ⟨pre, post, rfl, -⟩ := h
  exact mem_append_right pre mem_cons_self

theorem counts (h : Foremost key P l a) : P a := by
  obtain ⟨pre, post, -, ha, -⟩ := h
  exact ha

theorem le (h : Foremost key P l a) : ∀ x ∈ l, P x → key x ≤ key a := by
  obtain ⟨pre, post, rfl, -, hpre, hpost⟩ := h
  intro x hx hP
  obtain hx | hx := mem_append.1 hx
  · exact (hpre x hx hP).le
  · obtain rfl | hx := mem_cons.1 hx
    · exact le_rfl
    · exact hpost x hx hP

theorem imp (h : Foremost key Q l a) (hQ : ∀ x ∈ l, P x → Q x) (ha : P a) :
    Foremost key P l a := by
  obtain ⟨pre, post, rfl, -, hpre, hpost⟩ := h
  refine ⟨pre, post, rfl, ha, fun x hx hP => ?_, fun x hx hP => ?_⟩
  · exact hpre x hx (hQ x (mem_append_left _ hx) hP)
  · exact hpost x hx (hQ x (mem_append_right pre (mem_cons_of_mem a hx)) hP)

/-- There is only one. -/
theorem unique [DecidablePred P] {b : α} (ha : Foremost key P l a) (hb : Foremost key P l b) :
    a = b := by
  have hfind : ∀ {c}, Foremost key P l c → l.find? (fun x => P x ∧ key x = key c) = some c := by
    rintro c ⟨pre, post, rfl, hc, hpre, -⟩
    refine find?_eq_some_iff_append.2 ⟨decide_eq_true ⟨hc, rfl⟩, pre, post, rfl, fun x hx => ?_⟩
    simpa [imp_iff_not_or] using fun hP => (hpre x hx hP).ne
  have hkey : key b = key a := (ha.le b hb.mem hb.counts).antisymm (hb.le a ha.mem ha.counts)
  have hb' := hfind hb
  rw [hkey, hfind ha] at hb'
  exact Option.some.inj hb'

/-- Those that do not count may be left out. -/
theorem filter {p : α → Bool} (h : Foremost key (fun x => p x = true ∧ P x) l a) :
    Foremost key P (l.filter p) a := by
  obtain ⟨pre, post, rfl, ⟨hp, hP⟩, hpre, hpost⟩ := h
  refine ⟨pre.filter p, post.filter p, ?_, hP, fun x hx hP => ?_, fun x hx hP => ?_⟩
  · rw [filter_append, filter_cons_of_pos hp]
  · exact hpre x (mem_filter.1 hx).1 ⟨(mem_filter.1 hx).2, hP⟩
  · exact hpost x (mem_filter.1 hx).1 ⟨(mem_filter.1 hx).2, hP⟩

end Foremost

/-- The loop for the largest key above `k`. -/
theorem foldl_foremost [DecidablePred P] (key : α → β) (l : List α) (k : β) :
    let res := l.foldl (fun acc x => if P x ∧ key x > acc.2 then (some x, key x) else acc)
      ((none : Option α), k)
    (res = (none, k) ∧ ∀ x ∈ l, P x → key x ≤ k) ∨
      ∃ a, res = (some a, key a) ∧ k < key a ∧ Foremost key P l a := by
  -- From the right: the last element is taken if its key is larger than all before.
  induction l using reverseRecOn with
  | nil => exact .inl ⟨rfl, nofun⟩
  | append_singleton l x ih =>
    rw [foldl_append, foldl_cons, foldl_nil]
    obtain ⟨hres, hall⟩ | ⟨a, hres, hk, hmost⟩ := ih
    · rw [hres]
      split
      · next hx =>
        refine .inr ⟨x, rfl, hx.2, l, [], rfl, hx.1, fun y hy hP => ?_, nofun⟩
        exact (hall y hy hP).trans_lt hx.2
      next hx =>
      refine .inl ⟨rfl, fun y hy hP => ?_⟩
      obtain hy | hy := mem_append.1 hy
      · exact hall y hy hP
      · rw [mem_singleton] at hy
        subst hy
        exact not_lt.1 fun hlt => hx ⟨hP, hlt⟩
    · rw [hres]
      split
      · next hx =>
        refine .inr ⟨x, rfl, hk.trans hx.2, _, [], rfl, hx.1, fun y hy hP => ?_, nofun⟩
        exact (hmost.le y hy hP).trans_lt hx.2
      next hx =>
      obtain ⟨pre, post, rfl, ha, hpre, hpost⟩ := hmost
      refine .inr ⟨a, rfl, hk, pre, post ++ [x], by simp, ha, hpre, fun y hy hP => ?_⟩
      obtain hy | hy := mem_append.1 hy
      · exact hpost y hy hP
      · rw [mem_singleton] at hy
        subst hy
        exact not_lt.1 fun hlt => hx ⟨hP, hlt⟩

/-- The search for a key that none of those that count exceeds. -/
theorem foremost_of_find? {p : α → Bool} (h : l.find? p = some a) (ha : P a)
    (hle : ∀ x ∈ l, P x → key x ≤ key a) (hp : ∀ x ∈ l, P x → key x = key a → p x = true) :
    Foremost key P l a := by
  obtain ⟨-, pre, post, rfl, hpre⟩ := find?_eq_some_iff_append.1 h
  refine ⟨pre, post, rfl, ha, fun x hx hP => ?_, fun x hx hP => ?_⟩
  · have hmem : x ∈ pre ++ a :: post := mem_append_left _ hx
    refine lt_of_le_of_ne (hle x hmem hP) fun heq => ?_
    have hnot := hpre x hx
    rw [hp x hmem hP heq] at hnot
    cases hnot
  · exact hle x (mem_append_right pre (mem_cons_of_mem a hx)) hP

end CommonDrivers
