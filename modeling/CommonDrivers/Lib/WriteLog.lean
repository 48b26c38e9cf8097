import Mathlib

/-!
# Logs of writes

A list of pairs of an address and a value, to be written in this order. What counts of a log is the
last write to each address.

* `replay_apply`: a register after the writes has the value of the last one, or what it had;
* `lastWrite_append`: of two logs the later one comes first;
* `lastWrite_set`: the last write to an address can be replaced in its place.
-/

namespace CommonDrivers

open List Option

variable {α β : Type*} [DecidableEq α] {l l' : List (α × β)} {a a' : α} {b : β} {f : α → β}

/-- The value of the last write to an address. -/
def lastWrite : List (α × β) → α → Option β
  | [], _ => none
  | x :: l, a => (lastWrite l a).or (if x.1 = a then some x.2 else none)

/-- The position of the last write to an address. -/
def lastIdx : List (α × β) → α → Option ℕ
  | [], _ => none
  | x :: l, a =>
    match lastIdx l a with
    | some i => some (i + 1)
    | none => if x.1 = a then some 0 else none

/-- The writes, made one after the other. -/
def replay (f : α → β) (l : List (α × β)) : α → β :=
  l.foldl (fun f x => Function.update f x.1 x.2) f

theorem replay_cons (f : α → β) (x : α × β) (l : List (α × β)) :
    replay f (x :: l) = replay (Function.update f x.1 x.2) l := rfl

theorem replay_apply (f : α → β) (l : List (α × β)) (a : α) :
    replay f l a = (lastWrite l a).getD (f a) := by
  induction l generalizing f with
  | nil => rfl
  | cons x l ih =>
    rw [replay_cons, ih, lastWrite]
    cases lastWrite l a with
    | some v => rfl
    | none =>
      by_cases hx : x.1 = a
      · subst hx
        simp
      · simp [hx, Function.update_of_ne (Ne.symm hx)]

theorem lastWrite_eq_none_iff : lastWrite l a = none ↔ ∀ b, (a, b) ∉ l := by
  induction l with
  | nil => exact ⟨fun _ _ => not_mem_nil, fun _ => rfl⟩
  | cons x l ih =>
    rw [lastWrite, or_eq_none_iff, ih]
    constructor
    · rintro ⟨hl, hx⟩ b hb
      rcases mem_cons.1 hb with rfl | hb
      · simp at hx
      · exact hl b hb
    · intro hno
      refine ⟨fun b hb => hno b (mem_cons_of_mem x hb), if_neg ?_⟩
      rintro rfl
      exact hno x.2 mem_cons_self

theorem lastWrite_append : lastWrite (l ++ l') a = (lastWrite l' a).or (lastWrite l a) := by
  induction l with
  | nil => rw [nil_append, lastWrite, or_none]
  | cons x l ih => rw [cons_append, lastWrite, ih, lastWrite, Option.or_assoc]

/-- A write at the end of a log. -/
theorem lastWrite_concat :
    lastWrite (l ++ [(a, b)]) a' = if a = a' then some b else lastWrite l a' := by
  rw [lastWrite_append, lastWrite, lastWrite, none_or]
  split_ifs <;> rfl

theorem lastIdx_eq_none_iff : lastIdx l a = none ↔ lastWrite l a = none := by
  induction l with
  | nil => exact ⟨fun _ => rfl, fun _ => rfl⟩
  | cons x l ih =>
    rw [lastIdx, lastWrite]
    cases hi : lastIdx l a with
    | some i =>
      have hw : lastWrite l a ≠ none := fun hno => nomatch hi.symm.trans (ih.2 hno)
      obtain ⟨v, hv⟩ := ne_none_iff_exists'.1 hw
      simp [hv]
    | none =>
      rw [ih.1 hi]
      split_ifs <;> simp

theorem lastWrite_set {i : ℕ} (h : lastIdx l a = some i) :
    lastWrite (l.set i (a, b)) a' = if a = a' then some b else lastWrite l a' := by
  induction l generalizing i with
  | nil => cases h
  | cons x l ih =>
    rw [lastIdx] at h
    cases hi : lastIdx l a with
    | some j =>
      rw [hi] at h
      cases h
      rw [set_cons_succ, lastWrite, ih hi, lastWrite]
      split_ifs <;> rfl
    | none =>
      rw [hi] at h
      split_ifs at h with hx
      cases h
      have hrest := lastIdx_eq_none_iff.1 hi
      rw [set_cons_zero, lastWrite, lastWrite]
      by_cases ha : a = a'
      · subst ha
        simp [hrest]
      · simp [ha, hx]

end CommonDrivers
