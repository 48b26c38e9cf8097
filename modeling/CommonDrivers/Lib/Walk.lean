import Mathlib

/-!
# Lists in a table

Lists whose items are places in a table, where each place has the place of the next item. `Linked`
tells the items of the list from a place on, and `walk` is a loop over them: the body gets the place
and the state, tells whether the loop is left, and may change the links themselves.

* `Linked.relink`: the list is cut behind an item, and goes on with other items;
* `collect_eq`: the items of a list can be computed;
* `walk_spec`: the rule for a walk, with an invariant on the items still to come.
-/

namespace CommonDrivers

open List Nat

variable {ι σ : Type*} {next next' : ι → Option ι} {p : Option ι} {i j : ι} {l m : List ι}

/-- The list that starts at `p` has the items `l`. -/
def Linked (next : ι → Option ι) : Option ι → List ι → Prop
  | p, [] => p = none
  | p, i :: l => p = some i ∧ Linked next (next i) l

theorem Linked.head (h : Linked next p l) : p = l.head? := by
  cases l with
  | nil => exact h
  | cons i l => exact h.1

theorem Linked.congr (h : Linked next p l) (heq : ∀ i ∈ l, next' i = next i) :
    Linked next' p l := by
  induction l generalizing p with
  | nil => exact h
  | cons i l ih =>
    refine ⟨h.1, ?_⟩
    rw [heq i mem_cons_self]
    exact ih h.2 fun k hk => heq k (mem_cons_of_mem i hk)

theorem Linked.relink (h : Linked next p (l ++ j :: m)) (heq : ∀ i ∈ l, next' i = next i)
    {m' : List ι} (hm : Linked next' (next' j) m') : Linked next' p (l ++ j :: m') := by
  induction l generalizing p with
  | nil => exact ⟨h.1, hm⟩
  | cons i l ih =>
    refine ⟨h.1, ?_⟩
    rw [heq i mem_cons_self]
    exact ih h.2 fun k hk => heq k (mem_cons_of_mem i hk)

theorem Linked.of_append (h : Linked next p (l ++ j :: m)) : Linked next (next j) m := by
  induction l generalizing p with
  | nil => exact h.2
  | cons i l ih => exact ih h.2

/-- The first `n` items at most. -/
def collect (next : ι → Option ι) : ℕ → Option ι → List ι
  | 0, _ => []
  | _, none => []
  | n + 1, some i => i :: collect next n (next i)

theorem collect_eq {n : ℕ} (h : Linked next p l) (hn : l.length ≤ n) : collect next n p = l := by
  induction l generalizing p n with
  | nil =>
    subst h
    cases n <;> rfl
  | cons i l ih =>
    obtain ⟨rfl, h⟩ := h
    cases n with
    | zero => exact absurd hn (not_succ_le_zero _)
    | succ n => exact congrArg (i :: ·) (ih h (le_of_succ_le_succ hn))

/-- The loop over a list, with the place where it is left. It is `none` if it has not ended after
    `n` items. -/
def walk (next : σ → ι → Option ι) (body : ι → σ → σ × Bool) :
    ℕ → Option ι → σ → Option (σ × Option ι)
  | _, none, s => some (s, none)
  | 0, some _, _ => none
  | n + 1, some i, s =>
    if (body i s).2 then some ((body i s).1, some i)
    else walk next body n (next (body i s).1 i) (body i s).1

section Rule

variable {next : σ → ι → Option ι} {body : ι → σ → σ × Bool} {n : ℕ} {s : σ}
  {I : List ι → σ → Prop} {Q : σ → Option ι → Prop}

theorem walk_none : walk next body n none s = some (s, none) := by
  cases n <;> rfl

theorem walk_spec (hI : I l s) (hp : p = l.head?) (hn : l.length ≤ n)
    (hstep : ∀ i l s, I (i :: l) s → if (body i s).2 then Q (body i s).1 (some i)
      else next (body i s).1 i = l.head? ∧ I l (body i s).1)
    (hend : ∀ s, I [] s → Q s none) : ∃ s' r, walk next body n p s = some (s', r) ∧ Q s' r := by
  induction l generalizing p n s with
  | nil =>
    subst hp
    exact ⟨s, none, walk_none, hend s hI⟩
  | cons i l ih =>
    subst hp
    cases n with
    | zero => exact absurd hn (not_succ_le_zero _)
    | succ n =>
      have hi := hstep i l s hI
      rw [head?_cons, walk]
      split
      · next hexit =>
        rw [if_pos hexit] at hi
        exact ⟨_, _, rfl, hi⟩
      · next hexit =>
        rw [if_neg hexit] at hi
        exact ih hi.2 hi.1 (le_of_succ_le_succ hn)

end Rule

end CommonDrivers
