import Mathlib

/-!
# Loops that have to end

A loop whose body may fail, go on, or leave it. The loop is run for at most a number of turns, and
fails when they are used up: a loop that gives a state is one that ends.

* `turns_spec`: a loop whose body keeps an invariant and makes a measure smaller ends, in a state
  the body leaves it with.
-/

namespace CommonDrivers

/-- What a turn of a loop ends with: another turn, or the end of the loop. -/
inductive Turn (σ : Type*)
  | again (s : σ)
  | leave (s : σ)

variable {σ : Type*} {body : σ → Option (Turn σ)} {I Q : σ → Prop} {m : σ → ℕ} {s : σ} {n : ℕ}

/-- The state the loop is left with, if it is left in less than that many turns. -/
def turns (body : σ → Option (Turn σ)) : ℕ → σ → Option σ
  | 0, _ => none
  | n + 1, s =>
    match body s with
    | none => none
    | some (.leave s) => some s
    | some (.again s) => turns body n s

theorem turns_leave {s' : σ} (h : body s = some (.leave s')) : turns body (n + 1) s = some s' := by
  rw [turns, h]

theorem turns_again {s' : σ} (h : body s = some (.again s')) :
    turns body (n + 1) s = turns body n s' := by
  rw [turns, h]

/-- The total-correctness rule: a turn from a state of the invariant leaves the loop as it should,
    or comes back to the invariant with a smaller measure. -/
theorem turns_spec (hbody : ∀ s, I s → (∃ s', body s = some (.leave s') ∧ Q s') ∨
      ∃ s', body s = some (.again s') ∧ I s' ∧ m s' < m s)
    (hI : I s) (hn : m s < n) : ∃ s', turns body n s = some s' ∧ Q s' := by
  induction n generalizing s with
  | zero => cases hn
  | succ n ih =>
    rcases hbody s hI with ⟨s', hs', hQ⟩ | ⟨s', hs', hI', hlt⟩
    · exact ⟨s', turns_leave hs', hQ⟩
    · rw [turns_again hs']
      exact ih hI' (Nat.lt_of_lt_of_le hlt (Nat.le_of_lt_succ hn))

end CommonDrivers
