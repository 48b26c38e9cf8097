import Mathlib

/-!
# Loops with an early exit

A loop over a list whose body may leave it. The body gets an item and the state, and tells with the
new state whether the loop is left. `loop_cases` is the rule for a body that changes the state only
where it leaves the loop.
-/

namespace CommonDrivers

open List

variable {α σ : Type*} {body : α → σ → σ × Bool} {l : List α} {s : σ} {a : α}

/-- The state after the loop, and whether the loop was left. -/
def loop (body : α → σ → σ × Bool) : List α → σ → σ × Bool
  | [], s => (s, false)
  | a :: l, s => if (body a s).2 then body a s else loop body l (body a s).1

theorem loop_cons_of_exit (h : (body a s).2 = true) : loop body (a :: l) s = body a s := by
  rw [loop, if_pos h]

theorem loop_cons_of_not (h : (body a s).2 = false) :
    loop body (a :: l) s = loop body l (body a s).1 := by
  rw [loop, h]
  rfl

theorem loop_cases {N : α → Prop} {E : α → σ → Prop}
    (h : ∀ a ∈ l, body a s = (s, false) ∧ N a ∨ ∃ t, E a t ∧ body a s = (t, true)) :
    loop body l s = (s, false) ∧ (∀ a ∈ l, N a) ∨
      ∃ a ∈ l, ∃ t, E a t ∧ loop body l s = (t, true) := by
  induction l with
  | nil => exact .inl ⟨rfl, nofun⟩
  | cons a l ih =>
    obtain ⟨ha, hl⟩ := forall_mem_cons.1 h
    rcases ha with ⟨heq, hno⟩ | ⟨t, ht, heq⟩
    · rw [loop_cons_of_not (by rw [heq]), heq]
      refine (ih hl).imp (fun ⟨hloop, hall⟩ => ⟨hloop, forall_mem_cons.2 ⟨hno, hall⟩⟩) ?_
      rintro ⟨b, hb, hrest⟩
      exact ⟨b, mem_cons_of_mem a hb, hrest⟩
    · rw [loop_cons_of_exit (by rw [heq])]
      exact .inr ⟨a, mem_cons_self, t, ht, heq⟩

end CommonDrivers
