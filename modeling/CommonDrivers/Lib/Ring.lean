import Mathlib

/-!
# Ring buffers

A ring of `n` cells holds the last `n` items of a stream: the item at position `k` is
in the cell `k % n`, until it is overwritten by the item `n` positions later.

* `Holds.write`: writing on keeps it so;
* `Holds.slice`: a stretch of cells that does not wrap around is a stretch of the stream.
-/

namespace CommonDrivers.Ring

open List Nat

variable {α : Type*} {n : ℕ} {buf : ℕ → α} {stream : List α}

/-- The ring after the items are written, from the position `w` of the stream on. -/
def write (n : ℕ) : (buf : ℕ → α) → (w : ℕ) → List α → ℕ → α
  | buf, _, [] => buf
  | buf, w, b :: bs => write n (Function.update buf (w % n) b) (w + 1) bs

/-- The ring holds the last `n` items of the stream. -/
def Holds (n : ℕ) (buf : ℕ → α) (stream : List α) : Prop :=
  ∀ k < stream.length, stream.length ≤ k + n → stream[k]? = some (buf (k % n))

theorem holds_nil (n : ℕ) (buf : ℕ → α) : Holds n buf [] :=
  fun k hk => absurd hk (Nat.not_lt_zero k)

/-- Positions less than a lap apart have cells of their own. -/
theorem mod_ne_mod {k l : ℕ} (hlt : k < l) (hle : l < k + n) : k % n ≠ l % n := by
  intro h
  have hdvd : n ∣ l - k := (modEq_iff_dvd' hlt.le).1 h
  have := le_of_dvd (by omega) hdvd
  omega

theorem Holds.push (h : Holds n buf stream) (b : α) :
    Holds n (Function.update buf (stream.length % n) b) (stream ++ [b]) := by
  intro k hk hle
  rw [length_append, length_singleton] at hk hle
  rcases Nat.lt_succ_iff_lt_or_eq.1 hk with hk | rfl
  · rw [getElem?_append_left hk, h k hk (by omega),
      Function.update_of_ne (mod_ne_mod hk (by omega))]
  · rw [getElem?_append_right le_rfl, Nat.sub_self, Function.update_self]
    rfl

theorem Holds.write (bs : List α) {stream : List α} (h : Holds n buf stream) :
    Holds n (write n buf stream.length bs) (stream ++ bs) := by
  induction bs generalizing buf stream with
  | nil => simpa [Ring.write] using h
  | cons b bs ih =>
    have := ih (h.push b)
    rwa [length_append, length_singleton, append_assoc] at this

/-- The items from the position `r` on, read from cells that do not wrap around. -/
theorem Holds.slice (h : Holds n buf stream) {r l : ℕ} (hle : r + l ≤ stream.length)
    (hlap : stream.length ≤ r + n) (hwrap : r % n + l ≤ n) :
    (range l).map (fun i => buf (r % n + i)) = (stream.drop r).take l := by
  refine ext_getElem? fun i => ?_
  by_cases hi : i < l
  · have hmod : (r + i) % n = r % n + i := by
      rw [add_mod, mod_eq_of_lt (by omega : i < n), mod_eq_of_lt (by omega)]
    rw [getElem?_take_of_lt hi, getElem?_drop, h (r + i) (by omega) (by omega), hmod]
    simp [hi]
  · rw [getElem?_eq_none (by simpa using hi), getElem?_eq_none (by simp; omega)]

end CommonDrivers.Ring
