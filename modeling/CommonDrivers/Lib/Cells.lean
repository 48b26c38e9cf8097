import CommonDrivers.Lib.Ring

/-!
# Cells

The cells of an array, as a function of their index, and the stretches of them that
are read and written as a list: `slice` and `fill` for a stretch of the array (`At` says which list
stands there), `window` for one that goes round a ring of `n` cells, `get` and `put` for reading
and writing it in two parts.

* `slice_add`, `window_add`: a stretch is the one after the other of its parts;
* `slice_fill`, `window_put`: what is written is read.
-/

namespace CommonDrivers

open List Nat

variable {α : Type*} {f g : ℕ → α} {l : List α}

/-! ## Stretches of an array -/

/-- The `n` cells from `i` on. -/
def slice (f : ℕ → α) (i n : ℕ) : List α := (List.range n).map fun k => f (i + k)

/-- The cells after the list is written from `i` on. -/
def fill (f : ℕ → α) (i : ℕ) (l : List α) : ℕ → α :=
  fun k => if i ≤ k then l.getD (k - i) (f k) else f k

@[simp]
theorem length_slice (f : ℕ → α) (i n : ℕ) : (slice f i n).length = n := by
  rw [slice, length_map, length_range]

theorem slice_add (f : ℕ → α) (i m n : ℕ) :
    slice f i (m + n) = slice f i m ++ slice f (i + m) n := by
  rw [slice, range_add, map_append, map_map]
  congr 1
  exact map_congr_left fun k _ => congrArg f (Nat.add_assoc i m k).symm

theorem slice_congr {i n : ℕ} (h : ∀ k, i ≤ k → k < i + n → f k = g k) :
    slice f i n = slice g i n := map_congr_left fun k hk =>
    h (i + k) (Nat.le_add_right i k) (Nat.add_lt_add_left (mem_range.1 hk) i)

theorem fill_of_lt (l : List α) {i k : ℕ} (h : k < i) : fill f i l k = f k := if_neg (not_le.2 h)

theorem fill_of_le {i k : ℕ} (h : i + l.length ≤ k) : fill f i l k = f k := by
  rw [fill]
  split
  · exact getD_eq_default l (f k) (by omega)
  · rfl

theorem slice_fill (f : ℕ → α) (i : ℕ) (l : List α) : slice (fill f i l) i l.length = l := by
  refine ext_getElem (length_slice _ _ _) fun k _ hk => ?_
  simp [slice, fill, hk]

/-- A stretch of another array is copied. -/
theorem fill_slice (f g : ℕ → α) {i j n k : ℕ} (hi : i ≤ k) (hk : k < i + n) :
    fill f i (slice g j n) k = g (j + (k - i)) := by
  rw [fill, if_pos hi, slice, getD_eq_getElem _ _ (by simp; omega), getElem_map, getElem_range]

/-! ## Lists in an array -/

/-- The list stands in the cells from `i` on. -/
def At (f : ℕ → α) (i : ℕ) (l : List α) : Prop := slice f i l.length = l

instance [DecidableEq α] {i : ℕ} : Decidable (At f i l) := inferInstanceAs (Decidable (_ = _))

theorem at_append {i : ℕ} {l' : List α} : At f i (l ++ l') ↔ At f i l ∧ At f (i + l.length) l' := by
  rw [At, length_append, slice_add]
  refine ⟨fun h => append_inj h (length_slice _ _ _), fun h => ?_⟩
  rw [h.1, h.2]

theorem At.getElem {i k : ℕ} (h : At f i l) (hk : k < l.length) : f (i + k) = l[k] := by
  have hget : (slice f i l.length)[k]? = l[k]? := congrArg (·[k]?) h
  simpa [slice, hk] using hget

/-! ## Stretches of a ring -/

namespace Ring

variable {n t m k : ℕ}

/-- The `m` cells of a ring of `n` from `t` on. -/
def window (n : ℕ) (f : ℕ → α) (t m : ℕ) : List α := (List.range m).map fun k => f ((t + k) % n)

/-- The ring after the list is written from the cell `h` on, in two parts if it goes
    round the end. -/
def put (n : ℕ) (f : ℕ → α) (h : ℕ) (l : List α) : ℕ → α :=
  if h + l.length ≤ n then fill f h l else fill (fill f h (l.take (n - h))) 0 (l.drop (n - h))

/-- The `m` cells of the ring from `t` on, in two parts if they go round the end. -/
def get (n : ℕ) (f : ℕ → α) (t m : ℕ) : List α :=
  if t + m ≤ n then slice f t m else slice f t (n - t) ++ slice f 0 (t + m - n)

@[simp]
theorem length_window (n : ℕ) (f : ℕ → α) (t m : ℕ) : (window n f t m).length = m := by
  rw [window, length_map, length_range]

theorem window_add (n : ℕ) (f : ℕ → α) (t m k : ℕ) :
    window n f t (m + k) = window n f t m ++ window n f ((t + m) % n) k := by
  rw [window, range_add, map_append, map_map]
  congr 1
  refine map_congr_left fun j _ => ?_
  rw [Function.comp_apply, mod_add_mod, Nat.add_assoc]

theorem window_succ (n : ℕ) (f : ℕ → α) (t m : ℕ) :
    window n f t (m + 1) = f (t % n) :: window n f (t + 1) m := by
  rw [window, range_succ_eq_map, map_cons, map_map]
  refine congrArg (_ :: ·) (map_congr_left fun k _ => ?_)
  rw [Function.comp_apply, succ_eq_add_one, Nat.add_assoc, Nat.add_comm 1 k]

theorem window_congr (h : ∀ k < m, f ((t + k) % n) = g ((t + k) % n)) :
    window n f t m = window n g t m := map_congr_left fun k hk => h k (mem_range.1 hk)

theorem window_eq_slice (f : ℕ → α) (h : t + m ≤ n) : window n f t m = slice f t m :=
  map_congr_left fun k hk => by
    rw [mod_eq_of_lt (by have := mem_range.1 hk; omega)]

/-- A stretch that goes round the end of the ring is two stretches of the array. -/
theorem window_eq_append (f : ℕ → α) (ht : t < n) (hm : n < t + m) (hle : m ≤ n) :
    window n f t m = slice f t (n - t) ++ slice f 0 (t + m - n) := by
  rw [show m = (n - t) + (t + m - n) by omega, window_add, window_eq_slice f (by omega),
    show t + (n - t) = n by omega, mod_self, window_eq_slice f (by omega),
    show t + (n - t + (t + m - n)) - n = t + m - n by omega]

theorem get_eq_window (f : ℕ → α) (ht : t < n) (hm : m ≤ n) : get n f t m = window n f t m := by
  rw [get]
  split
  · next hle => exact (window_eq_slice f hle).symm
  · next hlt => exact (window_eq_append f ht (not_le.1 hlt) hm).symm

/-- What is written goes to the cells from `h` on. -/
theorem window_put_self (f : ℕ → α) {h : ℕ} (hh : h < n) (hl : l.length ≤ n) :
    window n (put n f h l) h l.length = l := by
  rw [put]
  split
  · next hle => rw [window_eq_slice _ hle, slice_fill]
  next hlt =>
  have htake : (l.take (n - h)).length = n - h := by rw [length_take]; omega
  have hdrop : (l.drop (n - h)).length = h + l.length - n := by rw [length_drop]; omega
  -- the second part ends before the first starts, as there are only `n` items
  have hslice : slice (fill (fill f h (l.take (n - h))) 0 (l.drop (n - h))) h (n - h) =
      l.take (n - h) := by
    have := slice_fill f h (l.take (n - h))
    rw [htake] at this
    rw [slice_congr fun k hk _ => fill_of_le (by omega), this]
  rw [window_eq_append _ hh (by omega) hl, hslice, ← hdrop, slice_fill, take_append_drop]

/-- The other cells are left alone. -/
theorem put_of_ne (f : ℕ → α) {h x : ℕ} (hh : h < n) (hx : x < n)
    (hne : ∀ k < l.length, (h + k) % n ≠ x) : put n f h l x = f x := by
  have hlt : ∀ k < l.length, h + k = x → False := fun k hk heq =>
    hne k hk (by rw [heq, mod_eq_of_lt hx])
  rw [put]
  split
  · rcases lt_or_ge x h with hxh | hxh
    · exact fill_of_lt l hxh
    · refine fill_of_le ?_
      by_contra hcon
      exact hlt (x - h) (by omega) (by omega)
  next hle =>
  rw [fill_of_le]
  · rcases lt_or_ge x h with hxh | hxh
    · exact fill_of_lt _ hxh
    · exact absurd (by omega) (hlt (x - h) (by omega))
  rw [length_drop]
  by_contra hcon
  refine hne (n - h + x) (by omega) ?_
  rw [show h + (n - h + x) = n + x by omega, add_mod_left, mod_eq_of_lt hx]

/-- Writing on after a stretch makes it longer, as long as it does not overtake
    itself. -/
theorem window_put (f : ℕ → α) (hn : 0 < n) (hle : m + l.length ≤ n) :
    window n (put n f ((t + m) % n) l) t (m + l.length) = window n f t m ++ l := by
  have hmod : (t + m) % n < n := mod_lt _ hn
  rw [window_add, window_put_self f hmod (by omega)]
  congr 1
  refine window_congr fun k hk => put_of_ne f hmod (mod_lt _ hn) fun j hj heq => ?_
  rw [mod_add_mod] at heq
  exact mod_ne_mod (show t + k < t + m + j by omega) (by omega) heq.symm

end Ring

end CommonDrivers
