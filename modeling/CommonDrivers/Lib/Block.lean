import Mathlib

/-!
# Blocks of memory

A block is what an allocator returns: a fixed number of cells, read and written
by offset. The copies of C (`memcpy`, `memmove`) take an offset and a length
that are signed and unchecked; here they are checked, and a copy which leaves
the block, or reads past the end of its source, is a `Fault`. A program that is
proved to fault on no input makes no such copy.

* `Block.memcpy`: the checked copy, and `Block.memcpy_eq_ok`, exactly when it
  succeeds;
* `Block.take_write`: what a block holds up to the end of a copy, in terms of
  what it held up to its start.
-/

namespace CommonDrivers

open List

/-- What goes wrong in a program that leaves its memory. -/
inductive Fault
  /-- A copy outside its source or its destination, or of a negative length. -/
  | bounds
  /-- A loop that makes no progress. -/
  | diverges
  /-- A use of an object that is not allocated. -/
  | dangling
  deriving DecidableEq, Repr

/-- A block of `n` cells. -/
structure Block (α : Type*) (n : ℕ) where
  /-- The contents, from the first cell on. -/
  cells : List α
  length_cells : cells.length = n

namespace Block

variable {α : Type*} {n : ℕ} {src : List α}

/-- The block whose cells all hold `x`. -/
def replicate (n : ℕ) (x : α) : Block α n := ⟨List.replicate n x, length_replicate⟩

/-- The block holding `f i` at the offset `i`. -/
def ofFn (f : Fin n → α) : Block α n := ⟨List.ofFn f, length_ofFn⟩

/-- The first `k` cells. -/
def take (b : Block α n) (k : ℕ) : List α := b.cells.take k

/-- The cell at the offset `i`. -/
def get (b : Block α n) (i : Fin n) : α := b.cells.get (i.cast b.length_cells.symm)

/-- The block after writing `src` from the offset `off` on. -/
def write (b : Block α n) (off : ℕ) (src : List α) (h : off + src.length ≤ n) : Block α n where
  cells := b.cells.take off ++ src ++ b.cells.drop (off + src.length)
  length_cells := by
    have := b.length_cells
    simp only [length_append, length_take, length_drop]
    omega

/-- A copy of `len` cells of `src` to the offset `off`, as `memcpy` is given
    them: signed, and possibly wrong. -/
def memcpy (b : Block α n) (off : ℤ) (src : List α) (len : ℤ) : Except Fault (Block α n) :=
  if h : 0 ≤ off ∧ 0 ≤ len ∧ len ≤ src.length ∧ off + len ≤ n then
    .ok (b.write off.toNat (src.take len.toNat) (by rw [length_take]; omega))
  else .error .bounds

@[simp]
theorem length_take (b : Block α n) (k : ℕ) : (b.take k).length = min k n := by
  rw [take, List.length_take, b.length_cells]

/-- A block holds, up to the end of what is written into it, what it held up to
    the start, and then what is written. -/
theorem take_write (b : Block α n) {off : ℕ} (h : off + src.length ≤ n) :
    (b.write off src h).take (off + src.length) = b.take off ++ src := by
  have hlen : (b.cells.take off ++ src).length = off + src.length := by
    rw [length_append, List.length_take, b.length_cells]
    omega
  exact take_left' hlen

/-- A copy succeeds exactly when its length is not negative and it stays within
    its source and its destination. -/
theorem memcpy_eq_ok {b b' : Block α n} {off len : ℤ} : b.memcpy off src len = .ok b' ↔
      ∃ h : 0 ≤ off ∧ 0 ≤ len ∧ len ≤ src.length ∧ off + len ≤ n,
        b.write off.toNat (src.take len.toNat) (by rw [List.length_take]; omega) = b' := by
  unfold memcpy
  split
  · next h => simp [h]
  · next h => simp [h]

/-- A copy of the first `k` cells of `src` into a block with room for them. -/
theorem memcpy_ok (b : Block α n) (off : ℕ) {k : ℕ} (hk : k ≤ src.length) (h : off + k ≤ n) :
    ∃ b', b.memcpy off src k = .ok b' ∧ b'.take (off + k) = b.take off ++ src.take k := by
  have hlen : (src.take k).length = k := length_take_of_le hk
  refine ⟨_, memcpy_eq_ok.2 ⟨by omega, rfl⟩, ?_⟩
  have hfit : off + (src.take k).length ≤ n := by omega
  simpa only [hlen, Int.toNat_natCast] using b.take_write hfit

@[simp]
theorem get_ofFn (f : Fin n → α) (i : Fin n) : (ofFn f).get i = f i := by
  rw [get, ofFn, List.get_ofFn]
  rfl

/-- A block defined by its cells starts with `l` if its first cells are those of `l`. -/
theorem take_ofFn {f : Fin n → α} {l : List α} (hl : l.length ≤ n)
    (h : ∀ i : Fin l.length, f (i.castLE hl) = l.get i) : (ofFn f).take l.length = l := by
  refine ext_getElem (by simpa using hl) fun i hi hi' => ?_
  simpa [take, ofFn] using h ⟨i, hi'⟩

theorem get_eq_getElem_take (b : Block α n) (i : Fin n) {k : ℕ} (hk : i < k) :
    b.get i = (b.take k).get ⟨i, by rw [length_take]; omega⟩ := by
  simp [get, take]

end Block

end CommonDrivers
