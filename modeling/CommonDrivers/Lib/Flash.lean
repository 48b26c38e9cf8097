import Mathlib

/-!
# Flash memory

A flash device keeps pages of a type `α`, numbered through, in blocks of `P` pages. A page can
be programmed once after its block has been erased.

* The contents of a device (`Cells`) change by erasing a block and by programming a page
  (`Cells.apply`). A power cut leaves the contents after some first part of the operations under
  way (`Cells.replay`).
* A block holds a list of pages (`Cells.Holds`) when they are its first ones and the rest of it is
  erased; programming the next page appends to the list (`Cells.Holds.replay_programs`).
* A device (`Device`) also has the results of the operations to come, since any of them may fail,
  and records the operations that changed its contents.
-/

namespace CommonDrivers.Flash

open List Function

variable {α : Type*}

/-- The operations that change the contents of a device. -/
inductive Op (α : Type*) where
  | erase (blk : ℤ)
  | program (page : ℤ) (x : α)

/-- The contents of a device: an erased page has none. -/
abbrev Cells (α : Type*) := ℤ → Option α

namespace Cells

variable {P : ℕ} {c : Cells α} {b b' : ℤ} {l : List α} {page : ℤ}

/-- The page is one of the block. -/
def InBlock (P : ℕ) (b page : ℤ) : Prop := b * P ≤ page ∧ page < (b + 1) * P

instance (P : ℕ) (b page : ℤ) : Decidable (InBlock P b page) := inferInstanceAs (Decidable (_ ∧ _))

/-- The contents after one operation. -/
def apply (P : ℕ) (c : Cells α) : Op α → Cells α
  | .erase b => fun page => if InBlock P b page then none else c page
  | .program page x => update c page (some x)

/-- The contents after a list of operations. -/
def replay (P : ℕ) (c : Cells α) (ops : List (Op α)) : Cells α := ops.foldl (apply P) c

/-- The block's first pages are those of the list, and its other pages are erased. -/
def Holds (P : ℕ) (c : Cells α) (b : ℤ) (l : List α) : Prop := ∀ j < P, c (b * P + (j : ℕ)) = l[j]?

theorem inBlock_add {j : ℕ} (hj : j < P) : InBlock P b (b * P + j) := by
  constructor
  · omega
  · rw [add_mul]
    omega

/-- Blocks have no page in common. -/
theorem InBlock.unique (h : InBlock P b page) (h' : InBlock P b' page) : b = b' := by
  obtain ⟨h₁, h₂⟩ := h
  obtain ⟨h₁', h₂'⟩ := h'
  have hP : (0 : ℤ) ≤ P := Int.natCast_nonneg P
  have hlt : b < b' + 1 := lt_of_mul_lt_mul_right (h₁.trans_lt h₂') hP
  have hlt' : b' < b + 1 := lt_of_mul_lt_mul_right (h₁'.trans_lt h₂) hP
  omega

theorem apply_erase_of_ne (h : b ≠ b') (hp : InBlock P b page) :
    c.apply P (.erase b') page = c page := if_neg fun hp' => h (hp.unique hp')

theorem apply_program_of_ne {x : α} {page page' : ℤ} (h : b ≠ b') (hp : InBlock P b page)
    (hp' : InBlock P b' page') : c.apply P (.program page' x) page = c page :=
  update_of_ne (fun he : page = page' => h (hp.unique (he.symm ▸ hp'))) _ _

/-- An erased block holds nothing. -/
theorem holds_erase (P : ℕ) (c : Cells α) (b : ℤ) : (c.apply P (.erase b)).Holds P b [] :=
  fun _ hj => if_pos (inBlock_add hj)

/-- Programming the first erased page of a block. -/
theorem Holds.program (h : c.Holds P b l) (x : α) :
    (c.apply P (.program (b * P + l.length) x)).Holds P b (l ++ [x]) := by
  intro j hj
  change update c _ _ _ = _
  rcases eq_or_ne j l.length with rfl | hne
  · rw [update_self, getElem?_concat_length]
  rw [update_of_ne (by simpa using hne), h j hj]
  rcases Nat.lt_or_ge j l.length with hlt | hge
  · rw [getElem?_append_left hlt]
  · rw [getElem?_eq_none hge, getElem?_eq_none (by simp; omega)]

/-- The operations that program a list of pages one after the other. -/
def programs (page : ℤ) : List α → List (Op α)
  | [] => []
  | x :: xs => .program page x :: programs (page + 1) xs

theorem length_programs (page : ℤ) (xs : List α) : (programs page xs).length = xs.length := by
  induction xs generalizing page with
  | nil => rfl
  | cons x xs ih => rw [programs, length_cons, ih, length_cons]

theorem take_programs (page : ℤ) (xs : List α) (k : ℕ) :
    (programs page xs).take k = programs page (xs.take k) := by
  induction xs generalizing page k with
  | nil => rw [take_nil, programs, take_nil]
  | cons x xs ih =>
    cases k with
    | zero => rfl
    | succ k => rw [programs, take_succ_cons, ih, take_succ_cons, programs]

/-- Programming pages appends them to what the block holds. -/
theorem Holds.replay_programs (h : c.Holds P b l) (xs : List α) :
    (c.replay P (programs (b * P + l.length) xs)).Holds P b (l ++ xs) := by
  induction xs generalizing c l with
  | nil =>
    rw [append_nil]
    exact h
  | cons x xs ih =>
    have := ih (h.program x)
    rw [length_append, length_singleton, Nat.cast_add, Nat.cast_one, ← add_assoc,
      append_assoc] at this
    exact this

/-- Programming pages of one block leaves every other block as it is. -/
theorem replay_programs_of_ne {xs : List α} {k : ℕ} (hne : b ≠ b') (hp : InBlock P b page)
    (hk : k + xs.length ≤ P) : c.replay P (programs (b' * P + k) xs) page = c page := by
  induction xs generalizing c k with
  | nil => rfl
  | cons x xs ih =>
    rw [length_cons] at hk
    change (c.apply P _).replay P (programs (b' * P + k + 1) xs) page = _
    rw [add_assoc, ← Nat.cast_succ, ih (by omega)]
    exact apply_program_of_ne hne hp (inBlock_add (by omega))

end Cells

/-- A device: its contents, for each of the operations to come whether it fails (those after the
    end of the list do not), and the operations that have changed the contents. -/
structure Device (α : Type*) where
  cells : Cells α
  fails : List Bool
  ops : List (Op α)

namespace Device

/-- Whether the next operation fails. -/
def next (d : Device α) : Bool × Device α :=
  match d.fails with
  | [] => (false, d)
  | f :: fs => (f, { d with fails := fs })

/-- An operation that changes the contents, unless it fails. -/
def perform (P : ℕ) (d : Device α) (op : Op α) : Bool × Device α :=
  match d.next with
  | (true, d) => (true, d)
  | (false, d) => (false, { d with cells := d.cells.apply P op, ops := d.ops ++ [op] })

/-- Erasing a block. -/
def erase (P : ℕ) (d : Device α) (b : ℤ) : Bool × Device α := d.perform P (.erase b)

/-- Programming a page, which must be erased. -/
def program (P : ℕ) (d : Device α) (page : ℤ) (x : α) : Bool × Device α :=
  if (d.cells page).isSome then (true, d) else d.perform P (.program page x)

/-- Reading a page: nothing if that fails, and otherwise what the page has, if it is not
    erased. -/
def read (d : Device α) (page : ℤ) : Option (Option α) × Device α :=
  match d.next with
  | (true, d) => (none, d)
  | (false, d) => (some (d.cells page), d)

/-- A device on which nothing fails, with these contents. -/
def ofCells (c : Cells α) (ops : List (Op α)) : Device α := ⟨c, [], ops⟩

variable {P : ℕ} {c : Cells α} {ops : List (Op α)}

@[simp] theorem next_ofCells : (ofCells c ops).next = (false, ofCells c ops) := rfl

@[simp] theorem read_ofCells (page : ℤ) :
    (ofCells c ops).read page = (some (c page), ofCells c ops) := rfl

@[simp] theorem erase_ofCells (b : ℤ) : (ofCells c ops).erase P b =
    (false, ofCells (c.apply P (.erase b)) (ops ++ [.erase b])) := rfl

theorem program_ofCells {page : ℤ} (h : c page = none) (x : α) : (ofCells c ops).program P page x =
    (false, ofCells (c.apply P (.program page x)) (ops ++ [.program page x])) := by
  rw [program, if_neg]
  · rfl
  · change ¬(c page).isSome = true
    rw [h]
    exact Bool.false_ne_true

end Device

end CommonDrivers.Flash
