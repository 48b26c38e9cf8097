import Mathlib

/-!
# Computations that may fail

`SucceedsIff c P x` says of a computation `x` that it succeeds *exactly* when `c` holds,
and then with a result that has the property `P`. The condition is a proposition of its
own, that does not mention the result, so that the conditions of the parts of a program
can be put together to the condition of the whole:

* `SucceedsIff.bind`: one computation after the other;
* `SucceedsIff.foldlM`: a loop over a list, with a description of its state and a
  condition for each step (`Along`);
* `load`, `store`: the cells of an array, where an index outside of it is a failure.
-/

namespace CommonDrivers

universe u

variable {ε : Type*} {α β : Type u}

theorem ok_bind (a : α) (f : α → Except ε β) : ((.ok a : Except ε α) >>= f) = f a := rfl

/-- The computation succeeds exactly if `c`, and then with a result that has `P`. -/
structure SucceedsIff (c : Prop) (P : α → Prop) (x : Except ε α) : Prop where
  of_ok : ∀ a, x = .ok a → c ∧ P a
  of_error : ∀ e, x = .error e → ¬ c

namespace SucceedsIff

variable {c d : Prop} {P : α → Prop} {R : β → Prop} {x : Except ε α} {f : α → Except ε β}

theorem pure {a : α} (h : P a) : SucceedsIff True P (.ok a : Except ε α) where
  of_ok _ ha := ⟨trivial, Except.ok.inj ha ▸ h⟩
  of_error _ he := nomatch he

theorem error (e : ε) (h : ¬ c) : SucceedsIff c P (.error e : Except ε α) where
  of_ok _ ha := nomatch ha
  of_error _ _ := h

theorem iff (hx : SucceedsIff c P x) (h : d ↔ c) : SucceedsIff d P x := by
  rwa [propext h]

theorem bind (hx : SucceedsIff c P x) (hf : ∀ a, P a → SucceedsIff d R (f a)) :
    SucceedsIff (c ∧ d) R (x >>= f) := by
  cases x with
  | ok a =>
    obtain ⟨hc, ha⟩ := hx.of_ok a rfl
    exact (hf a ha).iff (and_iff_right hc)
  | error e => exact error e fun h => hx.of_error e rfl h.1

/-- A first part that never fails leaves no condition. -/
theorem bind_true (hx : SucceedsIff True P x) (hf : ∀ a, P a → SucceedsIff d R (f a)) :
    SucceedsIff d R (x >>= f) := (hx.bind hf).iff (iff_of_eq (true_and d)).symm

/-- A last part that never fails leaves no condition. -/
theorem bind_of_true (hx : SucceedsIff c P x) (hf : ∀ a, P a → SucceedsIff True R (f a)) :
    SucceedsIff c R (x >>= f) := (hx.bind hf).iff (iff_of_eq (and_true c)).symm

theorem exists_ok_iff (hx : SucceedsIff c P x) : (∃ a, x = .ok a ∧ P a) ↔ c := by
  cases x with
  | ok a =>
    obtain ⟨hc, ha⟩ := hx.of_ok a rfl
    exact iff_of_true ⟨a, rfl, ha⟩ hc
  | error e => exact iff_of_false (fun ⟨_, h, _⟩ => nomatch h) (hx.of_error e rfl)

end SucceedsIff

/-! ## Loops

The state of a loop is described by something simpler, `p`, that each element of the list
takes to the next by `g`. The condition for a step is one on the description. -/

section Loops

variable {σ : Type*} {g : σ → α → σ} {c c' : σ → α → Prop} {f : β → α → Except ε β} {b : β}
  {I : β → Prop}

/-- The condition holds at each element of the list, when those before it have been
    gone through from `p`. -/
def Along (g : σ → α → σ) (c : σ → α → Prop) (p : σ) : List α → Prop
  | [] => True
  | a :: l => c p a ∧ Along g c (g p a) l

theorem along_append (p : σ) (l l' : List α) :
    Along g c p (l ++ l') ↔ Along g c p l ∧ Along g c (l.foldl g p) l' := by
  induction l generalizing p with
  | nil => simp [Along]
  | cons a l ih => simp [Along, ih, and_assoc]

theorem along_iff (p : σ) (l : List α) :
    Along g c p l ↔ ∀ l₁ a l₂, l = l₁ ++ a :: l₂ → c (l₁.foldl g p) a := by
  constructor
  · rintro h l₁ a l₂ rfl
    exact ((along_append p l₁ (a :: l₂)).1 h).2.1
  intro h
  induction l generalizing p with
  | nil => trivial
  | cons a l ih =>
    refine ⟨h [] a l rfl, ih (g p a) fun l₁ a' l₂ hl => ?_⟩
    exact h (a :: l₁) a' l₂ (by rw [hl, List.cons_append])

theorem along_and (p : σ) (l : List α) :
    Along g (fun p a => c p a ∧ c' p a) p l ↔ Along g c p l ∧ Along g c' p l := by
  simp only [along_iff, ← forall_and]

/-- A condition on a part of the description, that goes on by itself. -/
theorem along_map {τ : Type*} (π : σ → τ) (g' : τ → α → τ) (c : τ → α → Prop)
    (hπ : ∀ p a, π (g p a) = g' (π p) a) (p : σ) (l : List α) :
    Along g (fun p a => c (π p) a) p l ↔ Along g' c (π p) l := by
  induction l generalizing p with
  | nil => exact Iff.rfl
  | cons a l ih => rw [Along, Along, ih, hπ]

/-- A condition on the elements alone. -/
theorem along_const {c : α → Prop} (p : σ) (l : List α) :
    Along g (fun _ a => c a) p l ↔ ∀ a ∈ l, c a := by
  induction l generalizing p with
  | nil => simp [Along]
  | cons a l ih => simp [Along, ih]

/-- A sum that has to stay below a bound. -/
theorem along_sum_le (w : α → ℕ) {n m : ℕ} (h : n ≤ m) (l : List α) :
    Along (fun n a => n + w a) (fun n a => n + w a ≤ m) n l ↔ n + (l.map w).sum ≤ m := by
  induction l generalizing n with
  | nil => simpa [Along] using h
  | cons a l ih =>
    rw [Along, List.map_cons, List.sum_cons]
    constructor
    · rintro ⟨ha, hl⟩
      have := (ih ha).1 hl
      omega
    · intro hl
      have ha : n + w a ≤ m := by omega
      exact ⟨ha, (ih ha).2 (by omega)⟩

theorem SucceedsIff.foldlM {R : σ → β → Prop} (l : List α)
    (step : ∀ p b, ∀ a ∈ l, R p b → SucceedsIff (c p a) (R (g p a)) (f b a)) {p : σ} (h : R p b) :
    SucceedsIff (Along g c p l) (R (l.foldl g p)) (l.foldlM f b) := by
  induction l generalizing p b with
  | nil => exact SucceedsIff.pure h
  | cons a l ih =>
    exact (step p b a List.mem_cons_self h).bind fun b' hb' =>
      ih (fun p b a ha => step p b a (List.mem_cons_of_mem _ ha)) hb'

/-- A loop with an invariant, where the condition of a step is one on its element. -/
theorem SucceedsIff.foldlM_forall {c : α → Prop} (l : List α)
    (step : ∀ b, ∀ a ∈ l, I b → SucceedsIff (c a) I (f b a)) (h : I b) :
    SucceedsIff (∀ a ∈ l, c a) I (l.foldlM f b) := by
  refine (SucceedsIff.foldlM (g := fun _ _ => ()) (c := fun _ => c) (R := fun _ => I) l
    (fun _ => step) (p := ()) h).iff ?_
  exact (along_const () l).symm

/-- A loop with an invariant, where no step fails. -/
theorem SucceedsIff.foldlM_inv (l : List α)
    (step : ∀ b, ∀ a ∈ l, I b → SucceedsIff True I (f b a)) (h : I b) :
    SucceedsIff True I (l.foldlM f b) :=
  (SucceedsIff.foldlM_forall l step h).iff (iff_of_true trivial fun _ _ => trivial)

end Loops

/-! ## Arrays -/

variable {n : ℕ}

/-- The cell `i` of the array; `e` if it has no such cell. -/
def load (a : Vector α n) (i : ℕ) (e : ε) : Except ε α := if h : i < n then .ok a[i] else .error e

/-- The array with `x` in the cell `i`; `e` if it has no such cell. -/
def store (a : Vector α n) (i : ℕ) (x : α) (e : ε) : Except ε (Vector α n) :=
  if h : i < n then .ok (a.set i x) else .error e

theorem SucceedsIff.load (a : Vector α n) (i : ℕ) (e : ε) :
    SucceedsIff (i < n) (· ∈ a) (load a i e) := by
  rw [CommonDrivers.load]
  split_ifs with h
  · exact (SucceedsIff.pure (Vector.getElem_mem h)).iff (iff_true_intro h)
  · exact SucceedsIff.error e h

theorem SucceedsIff.load_of_lt (a : Vector α n) {i : ℕ} (e : ε) (h : i < n) :
    SucceedsIff True (· ∈ a) (CommonDrivers.load a i e) :=
  (SucceedsIff.load a i e).iff (iff_of_true trivial h)

theorem store_eq_ok (a : Vector α n) {i : ℕ} (x : α) (e : ε) (h : i < n) :
    store a i x e = .ok (a.set i x) := dif_pos h

end CommonDrivers
