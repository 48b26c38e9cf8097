import CommonDrivers.Media.ResourceMgr.Resman

/-!
# What the holders of a resource add up to

The value of a resource is what its holders have taken together (`Resource.Balanced`), whenever its
lock is free. Taking and releasing a node keep this, as long as the sums fit into an `int`.
-/

namespace CommonDrivers.Media.ResourceMgr

open List

variable {S : Type*} {r : Resource S} {node : Node S} {id : S → ℤ} {ssid : ℤ}
  {items : List (Option ℤ)} {mem : Memory}

/-! ## The index list of a counter -/

theorem length_acquireItem (ssid : ℤ) (items : List (Option ℤ)) :
    (acquireItem ssid items).length = items.length := by
  induction items with
  | nil => rfl
  | cons item items ih =>
    cases item with
    | none => rfl
    | some x => rw [acquireItem, length_cons, length_cons, ih]

theorem length_releaseItem (ssid : ℤ) (items : List (Option ℤ)) :
    (releaseItem ssid items).length = items.length := by
  have hloop : (releaseItemLoop ssid items).length = items.length := by
    induction items with
    | nil => rfl
    | cons item items ih =>
      rw [releaseItemLoop]
      split
      · rfl
      · rw [length_cons, length_cons, ih]
  rw [releaseItem]
  split
  · rfl
  · exact hloop

/-- A free entry is taken, if there is one. -/
theorem reduceOption_acquireItem (h : items.reduceOption.length < items.length) :
    (acquireItem ssid items).reduceOption.Perm (ssid :: items.reduceOption) := by
  induction items with
  | nil => exact absurd h (lt_irrefl _)
  | cons item items ih =>
    cases item with
    | none => exact .refl _
    | some x =>
      rw [reduceOption_cons_of_some, length_cons, length_cons] at h
      exact ((ih (by omega)).cons x).trans (.swap ..)

/-- The entry of a session is freed. -/
theorem reduceOption_releaseItem (hpos : 0 < ssid) (h : ssid ∈ items.reduceOption) :
    (ssid :: (releaseItem ssid items).reduceOption).Perm items.reduceOption := by
  rw [releaseItem, if_neg (by omega)]
  induction items with
  | nil => cases h
  | cons item items ih =>
    rw [releaseItemLoop]
    split
    · next heq =>
      rw [heq, reduceOption_cons_of_none, reduceOption_cons_of_some]
    next hne =>
    cases item with
    | none =>
      exact ih h
    | some x =>
      have hmem : ssid ∈ items.reduceOption :=
        (mem_cons.1 h).resolve_left fun heq => hne (congrArg some heq.symm)
      exact (List.Perm.swap ..).trans ((ih hmem).cons x)

/-! ## Balance -/

theorem addInt_eq {value v : ℤ} (hfits : -2 ^ 31 ≤ value + v ∧ value + v < 2 ^ 31) :
    Resource.addInt value v = value + v := by
  rw [Resource.addInt, i32, u32]
  split <;> omega

/-- The holders are all of one type, and the value is their number with its sign. -/
def Toggled (value : ℤ) (nodes : List (Node S)) : Prop :=
  (value = nodes.length ∧ ∀ n ∈ nodes, n.type = '+') ∨
    (value = -nodes.length ∧ ∀ n ∈ nodes, n.type = '-')

namespace Toggled

variable {value : ℤ} {nodes pre post : List (Node S)}

theorem plus (h : Toggled value nodes) (hsign : 0 ≤ value) (htype : node.type = '+') :
    Toggled (value + 1) (nodes ++ [node]) := by
  refine .inl ⟨?_, fun n hn => ?_⟩
  · rw [length_append, length_singleton]
    obtain ⟨hvalue, -⟩ | ⟨hvalue, -⟩ := h <;> omega
  obtain hn | hn := mem_append.1 hn
  · obtain ⟨-, hall⟩ | ⟨hvalue, -⟩ := h
    · exact hall n hn
    · have := length_pos_of_mem hn
      omega
  · rw [mem_singleton.1 hn, htype]

theorem minus (h : Toggled value nodes) (hsign : value ≤ 0) (htype : node.type = '-') :
    Toggled (value + -1) (nodes ++ [node]) := by
  refine .inr ⟨?_, fun n hn => ?_⟩
  · rw [length_append, length_singleton]
    obtain ⟨hvalue, -⟩ | ⟨hvalue, -⟩ := h <;> omega
  obtain hn | hn := mem_append.1 hn
  · obtain ⟨hvalue, -⟩ | ⟨-, hall⟩ := h
    · have := length_pos_of_mem hn
      omega
    · exact hall n hn
  · rw [mem_singleton.1 hn, htype]

/-- A node is taken out, with its sign. -/
theorem remove (h : Toggled value (pre ++ node :: post)) :
    (node.type = '+' ∧ 0 < value ∧ Toggled (value + -1) (pre ++ post)) ∨
      (node.type = '-' ∧ value < 0 ∧ Toggled (value + 1) (pre ++ post)) := by
  have hsub : ∀ n ∈ pre ++ post, n ∈ pre ++ node :: post := fun n hn => by
    rw [mem_append] at hn ⊢
    exact hn.imp_right (mem_cons_of_mem node)
  have hmem : node ∈ pre ++ node :: post := mem_append_right pre mem_cons_self
  have hlen : (pre ++ node :: post).length = (pre ++ post).length + 1 := by
    simp only [length_append, length_cons]
    omega
  obtain ⟨hvalue, hall⟩ | ⟨hvalue, hall⟩ := h
  · exact .inl ⟨hall node hmem, by omega, .inl ⟨by omega, fun n hn => hall n (hsub n hn)⟩⟩
  · exact .inr ⟨hall node hmem, by omega, .inr ⟨by omega, fun n hn => hall n (hsub n hn)⟩⟩

end Toggled

namespace Resource

/-- The holders of a resource account for its value. A session's id is in its record. -/
def Balanced (id : S → ℤ) (r : Resource S) : Prop :=
  match r.kind with
  | .counter avail =>
    avail < 2 ^ 31 ∧ r.value = r.nodes.length ∧ r.nodes.length ≤ avail ∧ r.items.length = avail ∧
      r.items.reduceOption.Perm (r.nodes.map fun n => id n.session)
  | .toggle => Toggled r.value r.nodes ∧ -2 ^ 31 < r.value ∧ r.value < 2 ^ 31
  | .tvp => r.value = r.nodes.length ∧ r.value < 2 ^ 31
  | .codecMm _ _ _ _ =>
    r.value = (r.nodes.map (·.score)).sum ∧ r.counterSecure = r.nodes.countP (·.secure) ∧
      r.counterNonsecure = r.nodes.countP (!·.secure) ∧ r.value < 2 ^ 31 ∧
      r.counterSecure < 2 ^ 31 ∧ r.counterNonsecure < 2 ^ 31
  | .capacity total =>
    r.value = (r.nodes.map (·.use)).sum ∧ r.value ≤ total ∧ (r.nodes ≠ [] → total < 2 ^ 31)

/-- There is room for a node: the sums do not leave the `int`, and a capacity does not even leave
    the `unsigned int` of its check. -/
def Room (r : Resource S) (node : Node S) : Prop :=
  match r.kind with
  | .counter _ => True
  | .toggle => -2 ^ 31 + 1 < r.value ∧ r.value + 1 < 2 ^ 31
  | .tvp => r.value + 1 < 2 ^ 31
  | .codecMm _ _ _ _ =>
    r.value + node.score < 2 ^ 31 ∧ r.counterSecure + 1 < 2 ^ 31 ∧ r.counterNonsecure + 1 < 2 ^ 31
  | .capacity total => total < 2 ^ 31 ∧ r.value + node.use < 2 ^ 32

instance : (r : Resource S) → (node : Node S) → Decidable (r.Room node)
  | { kind := .counter _, .. }, _ => inferInstanceAs (Decidable True)
  | { kind := .toggle, .. }, _ => inferInstanceAs (Decidable (_ ∧ _))
  | { kind := .tvp, value, .. }, _ => inferInstanceAs (Decidable (value + 1 < 2 ^ 31))
  | { kind := .codecMm .., .. }, _ => inferInstanceAs (Decidable (_ ∧ _))
  | { kind := .capacity _, .. }, _ => inferInstanceAs (Decidable (_ ∧ _))

theorem nodes_take (r : Resource S) (ssid : ℤ) (node : Node S) :
    (r.take ssid node).nodes = r.nodes ++ [node] := by
  rw [take]
  split <;> rfl

theorem Balanced.take (h : r.Balanced id) (henough : r.enough mem node = true)
    (hroom : r.Room node) : (r.take (id node.session) node).Balanced id := by
  obtain ⟨kind, value, nodes, items, sec, nonsec⟩ := r
  cases kind <;> simp only [Balanced, Room, enough, Resource.take, decide_eq_true_eq, map_append,
    map_singleton, length_append, length_singleton] at h henough hroom ⊢
  case counter avail =>
    obtain ⟨havail, hvalue, hle, hlen, hperm⟩ := h
    rw [hvalue, u32] at henough
    have hlt : nodes.length < avail := by omega
    have hfree : items.reduceOption.length < items.length := by
      rw [hperm.length_eq, length_map, hlen]
      exact hlt
    refine ⟨havail, ?_, hlt, ?_, ?_⟩
    · rw [addInt_eq (by omega), hvalue]
      rfl
    · rw [length_acquireItem, hlen]
    · refine (reduceOption_acquireItem hfree).trans ((hperm.cons _).trans ?_)
      exact (perm_append_singleton _ _).symm
  case toggle =>
    obtain ⟨htype, hsign⟩ | ⟨htype, hsign⟩ := henough
    · rw [if_pos htype, addInt_eq (by omega)]
      exact ⟨h.1.plus hsign htype, by omega, by omega⟩
    · rw [if_neg (by rw [htype]; decide), addInt_eq (by omega)]
      exact ⟨h.1.minus hsign htype, by omega, by omega⟩
  case tvp =>
    rw [addInt_eq (by omega)]
    omega
  case codecMm total uhd fhd limit =>
    obtain ⟨hvalue, hsec, hnon, -, -, -⟩ := h
    simp only [sum_append, sum_singleton, countP_append, countP_singleton]
    rw [addInt_eq (by omega)]
    cases node.secure with
    | true =>
      simp only [if_true, Bool.not_true, Bool.false_eq_true, if_false, Nat.add_zero, Nat.cast_add]
      rw [addInt_eq (by omega)]
      exact ⟨by omega, by omega, hnon, by omega, by omega, by omega⟩
    | false =>
      simp only [if_true, Bool.not_false, Bool.false_eq_true, if_false, Nat.add_zero, Nat.cast_add]
      rw [addInt_eq (by omega)]
      exact ⟨by omega, hsec, by omega, by omega, by omega, by omega⟩
  case capacity total =>
    obtain ⟨hvalue, hle, -⟩ := h
    rw [u32] at henough
    rw [sum_append, sum_singleton, addInt_eq (by omega), Nat.cast_add, hvalue]
    exact ⟨rfl, by omega, fun _ => hroom.1⟩

theorem subtract_eq {value : ℤ} {amount : ℕ} (hle : amount ≤ value) (hlt : value < 2 ^ 31) :
    subtract value amount = value - amount := by
  rw [subtract, if_pos (by rw [u32]; omega), addInt_eq (by omega), sub_eq_add_neg]

theorem Balanced.release {pre post : List (Node S)} (h : r.Balanced id)
    (hnodes : r.nodes = pre ++ node :: post) (hpos : 0 < id node.session) :
    ({ r.release (id node.session) node with nodes := pre ++ post } : Resource S).Balanced id := by
  obtain ⟨kind, value, nodes, items, sec, nonsec⟩ := r
  subst hnodes
  have hlen : (pre ++ node :: post).length = (pre ++ post).length + 1 := by
    simp only [length_append, length_cons]
    omega
  cases kind <;> simp only [Balanced, Resource.release] at h ⊢
  case counter avail =>
    obtain ⟨havail, hvalue, hle, hitems, hperm⟩ := h
    -- the item of the session is among those that are taken
    have hmem : id node.session ∈ items.reduceOption :=
      hperm.mem_iff.2 (mem_map_of_mem (mem_append_right pre mem_cons_self))
    rw [if_pos (by omega)]
    refine ⟨havail, ?_, by omega, ?_, ?_⟩
    · rw [addInt_eq (by omega)]
      dsimp only
      omega
    · rw [length_releaseItem, hitems]
    · refine Perm.cons_inv ((reduceOption_releaseItem hpos hmem).trans (hperm.trans ?_))
      rw [map_append, map_append, map_cons]
      exact perm_middle
  case toggle =>
    obtain ⟨h, hlo, hhi⟩ := h
    obtain ⟨htype, hsign, hrest⟩ | ⟨htype, hsign, hrest⟩ := h.remove
    · rw [if_pos htype, if_pos hsign, addInt_eq (by omega)]
      dsimp only
      exact ⟨hrest, by omega⟩
    rw [if_neg (by rw [htype]; decide), if_pos htype, if_pos hsign, addInt_eq (by omega)]
    dsimp only
    exact ⟨hrest, by omega⟩
  case tvp =>
    rw [if_pos (by omega), addInt_eq (by omega)]
    dsimp only
    omega
  case codecMm total uhd fhd limit =>
    simp only [map_append, map_cons, sum_append, sum_cons, countP_append, countP_cons] at h ⊢
    obtain ⟨hvalue, hsec, hnon, hlt, hlt', hlt''⟩ := h
    -- one of the two counters goes down
    rw [subtract_eq (by omega) hlt]
    cases hsecure : node.secure with
    | true =>
      simp only [hsecure, if_true, Bool.not_true, Bool.false_eq_true, if_false] at hsec hnon ⊢
      rw [addInt_eq (by omega)]
      omega
    | false =>
      simp only [hsecure, if_true, Bool.not_false, Bool.false_eq_true, if_false] at hsec hnon ⊢
      rw [addInt_eq (by omega)]
      omega
  case capacity total =>
    obtain ⟨hvalue, hle, htotal⟩ := h
    have hlt := htotal (by simp)
    simp only [map_append, map_cons, sum_append, sum_cons] at hvalue ⊢
    rw [subtract_eq (by omega) (by omega)]
    exact ⟨by omega, by omega, fun _ => hlt⟩

end Resource

end CommonDrivers.Media.ResourceMgr
