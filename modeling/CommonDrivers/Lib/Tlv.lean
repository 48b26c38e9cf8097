import CommonDrivers.Lib.Word

/-!
# Tag, length and value

A memory is a list of bytes, written in place by `poke`. An item of a record is a tag, the length
of a value and the value, the first two of them as little-endian words; the values of a record
are padded to whole words (`padded`).

`walk` is the loop that goes over the items of a record of `sum` bytes, as C code does it: with
`int` and `unsigned int` arithmetic on the offsets, and with a handler for each item.

* `poke_append`, `poke_poke`, `poke_gap`: writes next to each other, over each other and around
  a gap, as one write;
* `walk_items`: over a record that is a list of items, the walk hands each item to the handler,
  and ends.
-/

namespace CommonDrivers.Tlv

open List

abbrev Bytes := List UInt8

/-! ## Writing in place -/

/-- The memory with the bytes written at the offset; `none` if they do not fit in. -/
def poke (mem : Bytes) (off : ℕ) (bytes : Bytes) : Option Bytes :=
  if off + bytes.length ≤ mem.length then
    some (mem.take off ++ bytes ++ mem.drop (off + bytes.length))
  else none

/-- The first `n` bytes of the memory; `none` if it has fewer. -/
def peek (mem : Bytes) (n : ℕ) : Option Bytes :=
  if n ≤ mem.length then some (mem.take n) else none

variable {mem mem' mem₁ mem₂ a b c : Bytes} {off k n : ℕ}

theorem peek_append (rest : Bytes) (h : a.length = n) : peek (a ++ rest) n = some a := by
  rw [peek, if_pos (by rw [length_append]; omega), take_left' h]

/-- A write replaces as many bytes as it writes, and nothing before or behind them. -/
theorem poke_eq_some : poke mem off a = some mem' ↔ ∃ front old rest, mem = front ++ (old ++ rest) ∧
    front.length = off ∧ old.length = a.length ∧ mem' = front ++ (a ++ rest) := by
  constructor
  · intro h
    rw [poke] at h
    split at h
    case isFalse => exact nomatch h
    case isTrue hle =>
      refine ⟨mem.take off, (mem.drop off).take a.length, mem.drop (off + a.length), ?_, ?_, ?_, ?_⟩
      · rw [← drop_drop, take_append_drop, take_append_drop]
      · rw [length_take]
        omega
      · rw [length_take, length_drop]
        omega
      · rw [← Option.some.inj h, append_assoc]
  · rintro ⟨front, old, rest, rfl, rfl, hold, rfl⟩
    rw [poke, if_pos (by simp only [length_append]; omega), take_left,
      drop_length_add_append, ← hold, drop_left, append_assoc]

theorem poke_nil (h : off ≤ mem.length) : poke mem off [] = some mem := by
  rw [poke, length_nil, Nat.add_zero, if_pos h, append_nil, take_append_drop]

theorem length_poke (h : poke mem off a = some mem') : mem'.length = mem.length := by
  obtain ⟨front, old, rest, rfl, -, hold, rfl⟩ := poke_eq_some.1 h
  simp only [length_append, hold]

/-- What is written is read. -/
theorem drop_poke (h : poke mem off a = some mem') : ∃ rest, mem'.drop off = a ++ rest := by
  obtain ⟨front, old, rest, rfl, rfl, -, rfl⟩ := poke_eq_some.1 h
  exact ⟨rest, drop_left⟩

theorem drop_poke_of_le (h : poke mem off a = some mem') (hk : off + a.length ≤ k) :
    mem'.drop k = mem.drop k := by
  obtain ⟨front, old, rest, rfl, rfl, hold, rfl⟩ := poke_eq_some.1 h
  obtain ⟨j, rfl⟩ := Nat.exists_eq_add_of_le hk
  rw [Nat.add_assoc, drop_length_add_append, drop_length_add_append,
    drop_length_add_append, ← hold, drop_length_add_append]

/-- Two writes, the second of them right behind the first. -/
theorem poke_append (ha : poke mem off a = some mem₁)
    (hb : poke mem₁ (off + a.length) b = some mem₂) : poke mem off (a ++ b) = some mem₂ := by
  obtain ⟨front, old, rest, rfl, rfl, hold, rfl⟩ := poke_eq_some.1 ha
  obtain ⟨front', old', rest', hmem, hfront, hold', rfl⟩ := poke_eq_some.1 hb
  rw [← append_assoc] at hmem
  obtain ⟨rfl, rfl⟩ := append_inj hmem (by rw [length_append, hfront])
  refine poke_eq_some.2 ⟨front, old ++ old', rest', ?_, rfl, ?_, ?_⟩
  · simp only [append_assoc]
  · rw [length_append, length_append, hold, hold']
  · simp only [append_assoc]

/-- A write over the first bytes of another. -/
theorem poke_poke (ha : poke mem off (a ++ c) = some mem₁) (hb : poke mem₁ off b = some mem₂)
    (h : b.length = a.length) : poke mem off (b ++ c) = some mem₂ := by
  obtain ⟨front, old, rest, rfl, rfl, hold, rfl⟩ := poke_eq_some.1 ha
  obtain ⟨front', old', rest', hmem, hfront, hold', rfl⟩ := poke_eq_some.1 hb
  obtain ⟨rfl, hrest⟩ := append_inj hmem hfront.symm
  rw [append_assoc] at hrest
  obtain ⟨rfl, rfl⟩ := append_inj hrest (by rw [hold', h])
  refine poke_eq_some.2 ⟨front, old, rest, rfl, rfl, ?_, ?_⟩
  · rw [hold, length_append, length_append, h]
  · rw [append_assoc]

/-- A write that leaves out a gap, and then another that fills it in. -/
theorem poke_gap (ha : poke mem off a = some mem₁)
    (hc : poke mem₁ (off + a.length + n) c = some mem₂)
    (hb : poke mem₂ (off + a.length) b = some mem') (h : b.length = n) :
    poke mem off (a ++ (b ++ c)) = some mem' := by
  obtain ⟨front, old, rest, rfl, rfl, hold, rfl⟩ := poke_eq_some.1 ha
  obtain ⟨front', old', rest', hmem, hfront, hold', rfl⟩ := poke_eq_some.1 hc
  obtain ⟨front₂, old₂, rest₂, hmem₂, hfront₂, hold₂, rfl⟩ := poke_eq_some.1 hb
  -- The part of the memory before the second write goes to the start of the gap, and the gap.
  have hfront' : front' = front ++ a ++ (front'.drop (front.length + a.length)) := by
    have htake := congrArg (take (front.length + a.length)) hmem
    rw [← append_assoc, take_left' (length_append), take_append_of_le_length (by omega)] at htake
    rw [htake, take_append_drop]
  rw [hfront', append_assoc] at hmem₂
  obtain ⟨rfl, hbehind⟩ := append_inj hmem₂ (by rw [length_append, hfront₂])
  obtain ⟨hgap, rfl⟩ := append_inj hbehind (by rw [hold₂, length_drop, hfront]; omega)
  rw [hfront', hgap, append_assoc, append_assoc] at hmem
  obtain rfl := append_cancel_left (append_cancel_left hmem)
  refine poke_eq_some.2 ⟨front, old ++ (old₂ ++ old'), rest', ?_, rfl, ?_, ?_⟩
  · simp only [append_assoc]
  · simp only [length_append, hold, hold', hold₂]
  · simp only [append_assoc]

/-! ## Words and items -/

/-- The bytes of a word, the low one first. -/
def bytes32 (w : UInt32) : Bytes :=
  [.ofNat w.toNat, .ofNat (w.toNat / 2 ^ 8), .ofNat (w.toNat / 2 ^ 16), .ofNat (w.toNat / 2 ^ 24)]

/-- The word at the start of the memory. -/
def word32 : Bytes → Option UInt32
  | a :: b :: c :: d :: _ =>
    some (.ofNat (a.toNat + 2 ^ 8 * b.toNat + 2 ^ 16 * c.toNat + 2 ^ 24 * d.toNat))
  | _ => none

@[simp]
theorem length_bytes32 (w : UInt32) : (bytes32 w).length = 4 := rfl

@[simp]
theorem word32_bytes32_append (w : UInt32) (rest : Bytes) :
    word32 (bytes32 w ++ rest) = some w := by
  have hw := w.toNat_lt
  rw [bytes32, cons_append, cons_append, cons_append, cons_append, word32,
    Option.some.injEq, ← UInt32.toNat_inj]
  simp only [UInt8.toNat_ofNat', UInt32.toNat_ofNat']
  omega

/-- The bytes with zeros behind them, to a whole number of words. -/
def padded (bytes : Bytes) : Bytes :=
  bytes ++ List.replicate ((bytes.length + 3) / 4 * 4 - bytes.length) 0

theorem length_padded (bytes : Bytes) : (padded bytes).length = (bytes.length + 3) / 4 * 4 := by
  rw [padded, length_append, length_replicate]
  omega

theorem peek_padded_append (bytes rest : Bytes) (h : bytes.length = n) :
    peek (padded bytes ++ rest) n = some bytes := by
  rw [padded, append_assoc]
  exact peek_append _ h

/-- An item of a record: a tag and a value. -/
structure Item where
  tag : UInt32
  value : Bytes

namespace Item

/-- The length, as it stands in the memory. -/
def length (item : Item) : UInt32 := .ofNat item.value.length

def bytes (item : Item) : Bytes := bytes32 item.tag ++ (bytes32 item.length ++ item.value)

theorem length_bytes (item : Item) : item.bytes.length = 8 + item.value.length := by
  simp only [bytes, length_append, length_bytes32]
  omega

theorem toNat_length {item : Item} (h : item.value.length < 2 ^ 32) :
    item.length.toNat = item.value.length := by
  rw [length, UInt32.toNat_ofNat', Nat.mod_eq_of_lt h]

end Item

/-! ## Reading a record -/

/-- The tag and the length at the start of the memory, if the item is in the first `len` bytes of
    it. The outer `none` is a read outside of the memory. The sum `8 + length` is an
    `unsigned int`. -/
def readTl (input : Bytes) (len : ℤ) : Option (Option (UInt32 × UInt32)) :=
  if len < 8 then some none
  else do
    let tag ← word32 input
    let length ← word32 (input.drop 4)
    if u32 len < u32 (8 + length.toNat) then some none else some (some (tag, length))

variable {α : Type*}

/-- The loop over the items from the offset `idx` on. The handler is given the tag, the length and
    the memory from the value on; it says if the loop may go on. The result is `none` if the
    memory is left or the loop does not end. -/
def walk (handler : UInt32 → UInt32 → Bytes → α → Option (Bool × α)) (input : Bytes) (len : ℤ)
    (sum : ℕ) : ℕ → ℕ → α → Option (Bool × α)
  | 0, _, _ => none
  | fuel + 1, idx, acc =>
    if sum ≤ idx then some (true, acc)
    else
      match readTl (input.drop idx) (i32 (u32 (len - idx))) with
      | none => none
      | some none => some (false, acc)
      | some (some (tag, length)) =>
        match handler tag length (input.drop (u32 (idx + 8))) acc with
        | none => none
        | some (false, acc) => some (false, acc)
        | some (true, acc) => walk handler input len sum fuel (u32 (idx + 8 + length.toNat)) acc

theorem readTl_item {item : Item} {len : ℤ} (rest : Bytes) (hle : item.bytes.length ≤ len)
    (hlt : len < 2 ^ 31) :
    readTl (item.bytes ++ rest) len = some (some (item.tag, item.length)) := by
  rw [Item.length_bytes] at hle
  have htag : word32 (item.bytes ++ rest) = some item.tag := by
    rw [Item.bytes, append_assoc, word32_bytes32_append]
  have hlength : word32 ((item.bytes ++ rest).drop 4) = some item.length := by
    rw [Item.bytes, append_assoc, drop_left' (length_bytes32 _), append_assoc,
      word32_bytes32_append]
  have hfits : ¬ u32 len < u32 (8 + item.length.toNat) := by
    rw [Item.toNat_length (by omega), u32, u32]
    omega
  rw [readTl, if_neg (by omega), htag, hlength]
  exact if_neg hfits

variable {handler : UInt32 → UInt32 → Bytes → α → Option (Bool × α)} {acc acc' : α}

/-- The handler takes the items, one after the other, from the one state to the other. -/
def Handles (handler : UInt32 → UInt32 → Bytes → α → Option (Bool × α)) : List Item → α → α → Prop
  | [], acc, acc' => acc = acc'
  | item :: items, acc, acc' => ∃ acc₁,
    (∀ rest, handler item.tag item.length (item.value ++ rest) acc = some (true, acc₁)) ∧
      Handles handler items acc₁ acc'

theorem Handles.append {items items' : List Item} {acc₁ : α}
    (h : Handles handler items acc acc₁) (h' : Handles handler items' acc₁ acc') :
    Handles handler (items ++ items') acc acc' := by
  induction items generalizing acc with
  | nil => exact (show acc = acc₁ from h) ▸ h'
  | cons item items ih =>
    obtain ⟨acc₂, hitem, hitems⟩ := h
    exact ⟨acc₂, hitem, ih hitems⟩

/-- The walk over the items goes through all of them. -/
theorem walk_items {items : List Item} {front rest : Bytes} {len : ℤ} {sum fuel idx : ℕ}
    (hidx : idx = front.length) (hsum : sum = idx + (items.flatMap Item.bytes).length)
    (hle : sum ≤ len) (hlt : len < 2 ^ 31) (hfuel : sum < idx + fuel)
    (h : Handles handler items acc acc') :
    walk handler (front ++ (items.flatMap Item.bytes ++ rest)) len sum fuel idx acc =
      some (true, acc') := by
  induction items generalizing front idx fuel acc with
  | nil =>
    obtain rfl : acc = acc' := h
    obtain ⟨fuel, rfl⟩ : ∃ n, fuel = n + 1 := Nat.exists_eq_succ_of_ne_zero (by omega)
    exact if_pos (by simp [hsum])
  | cons item items ih =>
    obtain ⟨acc₁, hitem, hitems⟩ := h
    obtain ⟨fuel, rfl⟩ : ∃ n, fuel = n + 1 := Nat.exists_eq_succ_of_ne_zero (by omega)
    rw [flatMap_cons, length_append] at hsum
    have hlength := item.length_bytes
    have hread : readTl (item.bytes ++ (items.flatMap Item.bytes ++ rest)) (i32 (u32 (len - idx))) =
        some (some (item.tag, item.length)) :=
      readTl_item _ (by rw [i32, u32]; omega) (by rw [i32, u32]; omega)
    have hdrop : (front ++ ((item :: items).flatMap Item.bytes ++ rest)).drop idx =
        item.bytes ++ (items.flatMap Item.bytes ++ rest) := by
      rw [hidx, drop_left, flatMap_cons, append_assoc]
    have hvalue : (front ++ ((item :: items).flatMap Item.bytes ++ rest)).drop (u32 (idx + 8)) =
        item.value ++ (items.flatMap Item.bytes ++ rest) := by
      have h8 : u32 (idx + 8) = idx + 8 := by rw [u32]; omega
      rw [h8, ← drop_drop, hdrop, Item.bytes, append_assoc, append_assoc, ← append_assoc]
      exact drop_left' rfl
    have hnext : u32 (idx + 8 + item.length.toNat) = idx + item.bytes.length := by
      rw [Item.toNat_length (by omega), u32]
      omega
    rw [walk, if_neg (by omega), hdrop, hread, hvalue]
    dsimp only
    rw [hitem]
    rw [hnext, flatMap_cons, append_assoc, ← append_assoc front]
    exact ih (by rw [length_append, hidx]) (by omega) (by omega) hitems

end CommonDrivers.Tlv
