import CommonDrivers.Unifykey.NormalKey

/-!
# The records of the keys

What the writers put into the memory is the record of a list of items (`emits_writeRecord`), and
what the readers take from it is what was written:

* `tlvWriteObject_eq_some`, `tlvReadObject_append`: for a key, whose items are
  `items`;
* `tlvWriteHead_eq_some`, `tlvReadHead_append`: for the head of the data.
-/

namespace CommonDrivers.Unifykey

open Tlv List Option StorageObject

variable {p : Place} {o o' o₁ o₂ : Output} {a b : Bytes} {tag : EmTLVTag} {len : ℤ} {n : ℕ}
  {buflen : UInt32}

theorem writer_bind_eq_ok {α β : Type} {x : Writer α} {f : α → Writer β} {r : β} :
    (x >>= f).run = some (.ok r) ↔ ∃ a, x.run = some (.ok a) ∧ (f a).run = some (.ok r) := by
  rw [ExceptT.run_bind]
  rcases hx : x.run with _ | _ | a <;> simp

/-! ## Items as writes -/

/-- The record that is being written has its place in the memory. -/
structure Room (p : Place) (o : Output) : Prop where
  len_lt : p.len < 2 ^ 31
  idx_le : (o.idx : ℤ) ≤ p.len
  fits : p.output + p.len ≤ o.mem.length

/-- From the one output to the other, the bytes have been written. -/
structure Emits (p : Place) (o o' : Output) (bytes : Bytes) : Prop where
  poke : poke o.mem (p.output + o.idx) bytes = some o'.mem
  idx : o'.idx = o.idx + bytes.length
  le : (o'.idx : ℤ) ≤ p.len

theorem Emits.room (h : Emits p o o' a) (hr : Room p o) : Room p o' where
  len_lt := hr.len_lt
  idx_le := h.le
  fits := by
    rw [length_poke h.poke]
    exact hr.fits

theorem Emits.refl (hr : Room p o) : Emits p o o [] where
  poke := by
    have hle := hr.idx_le
    have hfits := hr.fits
    exact poke_nil (by omega)
  idx := rfl
  le := hr.idx_le

theorem Emits.append (h : Emits p o o₁ a) (h' : Emits p o₁ o₂ b) : Emits p o o₂ (a ++ b) where
  poke := by
    refine poke_append h.poke ?_
    rw [Nat.add_assoc, ← h.idx]
    exact h'.poke
  idx := by
    rw [h'.idx, h.idx, length_append, Nat.add_assoc]
  le := h'.le

theorem lenLeft_eq {idx : ℕ} (hlt : len < 2 ^ 31) (hle : (idx : ℤ) ≤ len) :
    i32 (u32 (len - idx)) = len - idx := by
  rw [u32, i32]
  split <;> omega

theorem advance_eq_ok {r : Option (Bytes × ℕ)} (h : (o.advance r).run = some (.ok o')) :
    ∃ mem n, r = some (mem, n) ∧ n ≠ 0 ∧ o' = ⟨mem, u32 (o.idx + n)⟩ := by
  rcases r with _ | ⟨mem, _ | n⟩
  · exact nomatch h
  · exact nomatch h
  · exact ⟨mem, n + 1, rfl, Nat.succ_ne_zero n, (Except.ok.inj (some.inj h)).symm⟩

/-- The item of a word. -/
def wordItem (tag : EmTLVTag) (value : UInt32) : Item := ⟨tag.code, bytes32 value⟩

/-- The item of a buffer. -/
def bufItem (tag : EmTLVTag) (buf : Bytes) : Item := ⟨tag.code, padded buf⟩

theorem emits_wrtUint32 (hr : Room p o) {value : UInt32}
    (h : (o.wrtUint32 p tag value).run = some (.ok o')) :
    Emits p o o' (wordItem tag value).bytes := by
  obtain ⟨mem, n, hw, hn, rfl⟩ := advance_eq_ok h
  rw [lenLeft_eq hr.len_lt hr.idx_le, tlvWriteUint32] at hw
  split at hw
  case isTrue => exact absurd (congrArg Prod.snd (some.inj hw)).symm hn
  case isFalse hlen =>
    obtain ⟨mem', hmem, hw⟩ := bind_eq_some_iff.1 hw
    cases hw
    have hlt := hr.len_lt
    have hidx : u32 (o.idx + (12 : ℕ)) = o.idx + 12 := by
      rw [u32]
      omega
    refine ⟨hmem, ?_, ?_⟩
    · rw [hidx]
      rfl
    · dsimp only
      omega

/-- The padded buffer is written as zeros, and then over them the buffer. -/
theorem poke_padded {mem mem₁ mem₂ mem₃ buf head : Bytes} {off n : ℕ} (hn : (padded buf).length = n)
    (hle : buf.length ≤ n) (h₁ : poke mem off head = some mem₁)
    (h₂ : poke mem₁ (off + head.length) (List.replicate n 0) = some mem₂)
    (h₃ : poke mem₂ (off + head.length) buf = some mem₃) :
    poke mem off (head ++ padded buf) = some mem₃ := by
  have hzeros : List.replicate n (0 : UInt8) =
      List.replicate buf.length 0 ++ List.replicate (n - buf.length) 0 := by
    rw [← replicate_add]
    congr 1
    omega
  rw [length_padded] at hn
  rw [hzeros] at h₂
  rw [padded, hn]
  exact poke_append h₁ (poke_poke h₂ h₃ List.length_replicate.symm)

theorem emits_wrtBuf (hr : Room p o) {buf : Bytes} (hlen : buflen.toNat = buf.length)
    (hbuf : buf.length ≤ 2 ^ 30) (h : (o.wrtBuf p tag buflen buf).run = some (.ok o')) :
    Emits p o o' (bufItem tag buf).bytes := by
  obtain ⟨mem, n, hw, hn, rfl⟩ := advance_eq_ok h
  have hpad := length_padded buf
  have hround : u32 (buflen.toNat + 3) / 4 * 4 = (padded buf).length := by
    rw [hpad, hlen, u32]
    omega
  have hu : i32 (u32 (8 + (padded buf).length)) = 8 + (padded buf).length := by
    rw [u32, i32]
    split <;> omega
  rw [lenLeft_eq hr.len_lt hr.idx_le, tlvWriteBuf, hround] at hw
  split at hw
  case isTrue => exact absurd (congrArg Prod.snd (some.inj hw)).symm hn
  case isFalse hfits =>
    obtain ⟨mem₁, h₁, hw⟩ := bind_eq_some_iff.1 hw
    obtain ⟨mem₂, h₂, hw⟩ := bind_eq_some_iff.1 hw
    obtain ⟨data, hdata, hw⟩ := bind_eq_some_iff.1 hw
    obtain ⟨mem₃, h₃, hw⟩ := bind_eq_some_iff.1 hw
    cases hw
    have hpeek := peek_append [] hlen.symm
    rw [append_nil, hdata] at hpeek
    obtain rfl := some.inj hpeek.symm
    have hlt := hr.len_lt
    have hbytes : (bufItem tag buf).bytes.length = 8 + (padded buf).length := Item.length_bytes _
    have hidx : u32 (o.idx + (u32 ((padded buf).length + 8) : ℕ)) =
        o.idx + (bufItem tag buf).bytes.length := by
      rw [hbytes, u32, u32]
      omega
    refine ⟨?_, hidx, ?_⟩
    · rw [Item.bytes, ← append_assoc]
      exact poke_padded rfl (by omega) h₁ h₂ h₃
    · dsimp only
      omega

/-! ## Records as writes -/

/-- The item of a record: its value is the list of its items. -/
def recordItem (tag : EmTLVTag) (items : List Item) : Item := ⟨tag.code, items.flatMap Item.bytes⟩

/-- A writer of a record writes its items, whatever the memory. -/
def EmitsItems (p : Place) (writer : Output → Writer Output) (items : List Item) : Prop :=
  ∀ o o', Room p o → (writer o).run = some (.ok o') → Emits p o o' (items.flatMap Item.bytes)

theorem emitsItems_pure : EmitsItems p pure [] := by
  intro o o' hr h
  cases h
  exact .refl hr

theorem EmitsItems.bind {f g : Output → Writer Output} {items items' : List Item}
    (hf : EmitsItems p f items) (hg : EmitsItems p g items') :
    EmitsItems p (fun o => f o >>= g) (items ++ items') := by
  intro o o' hr h
  obtain ⟨o₁, h₁, h₂⟩ := writer_bind_eq_ok.1 h
  have he := hf o o₁ hr h₁
  rw [flatMap_append]
  exact he.append (hg o₁ o' (he.room hr) h₂)

theorem emitsItems_wrtUint32 (tag : EmTLVTag) (value : UInt32) :
    EmitsItems p (·.wrtUint32 p tag value) [wordItem tag value] := by
  intro o o' hr h
  exact emits_wrtUint32 hr h

theorem emitsItems_wrtBuf (tag : EmTLVTag) {buf : Bytes} (hlen : buflen.toNat = buf.length)
    (hbuf : buf.length ≤ 2 ^ 30) : EmitsItems p (·.wrtBuf p tag buflen buf) [bufItem tag buf] := by
  intro o o' hr h
  rw [flatMap_singleton]
  exact emits_wrtBuf hr hlen hbuf h

/-- A record that has been written is one item in the memory. -/
theorem tlvWriteRecord_eq_some {writer : Output → Writer Output} {items : List Item}
    {mem mem' : Bytes} (hw : EmitsItems p writer items) (hlen : p.len < 2 ^ 31)
    (hfits : p.output + p.len ≤ mem.length) (h : tlvWriteRecord tag writer mem p = some (mem', n))
    (hn : n ≠ 0) :
    poke mem p.output (recordItem tag items).bytes = some mem' ∧
      n = (recordItem tag items).bytes.length ∧ (n : ℤ) ≤ p.len := by
  rw [tlvWriteRecord] at h
  split at h
  case isTrue => exact absurd (congrArg Prod.snd (some.inj h)).symm hn
  case isFalse h8 =>
    obtain ⟨mem₁, htag, h⟩ := bind_eq_some_iff.1 h
    obtain ⟨r, hitems, h⟩ := bind_eq_some_iff.1 h
    rcases r with mem₂ | o
    · exact absurd (congrArg Prod.snd (some.inj h)).symm hn
    obtain ⟨mem₂, hsum, h⟩ := bind_eq_some_iff.1 h
    cases h
    have hr : Room p ⟨mem₁, 8⟩ := ⟨hlen, by simpa using h8, by rwa [length_poke htag]⟩
    have he := hw _ _ hr hitems
    have hidx : o.idx = 8 + (items.flatMap Item.bytes).length := he.idx
    have hbytes := (recordItem tag items).length_bytes
    refine ⟨?_, ?_, he.le⟩
    · -- the length of the record goes into the gap that was left for it
      rw [hidx, Nat.add_sub_cancel_left] at hsum
      exact poke_gap htag he.poke hsum rfl
    · rw [hbytes, hidx]
      rfl

/-! ## Reading a record -/

theorem tlvReadRecord_append {α : Type}
    {handler : UInt32 → UInt32 → Bytes → α → Option (Bool × α)} {items : List Item} {acc acc' : α}
    (h : Handles handler items acc acc') (rest : Bytes) (hlen : len < 2 ^ 31)
    (hle : (recordItem tag items).bytes.length ≤ len) :
    tlvReadRecord tag handler ((recordItem tag items).bytes ++ rest) len acc =
      some (acc', (recordItem tag items).bytes.length) := by
  have hbytes : (recordItem tag items).bytes.length = 8 + (items.flatMap Item.bytes).length :=
    Item.length_bytes _
  have hsum : u32 ((recordItem tag items).length.toNat + 8) =
      (recordItem tag items).bytes.length := by
    have hvalue : (recordItem tag items).value.length = (items.flatMap Item.bytes).length := rfl
    rw [Item.toNat_length (by omega), hbytes, u32]
    omega
  have hwalk : Tlv.walk handler ((recordItem tag items).bytes ++ rest) len
      (recordItem tag items).bytes.length ((recordItem tag items).bytes.length + 1) 8 acc =
        some (true, acc') := by
    have hitems : Tlv.walk handler ((bytes32 tag.code ++ bytes32 (recordItem tag items).length) ++
        (items.flatMap Item.bytes ++ rest)) len (recordItem tag items).bytes.length
        ((recordItem tag items).bytes.length + 1) 8 acc = some (true, acc') :=
      walk_items rfl hbytes hle hlen (by omega) h
    rwa [← append_assoc, append_assoc (bytes32 _)] at hitems
  rw [tlvReadRecord, readTl_item rest hle hlen, bind_eq_bind, bind_some]
  dsimp only
  rw [hsum, hwalk]
  simp [recordItem]

/-! ## Keys -/

/-- The items of a key. -/
def StorageObject.items (obj : StorageObject) : List Item :=
  (if obj.namesize ≠ 0 then [wordItem .objNameSize obj.namesize, bufItem .objName obj.name]
    else []) ++
  ((match obj.dataptr with
    | none => []
    | some data =>
      if obj.datasize ≠ 0 then [wordItem .objDataSize obj.datasize, bufItem .objDataBuf data]
      else []) ++
  [bufItem .objHashBuf obj.hashptr.toList, wordItem .objType obj.type, wordItem .objAttr obj.attr])

/-- The record of a key. -/
def StorageObject.bytes (obj : StorageObject) : Bytes := (recordItem .object obj.items).bytes

/-- A key as the store keeps it: the sizes are those of the name and of the data, and the hash is
    that of the data. -/
structure StorageObject.Wf (sha256 : Bytes → Hash) (obj : StorageObject) : Prop where
  namesize : obj.namesize.toNat = obj.name.length
  name_le : obj.name.length ≤ maxObjNameLen
  data : ∃ data, obj.dataptr = some data ∧ data ≠ [] ∧ data.length ≤ 2 ^ 30 ∧
    obj.datasize.toNat = data.length ∧ obj.hashptr = sha256 data

variable {sha256 : Bytes → Hash} {obj : StorageObject} {kmalloc : Kmalloc}

theorem emitsItems_wrtName (hobj : obj.Wf sha256) : EmitsItems p (wrtName p obj)
    (if obj.namesize ≠ 0 then [wordItem .objNameSize obj.namesize, bufItem .objName obj.name]
      else []) := by
  have hle : obj.name.length ≤ 2 ^ 30 := le_trans hobj.name_le (by decide)
  intro o o' hr h
  rw [wrtName] at h
  split_ifs at h ⊢
  · exact ((emitsItems_wrtUint32 _ _).bind (emitsItems_wrtBuf _ hobj.namesize hle)) o o' hr h
  · exact emitsItems_pure o o' hr h

theorem emitsItems_wrtData (hobj : obj.Wf sha256) : EmitsItems p (wrtData p obj)
    (match obj.dataptr with
      | none => []
      | some data =>
        if obj.datasize ≠ 0 then [wordItem .objDataSize obj.datasize, bufItem .objDataBuf data]
        else []) := by
  obtain ⟨data, hdata, -, hle, hsize, -⟩ := hobj.data
  intro o o' hr h
  rw [wrtData, hdata] at h
  rw [hdata]
  split_ifs at h ⊢
  · exact ((emitsItems_wrtUint32 _ _).bind (emitsItems_wrtBuf _ hsize hle)) o o' hr h
  · exact emitsItems_pure o o' hr h

theorem tlvWriteObject_eq_some {mem mem' : Bytes} (hobj : obj.Wf sha256) (hlen : p.len < 2 ^ 31)
    (hfits : p.output + p.len ≤ mem.length) (h : tlvWriteObject obj mem p = some (mem', n))
    (hn : n ≠ 0) :
    poke mem p.output obj.bytes = some mem' ∧ n = obj.bytes.length ∧ (n : ℤ) ≤ p.len := by
  refine tlvWriteRecord_eq_some ?_ hlen hfits h hn
  refine (emitsItems_wrtName hobj).bind ((emitsItems_wrtData hobj).bind ?_)
  have hhash : (32 : UInt32).toNat = obj.hashptr.toList.length := by
    rw [Vector.length_toList]
    rfl
  refine (emitsItems_wrtBuf .objHashBuf hhash (by rw [← hhash]; decide)).bind ?_
  exact (emitsItems_wrtUint32 .objType obj.type).bind (emitsItems_wrtUint32 .objAttr obj.attr)

/-- The head of the data, as it stands in the block. -/
def StorageBlockEncHead.bytes (h : StorageBlockEncHead) : Bytes :=
  (recordItem .head [wordItem .headSize h.blocksize, wordItem .headFlashSize h.flashsize]).bytes

theorem StorageBlockEncHead.length_bytes (h : StorageBlockEncHead) : h.bytes.length = 32 := rfl

theorem tlvWriteHead_eq_some {enchead : StorageBlockEncHead} {mem mem' : Bytes}
    (hlen : p.len < 2 ^ 31) (hfits : p.output + p.len ≤ mem.length)
    (h : tlvWriteHead enchead mem p = some (mem', n)) (hn : n ≠ 0) :
    poke mem p.output enchead.bytes = some mem' := by
  refine (tlvWriteRecord_eq_some ?_ hlen hfits h hn).1
  exact (emitsItems_wrtUint32 .headSize _).bind (emitsItems_wrtUint32 .headFlashSize _)

/-! ## What is read -/

theorem tlvReadHead_append (enchead enchead' : StorageBlockEncHead) (rest : Bytes) :
    tlvReadHead (enchead.bytes ++ rest) storageBlockEncHeadSize enchead' =
      some (enchead, enchead.bytes.length) := by
  refine tlvReadRecord_append ?_ rest (by decide) ?_
  · refine ⟨{ enchead' with blocksize := enchead.blocksize }, fun rest => ?_, enchead,
      fun rest => ?_, rfl⟩
    · rw [readHeadItem, wordItem, EmTLVTag.ofCode_code]
      rw [word32_bytes32_append]
      rfl
    · rw [readHeadItem, wordItem, EmTLVTag.ofCode_code]
      rw [word32_bytes32_append]
      rfl
  · change ((32 : ℕ) : ℤ) ≤ (512 : ℕ)
    decide

theorem readHash_append (hash : Hash) (rest : Bytes) :
    readHash (hash.toList ++ rest) = some hash := by
  have hlen : hash.toList.length = 32 := hash.length_toList
  rw [readHash, dif_pos (by rw [length_append]; omega), Option.some.injEq, ← Vector.toList_inj]
  exact take_left' hlen

section Handlers

variable {kmalloc : Kmalloc} (content : StorageObject)

/-- A word of an object is read into its field. -/
theorem readObjectItem_word (w : UInt32) (rest : Bytes) :
    readObjectItem kmalloc EmTLVTag.objNameSize.code 4 (bytes32 w ++ rest) content =
        some (true, { content with namesize := w }) ∧
      readObjectItem kmalloc EmTLVTag.objType.code 4 (bytes32 w ++ rest) content =
        some (true, { content with type := w }) ∧
      readObjectItem kmalloc EmTLVTag.objAttr.code 4 (bytes32 w ++ rest) content =
        some (true, { content with attr := w }) ∧
      readObjectItem kmalloc EmTLVTag.objDataSize.code 4 (bytes32 w ++ rest) content =
        some (true, { content with datasize := w }) := by
  simp [readObjectItem]

theorem readObjectItem_name {name : Bytes} {w : UInt32} (hw : content.namesize = w)
    (hlen : w.toNat = name.length) (hle : name.length ≤ maxObjNameLen) (n : UInt32) (rest : Bytes) :
    readObjectItem kmalloc EmTLVTag.objName.code n (padded name ++ rest) content =
      some (true, { content with name := name }) := by
  have hpeek := peek_padded_append name rest hlen.symm
  have hle' : ¬ maxObjNameLen < w.toNat := by rwa [hlen, not_lt]
  simp [readObjectItem, hw, hpeek, hle']

theorem readObjectItem_data {data : Bytes} {w : UInt32} (hw : content.datasize = w)
    (hlen : w.toNat = data.length) (hk : kmalloc.grants w.toNat = true) (n : UInt32)
    (rest : Bytes) :
    readObjectItem kmalloc EmTLVTag.objDataBuf.code n (padded data ++ rest) content =
      some (true, { content with dataptr := some data }) := by
  have hpeek := peek_padded_append data rest hlen.symm
  simp [readObjectItem, hw, hpeek, hk]

theorem readObjectItem_hash (hash : Hash) (rest : Bytes) :
    readObjectItem kmalloc EmTLVTag.objHashBuf.code (bufItem .objHashBuf hash.toList).length
      (padded hash.toList ++ rest) content = some (true, { content with hashptr := hash }) := by
  have hpad : padded hash.toList = hash.toList := by
    rw [padded, Vector.length_toList]
    exact append_nil _
  have hlength : (bufItem .objHashBuf hash.toList).length = 32 := by
    rw [bufItem, Item.length, hpad, Vector.length_toList]
    rfl
  rw [hlength, hpad]
  simp [readObjectItem, readHash_append]

end Handlers

/-- The items of a key give it back, as far as the memory for its data is granted. -/
theorem handles_items (hobj : obj.Wf sha256) (hk : kmalloc.grants obj.datasize.toNat = true) :
    Handles (readObjectItem kmalloc) obj.items .zero obj := by
  obtain ⟨data, hdata, hne, -, hsize, -⟩ := hobj.data
  have hdatasize : obj.datasize ≠ 0 := by
    intro h0
    rw [h0] at hsize
    exact hne (eq_nil_of_length_eq_zero hsize.symm)
  rw [items, hdata]
  dsimp only
  rw [if_pos hdatasize]
  -- the object as it is filled in, one field after the other
  let c₁ : StorageObject := { zero with namesize := obj.namesize }
  let c₂ : StorageObject := { c₁ with name := obj.name }
  let c₃ : StorageObject := { c₂ with datasize := obj.datasize }
  let c₄ : StorageObject := { c₃ with dataptr := some data }
  let c₅ : StorageObject := { c₄ with hashptr := obj.hashptr }
  let c₆ : StorageObject := { c₅ with type := obj.type }
  have hlast : { c₆ with attr := obj.attr } = obj := by
    change { obj with dataptr := some data } = obj
    rw [← hdata]
  refine Handles.append (show Handles _ _ _ c₂ from ?_) ?_
  · split_ifs with hname
    · exact ⟨c₁, fun rest => (readObjectItem_word .zero obj.namesize rest).1, c₂,
        fun rest => readObjectItem_name c₁ rfl hobj.namesize hobj.name_le _ rest, rfl⟩
    -- an empty name has no items
    have hname : obj.namesize = 0 := not_not.1 hname
    have hnil : obj.name = [] := by
      refine eq_nil_of_length_eq_zero ?_
      rw [← hobj.namesize, hname]
      rfl
    change zero =
      { zero with namesize := obj.namesize, name := obj.name }
    rw [hname, hnil]
    rfl
  · exact ⟨c₃, fun rest => (readObjectItem_word c₂ obj.datasize rest).2.2.2,
      c₄, fun rest => readObjectItem_data c₃ rfl hsize hk _ rest,
      c₅, fun rest => readObjectItem_hash c₄ obj.hashptr rest,
      c₆, fun rest => (readObjectItem_word c₅ obj.type rest).2.1,
      _, fun rest => (readObjectItem_word c₆ obj.attr rest).2.2.1, hlast⟩

/-- What is read of a key that was written is the key. -/
theorem tlvReadObject_append (hobj : obj.Wf sha256)
    (hk : kmalloc.grants obj.datasize.toNat = true) (rest : Bytes) (hlen : len < 2 ^ 31)
    (hle : obj.bytes.length ≤ len) :
    tlvReadObject kmalloc (obj.bytes ++ rest) len = some (obj, obj.bytes.length) :=
  tlvReadRecord_append (handles_items hobj hk) rest hlen hle

end CommonDrivers.Unifykey
