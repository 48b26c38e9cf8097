import CommonDrivers.Unifykey.Records

/-!
# Saving and loading the keys

The keys that the store can hold (`Built`) are well-formed and have different names
(`Built.wf`). When they have been saved to a block, a fresh store that loads the block holds the
same keys, in the opposite order, since a key that is read goes to the front of the list
(`loaded_keys`).
-/

namespace CommonDrivers.Unifykey

open Tlv List Option Nat StorageObject

variable {sha256 : Bytes → Hash} {kmalloc : Kmalloc} {s s' f r : State} {block block' : Bytes}
  {keys : List StorageObject} {obj : StorageObject} {g : StorageObject → StorageObject}
  {rawhead : StorageBlockRawHead} {enchead : StorageBlockEncHead} {n : ℤ}

/-! ## The objects of a block -/

/-- The objects are written one behind the other. The sizes are words, and the first object is
    only written if the low word of what is left is a positive `int`. -/
theorem writeObjects_eq_true {size : ℕ} {w w' : Written} (hkeys : ∀ obj ∈ keys, obj.Wf sha256)
    (hmem : w.mem.length = 1024 + size) (hidx : w.idx ≤ size % 2 ^ 32)
    (h : writeObjects size keys w = some (true, w')) :
    poke w.mem (1024 + w.idx) (keys.flatMap bytes) = some w'.mem ∧
      w'.idx = w.idx + (keys.flatMap bytes).length ∧ w'.idx ≤ size % 2 ^ 32 ∧
      (w'.idx = w.idx ∨ size % 2 ^ 32 < w.idx + 2 ^ 31) := by
  induction keys generalizing w with
  | nil =>
    cases h
    exact ⟨poke_nil (by omega), rfl, hidx, .inl rfl⟩
  | cons obj keys ih =>
    have hlen : i32 (u32 (size - w.idx)) < 2 ^ 31 ∧ i32 (u32 (size - w.idx)) ≤ size - w.idx ∧
        (0 < i32 (u32 (size - w.idx)) → size % 2 ^ 32 < w.idx + 2 ^ 31 ∧
          i32 (u32 (size - w.idx)) = (size % 2 ^ 32 : ℕ) - w.idx) := by
      rw [u32, i32]
      split <;> omega
    obtain ⟨hlt, hle, hpos⟩ := hlen
    rw [writeObjects] at h
    split at h
    case h_1 => cases h
    case h_2 mem n hobj =>
      split at h
      case isTrue => cases h
      rename_i hn
      obtain ⟨hpoke, rfl, hn'⟩ := tlvWriteObject_eq_some (hkeys obj mem_cons_self) hlt
        (by dsimp only; omega) hobj hn
      dsimp only at hpoke hn'
      obtain ⟨hz, hleft⟩ := hpos (by omega)
      have hnext : u32 (w.idx + (obj.bytes.length : ℕ)) = w.idx + obj.bytes.length := by
        rw [u32]
        omega
      rw [hnext] at h
      obtain ⟨hpoke', hidx', hle', -⟩ := ih (fun obj hobj => hkeys obj (mem_cons_of_mem _ hobj))
          (by rw [length_poke hpoke]; exact hmem) (by dsimp only; omega) h
      rw [flatMap_cons]
      refine ⟨poke_append hpoke (by rwa [Nat.add_assoc]), ?_, hle', .inr hz⟩
      rw [hidx', length_append, Nat.add_assoc]

theorem StorageObject.Wf.hash_eq (h : obj.Wf sha256) : obj.hash sha256 = some obj.hashptr := by
  obtain ⟨data, hdata, -, -, hsize, hhash⟩ := h.data
  have hpeek := peek_append [] hsize.symm
  rw [append_nil] at hpeek
  rw [hash, hdata, hhash]
  dsimp only
  rw [hpeek, map_some]

/-- The allocator has the memory for the keys. -/
structure HasMemory (kmalloc : Kmalloc) (keys : List StorageObject) : Prop where
  node : kmalloc.grants sizeofNode = true
  data : ∀ obj ∈ keys, kmalloc.grants obj.datasize.toNat = true

/-- The loop over the objects that were written: each of them goes to the front of the list. -/
theorem readObjects_flatMap (hkeys : ∀ obj ∈ keys, obj.Wf sha256) (hk : HasMemory kmalloc keys)
    {front rest : Bytes} {blocksize fuel idx : ℕ} (hidx : idx = front.length)
    (hsize : blocksize = idx + (keys.flatMap bytes).length) (hlt : blocksize < 2 ^ 31)
    (hfuel : blocksize < idx + fuel) (s : State) :
    readObjects sha256 kmalloc (front ++ (keys.flatMap bytes ++ rest)) blocksize fuel
      idx false s = some { s with keys := keys.reverse ++ s.keys } := by
  induction keys generalizing front idx fuel s with
  | nil =>
    obtain ⟨fuel, rfl⟩ : ∃ n, fuel = n + 1 := exists_eq_succ_of_ne_zero (by omega)
    rw [readObjects, if_pos (by rw [hsize]; exact le_refl _)]
    rfl
  | cons obj keys ih =>
    obtain ⟨fuel, rfl⟩ : ∃ n, fuel = n + 1 := exists_eq_succ_of_ne_zero (by omega)
    rw [flatMap_cons, length_append] at hsize
    have hobj := hkeys obj mem_cons_self
    have hbytes : 0 < obj.bytes.length := by
      rw [bytes, Item.length_bytes]
      omega
    -- the first object is read back
    have hread : tlvReadObject kmalloc ((front ++ ((obj :: keys).flatMap bytes ++ rest)).drop idx)
        (i32 (u32 (blocksize - idx))) = some (obj, obj.bytes.length) := by
      rw [hidx, drop_left, flatMap_cons, append_assoc, ← hidx]
      have hleft : i32 (u32 (blocksize - idx)) = blocksize - idx :=
        lenLeft_eq (by omega) (by omega)
      exact tlvReadObject_append hobj (hk.data obj mem_cons_self) _ (by omega) (by omega)
    have hnext : u32 (idx + (obj.bytes.length : ℕ)) = idx + obj.bytes.length := by
      rw [u32]
      omega
    have hrest : readObjects sha256 kmalloc
        (front ++ obj.bytes ++ (keys.flatMap bytes ++ rest)) blocksize fuel
        (idx + obj.bytes.length) false { s with keys := obj :: s.keys } =
          some { s with keys := keys.reverse ++ obj :: s.keys } :=
      ih (fun obj hobj => hkeys obj (mem_cons_of_mem _ hobj))
        ⟨hk.node, fun obj hobj => hk.data obj (mem_cons_of_mem _ hobj)⟩
        (by rw [length_append, hidx]) (by omega) (by omega) { s with keys := obj :: s.keys }
    rw [append_assoc, ← append_assoc obj.bytes, ← flatMap_cons] at hrest
    rw [readObjects, if_neg (by omega), if_neg (by simp [hk.node]), hread]
    dsimp only
    rw [if_neg hbytes.ne', hobj.hash_eq]
    dsimp only
    rw [if_neg (not_not.2 rfl), hnext, hrest, reverse_cons, append_assoc]
    rfl

/-! ## The raw head -/

section RawHead

variable {h : StorageBlockRawHead} (hmark : h.mark = StorageBlockRawHead.initial.mark)
  (rest : Bytes)

include hmark

theorem take_bytes_rawHead : (h.bytes ++ rest).take 44 = h.bytes.take 44 := by
  rw [StorageBlockRawHead.bytes, hmark]
  rfl

theorem cstr_bytes_rawHead : cstr ((h.bytes ++ rest).take 16) = blockmark := by
  rw [StorageBlockRawHead.bytes, hmark]
  rfl

theorem drop_bytes_rawHead :
    (h.bytes ++ rest).drop 24 = bytes32 h.keycnt ++ (bytes32 h.initcnt ++ (bytes32 h.wrtcnt ++
      (bytes32 h.errcnt ++ (bytes32 h.flags ++
        (h.headhash.toList ++ (h.hash.toList ++ rest)))))) := by
  rw [StorageBlockRawHead.bytes, hmark]
  simp only [append_assoc]
  rfl

theorem length_bytes_rawHead : h.bytes.length = 108 := by
  rw [StorageBlockRawHead.bytes, hmark]
  simp only [length_append, length_bytes32, Vector.length_toList]
  rfl

theorem drop_headhash_rawHead :
    (h.bytes ++ rest).drop 44 = h.headhash.toList ++ (h.hash.toList ++ rest) := by
  have hdrop := congrArg (drop 20) (drop_bytes_rawHead hmark rest)
  rwa [drop_drop] at hdrop

theorem drop_hash_rawHead : (h.bytes ++ rest).drop 76 = h.hash.toList ++ rest := by
  have hdrop := congrArg (drop 32) (drop_headhash_rawHead hmark rest)
  rwa [drop_drop, drop_left' h.headhash.length_toList] at hdrop

/-- The counters and flags are read as they were written, if the head carries its hash. -/
theorem readRawHead_bytes (hhash : h.headhash = sha256 (h.bytes.take 44)) :
    readRawHead sha256 (h.bytes ++ rest) .initial = some { StorageBlockRawHead.initial with
      headhash := h.headhash, keycnt := h.keycnt, initcnt := h.initcnt, wrtcnt := h.wrtcnt,
      errcnt := h.errcnt, flags := h.flags } := by
  have h24 := drop_bytes_rawHead hmark rest
  have h28 := congrArg (drop 4) h24
  have h32 := congrArg (drop 4) h28
  have h36 := congrArg (drop 4) h32
  have h40 := congrArg (drop 4) h36
  simp only [drop_drop, Nat.reduceAdd, drop_left' (length_bytes32 _)] at h28 h32 h36 h40
  have htake : ((h.bytes ++ rest).drop 44).take 32 = h.headhash.toList := by
    rw [drop_headhash_rawHead hmark]
    exact take_left' h.headhash.length_toList
  rw [readRawHead, take_bytes_rawHead hmark, ← hhash, htake, if_neg (not_not.2 rfl), h24, h28,
    h32, h36, h40]
  simp only [word32_bytes32_append]
  rfl

end RawHead

/-! ## A block that was written -/

/-- The keys of the store are well-formed, and no two of them have the same name. -/
structure State.Wf (sha256 : Bytes → Hash) (s : State) : Prop where
  mark : s.rawhead.mark = StorageBlockRawHead.initial.mark
  keys : ∀ obj ∈ s.keys, obj.Wf sha256
  names : (s.keys.map name).Nodup

/-- What a block holds after it was written, and what it says about the store. -/
structure Saved (sha256 : Bytes → Hash) (keys : List StorageObject) (rawhead : StorageBlockRawHead)
    (enchead : StorageBlockEncHead) (block : Bytes) : Prop where
  size : storageBlockEncHeadSize + storageBlockRawHeadSize < block.length
  raw : ∃ rest, block = rawhead.bytes ++ rest
  head : ∃ rest, block.drop 512 = enchead.bytes ++ rest
  objects : ∃ rest, block.drop 1024 = keys.flatMap bytes ++ rest
  headhash : rawhead.headhash = sha256 (rawhead.bytes.take 44)
  hash : rawhead.hash = sha256 (hashedData block)
  blocksize : enchead.blocksize.toNat = (keys.flatMap bytes).length
  blocksize_lt : enchead.blocksize.toNat < 2 ^ 31
  blocksize_le : enchead.blocksize.toNat + 1024 ≤ block.length

/-- The objects are in the block when the heads are written. -/
theorem saved_writeHeads (hmark : s.rawhead.mark = StorageBlockRawHead.initial.mark)
    (hsize : storageBlockEncHeadSize + storageBlockRawHeadSize < block.length)
    (hobjects : ∃ rest, block.drop 1024 = keys.flatMap bytes ++ rest)
    (hblocksize : s.enchead.blocksize.toNat = (keys.flatMap bytes).length)
    (hlt : s.enchead.blocksize.toNat < 2 ^ 31)
    (hle : s.enchead.blocksize.toNat + 1024 ≤ block.length)
    (h : writeHeads sha256 s block = some (s', block', n)) :
    s'.keys = s.keys ∧ s'.rawhead.mark = s.rawhead.mark ∧
      (n = 0 → Saved sha256 keys s'.rawhead s'.enchead block' ∧
        s'.rawhead.flags = s.rawhead.flags ∧ s'.rawhead.errcnt = s.rawhead.errcnt) := by
  rw [writeHeads] at h
  split at h
  case h_1 => exact nomatch h
  case h_2 block₁ _ hhead =>
    split at h
    case isTrue =>
      cases h
      exact ⟨rfl, rfl, nofun⟩
    case isFalse hn =>
      have hfits : ((512 : ℕ) : ℤ) + ((512 : ℕ) : ℤ) ≤ block.length := by omega
      have hpoke₁ : poke block 512 s.enchead.bytes = some block₁ :=
        tlvWriteHead_eq_some (show ((512 : ℕ) : ℤ) < 2 ^ 31 by decide) hfits hhead hn
      dsimp only at h
      split at h
      case h_1 => exact nomatch h
      case h_2 block₂ hraw =>
        cases h
        have hlen₁ := length_poke hpoke₁
        have hlen₂ := length_poke hraw
        -- the raw head ends before the head of the data, and that before the objects
        have hbehind : ∀ k, 512 ≤ k → block'.drop k = block₁.drop k := fun k hk =>
          drop_poke_of_le hraw (by rw [length_bytes_rawHead (by exact hmark)]; omega)
        refine ⟨rfl, rfl, fun _ => ⟨⟨by rw [hlen₂, hlen₁]; exact hsize, ?_, ?_, ?_, ?_, ?_,
          hblocksize, hlt, ?_⟩, rfl, rfl⟩⟩
        · exact drop_poke hraw
        · rw [hbehind 512 le_rfl]
          exact drop_poke hpoke₁
        · rw [hbehind 1024 (by decide),
            drop_poke_of_le hpoke₁ (by rw [s.enchead.length_bytes]; decide)]
          exact hobjects
        · rw [hmark]
          rfl
        · rw [hashedData, hashedData, storageBlockRawHeadSize, hbehind 512 le_rfl, hlen₂]
        · rw [hlen₂, hlen₁]
          exact hle

/-- Saving does not change the keys, whether it succeeds or not. -/
theorem saved_writetoblock (hs : s.Wf sha256)
    (h : normalkeyWritetoblock sha256 s block = some (s', block', n)) :
    s'.keys = s.keys ∧ s'.rawhead.mark = s.rawhead.mark ∧
      (n = 0 → Saved sha256 s.keys s'.rawhead s'.enchead block' ∧
        s'.rawhead.flags = s.rawhead.flags ∧ s'.rawhead.errcnt = s.rawhead.errcnt) := by
  rw [normalkeyWritetoblock] at h
  split at h
  case isTrue =>
    cases h
    exact ⟨rfl, rfl, nofun⟩
  split at h
  case isTrue =>
    cases h
    exact ⟨rfl, rfl, nofun⟩
  rename_i hsize
  have hsize : 1024 < block.length := not_le.1 hsize
  dsimp only at h
  split at h
  case h_1 => exact nomatch h
  case h_2 ok w hobjects =>
    split at h
    case isFalse =>
      cases h
      exact ⟨rfl, rfl, nofun⟩
    case isTrue hok =>
      subst hok
      obtain ⟨hpoke, hidx, hle, hlt⟩ := writeObjects_eq_true hs.keys
        (by simp [storageBlockRawHeadSize, storageBlockEncHeadSize]; omega) (Nat.zero_le _) hobjects
      have hmem := length_poke hpoke
      dsimp only [storageBlockEncHeadSize, storageBlockRawHeadSize] at hpoke hidx hle hlt hmem
      have hw : (UInt32.ofNat w.idx).toNat = w.idx := by
        rw [UInt32.toNat_ofNat', mod_eq_of_lt (by omega)]
      have hheads := saved_writeHeads (by exact hs.mark) (by rw [hmem]; exact hsize)
        (drop_poke hpoke) (by dsimp only; omega) (by dsimp only; omega) (by dsimp only; omega) h
      exact hheads

/-- The store before `normalkey_init`. -/
structure Fresh (f : State) : Prop where
  blockinited : f.blockinited = 0
  keys : f.keys = []

/-- The part of a saved block behind the raw head. -/
theorem Saved.readData (h : Saved sha256 keys rawhead enchead block)
    (hmark : rawhead.mark = StorageBlockRawHead.initial.mark)
    (hkeys : ∀ obj ∈ keys, obj.Wf sha256) (hk : HasMemory kmalloc keys) (s : State) :
    readData sha256 kmalloc s block = some { s with
      rawhead := { s.rawhead with hash := rawhead.hash }
      enchead := enchead
      keys := keys.reverse ++ s.keys } := by
  obtain ⟨rest, hraw⟩ := h.raw
  obtain ⟨rest₁, hhead⟩ := h.head
  obtain ⟨rest₂, hobjects⟩ := h.objects
  have hhash : (block.drop 76).take 32 = rawhead.hash.toList := by
    rw [hraw, drop_hash_rawHead hmark]
    exact take_left' rawhead.hash.length_toList
  have hdatasz : (enchead.blocksize + 1024).toNat = enchead.blocksize.toNat + 1024 := by
    have hlt := h.blocksize_lt
    rw [UInt32.toNat_add, mod_eq_of_lt]
    · rfl
    · change _ + 1024 < _
      omega
  rw [Unifykey.readData, storageBlockRawHeadSize]
  rw [hhash, ← h.hash, if_neg (not_not.2 rfl), hhead, tlvReadHead_append, ← hhead, drop_drop]
  dsimp only
  rw [if_neg (by rw [enchead.length_bytes]; decide), hdatasz, if_neg (not_lt.2 h.blocksize_le)]
  change readObjects sha256 kmalloc (block.drop 1024) _ _ 0 false _ = _
  rw [hobjects, ← nil_append (_ ++ _)]
  refine readObjects_flatMap hkeys hk rfl ?_ h.blocksize_lt (by omega) _
  rw [h.blocksize, length_nil, Nat.zero_add]

/-- A fresh store loads the keys of a block that was saved. -/
theorem Saved.readfromblock (h : Saved sha256 keys rawhead enchead block)
    (hmark : rawhead.mark = StorageBlockRawHead.initial.mark)
    (hkeys : ∀ obj ∈ keys, obj.Wf sha256) (hk : HasMemory kmalloc keys) (hf : Fresh f) :
    ∃ r, normalkeyReadfromblock sha256 kmalloc (normalkeyInit f).1 block = some (r, 0) ∧
      r.keys = keys.reverse ∧ r.rawhead.mark = StorageBlockRawHead.initial.mark ∧
      r.rawhead.flags = rawhead.flags ∧ r.rawhead.errcnt = rawhead.errcnt := by
  have hinit : (normalkeyInit f).1 = { f with blockinited := 1 } := by
    rw [normalkeyInit, if_neg (not_not.2 hf.blockinited)]
  obtain ⟨rest, hraw⟩ := h.raw
  have hmarked : cstr (block.take 16) = blockmark := by
    rw [hraw]
    exact cstr_bytes_rawHead hmark rest
  have hrawhead := readRawHead_bytes hmark rest h.headhash
  rw [← hraw] at hrawhead
  rw [hinit, normalkeyReadfromblock, if_neg (not_not.2 rfl), if_neg (not_le.2 h.size)]
  rw [if_neg (not_not.2 hmarked), hrawhead, bind_eq_bind, bind_some,
    h.readData hmark hkeys hk, bind_eq_bind, bind_some, hf.keys, append_nil]
  exact ⟨_, rfl, rfl, rfl, rfl, rfl⟩

/-! ## The keys of the store -/

theorem length_take_strlen (str : Bytes) :
    (str.take (strlen str).toNat).length = (strlen str).toNat := by
  have hle : (cstr str).length ≤ str.length := ( takeWhile_prefix _).length_le
  rw [length_take, strlen, UInt32.toNat_ofNat']
  omega

/-- A well-formed key has the name exactly if that is what its name field holds. -/
theorem StorageObject.Wf.isNamed_iff (h : obj.Wf sha256) (str : Bytes) :
    obj.isNamed str = true ↔ obj.name = str.take (strlen str).toNat := by
  rw [isNamed, decide_eq_true_iff]
  constructor
  · rintro ⟨hsize, hname⟩
    rw [hname, hsize, h.namesize, take_length]
  intro hname
  have hlen := congrArg length hname
  rw [length_take_strlen, ← h.namesize] at hlen
  refine ⟨(UInt32.toNat_inj.1 hlen).symm, ?_⟩
  rw [← hname, ← hlen, h.namesize, take_length]

theorem wf_new {str buffer : Bytes} (attr : UInt32) (hstr : (strlen str).toNat ≤ maxObjNameLen)
    (hne : buffer ≠ []) (hle : buffer.length ≤ 2 ^ 30) :
    (new sha256 str attr buffer).Wf sha256 where
  namesize := (length_take_strlen str).symm
  name_le := by
    rw [new, length_take_strlen]
    exact hstr
  data := by
    refine ⟨buffer, rfl, hne, hle, ?_, rfl⟩
    rw [new, UInt32.toNat_ofNat', mod_eq_of_lt (by omega)]

theorem StorageObject.Wf.setData (h : obj.Wf sha256) {buffer : Bytes} (hne : buffer ≠ [])
    (hle : buffer.length ≤ 2 ^ 30) : (obj.setData sha256 buffer).Wf sha256 :=
  { h with
    data := by
      refine ⟨buffer, rfl, hne, hle, ?_, rfl⟩
      rw [StorageObject.setData, UInt32.toNat_ofNat', mod_eq_of_lt (by omega)] }

theorem map_name_updateNamed (str : Bytes) (hg : ∀ obj, (g obj).name = obj.name)
    (keys : List StorageObject) : (updateNamed str g keys).map name = keys.map name := by
  induction keys with
  | nil => rfl
  | cons obj keys ih =>
    rw [updateNamed]
    split
    · rw [map_cons, map_cons, hg]
    · rw [map_cons, map_cons, ih]

theorem forall_updateNamed {P : StorageObject → Prop} (str : Bytes)
    (hg : ∀ obj, P obj → P (g obj)) {keys : List StorageObject} (h : ∀ obj ∈ keys, P obj) :
    ∀ obj ∈ updateNamed str g keys, P obj := by
  induction keys with
  | nil => exact h
  | cons obj keys ih =>
    obtain ⟨hobj, hkeys⟩ := forall_mem_cons.1 h
    rw [updateNamed]
    split
    · exact forall_mem_cons.2 ⟨hg obj hobj, hkeys⟩
    · exact forall_mem_cons.2 ⟨hobj, ih hkeys⟩

theorem State.Wf.normalkeyAdd (hs : s.Wf sha256) (kmalloc : Kmalloc) (name : Option Bytes)
    (buffer : Bytes) (attr : UInt32) :
    (normalkeyAdd sha256 kmalloc s name buffer attr).1.Wf sha256 := by
  rw [normalkeyAdd.eq_def]
  split
  case isTrue => exact hs
  split
  case h_1 => exact hs
  case h_2 str =>
    split
    case isTrue => exact hs
    rename_i hargs
    have hne : buffer ≠ [] := fun h => hargs (.inl h)
    split
    case isTrue => exact hs
    rename_i hstr
    split
    case h_1 obj hget =>
      have hobj := hs.keys obj (mem_of_find?_eq_some hget)
      split
      case isTrue => exact hs
      split
      case isTrue => exact hs
      rename_i hmem
      -- a buffer that is not longer than the data needs no memory
      have hle : buffer.length ≤ 2 ^ 30 := by
        obtain ⟨data, -, -, hle, hsize, -⟩ := hobj.data
        by_cases hlt : obj.datasize.toNat < buffer.length
        · exact kmalloc.bounded _ (by simpa [hlt] using hmem)
        · omega
      refine ⟨hs.mark, forall_updateNamed str (fun obj h => h.setData hne hle) hs.keys, ?_⟩
      have hnames := map_name_updateNamed str (g := (·.setData sha256 buffer)) (fun _ => rfl) s.keys
      exact hnames ▸ hs.names
    case h_2 hget =>
      split
      case isTrue => exact hs
      rename_i hmem
      rw [not_or, not_not, not_not] at hmem
      refine ⟨hs.mark, forall_mem_cons.2
        ⟨wf_new attr (not_lt.1 hstr) hne (kmalloc.bounded _ hmem.2), hs.keys⟩, ?_⟩
      rw [map_cons, nodup_cons]
      refine ⟨fun hmap => ?_, hs.names⟩
      obtain ⟨obj, hobj, hname⟩ := mem_map.1 hmap
      exact find?_eq_none.1 hget obj hobj (((hs.keys obj hobj).isNamed_iff str).2 hname)

theorem State.Wf.normalkeyDel (hs : s.Wf sha256) (name : Option Bytes) :
    (normalkeyDel s name).1.Wf sha256 := by
  rw [normalkeyDel.eq_def]
  split
  case isTrue => exact hs
  split
  case h_1 => exact hs
  case h_2 str =>
    split
    case h_1 => exact hs
    case h_2 =>
      exact ⟨hs.mark, fun obj hobj => hs.keys obj (mem_of_mem_eraseP hobj),
        hs.names.sublist ((eraseP_sublist).map _)⟩

theorem mark_readObjects {pdata : Bytes} {blocksize fuel idx : ℕ} {node : Bool}
    (h : readObjects sha256 kmalloc pdata blocksize fuel idx node s = some s') :
    s'.rawhead.mark = s.rawhead.mark := by
  induction fuel generalizing idx node s with
  | zero => exact nomatch h
  | succ fuel ih =>
    rw [readObjects] at h
    split at h
    · cases h
      rfl
    split at h
    · cases h
      rfl
    split at h
    case h_1 => exact nomatch h
    case h_2 obj n _ =>
      split at h
      · cases h
        rfl
      split at h
      case h_1 => exact nomatch h
      case h_2 =>
        split at h <;> exact (ih h).trans rfl

theorem mark_readData (h : readData sha256 kmalloc s block = some s') :
    s'.rawhead.mark = s.rawhead.mark := by
  rw [readData] at h
  split at h
  · cases h
    rfl
  split at h
  case h_1 => exact nomatch h
  case h_2 enchead n _ =>
    split at h
    · cases h
      rfl
    split at h
    · cases h
      rfl
    · exact (mark_readObjects h).trans rfl

theorem mark_readRawHead {h h' : StorageBlockRawHead} (hr : readRawHead sha256 block h = some h') :
    h'.mark = h.mark := by
  rw [readRawHead] at hr
  split at hr
  · cases hr
    rfl
  obtain ⟨_, -, hr⟩ := bind_eq_some_iff.1 hr
  obtain ⟨_, -, hr⟩ := bind_eq_some_iff.1 hr
  obtain ⟨_, -, hr⟩ := bind_eq_some_iff.1 hr
  obtain ⟨_, -, hr⟩ := bind_eq_some_iff.1 hr
  obtain ⟨_, -, hr⟩ := bind_eq_some_iff.1 hr
  cases hr
  rfl

/-- A store that has read a block, whatever was in it, carries the mark. -/
theorem mark_readfromblock (h : normalkeyReadfromblock sha256 kmalloc s block = some (s', 0)) :
    s'.rawhead.mark = StorageBlockRawHead.initial.mark := by
  rw [normalkeyReadfromblock] at h
  split at h
  case isTrue => exact nomatch (congrArg (·.2) (some.inj h) : (-1 : ℤ) = 0)
  split at h
  case isTrue => exact nomatch (congrArg (·.2) (some.inj h) : (-1 : ℤ) = 0)
  split at h
  case isTrue =>
    cases h
    rfl
  case isFalse =>
    obtain ⟨rawhead, hraw, h⟩ := bind_eq_some_iff.1 h
    obtain ⟨s₁, hdata, h⟩ := bind_eq_some_iff.1 h
    cases h
    rw [mark_readData hdata]
    exact (mark_readRawHead hraw).trans rfl

/-- The states of a store whose keys were all added with `normalkey_add`: it has started with a
    block without keys, and since then keys have been added and deleted, and the store has been
    saved and, after a restart, loaded again. -/
inductive Built (sha256 : Bytes → Hash) : State → Prop
  | blank {f s : State} {kmalloc : Kmalloc} {block : Bytes} (hf : Fresh f)
      (h : normalkeyReadfromblock sha256 kmalloc (normalkeyInit f).1 block = some (s, 0))
      (hkeys : s.keys = []) : Built sha256 s
  | add {s : State} (hs : Built sha256 s) (kmalloc : Kmalloc) (name : Option Bytes) (buffer : Bytes)
      (attr : UInt32) : Built sha256 (normalkeyAdd sha256 kmalloc s name buffer attr).1
  | del {s : State} (hs : Built sha256 s) (name : Option Bytes) :
      Built sha256 (normalkeyDel s name).1
  | write {s s' : State} {block block' : Bytes} {n : ℤ} (hs : Built sha256 s)
      (h : normalkeyWritetoblock sha256 s block = some (s', block', n)) : Built sha256 s'
  | reload {s s' f r : State} {kmalloc : Kmalloc} {block block' : Bytes} (hs : Built sha256 s)
      (h : normalkeyWritetoblock sha256 s block = some (s', block', 0)) (hf : Fresh f)
      (hk : HasMemory kmalloc s.keys)
      (hr : normalkeyReadfromblock sha256 kmalloc (normalkeyInit f).1 block' = some (r, 0)) :
      Built sha256 r

theorem Built.wf (h : Built sha256 s) : s.Wf sha256 := by
  induction h with
  | blank _ h hkeys =>
    refine ⟨mark_readfromblock h, ?_, ?_⟩
    · rw [hkeys]
      exact forall_mem_nil _
    · rw [hkeys]
      exact nodup_nil
  | add _ kmalloc name buffer attr ih => exact ih.normalkeyAdd kmalloc name buffer attr
  | del _ name ih => exact ih.normalkeyDel name
  | write _ h ih =>
    obtain ⟨hkeys, hmark, -⟩ := saved_writetoblock ih h
    exact ⟨hmark.trans ih.mark, hkeys ▸ ih.keys, hkeys ▸ ih.names⟩
  | reload _ h hf hk hr ih =>
    obtain ⟨-, hmark, hsaved⟩ := saved_writetoblock ih h
    obtain ⟨r, hr', hkeys, hmark', -⟩ :=
      (hsaved rfl).1.readfromblock (hmark.trans ih.mark) ih.keys hk hf
    rw [hr] at hr'
    cases hr'
    refine ⟨hmark', fun obj hobj => ?_, ?_⟩
    · rw [hkeys, mem_reverse] at hobj
      exact ih.keys obj hobj
    · rw [hkeys, map_reverse, nodup_reverse]
      exact ih.names

/-- A name picks out the same key of a list and of its reverse. -/
theorem State.Wf.find?_reverse (hs : s.Wf sha256) (str : Bytes) :
    s.keys.reverse.find? (·.isNamed str) = s.keys.find? (·.isNamed str) := by
  have hunique : ∀ obj ∈ s.keys, ∀ obj' ∈ s.keys, obj.isNamed str = true →
      obj'.isNamed str = true → obj = obj' := by
    intro obj hobj obj' hobj' h h'
    rw [(hs.keys obj hobj).isNamed_iff] at h
    rw [(hs.keys obj' hobj').isNamed_iff] at h'
    exact inj_on_of_nodup_map hs.names hobj hobj' (h.trans h'.symm)
  cases hfind : s.keys.find? (·.isNamed str) with
  | none =>
    rw [find?_eq_none] at hfind ⊢
    exact fun obj hobj => hfind obj (mem_reverse.1 hobj)
  | some obj =>
    have hobj := mem_of_find?_eq_some hfind
    have hnamed : obj.isNamed str = true := find?_some hfind
    obtain ⟨obj', hfind'⟩ := isSome_iff_exists.1 (find?_isSome.2 ⟨obj, mem_reverse.2 hobj, hnamed⟩)
    have hobj' := mem_reverse.1 (mem_of_find?_eq_some hfind')
    rw [hfind', hunique obj' hobj' obj hobj (find?_some hfind') hnamed]

/-- Loading what was saved: a fresh store gets the keys that were there, each of them with its name,
    data, attribute, type and hash, and finds each under its name. No error is counted, and no flag
    is raised. -/
theorem loaded_keys (hs : Built sha256 s)
    (hw : normalkeyWritetoblock sha256 s block = some (s', block', 0)) (hf : Fresh f)
    (hk : HasMemory kmalloc s.keys) : (normalkeyInit f).2 = 0 ∧
      ∃ r, normalkeyReadfromblock sha256 kmalloc (normalkeyInit f).1 block' = some (r, 0) ∧
        r.keys = s.keys.reverse ∧ (∀ name, normalkeyGet r name = normalkeyGet s name) ∧
        r.rawhead.flags = s.rawhead.flags ∧ r.rawhead.errcnt = s.rawhead.errcnt := by
  have hwf := hs.wf
  obtain ⟨-, hmark, hsaved⟩ := saved_writetoblock hwf hw
  obtain ⟨hsaved, hflags, herrcnt⟩ := hsaved rfl
  obtain ⟨r, hr, hkeys, -, hflags', herrcnt'⟩ :=
    hsaved.readfromblock (hmark.trans hwf.mark) hwf.keys hk hf
  refine ⟨?_, r, hr, hkeys, ?_, hflags'.trans hflags, herrcnt'.trans herrcnt⟩
  · rw [normalkeyInit, if_neg (not_not.2 hf.blockinited)]
  intro name
  cases name with
  | none => rfl
  | some str =>
    rw [normalkeyGet, normalkeyGet, hkeys]
    exact hwf.find?_reverse str

/-- A hash for the test below. -/
def sumHash : Bytes → Hash := fun data => Vector.replicate 32 data.sum

/-- An allocator that grants all it can. -/
def grantAll : Kmalloc where
  grants n := n ≤ 2 ^ 30
  bounded _ h := of_decide_eq_true h

/-- The store before its first use. -/
def unused : State := ⟨[], 0, .initial, ⟨0, 0⟩⟩

/-- The store after it has read an erased block. -/
def started : State := ⟨[], 2, .initial, ⟨0, 1400⟩⟩

/-- The store with the keys "k" of five bytes and "l" of three. -/
def twoKeys : State :=
  let s := (normalkeyAdd sumHash grantAll started (some [107]) [1, 2, 3, 4, 5] 0).1
  (normalkeyAdd sumHash grantAll s (some [108]) [6, 7, 8] 0).1

theorem loaded_keys_twoKeys : ∃ s' block' r,
    normalkeyWritetoblock sumHash twoKeys (replicate 1400 255) = some (s', block', 0) ∧
      normalkeyReadfromblock sumHash grantAll (normalkeyInit unused).1 block' = some (r, 0) ∧
      r.keys = [.new sumHash [107] 0 [1, 2, 3, 4, 5], .new sumHash [108] 0 [6, 7, 8]] := by
  have hread : normalkeyReadfromblock sumHash grantAll (normalkeyInit unused).1
      (replicate 1400 255) = some (started, 0) := by
    decide +kernel
  have hbuilt : Built sumHash twoKeys :=
    ((Built.blank ⟨rfl, rfl⟩ hread rfl).add _ _ _ _).add _ _ _ _
  have hok : (normalkeyWritetoblock sumHash twoKeys (replicate 1400 255)).map (·.2.2) =
      some 0 := by
    decide +kernel
  obtain ⟨⟨s', block', n⟩, hw, hn⟩ := map_eq_some_iff.1 hok
  obtain rfl : n = 0 := hn
  have hkeys : twoKeys.keys =
      [.new sumHash [108] 0 [6, 7, 8], .new sumHash [107] 0 [1, 2, 3, 4, 5]] := by
    decide +kernel
  have hk : HasMemory grantAll twoKeys.keys := by
    exact ⟨by decide +kernel, by decide +kernel⟩
  obtain ⟨-, r, hr, hrkeys, -⟩ := loaded_keys hbuilt hw (f := unused) ⟨rfl, rfl⟩ hk
  refine ⟨s', block', r, hw, hr, ?_⟩
  rw [hrkeys, hkeys]
  rfl

end CommonDrivers.Unifykey
