import CommonDrivers.Lib.Tlv

/-!
# The store of the normal keys

The keys (`storage_object`) are kept in a list, and saved to a block of the flash as nested
tag-length-value records. The block starts with a raw head of 512 bytes, that holds counters and
two hashes; then comes the head of the data, again in 512 bytes, and then one record for each key.

SHA-256 is a function `sha256` of the bytes. The memory allocator answers each request by its size
(`Kmalloc`); a call of the store takes the answers that it gets. A null block is the empty one, as
both are refused for their size, and so is a null buffer.

A result is `none` where the code reads or writes outside of the block or of an array, or does not
return.
-/

namespace CommonDrivers.Unifykey

open Tlv

abbrev Hash := Vector UInt8 32

/-- `enum emTLVTag`. -/
inductive EmTLVTag
  | none
  | head
  | headSize
  | object
  | objNameSize
  | objName
  | objDataSize
  | objDataBuf
  | objType
  | objAttr
  | objHashBuf
  | headFlashSize
  deriving DecidableEq

namespace EmTLVTag

def code : EmTLVTag → UInt32
  | none => 0
  | head => 1
  | headSize => 2
  | object => 3
  | objNameSize => 4
  | objName => 5
  | objDataSize => 6
  | objDataBuf => 7
  | objType => 8
  | objAttr => 9
  | objHashBuf => 10
  | headFlashSize => 11

/-- The tag of a word, as a `switch` sees it. -/
def ofCode (w : UInt32) : Option EmTLVTag :=
  [none, head, headSize, object, objNameSize, objName, objDataSize, objDataBuf, objType, objAttr,
    objHashBuf, headFlashSize].find? fun tag => tag.code = w

@[simp]
theorem ofCode_code (tag : EmTLVTag) : ofCode tag.code = some tag := by
  cases tag <;> rfl

end EmTLVTag

/-- `struct storage_object`, with `attr` for its `attribute`. The name is the bytes copied into the
    array, which is zero behind them or not read there. The data is the first `datasize` bytes at
    the pointer. -/
structure StorageObject where
  name : Bytes
  namesize : UInt32
  attr : UInt32
  type : UInt32
  datasize : UInt32
  dataptr : Option Bytes
  hashptr : Hash
  deriving DecidableEq

/-- `struct storage_block_raw_head`. -/
structure StorageBlockRawHead where
  mark : Bytes
  version : UInt32
  enctype : UInt32
  keycnt : UInt32
  initcnt : UInt32
  wrtcnt : UInt32
  errcnt : UInt32
  flags : UInt32
  headhash : Hash
  hash : Hash
  deriving DecidableEq

/-- `struct storage_block_enc_head`. -/
structure StorageBlockEncHead where
  blocksize : UInt32
  flashsize : UInt32
  deriving DecidableEq

/-- The static variables of the store. -/
structure State where
  keys : List StorageObject
  blockinited : ℕ
  rawhead : StorageBlockRawHead
  enchead : StorageBlockEncHead
  deriving DecidableEq

/-- The memory allocator: the sizes it grants. No version of it has a block of more than 1 GiB. -/
structure Kmalloc where
  grants : ℕ → Bool
  bounded : ∀ n, grants n = true → n ≤ 2 ^ 30

def maxObjNameLen : ℕ := 80

/-- `OBJ_ATTR_SECURE`. -/
def objAttrSecure : UInt32 := 1

/-- `OBJ_TYPE_GENERIC`. -/
def objTypeGeneric : UInt32 := 0xA00000BF

def storageBlockRawHeadSize : ℕ := 512

def storageBlockEncHeadSize : ℕ := 512

def errHeader : UInt32 := 0x1
def errKeymemfail : UInt32 := 0x2
def errKeyrdfail : UInt32 := 0x4
def errKeychkfail : UInt32 := 0x8
def errEnchdfail : UInt32 := 0x10
def errDatasz : UInt32 := 0x20

/-- `sizeof(struct storage_node)`. -/
def sizeofNode : ℕ := 152

/-- The characters of "AMLNORMAL". -/
def blockmark : Bytes := [65, 77, 76, 78, 79, 82, 77, 65, 76]

/-- The characters of a string, up to its end. -/
def cstr (bytes : Bytes) : Bytes := bytes.takeWhile (· ≠ 0)

/-! ## Writing records -/

def tlvWriteUint32 (mem : Bytes) (output : ℕ) (len : ℤ) (tag : EmTLVTag) (value : UInt32) :
    Option (Bytes × ℕ) :=
  if len < 12 then some (mem, 0)
  else do
    let mem ← poke mem output (bytes32 tag.code ++ (bytes32 4 ++ bytes32 value))
    some (mem, 12)

def tlvWriteBuf (mem : Bytes) (output : ℕ) (len : ℤ) (tag : EmTLVTag) (length : UInt32)
    (input : Bytes) : Option (Bytes × ℕ) :=
  let tmplen := u32 (length.toNat + 3) / 4 * 4
  if len < i32 (u32 (8 + tmplen)) then some (mem, 0)
  else do
    let mem ← poke mem output (bytes32 tag.code ++ bytes32 (.ofNat tmplen))
    let mem ← poke mem (output + 8) (List.replicate tmplen 0)
    let data ← peek input length.toNat
    let mem ← poke mem (output + 8) data
    some (mem, u32 (tmplen + 8))

/-- A record that is being written: the memory, and the offset of the next item in the record. -/
structure Output where
  mem : Bytes
  idx : ℕ

/-- A step in writing a record: it may end the function, which then returns 0. -/
abbrev Writer (α : Type) := ExceptT Bytes Option α

/-- Where a record is written, and how long it may get. -/
structure Place where
  output : ℕ
  len : ℤ

namespace Output

/-- The offset goes on by what has been written; if that is nothing, the function returns 0. -/
def advance (o : Output) : Option (Bytes × ℕ) → Writer Output
  | none => .mk none
  | some (mem, 0) => .mk (some (.error mem))
  | some (mem, tmp) => .mk (some (.ok ⟨mem, u32 (o.idx + tmp)⟩))

/-- `WRT_UINT32`. -/
def wrtUint32 (p : Place) (tag : EmTLVTag) (field : UInt32) (o : Output) : Writer Output :=
  o.advance (tlvWriteUint32 o.mem (p.output + o.idx) (i32 (u32 (p.len - o.idx))) tag field)

/-- `WRT_BUF`. -/
def wrtBuf (p : Place) (tag : EmTLVTag) (buflen : UInt32) (buf : Bytes) (o : Output) :
    Writer Output :=
  o.advance (tlvWriteBuf o.mem (p.output + o.idx) (i32 (u32 (p.len - o.idx))) tag buflen buf)

end Output

/-- What `Tlv_WriteHead` and `Tlv_WriteObject` have in common: the tag, the items, and then the
    length of the record. -/
def tlvWriteRecord (tag : EmTLVTag) (items : Output → Writer Output) (mem : Bytes) (p : Place) :
    Option (Bytes × ℕ) :=
  if p.len < 8 then some (mem, 0)
  else do
    let mem ← poke mem p.output (bytes32 tag.code)
    match ← (items ⟨mem, 8⟩).run with
    | .error mem => some (mem, 0)
    | .ok o =>
      let mem ← poke o.mem (p.output + 4) (bytes32 (.ofNat (o.idx - 8)))
      some (mem, o.idx)

def tlvWriteHead (enchead : StorageBlockEncHead) (mem : Bytes) (p : Place) : Option (Bytes × ℕ) :=
  tlvWriteRecord .head (fun o => do
    let o ← o.wrtUint32 p .headSize enchead.blocksize
    o.wrtUint32 p .headFlashSize enchead.flashsize) mem p

/-- The items of the name; there are none for an empty one. -/
def wrtName (p : Place) (object : StorageObject) (o : Output) : Writer Output :=
  if object.namesize ≠ 0 then do
    let o ← o.wrtUint32 p .objNameSize object.namesize
    o.wrtBuf p .objName object.namesize object.name
  else pure o

/-- The items of the data. -/
def wrtData (p : Place) (object : StorageObject) (o : Output) : Writer Output :=
  match object.dataptr with
  | none => pure o
  | some data =>
    if object.datasize ≠ 0 then do
      let o ← o.wrtUint32 p .objDataSize object.datasize
      o.wrtBuf p .objDataBuf object.datasize data
    else pure o

def tlvWriteObject (object : StorageObject) (mem : Bytes) (p : Place) : Option (Bytes × ℕ) :=
  tlvWriteRecord .object (fun o => do
    let o ← wrtName p object o
    let o ← wrtData p object o
    let o ← o.wrtBuf p .objHashBuf 32 object.hashptr.toList
    let o ← o.wrtUint32 p .objType object.type
    o.wrtUint32 p .objAttr object.attr) mem p

/-! ## Reading records -/

/-- What `Tlv_ReadHead` and `Tlv_ReadObject` have in common: the tag and the length of the record,
    and then the loop over its items. Each iteration that does not stay where it is goes on by at
    least one byte, and none goes beyond `len`. -/
def tlvReadRecord {α : Type} (tag : EmTLVTag)
    (handler : UInt32 → UInt32 → Bytes → α → Option (Bool × α)) (input : Bytes) (len : ℤ)
    (content : α) : Option (α × ℕ) := do
  match ← readTl input len with
  | none => some (content, 0)
  | some (tag', sum) =>
    if tag' ≠ tag.code then some (content, 0)
    else
      let sum := u32 (sum.toNat + 8)
      match ← Tlv.walk handler input len sum (sum + 1) 8 content with
      | (false, content) => some (content, 0)
      | (true, content) => some (content, sum)

def readHeadItem (tag : UInt32) (_length : UInt32) (value : Bytes)
    (blockhead : StorageBlockEncHead) : Option (Bool × StorageBlockEncHead) :=
  match EmTLVTag.ofCode tag with
  | some .headSize => do
    let w ← word32 value
    some (true, { blockhead with blocksize := w })
  | some .headFlashSize => do
    let w ← word32 value
    some (true, { blockhead with flashsize := w })
  | _ => some (true, blockhead)

def tlvReadHead (input : Bytes) (len : ℤ) (blockhead : StorageBlockEncHead) :
    Option (StorageBlockEncHead × ℕ) := tlvReadRecord .head readHeadItem input len blockhead

/-- The 32 bytes of a hash. -/
def readHash (value : Bytes) : Option Hash :=
  if h : 32 ≤ value.length then
    some ⟨(value.take 32).toArray, by rw [List.size_toArray, List.length_take]; omega⟩
  else none

def readObjectItem (kmalloc : Kmalloc) (tag length : UInt32) (value : Bytes)
    (content : StorageObject) : Option (Bool × StorageObject) :=
  match EmTLVTag.ofCode tag with
  | some .objNameSize => do
    let w ← word32 value
    some (true, { content with namesize := w })
  | some .objName =>
    -- a longer name leaves the array
    if maxObjNameLen < content.namesize.toNat then none
    else do
      let name ← peek value content.namesize.toNat
      some (true, { content with name := name })
  | some .objType => do
    let w ← word32 value
    some (true, { content with type := w })
  | some .objAttr => do
    let w ← word32 value
    some (true, { content with attr := w })
  | some .objDataSize => do
    let w ← word32 value
    some (true, { content with datasize := w })
  | some .objHashBuf =>
    if length ≠ 32 then some (false, content)
    else do
      let hash ← readHash value
      some (true, { content with hashptr := hash })
  | some .objDataBuf =>
    if kmalloc.grants content.datasize.toNat then do
      let data ← peek value content.datasize.toNat
      some (true, { content with dataptr := some data })
    else some (false, { content with dataptr := none })
  | _ => some (true, content)

/-- An object after `memset`. -/
def StorageObject.zero : StorageObject where
  name := []
  namesize := 0
  attr := 0
  type := 0
  datasize := 0
  dataptr := none
  hashptr := Vector.replicate 32 0

def tlvReadObject (kmalloc : Kmalloc) (input : Bytes) (len : ℤ) : Option (StorageObject × ℕ) :=
  tlvReadRecord .object (readObjectItem kmalloc) input len .zero

/-! ## The keys -/

def normalkeyInit (s : State) : State × ℤ :=
  if s.blockinited ≠ 0 then (s, -1) else ({ s with blockinited := 1 }, 0)

def normalkeyDeinit (s : State) : State :=
  if s.blockinited = 0 then s else { s with blockinited := 0, keys := [] }

/-- The length of a name, as an `unsigned int`. -/
def strlen (name : Bytes) : UInt32 := .ofNat (cstr name).length

/-- The object has the name. -/
def StorageObject.isNamed (name : Bytes) (obj : StorageObject) : Bool :=
  strlen name = obj.namesize ∧ name.take (strlen name).toNat = obj.name.take (strlen name).toNat

def normalkeyGet (s : State) : Option Bytes → Option StorageObject
  | none => none
  | some name => s.keys.find? (·.isNamed name)

section

variable (sha256 : Bytes → Hash)

/-- The object with other data. -/
def StorageObject.setData (obj : StorageObject) (buffer : Bytes) : StorageObject :=
  { obj with datasize := .ofNat buffer.length, dataptr := some buffer, hashptr := sha256 buffer }

/-- A new object. -/
def StorageObject.new (name : Bytes) (attr : UInt32) (buffer : Bytes) : StorageObject where
  name := name.take (strlen name).toNat
  namesize := strlen name
  attr := attr
  type := objTypeGeneric
  datasize := .ofNat buffer.length
  dataptr := some buffer
  hashptr := sha256 buffer

/-- Changes the first object of the name. -/
def updateNamed (name : Bytes) (f : StorageObject → StorageObject) :
    List StorageObject → List StorageObject
  | [] => []
  | obj :: keys => if obj.isNamed name then f obj :: keys else obj :: updateNamed name f keys

/-- The buffer has the `len` bytes that the caller passes. -/
def normalkeyAdd (kmalloc : Kmalloc) (s : State) (name : Option Bytes) (buffer : Bytes)
    (attr : UInt32) : State × ℤ :=
  if s.blockinited ≠ 2 then (s, -1)
  else
    match name with
    | none => (s, -1)
    | some str =>
      if buffer = [] ∨ attr &&& objAttrSecure ≠ 0 then (s, -1)
      else if maxObjNameLen < (strlen str).toNat then (s, -1)
      else
        match normalkeyGet s name with
        | some obj =>
          if attr ≠ obj.attr then (s, -1)
          else if obj.datasize.toNat < buffer.length ∧ ¬ kmalloc.grants buffer.length then (s, -1)
          else ({ s with keys := updateNamed str (·.setData sha256 buffer) s.keys }, 0)
        | none =>
          if ¬ kmalloc.grants sizeofNode ∨ ¬ kmalloc.grants buffer.length then (s, -1)
          else ({ s with keys := .new sha256 str attr buffer :: s.keys }, 0)

def normalkeyDel (s : State) (name : Option Bytes) : State × ℤ :=
  if s.blockinited ≠ 2 then (s, -1)
  else
    match name with
    | none => (s, -1)
    | some str =>
      match normalkeyGet s name with
      | none => (s, -1)
      | some _ => ({ s with keys := s.keys.eraseP (·.isNamed str) }, 0)

/-! ## The block -/

/-- The raw head as it stands in the block. -/
def StorageBlockRawHead.bytes (h : StorageBlockRawHead) : Bytes :=
  h.mark ++ (bytes32 h.version ++ (bytes32 h.enctype ++ (bytes32 h.keycnt ++ (bytes32 h.initcnt ++
    (bytes32 h.wrtcnt ++ (bytes32 h.errcnt ++ (bytes32 h.flags ++ (h.headhash.toList ++
      h.hash.toList))))))))

/-- The raw head before a block is read. -/
def StorageBlockRawHead.initial : StorageBlockRawHead where
  mark := blockmark ++ List.replicate 7 0
  version := 0
  enctype := 0
  keycnt := 0
  initcnt := 0
  wrtcnt := 0
  errcnt := 0
  flags := 0
  headhash := Vector.replicate 32 0
  hash := Vector.replicate 32 0

/-- The data of the block that its hash is about. -/
def hashedData (block : Bytes) : Bytes :=
  (block.drop storageBlockRawHeadSize).take (u32 (block.length - storageBlockRawHeadSize))

def State.raise (s : State) (flag : UInt32) : State :=
  { s with rawhead := { s.rawhead with flags := s.rawhead.flags ||| flag } }

/-- The counters and flags of the block, if the hash of the head is right. -/
def readRawHead (block : Bytes) (h : StorageBlockRawHead) : Option StorageBlockRawHead :=
  let headhash := sha256 (block.take 44)
  if headhash.toList ≠ (block.drop 44).take 32 then
    some { h with headhash := headhash, flags := h.flags ||| errHeader }
  else do
    let keycnt ← word32 (block.drop 24)
    let initcnt ← word32 (block.drop 28)
    let wrtcnt ← word32 (block.drop 32)
    let errcnt ← word32 (block.drop 36)
    let flags ← word32 (block.drop 40)
    some { h with
      headhash := headhash, keycnt := keycnt, initcnt := initcnt, wrtcnt := wrtcnt,
      errcnt := errcnt, flags := flags }

/-- `normalkey_hash` of the data of an object. -/
def StorageObject.hash (obj : StorageObject) : Option Hash :=
  match obj.dataptr with
  | none => if obj.datasize = 0 then some (sha256 []) else none
  | some data => (peek data obj.datasize.toNat).map sha256

/-- The loop over the objects. `node` says that there is a node from an object that was not right.
    Each iteration goes on by at least one byte, and none goes beyond `blocksize`. -/
def readObjects (kmalloc : Kmalloc) (pdata : Bytes) (blocksize : ℕ) :
    ℕ → ℕ → Bool → State → Option State
  | 0, _, _, _ => none
  | fuel + 1, idx, node, s =>
    if blocksize ≤ idx then some s
    else if ¬ node ∧ ¬ kmalloc.grants sizeofNode then some (s.raise errKeymemfail)
    else
      match tlvReadObject kmalloc (pdata.drop idx) (i32 (u32 (blocksize - idx))) with
      | none => none
      | some (obj, ret) =>
        if ret = 0 then some (s.raise errKeyrdfail)
        else
          match obj.hash sha256 with
          | none => none
          | some hash =>
            if hash ≠ obj.hashptr then
              readObjects kmalloc pdata blocksize fuel (u32 (idx + ret)) true
                (s.raise errKeychkfail)
            else
              readObjects kmalloc pdata blocksize fuel (u32 (idx + ret)) false
                { s with keys := obj :: s.keys }

/-- The part of `normalkey_readfromblock` behind the raw head. -/
def readData (kmalloc : Kmalloc) (s : State) (block : Bytes) : Option State :=
  let penchead := block.drop storageBlockRawHeadSize
  let s := { s with rawhead := { s.rawhead with hash := sha256 (hashedData block) } }
  if s.rawhead.hash.toList ≠ (block.drop 76).take 32 then
    some { s with rawhead := { s.rawhead with errcnt := s.rawhead.errcnt + 1 } }
  else
    match tlvReadHead penchead storageBlockEncHeadSize s.enchead with
    | none => none
    | some (enchead, ret) =>
      let s := { s with enchead := enchead }
      if ret = 0 then some (s.raise errEnchdfail)
      -- the sum is one of `u32`
      else if block.length < (enchead.blocksize + 1024).toNat then some (s.raise errDatasz)
      else
        readObjects sha256 kmalloc (penchead.drop storageBlockEncHeadSize)
          enchead.blocksize.toNat (enchead.blocksize.toNat + 1) 0 false s

def normalkeyReadfromblock (kmalloc : Kmalloc) (s : State) (block : Bytes) : Option (State × ℤ) :=
  if s.blockinited ≠ 1 then some (s, -1)
  else if block.length ≤ storageBlockEncHeadSize + storageBlockRawHeadSize then some (s, -1)
  else
    let s := { s with
      blockinited := 2
      rawhead := .initial
      enchead := { s.enchead with flashsize := .ofNat block.length } }
    if cstr (block.take 16) ≠ blockmark then some (s, 0)
    else do
      let rawhead ← readRawHead sha256 block s.rawhead
      let s ← readData sha256 kmalloc
        { s with rawhead := { rawhead with initcnt := rawhead.initcnt + 1 } } block
      some (s, 0)

end

/-- The objects of the block as they are written. -/
structure Written where
  mem : Bytes
  idx : ℕ
  keycnt : UInt32

/-- The loop over the keys; the answer is `false` when an object has no place in the block. -/
def writeObjects (size : ℕ) : List StorageObject → Written → Option (Bool × Written)
  | [], w => some (true, w)
  | obj :: keys, w =>
    match tlvWriteObject obj w.mem ⟨1024 + w.idx, i32 (u32 (size - w.idx))⟩ with
    | none => none
    | some (mem, ret) =>
      if ret = 0 then some (false, { w with mem := mem })
      else writeObjects size keys ⟨mem, u32 (w.idx + ret), w.keycnt + 1⟩

/-- The end of `normalkey_writetoblock`: the head of the data and the raw head. -/
def writeHeads (sha256 : Bytes → Hash) (s : State) (block : Bytes) : Option (State × Bytes × ℤ) :=
  match tlvWriteHead s.enchead block ⟨storageBlockRawHeadSize, storageBlockEncHeadSize⟩ with
  | none => none
  | some (block, ret) =>
    if ret = 0 then some (s, block, -1)
    else
      let rawhead := { s.rawhead with wrtcnt := s.rawhead.wrtcnt + 1 }
      let rawhead := { rawhead with
        headhash := sha256 (rawhead.bytes.take 44), hash := sha256 (hashedData block) }
      match poke block 0 rawhead.bytes with
      | none => none
      | some block => some ({ s with rawhead := rawhead }, block, 0)

def normalkeyWritetoblock (sha256 : Bytes → Hash) (s : State) (block : Bytes) :
    Option (State × Bytes × ℤ) :=
  if s.blockinited ≠ 2 then some (s, block, -1)
  else if block.length ≤ storageBlockEncHeadSize + storageBlockRawHeadSize then some (s, block, -1)
  else
    let size := block.length - (storageBlockEncHeadSize + storageBlockRawHeadSize)
    match writeObjects size s.keys ⟨block, 0, 0⟩ with
    | none => none
    | some (ok, w) =>
      let s := { s with
        rawhead := { s.rawhead with keycnt := w.keycnt }
        enchead := { s.enchead with flashsize := .ofNat block.length } }
      if ok then
        writeHeads sha256 { s with enchead := { s.enchead with blocksize := .ofNat w.idx } } w.mem
      else some (s, w.mem, -1)

end CommonDrivers.Unifykey
