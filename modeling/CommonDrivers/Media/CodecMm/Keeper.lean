import CommonDrivers.Lib.Word

/-!
# The frame keeper

The keeper holds the memory of frames that are still shown (`codec_mm_keeper.c`). It is
*masked* to keep a handle and *unmasked* with the id that was returned, which lowers the
users of an entry; `codec_mm_keeper_free_all_keep` gives the memory of the entries without
users back.
-/

namespace CommonDrivers.Media.CodecMm

/-- `MAX_KEEP_FRAME`. -/
def maxKeepFrame : ℕ := 64

/-- `START_KEEP_ID`. -/
def startKeepId : ℤ := 9

/-- `MAX_KEEP_ID`. -/
def maxKeepId : ℤ := 2 ^ 31 - 2

/-- The type of a handle; the last is of none that is known. -/
inductive MemType where
  | codecMm
  | codecMmScatter
  | other
  deriving DecidableEq

/-- `struct keep_mem_info`. -/
structure KeepMemInfo where
  handle : Option ℕ
  keepId : ℤ
  type : MemType
  user : ℤ
  delayOnJiffies64 : ℕ
  deriving DecidableEq

/-- `struct codec_mm_keeper_mgr`, with the references it has on each handle and the ids
    that are out, each with the handle it was returned for. -/
structure Keeper where
  num : ℤ
  keepList : List KeepMemInfo
  nextId : ℤ
  refs : ℕ → ℤ
  ids : List (ℤ × ℕ)

namespace Keeper

/-- `codec_mm_keeper_mgr_init`. -/
def init : Keeper where
  num := 0
  keepList := List.replicate maxKeepFrame ⟨none, 0, .other, 0, 0⟩
  nextId := startKeepId
  refs _ := 0
  ids := []

/-- The references on a handle change: `codec_mm_scatter_inc_for_keeper` and
    `codec_mm_request_shared_mem`, or `codec_mm_scatter_dec_keeper_user` and
    `codec_mm_release_with_check`. -/
def addRef (k : Keeper) (handle : ℕ) (n : ℤ) : Keeper :=
  { k with refs := Function.update k.refs handle (k.refs handle + n) }

/-- The id for the next entry, and the keeper with that after it. -/
def nextIdAfter (id : ℤ) : ℤ := if id + 1 ≥ maxKeepId then startKeepId else id + 1

/-- The loop of `codec_mm_keeper_mask_keep_mem`: the first entry without a handle, with its
    place, and the id of the one with this handle, at which it ends. -/
def findKeep (handle : ℕ) : List KeepMemInfo → (i : ℕ) → Option (ℕ × KeepMemInfo) →
    Option (ℕ × KeepMemInfo) × Option ℤ
  | [], _, slot => (slot, none)
  | info :: l, i, slot =>
    if info.handle = none ∧ slot = none then findKeep handle l (i + 1) (some (i, info))
    else if info.handle = some handle then (slot, some info.keepId)
    else findKeep handle l (i + 1) slot

/-- `codec_mm_keeper_mask_keep_mem` of a handle, if it is one, and what it returns. The
    memory may not be had. -/
def maskKeepMem (k : Keeper) (memHandle : Option ℕ) (type : MemType) (ok : Bool) : Keeper × ℤ :=
  match memHandle with
  | none => (k, -2)
  | some handle =>
    if type = .other then (k, -3)
    else if ¬ ok then (k, -4)
    else
      let k := k.addRef handle 1
      let keepId := k.nextId
      let k := { k with nextId := nextIdAfter k.nextId }
      match findKeep handle k.keepList 0 none with
      | (_, some keepId) => (k.addRef handle (-1), keepId)
      | (none, none) => (k.addRef handle (-1), -1)
      | (some (i, info), none) =>
        ({ k with
          keepList := k.keepList.set i { info with handle := some handle, keepId, type, user := 1 }
          num := k.num + 1 }, keepId)

/-- The loop of `codec_mm_keeper_unmask_keeper`, up to the entry with the id. -/
def unmaskLoop (keepId : ℤ) (delayOn : ℕ) : List KeepMemInfo → List KeepMemInfo
  | [] => []
  | info :: l =>
    if keepId = info.keepId then
      { info with user := i32 (u32 (info.user - 1)), delayOnJiffies64 := delayOn } :: l
    else info :: unmaskLoop keepId delayOn l

/-- `codec_mm_keeper_unmask_keeper`. -/
def unmaskKeeper (k : Keeper) (keepId : ℤ) (delayOn : ℕ) : Keeper :=
  if keepId < startKeepId ∨ keepId ≥ maxKeepId then k
  else { k with keepList := unmaskLoop keepId delayOn k.keepList }

/-- `codec_mm_keeper_free_keep`. -/
def freeKeep (k : Keeper) (i : ℕ) (info : KeepMemInfo) : Keeper :=
  let k :=
    { k with
      keepList := k.keepList.set i { info with handle := none, delayOnJiffies64 := 0 }
      num := k.num - 1 }
  match info.handle with
  | none => k
  | some handle => if info.type = .other then k else k.addRef handle (-1)

/-- `time_after64`. -/
def timeAfter64 (a b : ℕ) : Prop := 2 ^ 63 ≤ ((b : ℤ) - a) % 2 ^ 64

instance (a b : ℕ) : Decidable (timeAfter64 a b) := inferInstanceAs (Decidable (_ ≤ _))

/-- An entry is to be freed. -/
def wantFree (force : ℤ) (jiffies : ℕ) (info : KeepMemInfo) : Prop :=
  force = 1 ∨ (force = 2 ∧ info.user ≤ 0) ∨
    (info.user ≤ 0 ∧ timeAfter64 jiffies info.delayOnJiffies64)

instance (force : ℤ) (jiffies : ℕ) (info : KeepMemInfo) : Decidable (wantFree force jiffies info) :=
  inferInstanceAs (Decidable (_ ∨ _))

/-- A turn of the loop of `codec_mm_keeper_free_all_keep`. -/
def freeTurn (force : ℤ) (jiffies : ℕ) (k : Keeper) (i : ℕ) : Keeper :=
  match k.keepList[i]? with
  | none => k
  | some info =>
    if info.handle = none ∨ info.keepId < 0 then k
    else if wantFree force jiffies info then k.freeKeep i info
    else k

/-- `codec_mm_keeper_free_all_keep`. -/
def freeAllKeep (k : Keeper) (force : ℤ) (jiffies : ℕ) : Keeper :=
  (List.range maxKeepFrame).foldl (freeTurn force jiffies) k

/-- The calls. An id is unmasked that is out, for the handle it was returned for. -/
inductive Op where
  | mask (memHandle : Option ℕ) (type : MemType) (ok : Bool)
  | unmask (keepId : ℤ) (handle : ℕ) (delayOn : ℕ)
  | freeAll (force : ℤ) (jiffies : ℕ)

/-- The keeper after the call, if it may be made. -/
def step (k : Keeper) : Op → Option Keeper
  | .mask memHandle type ok =>
    let (k, keepId) := k.maskKeepMem memHandle type ok
    some (if keepId < 0 then k
      else { k with ids := memHandle.toList.map (keepId, ·) ++ k.ids })
  | .unmask keepId handle delayOn =>
    if (keepId, handle) ∈ k.ids then
      some { k.unmaskKeeper keepId delayOn with ids := k.ids.erase (keepId, handle) }
    else none
  | .freeAll force jiffies =>
    if force = 0 ∨ force = 2 then some (k.freeAllKeep force jiffies) else none

/-- A mask is of a handle that is not kept, with an id that no entry has. -/
def Op.Fits (k : Keeper) : Op → Prop
  | .mask memHandle _ _ =>
    ∀ info ∈ k.keepList, (info.handle = none ∨ info.handle ≠ memHandle) ∧ info.keepId ≠ k.nextId
  | _ => True

/-- The keepers of the runs whose calls are all as `P` says. -/
inductive Reachable (P : Keeper → Op → Prop) : Keeper → Prop
  | init : Reachable P init
  | step {k k' : Keeper} (op : Op) : Reachable P k → P k op → k.step op = some k' → Reachable P k'

end Keeper

end CommonDrivers.Media.CodecMm
