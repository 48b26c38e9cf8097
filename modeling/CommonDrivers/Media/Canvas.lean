import Mathlib

/-!
# The canvas pool

A canvas is a hardware description of a picture in memory, known by its number.
The pool (`canvas_mgr.c`) hands canvases out: a bitmap says which ones are
allocated, and each one has an owner. Some are registered for an owner when the
pool is made, and stay with it. Canvas 0 is special: it is easily taken by mistake,
as an unused byte of a table reads as 0, and it is meant to be ignored.

A user may ask for a *table*, each entry of which packs a set of one to four
consecutive canvases into the bytes of a word. A set is found by taking canvases
one by one, from `next_alloced_index` on, and giving them back if they are not
consecutive. A table is given back by freeing the canvas each byte of it names.
-/

namespace CommonDrivers.Media

open Function

/-- `struct canvas_info`. -/
structure CanvasInfo where
  owner : Option String
  oldowner : Option String
  fixedOwner : Bool
  deriving DecidableEq

/-- `struct canvas_pool`. -/
structure CanvasPool where
  canvasMax : ℕ
  freeNum : ℤ
  info : ℕ → CanvasInfo
  /-- The canvases that are allocated. -/
  canvasMap : ℕ → Bool
  nextAllocedIndex : ℕ

/-- `enum canvas_map_type_e`: how the canvases of a set are packed. -/
inductive CanvasMapType
  | one
  | nv21
  | yuv
  | four
  deriving DecidableEq, Repr

/-- The value of the type, which is the number of canvases of a set. -/
def CanvasMapType.num : CanvasMapType → ℕ
  | .one => 1
  | .nv21 => 2
  | .yuv => 3
  | .four => 4

theorem CanvasMapType.num_pos (type : CanvasMapType) : 0 < type.num := by
  cases type <;> decide

/-- `find_next_zero_bit`: the first clear bit from `start` on, or `size`. -/
def findNextZeroBit (map : ℕ → Bool) (size start : ℕ) : ℕ :=
  ((List.range' start (size - start)).find? fun i => !map i).getD size

namespace CanvasPool

variable (p : CanvasPool)

/-- Take the canvas `i` for `owner`. -/
def take (owner : String) (i : ℕ) : CanvasPool :=
  { p with
    canvasMap := update p.canvasMap i true
    info := update p.info i { p.info i with owner := some owner, oldowner := some owner }
    nextAllocedIndex :=
      if i = 0 then p.nextAllocedIndex else if i + 1 < p.canvasMax then i + 1 else 1
    freeNum := if i = 0 then p.freeNum else p.freeNum - 1 }

/-- The canvas `canvas_pool_map_alloc_canvas_in` takes: the first free one from
    `next_alloced_index` on, or else, unless it started there already, from 1 on. -/
def allocIndex : ℕ :=
  let i := findNextZeroBit p.canvasMap p.canvasMax p.nextAllocedIndex
  if i < p.canvasMax ∨ p.nextAllocedIndex ≤ 1 then i else findNextZeroBit p.canvasMap p.canvasMax 1

/-- `canvas_pool_map_alloc_canvas_in`. -/
def mapAllocCanvasIn (owner : String) : CanvasPool × ℤ :=
  if p.allocIndex < p.canvasMax then (p.take owner p.allocIndex, p.allocIndex) else (p, -1)

/-- `canvas_pool_map_free_canvas_in`. -/
def mapFreeCanvasIn (index : ℤ) : CanvasPool :=
  if 0 ≤ index ∧ index < p.canvasMax then
    let i := index.toNat
    { p with
      canvasMap := update p.canvasMap i false
      info := update p.info i { p.info i with owner := none, oldowner := (p.info i).owner }
      freeNum := p.freeNum + 1 }
  else p

/-- Take `n` canvases, one after the other. -/
def allocs (owner : String) : ℕ → CanvasPool → CanvasPool × List ℤ
  | 0, p => (p, [])
  | n + 1, p =>
    let r := p.mapAllocCanvasIn owner
    let rs := allocs owner n r.1
    (rs.1, r.2 :: rs.2)

/-- The canvases are consecutive, and none is canvas 0. -/
def Found (cs : List ℤ) : Prop := 0 < cs.headD 0 ∧ cs.IsChain fun c c' => c' = c + 1

instance (cs : List ℤ) : Decidable (Found cs) := inferInstanceAs (Decidable (_ ∧ _))

/-- The canvases of a set, packed into a word. -/
def pack : CanvasMapType → List ℤ → ℕ
  | .four, [c1, c2, c3, c4] =>
    c1.toNat ||| c2.toNat <<< 8 ||| c3.toNat <<< 16 ||| c4.toNat <<< 24
  | .yuv, [c2, c3, c4] => c2.toNat ||| c3.toNat <<< 8 ||| c4.toNat <<< 16
  | .nv21, [c3, c4] => c3.toNat ||| c4.toNat <<< 8 ||| c4.toNat <<< 16
  | .one, [c4] => c4.toNat
  | _, _ => 0

/-- Free the canvases of `cs` but for canvas 0. -/
def freeAll (p : CanvasPool) (cs : List ℤ) : CanvasPool :=
  cs.foldl (fun p c => if 0 < c then p.mapFreeCanvasIn c else p) p

/-- Where to look for a set next, when none is found from `start` on. -/
def retryIndex (type : CanvasMapType) (start : ℕ) : ℕ :=
  if (start : ℤ) + 1 < p.canvasMax - type.num then start + 1 else 1

/-- A turn of `canvas_pool_map_alloc_canvas_continue_set`, entered with the index
    `start`. -/
def continueTurn (owner : String) (type : CanvasMapType) (start : ℕ) : CanvasPool × Option ℕ :=
  let r := allocs owner type.num p
  if Found r.2 then (r.1, some (pack type r.2))
  else ({ r.1.freeAll r.2 with nextAllocedIndex := r.1.retryIndex type start }, none)

/-- Its loop, of at most `n` turns. -/
def continueLoop (owner : String) (type : CanvasMapType) (start : ℕ) :
    ℕ → CanvasPool → CanvasPool × Option ℕ
  | 0, p => (p, none)
  | n + 1, p =>
    match p.continueTurn owner type start with
    | (p', some v) => (p', some v)
    | (p', none) => continueLoop owner type start n p'

/-- `canvas_pool_map_alloc_canvas_continue_set`: the set, packed, if one is found. -/
def mapAllocCanvasContinueSet (owner : String) (type : CanvasMapType) : CanvasPool × Option ℕ :=
  continueLoop owner type p.nextAllocedIndex (p.canvasMax + 1) p

/-- Byte `k` of an entry of a table. -/
def byte (v k : ℕ) : ℕ := (v >>> (8 * k)) &&& 0xff

/-- A turn of `canvas_pool_free_canvas_table`: the canvases an entry names are freed,
    once each. -/
def freeEntry (v : ℕ) : CanvasPool :=
  let p := p.mapFreeCanvasIn (byte v 0)
  let p := if byte v 1 ≠ byte v 0 then p.mapFreeCanvasIn (byte v 1) else p
  let p := if byte v 2 ≠ byte v 1 ∧ byte v 2 ≠ byte v 0 then p.mapFreeCanvasIn (byte v 2) else p
  if byte v 3 ≠ byte v 2 ∧ byte v 3 ≠ byte v 1 ∧ byte v 3 ≠ byte v 0 then
    p.mapFreeCanvasIn (byte v 3) else p

/-- `canvas_pool_free_canvas_table`. -/
def freeCanvasTable (tab : List ℕ) : CanvasPool := tab.foldl freeEntry p

/-- The loop of `canvas_pool_alloc_canvas_table`, of `n` turns: the entries written, and
    whether all of them could be. -/
def tableLoop (owner : String) (type : CanvasMapType) : ℕ → CanvasPool → CanvasPool × List ℕ × Bool
  | 0, p => (p, [], true)
  | n + 1, p =>
    match p.mapAllocCanvasContinueSet owner type with
    | (p', none) => (p', [], false)
    | (p', some v) =>
      let r := tableLoop owner type n p'
      (r.1, v :: r.2.1, r.2.2)

/-- `canvas_pool_alloc_canvas_table`: the table, or, on an error, `none`. -/
def allocCanvasTable (owner : String) (size : ℤ) (type : CanvasMapType) :
    CanvasPool × Option (List ℕ) :=
  let r := tableLoop owner type size.toNat p
  if r.2.2 then
    let next := p.nextAllocedIndex + 1
    ({ r.1 with nextAllocedIndex := if p.canvasMax ≤ next then 1 else next }, some r.2.1)
  else (r.1.freeCanvasTable r.2.1, none)

/-- A turn of `canvas_pool_register_const_canvas`. -/
def registerIndex (owner : String) (index : ℕ) : CanvasPool :=
  { p with
    canvasMap := update p.canvasMap index true
    info := update p.info index ⟨some owner, none, true⟩ }

/-- `canvas_pool_register_const_canvas`. -/
def registerConstCanvas (startIndex endIndex : ℕ) (owner : String) : CanvasPool :=
  (List.range' startIndex (endIndex + 1 - startIndex)).foldl (registerIndex · owner) p

/-- `canvas_pool_init`, with `CANVAS_S1A_MAX_NUM` or `CANVAS_MAX_NUM` canvases. -/
def init (isMesonS1aCpu : Bool) : CanvasPool :=
  let max := if isMesonS1aCpu then 128 else 256
  ⟨max, 0, fun _ => ⟨none, none, false⟩, fun _ => false, max / 2⟩

/-- `canvas_pool_debug_store`, on the value 2. -/
def resetIndex : CanvasPool := { p with nextAllocedIndex := 0 }

/-- `canvas_pool_config`: the canvases registered when the pool is made. -/
def config (isMesonS1aCpu hwCanvasSupport : Bool) : CanvasPool :=
  let p := init isMesonS1aCpu
  let p :=
    if isMesonS1aCpu then
      ((p.registerConstCanvas 0 0x30 "amvdec").registerConstCanvas 0x58 0x63
        "display").registerConstCanvas 0x40 0x44 "osd"
    else
      ((((p.registerConstCanvas 0 0x1a "amvdec").registerConstCanvas 0x22 0x39
        "vdin").registerConstCanvas 0x78 0xbf "amvdec").registerConstCanvas 0x58 0x6f
        "display").registerConstCanvas 0x40 0x48 "osd"
  let p := p.registerConstCanvas 0xe4 0xef "encoder"
  if hwCanvasSupport then p else p.registerConstCanvas 0xd8 0xe3 "display2"

/-- The pool is reached from the one that is configured by the operations of its users,
    with any arguments. -/
inductive Reachable : CanvasPool → Prop
  | config (isMesonS1aCpu hwCanvasSupport : Bool) : Reachable (config isMesonS1aCpu hwCanvasSupport)
  | register {p : CanvasPool} (h : Reachable p) (startIndex endIndex : ℕ) (owner : String) :
      Reachable (p.registerConstCanvas startIndex endIndex owner)
  | alloc {p : CanvasPool} (h : Reachable p) (owner : String) :
      Reachable (p.mapAllocCanvasIn owner).1
  | free {p : CanvasPool} (h : Reachable p) (index : ℤ) : Reachable (p.mapFreeCanvasIn index)
  | allocTable {p : CanvasPool} (h : Reachable p) (owner : String) (size : ℤ)
      (type : CanvasMapType) : Reachable (p.allocCanvasTable owner size type).1
  | freeTable {p : CanvasPool} (h : Reachable p) (tab : List ℕ) : Reachable (p.freeCanvasTable tab)
  | resetIndex {p : CanvasPool} (h : Reachable p) : Reachable p.resetIndex

end CanvasPool

end CommonDrivers.Media
