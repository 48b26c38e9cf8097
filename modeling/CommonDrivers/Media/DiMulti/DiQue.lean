import CommonDrivers.Lib.Word

/-!
# The buffer queues of the deinterlacer

The buffers of a channel are of three types, each with its index. A buffer carries the number of
the queue that it is in (`queueIndex`, -1 for none). There are two implementations of queues:

* the old ones (`Queue`) have a pool of 256 slots, that is used as a ring, as a set of slots, or
  with a fixed slot for each index;
* the new ones are fifos of the kernel, of at most 32 words.

Both hold the buffers by a word, the type in the second byte and the index in the first. For the
new queues the word comes from a union whose other 16 bits are not set (`pwBuf2Qindex`): these bits
are an argument of each call that makes such a word.

The queue `QUE_DBG`, a copy that is made to list another one, is no queue for buffers. The marks for
a recovery and the messages are left out.
-/

namespace CommonDrivers.DiMulti

open Function

/-- `VFRAME_TYPE_*`. -/
inductive VframeType
  | typeIn
  | typeLocal
  | typePost
  deriving DecidableEq

namespace VframeType

def code : VframeType → ℕ
  | typeIn => 1
  | typeLocal => 2
  | typePost => 3

/-- The number of buffers: `MAX_IN_BUF_NUM`, `MAX_LOCAL_BUF_NUM_REAL` and `MAX_POST_BUF_NUM`. -/
def size : VframeType → ℕ
  | typeIn => 15
  | typeLocal => 10
  | typePost => 28

def ofCode : ℕ → Option VframeType
  | 1 => some typeIn
  | 2 => some typeLocal
  | 3 => some typePost
  | _ => none

end VframeType

/-- A buffer of the channel. -/
structure DiBuf where
  type : VframeType
  index : Fin type.size
  deriving DecidableEq

namespace DiBuf

/-- `(di_buf->type << 8) | di_buf->index`. -/
def code (b : DiBuf) : ℕ := b.type.code * 256 + b.index

/-- The buffer of a word; only the two low bytes count. -/
def ofCode (v : ℕ) : Option DiBuf :=
  match VframeType.ofCode (v / 256 % 256) with
  | none => none
  | some type => if h : v % 256 < type.size then some ⟨type, ⟨v % 256, h⟩⟩ else none

end DiBuf

/-- The old queues. -/
inductive QueueId
  | localFree
  | recycle
  | display
  | tmp
  | postDoing
  deriving DecidableEq

/-- `enum QUE_TYPE`: the new queues. -/
inductive QueType
  | inFree
  | preReady
  | postFree
  | postReady
  | postBack
  | postDoing
  | postKeepReAlloc
  | preNoBufWait
  | pstNoBufWait
  | preNoBuf
  | pstNoBuf
  deriving DecidableEq

def queueIds : List QueueId := [.localFree, .recycle, .display, .tmp, .postDoing]

def queTypes : List QueType :=
  [.inFree, .preReady, .postFree, .postReady, .postBack, .postDoing, .postKeepReAlloc,
    .preNoBufWait, .pstNoBufWait, .preNoBuf, .pstNoBuf]

/-- A queue, by its number. -/
inductive QueueIdx
  | old (q : QueueId)
  | new (t : QueType)
  deriving DecidableEq

/-- The number of a queue: the new ones come behind the `QUEUE_NUM` old ones. -/
def QueueIdx.num : QueueIdx → ℤ
  | old q => queueIds.idxOf q
  | new t => queTypes.idxOf t + 5

/-- `di_que_type_2_new`. -/
def diQueType2New (queueIndex : ℤ) : Option QueType :=
  queTypes.find? fun t => (QueueIdx.new t).num = queueIndex

/-- The old queue of a number. -/
def oldQueue (queueIndex : ℤ) : Option QueueId :=
  queueIds.find? fun q => (QueueIdx.old q).num = queueIndex

/-- The type of an old queue: 0, 1 and 2. -/
inductive QueueKind
  | fifo
  | general
  | fixed
  deriving DecidableEq

/-- `MAX_QUEUE_POOL_SIZE`. -/
def maxQueuePoolSize : ℕ := 256

/-- `MAX_FIFO_SIZE`. -/
def maxFifoSize : ℕ := 32

/-- `struct queue_s`. -/
structure Queue where
  num : ℕ
  inIdx : ℕ
  outIdx : ℕ
  type : QueueKind
  pool : ℕ → ℕ

/-- A channel: its queues, and the queue index of each of its buffers. -/
structure Channel where
  queue : QueueId → Queue
  fifo : QueType → List ℕ
  queueIndex : DiBuf → ℤ

/-! ## The old queues -/

/-- The next index of a ring. -/
def nextIdx (i : ℕ) : ℕ := if maxQueuePoolSize ≤ i + 1 then 0 else i + 1

namespace Queue

/-- The first slot from `start` on that has the property. -/
def findSlot (q : Queue) (start : ℕ) (p : ℕ → Bool) : Option ℕ :=
  (List.range' start (maxQueuePoolSize - start)).find? fun i => p (q.pool i)

def setSlot (q : Queue) (i v : ℕ) : Queue := { q with pool := update q.pool i v }

/-- The insertion of a buffer; `none` if it is refused. -/
def insert (q : Queue) (b : DiBuf) : Option Queue :=
  match q.type with
  | .fifo => some { q.setSlot q.inIdx b.code with inIdx := nextIdx q.inIdx, num := q.num + 1 }
  | .general =>
    match q.findSlot 0 (· = 0) with
    | none => none
    | some i => some { q.setSlot i b.code with num := q.num + 1 }
  | .fixed =>
    if b.index < maxQueuePoolSize ∧ q.pool b.index = 0 then
      some { q.setSlot b.index b.code with num := q.num + 1 }
    else none

/-- The removal of a buffer; `none` if it is refused. -/
def remove (q : Queue) (b : DiBuf) : Option Queue :=
  if q.num = 0 then none
  else
    match q.type with
    | .fifo =>
      if q.pool q.outIdx = b.code then
        some { q.setSlot q.outIdx 0 with outIdx := nextIdx q.outIdx, num := q.num - 1 }
      else none
    | .general =>
      match q.findSlot 0 (· = b.code) with
      | none => none
      | some i => some { q.setSlot i 0 with num := q.num - 1 }
    | .fixed =>
      if b.index < maxQueuePoolSize ∧ q.pool b.index = b.code then
        some { q.setSlot b.index 0 with num := q.num - 1 }
      else none

/-- The slot of the head. -/
def headSlot (q : Queue) : Option ℕ :=
  if q.num = 0 then none
  else
    match q.type with
    | .fifo => some q.outIdx
    | _ => q.findSlot 0 (· ≠ 0)

end Queue

/-- `dim_get_buf`: the buffer of the next slot, and where to go on. -/
def dimGetBuf (q : Queue) (startPos : ℕ) : Option (DiBuf × ℕ) :=
  match q.type with
  | .fifo =>
    if startPos < q.num then
      let idx := q.outIdx + startPos
      let idx := if maxQueuePoolSize ≤ idx then idx - maxQueuePoolSize else idx
      (DiBuf.ofCode (q.pool idx)).map (·, startPos + 1)
    else none
  | _ =>
    match q.findSlot startPos (· ≠ 0) with
    | none => none
    | some idx => (DiBuf.ofCode (q.pool idx)).map (·, idx + 1)

/-- The loop of `is_in_queue`, which gives up after `MAX_QUEUE_POOL_SIZE + 2` buffers. -/
def inQueueLoop (q : Queue) (b : DiBuf) : ℕ → ℕ → Bool
  | 0, _ => false
  | n + 1, startPos =>
    match dimGetBuf q startPos with
    | none => false
    | some (p, next) => if p = b then true else inQueueLoop q b n next

/-! ## The new queues -/

/-- `pw_buf_2_qindex`: the bits of `reserved0` are not set. -/
def pwBuf2Qindex (reserved0 : ℕ) (b : DiBuf) : ℕ := b.code + 2 ^ 16 * reserved0

/-- `pw_queue_in`; `none` if the fifo is full. -/
def pwQueueIn (fifo : List ℕ) (w : ℕ) : Option (List ℕ) :=
  if fifo.length < maxFifoSize then some (fifo ++ [w]) else none

namespace Channel

def setIndex (s : Channel) (b : DiBuf) (i : ℤ) : Channel :=
  { s with queueIndex := update s.queueIndex b i }

def setQueue (s : Channel) (q : QueueId) (x : Queue) : Channel :=
  { s with queue := update s.queue q x }

def setFifo (s : Channel) (t : QueType) (l : List ℕ) : Channel :=
  { s with fifo := update s.fifo t l }

end Channel

def diQueIn (reserved0 : ℕ) (s : Channel) (t : QueType) (b : DiBuf) : Channel × Bool :=
  let s := if s.queueIndex b ≠ -1 then s.setIndex b (-1) else s
  match pwQueueIn (s.fifo t) (pwBuf2Qindex reserved0 b) with
  | none => (s, false)
  | some l => ((s.setFifo t l).setIndex b (QueueIdx.new t).num, true)

def diQueOut (reserved0 : ℕ) (s : Channel) (t : QueType) (b : DiBuf) : Channel × Bool :=
  match s.fifo t with
  | [] => (s, false)
  | w :: l =>
    if pwBuf2Qindex reserved0 b ≠ w then (s, false)
    else ((s.setFifo t l).setIndex b (-1), true)

/-- `di_que_out_to_di_buf`. The word of the queue is that of a buffer. -/
def diQueOutToDiBuf (s : Channel) (t : QueType) : Channel × Option DiBuf :=
  match s.fifo t with
  | [] => (s, none)
  | w :: l =>
    match DiBuf.ofCode w with
    | none => (s, none)
    | some b => ((s.setFifo t l).setIndex b (-1), some b)

/-- The queue is rebuilt from its list, without the word. -/
def requeue (w : ℕ) (arr : List ℕ) : List ℕ :=
  arr.foldl (fun l x => if x = w then l else (pwQueueIn l x).getD l) []

def diQueOutNotFifo (reserved0 : ℕ) (s : Channel) (t : QueType) (b : DiBuf) : Channel × Bool :=
  match s.fifo t with
  | [] => (s, false)
  | arr =>
    let w := pwBuf2Qindex reserved0 b
    let s := s.setFifo t (requeue w arr)
    if w ∈ arr then (s.setIndex b (-1), true) else (s, false)

def diQuePeek (s : Channel) (t : QueType) : Option DiBuf :=
  match s.fifo t with
  | [] => none
  | w :: _ => DiBuf.ofCode w

def diQueIsInQue (reserved0 : ℕ) (s : Channel) (t : QueType) (b : DiBuf) : Bool :=
  pwBuf2Qindex reserved0 b ∈ s.fifo t

/-! ## Both -/

def getDiBufHead (s : Channel) : QueueIdx → Option DiBuf
  | .new t => diQuePeek s t
  | .old q => ((s.queue q).headSlot).bind fun i => DiBuf.ofCode ((s.queue q).pool i)

def queueIn (reserved0 : ℕ) (s : Channel) (b : DiBuf) : QueueIdx → Channel
  | .new t => (diQueIn reserved0 s t b).1
  | .old q =>
    if s.queueIndex b ≠ -1 then s
    else
      match (s.queue q).insert b with
      | none => s
      | some x => (s.setQueue q x).setIndex b (QueueIdx.old q).num

def queueOut (reserved0 : ℕ) (s : Channel) (b : DiBuf) : Channel :=
  match diQueType2New (s.queueIndex b) with
  | some t => (diQueOut reserved0 s t b).1
  | none =>
    match oldQueue (s.queueIndex b) with
    | none => s
    | some q =>
      match (s.queue q).remove b with
      | none => s
      | some x => (s.setQueue q x).setIndex b (-1)

def isInQueue (reserved0 : ℕ) (s : Channel) (b : DiBuf) : QueueIdx → Bool
  | .new t => diQueIsInQue reserved0 s t b
  | .old q => inQueueLoop (s.queue q) b (maxQueuePoolSize + 2) 0

/-- A channel after `queue_init` and `di_que_init`, with its queues of the given types. -/
def Channel.init (type : QueueId → QueueKind) : Channel where
  queue q := ⟨0, 0, 0, type q, fun _ => 0⟩
  fifo _ := []
  queueIndex _ := -1

/-! ## Runs -/

/-- The calls on a channel. -/
inductive Call
  | queueIn (b : DiBuf) (q : QueueIdx)
  | queueOut (b : DiBuf)
  | diQueIn (t : QueType) (b : DiBuf)
  | diQueOut (t : QueType) (b : DiBuf)
  | diQueOutToDiBuf (t : QueType)
  | diQueOutNotFifo (t : QueType) (b : DiBuf)

/-- A call, with what the union holds in its unset bits. -/
def step (reserved0 : ℕ) (s : Channel) : Call → Channel
  | .queueIn b q => queueIn reserved0 s b q
  | .queueOut b => queueOut reserved0 s b
  | .diQueIn t b => (diQueIn reserved0 s t b).1
  | .diQueOut t b => (diQueOut reserved0 s t b).1
  | .diQueOutToDiBuf t => (diQueOutToDiBuf s t).1
  | .diQueOutNotFifo t b => (diQueOutNotFifo reserved0 s t b).1

end CommonDrivers.DiMulti
