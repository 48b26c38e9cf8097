import Mathlib

/-!
# The work queues of the 2D engine

Each context of the engine (`ge2d_wq.c`) has a list of items to work on and a list of free items.
A command is *added* on its own, or it is *enqueued*, to be executed with others as one hardware
queue when its group is *posted*. One thread, the monitor, goes round the contexts and gives the
commands to the hardware. The items of a group are told by flags: posting sets two flags of the
last item, and the monitor takes a group up to an item with the flag.

A context is of one client at a time, as its next command is built in place in the context
(`ge2d_wq_get_cmd`); its calls follow one another. A step is what is done between two points at
which the monitor and the clients see each other. It is `none` if it would touch memory that is
not an item. What the context is for is seen by two lists that the driver does not have: the
`calls` of its client, and the commands `executed` by the hardware, as single ones and as queues.
-/

namespace CommonDrivers.Media.Ge2d

open Function

variable {C Cmd : Type*}

/-- `struct ge2d_queue_item_s`. The command is with its configuration, but for its
    `wait_done_flag`. -/
structure Item (Cmd : Type*) where
  cmd : Cmd
  waitDone : Bool
  queueMode : Bool
  last : Bool
  ready : Bool

/-- What a client asks for. -/
inductive Request (Cmd : Type*) where
  | single (cmd : Cmd)
  | enqueue (cmd : Cmd)
  | post
  deriving DecidableEq

/-- What the hardware gets at a time. -/
inductive Block (Cmd : Type*) where
  | single (cmd : Cmd)
  | queue (cmds : List Cmd)
  deriving DecidableEq

/-- Where the client of a context is. The number is how many blocks it had asked for when it was
    called. -/
inductive Client where
  | idle
  /-- `ge2d_wq_add_work` has moved the item. -/
  | added (item : ℕ) (block : Bool) (upTo : ℕ)
  /-- `post_queue_to_process` has set the flags of the item. -/
  | posted (item : ℕ) (block : Bool) (upTo : ℕ)
  /-- It waits for the item's `wait_done_flag` to be 0. -/
  | waiting (item : ℕ) (upTo : ℕ)
  deriving DecidableEq

/-- `struct ge2d_context_s`, with its items. -/
structure Context (Cmd : Type*) where
  mem : ℕ → Option (Item Cmd)
  workQueue : List ℕ
  freeQueue : List ℕ
  client : Client
  calls : List (Request Cmd)
  executed : List (Block Cmd)

/-- `create_ge2d_work_queue`. -/
def Context.new : Context Cmd where
  mem _ := none
  workQueue := []
  freeQueue := []
  client := .idle
  calls := []
  executed := []

/-! ## The calls of a client -/

namespace Context

/-- An item with a new command goes to the work queue. -/
def put (c : Context Cmd) (x : ℕ) (freeQueue : List ℕ) (it : Item Cmd) : Context Cmd :=
  { c with
    mem := update c.mem x (some it)
    workQueue := c.workQueue ++ [x]
    freeQueue
    calls := c.calls ++ [if it.queueMode then .enqueue it.cmd else .single it.cmd] }

/-- `ge2d_wq_add_work`, and the item it takes. There may be memory for a new item at an address.
    Neither `cmd_queue_last_item` nor `cmd_queue_ready` is written. -/
def addWork (c : Context Cmd) (cmd : Cmd) (waitDone enqueue : Bool) (addr : Option ℕ) :
    Option (Context Cmd × Option ℕ) :=
  match c.freeQueue, addr with
  | x :: freeQueue, _ =>
    (c.mem x).map fun it =>
      (c.put x freeQueue { it with cmd, waitDone, queueMode := enqueue }, some x)
  | [], none => some (c, none)
  | [], some x =>
    if (c.mem x).isSome then none
    else some (c.put x [] { cmd, waitDone, queueMode := enqueue, last := false, ready := false },
      some x)

/-- The flags that `post_queue_to_process` sets, in the last item of the work queue. -/
def post (c : Context Cmd) : Option (Context Cmd × ℕ) :=
  match c.workQueue.getLast? with
  | some x =>
    (c.mem x).map fun it =>
      ({ c with
          mem := update c.mem x (some { it with last := true, ready := true })
          calls := c.calls ++ [.post] }, x)
  -- the flags of the head of the list, which is no item
  | none => none

/-- The `wait_done_flag` of an item is written. -/
def setWaitDone (c : Context Cmd) (x : ℕ) (waitDone : Bool) : Option (Context Cmd) :=
  (c.mem x).map fun it => { c with mem := update c.mem x (some { it with waitDone }) }

/-! ## The monitor in a context -/

/-- `is_cmd_queue_last_item`. -/
def isLast (c : Context Cmd) (x : ℕ) : Bool := (c.mem x).any (·.last)

/-- `is_cmd_queue_ready`, for the first item of the work queue. Its loop has no end but an item
    with both flags: after the last item it goes to the head of the list, whose flags would be
    those of the memory behind the context, and back to the first item. -/
def isCmdQueueReady (c : Context Cmd) : Bool :=
  c.workQueue.any fun x => (c.mem x).any fun it => it.last && it.ready

/-- `ge2d_process_cmd_queue`: the last item of the group, which alone is left of it, and the
    commands that are in the buffers. -/
def processCmdQueue (c : Context Cmd) : Option (Context Cmd × ℕ × List Cmd) :=
  let items := c.workQueue.takeWhile fun x => !c.isLast x
  match c.workQueue.dropWhile fun x => !c.isLast x with
  | x :: rest =>
    some ({ c with
        mem := fun y => if y ∈ items then none else c.mem y
        workQueue := x :: rest },
      x, (items ++ [x]).filterMap fun y => (c.mem y).map (·.cmd))
  | [] => none

end Context

/-- Where the monitor is in `ge2d_process_work_queue`. -/
inductive Stage (Cmd : Type*) where
  /-- At the first item. -/
  | top
  /-- The hardware has got a block, which ends with the item; with `block_mode`. -/
  | running (item : ℕ) (block : Bool) (given : Block Cmd)
  /-- The hardware is done. -/
  | done (item : ℕ) (block : Bool)
  /-- The item is free, and a caller waits for it; is the work queue not empty? -/
  | waking (item : ℕ) (more : Bool)
  deriving DecidableEq

/-- Where `ge2d_monitor_thread` is. -/
inductive Monitor (C Cmd : Type*) where
  /-- It waits for `cmd_in_com`. -/
  | sleeping
  /-- `get_next_work_queue` is next. -/
  | picking
  | working (wq : C) (stage : Stage Cmd)
  deriving DecidableEq

/-- `ge2d_manager`. -/
structure Manager (C Cmd : Type*) where
  contexts : C → Context Cmd
  processQueue : List C
  /-- `cmd_in_com.done`. -/
  done : ℕ
  monitor : Monitor C Cmd

/-- The contexts are new. -/
def init (Cmd : Type*) (processQueue : List C) : Manager C Cmd where
  contexts _ := .new
  processQueue
  done := 0
  monitor := .sleeping

/-- The blocks that a client has asked for, and the commands that it has enqueued since. -/
def blocks (calls : List (Request Cmd)) : List (Block Cmd) × List Cmd :=
  calls.foldl (fun acc call =>
    match call with
    | .single cmd => (acc.1 ++ [.single cmd], acc.2)
    | .enqueue cmd => (acc.1, acc.2 ++ [cmd])
    | .post => (acc.1 ++ [.queue acc.2], [])) ([], [])

/-! ## The steps -/

/-- What may happen next. -/
inductive Step (C Cmd : Type*) where
  /-- `ge2d_wq_add_work` is called. -/
  | add (wq : C) (cmd : Cmd) (waitDone enqueue : Bool) (addr : Option ℕ)
  /-- `post_queue_to_process` is called. -/
  | post (wq : C) (block : Bool)
  /-- The client of a context goes on. -/
  | client (wq : C)
  /-- A client that waits gets a signal. -/
  | signal (wq : C)
  /-- The monitor goes on. It may find both flags in the memory behind a context. -/
  | monitor (past : Bool)

namespace Manager

variable [DecidableEq C]

/-- A context changes. -/
def setContext (s : Manager C Cmd) (wq : C) (c : Context Cmd) : Manager C Cmd :=
  { s with contexts := update s.contexts wq c }

/-- `complete` of `cmd_in_com`, if it is not done. -/
def complete (s : Manager C Cmd) : Manager C Cmd :=
  { s with done := if s.done = 0 then 1 else s.done }

/-- `ge2d_wq_add_work`, until the item is in the work queue. -/
def add (s : Manager C Cmd) (wq : C) (cmd : Cmd) (waitDone enqueue : Bool) (addr : Option ℕ) :
    Option (Manager C Cmd) := ((s.contexts wq).addWork cmd waitDone enqueue addr).map fun
    | (c, some x) =>
      s.setContext wq
        { c with
          client := if enqueue then .idle else .added x waitDone (blocks c.calls).1.length }
    | (c, none) => s.setContext wq c

/-- `post_queue_to_process`, until the flags are set. -/
def post (s : Manager C Cmd) (wq : C) (block : Bool) : Option (Manager C Cmd) :=
  (s.contexts wq).post.map fun (c, x) =>
    s.setContext wq { c with client := .posted x block (blocks c.calls).1.length }

/-- The client of a context goes on. -/
def stepClient (s : Manager C Cmd) (wq : C) : Option (Manager C Cmd) :=
  let c := s.contexts wq
  match c.client with
  | .idle => none
  | .added x block upTo =>
    some (s.setContext wq
      { c with client := if block then .waiting x upTo else .idle }).complete
  | .posted x true upTo =>
    (c.setWaitDone x true).map fun c =>
      (s.setContext wq { c with client := .waiting x upTo }).complete
  | .posted _ false _ => some (s.setContext wq { c with client := .idle }).complete
  | .waiting x _ =>
    (c.mem x).map fun it => if it.waitDone then s else s.setContext wq { c with client := .idle }

/-- `get_next_work_queue`. -/
def getNextWorkQueue (s : Manager C Cmd) : Manager C Cmd :=
  match s.processQueue.dropWhile fun wq => (s.contexts wq).workQueue.isEmpty with
  | wq :: rest =>
    { s with
      processQueue :=
        rest ++ (s.processQueue.takeWhile fun wq => (s.contexts wq).workQueue.isEmpty) ++ [wq]
      monitor := .working wq .top }
  | [] => { s with monitor := .sleeping }

/-- The monitor is at an item of a context. -/
def process (s : Manager C Cmd) (wq : C) (past : Bool) : Option (Manager C Cmd) :=
  let c := s.contexts wq
  match c.workQueue with
  | [] => some { s with monitor := .picking }
  | x :: _ =>
    (c.mem x).bind fun it =>
      if it.queueMode then
        if c.isCmdQueueReady || past then
          c.processCmdQueue.bind fun (c, y, cmds) =>
            (c.mem y).map fun last =>
              { s.setContext wq c with
                monitor := .working wq (.running y last.waitDone (.queue cmds)) }
        -- the loop goes round the list
        else some s
      else
        some { s with monitor := .working wq (.running x it.waitDone (.single it.cmd)) }

/-- The monitor goes on in a context. -/
def stepStage (s : Manager C Cmd) (wq : C) (past : Bool) : Stage Cmd → Option (Manager C Cmd)
  | .top => s.process wq past
  | .running x block given =>
    let c := s.contexts wq
    some { s.setContext wq { c with executed := c.executed ++ [given] } with
      monitor := .working wq (.done x block) }
  | .done x block =>
    let c := s.contexts wq
    let c := { c with workQueue := c.workQueue.tail, freeQueue := c.freeQueue ++ [x] }
    let more := !c.workQueue.isEmpty
    some { s.setContext wq c with
      monitor :=
        if block then .working wq (.waking x more)
        else if more then .working wq .top
        else .picking }
  | .waking x more =>
    ((s.contexts wq).setWaitDone x false).map fun c =>
      { s.setContext wq c with monitor := if more then .working wq .top else .picking }

/-- `ge2d_monitor_thread` goes on. -/
def stepMonitor (s : Manager C Cmd) (past : Bool) : Option (Manager C Cmd) :=
  match s.monitor with
  | .sleeping =>
    if s.done = 0 then none else some { s with done := s.done - 1, monitor := .picking }
  | .picking => some s.getNextWorkQueue
  | .working wq stage => s.stepStage wq past stage

/-- One step. -/
def step (s : Manager C Cmd) : Step C Cmd → Option (Manager C Cmd)
  | .add wq cmd waitDone enqueue addr =>
    if (s.contexts wq).client = .idle then s.add wq cmd waitDone enqueue addr else none
  | .post wq block => if (s.contexts wq).client = .idle then s.post wq block else none
  | .client wq => s.stepClient wq
  | .signal wq =>
    match (s.contexts wq).client with
    | .waiting _ _ => some (s.setContext wq { s.contexts wq with client := .idle })
    | _ => none
  | .monitor past => s.stepMonitor past

end Manager

end CommonDrivers.Media.Ge2d
