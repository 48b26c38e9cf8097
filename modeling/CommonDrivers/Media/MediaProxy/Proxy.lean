import CommonDrivers.Lib.Run

/-!
# The media proxy

Producers put messages into FIFOs of their own, a thread moves them into the FIFOs of the consumers
that have subscribed to their type, and the consumers read them there (`media_proxy.c`). A message
with closed captions is in a buffer that `mediaproxy_inject_buf` allocates; its address is in the
message, and goes to one consumer only, who fetches it with `mediaproxy_get_buf`.

A call is one step. The thread takes a step for each FIFO that it looks at, so that the others go on
while it is under way. It takes a message and writes `all_producer_fifo_empty` in one step.
-/

namespace CommonDrivers.Media.MediaProxy

open Function

/-- `MAX_SESSION`. -/
def maxSession : ℕ := 16

/-- `KFIFO_MAX_SIZE`. All FIFOs between the sessions are of this size. -/
def kfifoMaxSize : ℕ := 32

/-- `MEDIA_VIDEO_CC_INFO`. -/
def mediaVideoCcInfo : ℕ := 512

instance : NeZero maxSession := ⟨by decide⟩

/-- An index of the tables. -/
abbrev Idx := Fin maxSession

/-- `struct aml_video_user_data`, with what is in the place of `buf_info.ptr`, and the rest. -/
structure Msg where
  messageType : ℕ
  ptr : ℕ
  content : ℕ
  deriving DecidableEq

/-- `enum mp_role_e`, without the invalid one. -/
inductive Role where
  | producer
  | consumer
  deriving DecidableEq

/-- `enum mp_fifo_state_e`, of a FIFO that has memory. -/
inductive FifoState where
  | unusing
  | used
  | unused
  deriving DecidableEq

/-- `struct mediaproxy_fifo`. -/
structure Fifo where
  subscribeMsgType : ℕ
  state : FifoState
  vdecId : ℕ
  msgs : List Msg
  deriving DecidableEq

/-- `kfifo_in`: what there is no room for is left out. -/
def Fifo.put (f : Fifo) (l : List Msg) : Fifo :=
  { f with msgs := f.msgs ++ l.take (kfifoMaxSize - f.msgs.length) }

/-- `struct mediaproxy_session`. It has no role when it is not connected. -/
structure Session where
  sessionId : Option Idx
  role : Option Role
  subscribeMsgType : ℕ
  fifoIdx : Option Idx
  fifoLen : ℕ
  /-- The size of `msg_kfifo`, which a producer gets when it connects. -/
  msgKfifo : ℕ
  vdecId : ℕ
  deriving DecidableEq

/-- `session_creat`. -/
def Session.creat : Session where
  sessionId := none
  role := none
  subscribeMsgType := 0
  fifoIdx := none
  fifoLen := kfifoMaxSize
  msgKfifo := 0
  vdecId := 0

/-- Where the thread is in `copy_data_between_kfifo`. -/
inductive Pc where
  /-- It waits for `_check_thread_wakeup`. -/
  | asleep
  /-- These producers are still to come. -/
  | visit (rest : List Idx)
  /-- A message of `i`, whose decoder is `vdecId`, is still to be offered to these consumers. -/
  | offer (i : Idx) (msg : Msg) (vdecId : ℕ) (js rest : List Idx)
  /-- The FIFOs with index `i` are looked at for sessions that are gone. -/
  | tidy (i : Idx) (rest : List Idx)
  deriving DecidableEq

/-- `struct mediaproxy_dev`, with the sessions, the thread, and the buffers that were allocated and
    freed so far. -/
structure Dev (S : Type*) where
  /-- `producers` and `consumers`. -/
  entries : Role → Idx → Option S
  /-- `p_fifo` and `c_fifo`. -/
  fifos : Role → Idx → Option Fifo
  hasConsumer : ℕ
  allProducerFifoEmpty : Bool
  hasUnusingFifo : ℤ
  subscribeMsgType : ℕ
  sessions : S → Session
  isOpen : S → Bool
  pc : Pc
  allocs : List ℕ
  frees : List ℕ

/-- The calls on sessions, and a step of the thread. -/
inductive Op (S : Type*) where
  | opens (s : S)
  | connect (s : S) (role : Role)
  | disconnect (s : S)
  | closes (s : S)
  | subscribe (s : S) (type : ℕ)
  | setFifoLen (s : S) (len : ℕ)
  | setVdecId (s : S) (id : ℕ)
  | write (s : S) (msgs : List Msg)
  /-- A message of `notify_msg_to_mediaproxy`. -/
  | notify (s : S) (msg : Msg)
  /-- `vzalloc` gives `ptr`, or 0 if it fails. `copied` says whether the data could be read. -/
  | injectBuf (s : S) (type content ptr : ℕ) (copied : Bool)
  | getBuf (s : S)
  | read (s : S) (count : ℕ)
  | receive (s : S) (num : ℕ)
  | thread

namespace Dev

variable {S : Type*}

/-- `mediaproxy_init`. -/
def init : Dev S where
  entries _ _ := none
  fifos _ _ := none
  hasConsumer := 0
  allProducerFifoEmpty := true
  hasUnusingFifo := 0
  subscribeMsgType := 0
  sessions _ := .creat
  isOpen _ := false
  pc := .asleep
  allocs := []
  frees := []

/-- No session was opened yet. -/
def Initial (d : Dev S) : Prop := d = init

/-- A FIFO is written. -/
def setFifo (d : Dev S) (role : Role) (i : Idx) (f : Fifo) : Dev S :=
  { d with fifos := fun r k => if r = role ∧ k = i then some f else d.fifos r k }

/-- An entry of `producers` or `consumers` is written. -/
def setEntry (d : Dev S) (role : Role) (i : Idx) (s : Option S) : Dev S :=
  { d with entries := fun r k => if r = role ∧ k = i then s else d.entries r k }

/-- `vfree`. -/
def vfree (d : Dev S) (ptr : ℕ) : Dev S :=
  if ptr = 0 then d else { d with frees := ptr :: d.frees }

/-- `update_subscribe_msg_type`. -/
def updateSubscribeMsgType (d : Dev S) : Dev S :=
  { d with
    subscribeMsgType := (List.finRange maxSession).foldl (fun type i =>
      match d.entries .consumer i with
      | some s => type ||| (d.sessions s).subscribeMsgType
      | none => type) 0 }

/-! ## The thread -/

/-- `_check_thread_wakeup`. -/
def checkThreadWakeup (d : Dev S) : Bool :=
  (d.hasConsumer > 0 ∧ !d.allProducerFifoEmpty) ∨ d.hasUnusingFifo > 0

/-- A message is taken from a producer. -/
def visitFifo (d : Dev S) (i : Idx) (rest : List Idx) : Dev S :=
  match d.fifos .producer i with
  | none => { d with pc := .tidy i rest }
  | some f =>
    match f.msgs with
    | [] => { d with pc := .tidy i rest }
    | msg :: msgs =>
      { d.setFifo .producer i { f with msgs } with
        allProducerFifoEmpty := msgs.isEmpty
        pc := .offer i msg f.vdecId (List.finRange maxSession) rest }

/-- A consumer gets a message. -/
def Takes (msg : Msg) (vdecId : ℕ) (c : Fifo) : Prop :=
  c.state = .used ∧ msg.messageType &&& c.subscribeMsgType ≠ 0 ∧
    (msg.messageType = mediaVideoCcInfo → c.vdecId = vdecId)

instance (msg : Msg) (vdecId : ℕ) (c : Fifo) : Decidable (Takes msg vdecId c) :=
  inferInstanceAs (Decidable (_ ∧ _))

/-- A message is offered to a consumer. -/
def offerTo (d : Dev S) (i : Idx) (msg : Msg) (vdecId : ℕ) (j : Idx) (js rest : List Idx) : Dev S :=
  match d.fifos .consumer j with
  | none => { d with pc := .offer i msg vdecId js rest }
  | some c =>
    if Takes msg vdecId c then
      { d.setFifo .consumer j (c.put [msg]) with
        pc :=
          if msg.messageType = mediaVideoCcInfo then .tidy i rest
          else .offer i msg vdecId js rest }
    else { d with pc := .offer i msg vdecId js rest }

/-- A message was offered to all consumers. -/
def offered (d : Dev S) (i : Idx) (msg : Msg) (rest : List Idx) : Dev S :=
  let d := if msg.messageType = mediaVideoCcInfo then d.vfree msg.ptr else d
  { d with pc := .tidy i rest }

/-- The FIFO of a producer that is gone, when it is empty. -/
def tidyProducer (d : Dev S) (i : Idx) : Dev S :=
  match d.fifos .producer i with
  | none => d
  | some f =>
    if f.state = .unusing ∧ f.msgs = [] then
      { d.setFifo .producer i { f with state := .unused } with
        hasUnusingFifo := d.hasUnusingFifo - 1 }
    else d

/-- The FIFO of a consumer that is gone. -/
def tidyConsumer (d : Dev S) (i : Idx) : Dev S :=
  match d.fifos .consumer i with
  | none => d
  | some f =>
    if f.state = .unusing then
      let d :=
        if f.subscribeMsgType = mediaVideoCcInfo then
          f.msgs.foldl (fun d msg => d.vfree msg.ptr) d
        else d
      { d.setFifo .consumer i { f with state := .unused, msgs := [] } with
        hasUnusingFifo := d.hasUnusingFifo - 1 }
    else d

/-- A step of the thread. -/
def thread (d : Dev S) : Option (Dev S) :=
  match d.pc with
  | .asleep =>
    if d.checkThreadWakeup then some { d with pc := .visit (List.finRange maxSession) } else none
  | .visit [] => some { d with pc := .asleep }
  | .visit (i :: rest) => some (d.visitFifo i rest)
  | .offer i msg vdecId (j :: js) rest => some (d.offerTo i msg vdecId j js rest)
  | .offer i msg _ [] rest => some (d.offered i msg rest)
  | .tidy i rest => some { (d.tidyProducer i).tidyConsumer i with pc := .visit rest }

/-! ## The calls -/

variable [DecidableEq S]

/-- A session is written. -/
def setSession (d : Dev S) (s : S) (session : Session) : Dev S :=
  { d with sessions := update d.sessions s session }

/-- `mediaproxy_get_fifo`: the first one that was not there or is not used any more. -/
def getFifo (d : Dev S) (role : Role) : Option Idx :=
  (List.finRange maxSession).find? fun i => (d.fifos role i).all fun f => f.state = .unused

/-- The FIFO of a session that is connected, in the place of another one. That one gets new memory
    if it is too small. -/
def newFifo (session : Session) (old : Option Fifo) : Fifo where
  subscribeMsgType := session.subscribeMsgType
  state := .used
  vdecId := session.vdecId
  msgs := if session.fifoLen ≤ kfifoMaxSize then (old.map Fifo.msgs).getD [] else []

/-- `mediaproxy_connect`. -/
def connect (d : Dev S) (s : S) (role : Role) : Dev S :=
  let session := d.sessions s
  if session.sessionId.isSome then d
  else
    match (List.finRange maxSession).find? fun i => (d.entries role i).isNone with
    | none => d
    | some i =>
      let d :=
        { d with hasConsumer := if role = Role.consumer then d.hasConsumer + 1 else d.hasConsumer }
      let fifoIdx := d.getFifo role
      let msgKfifo := if role = Role.producer then session.fifoLen else session.msgKfifo
      let d := (d.setEntry role i (some s)).setSession s
        { session with sessionId := some i, role := some role, fifoIdx, msgKfifo }
      match fifoIdx with
      | none => d
      | some k => d.setFifo role k (newFifo session (d.fifos role k))

/-- A session leaves its FIFO to the thread, with that subscription. -/
def leave (d : Dev S) (role : Role) (i k : Idx) (f : Fifo) : Dev S :=
  let d := (d.setEntry role i none).setFifo role k { f with state := .unusing }
  { d with
    hasConsumer := if role = .consumer then d.hasConsumer - 1 else d.hasConsumer
    hasUnusingFifo := d.hasUnusingFifo + 1 }

/-- The end of `mediaproxy_disconnect` and `mediaproxy_release`. -/
def leftRole (d : Dev S) : Role → Dev S
  | .producer => d
  | .consumer => d.updateSubscribeMsgType

/-- `mediaproxy_disconnect`. A session that has no FIFO would write to the entry before the first
    one: this is not a step. -/
def disconnect (d : Dev S) (s : S) : Option (Dev S) :=
  let session := d.sessions s
  match session.role, session.sessionId, session.fifoIdx with
  | none, _, _ => some d
  | some role, some i, some k =>
    (d.fifos role k).map fun f =>
      ((d.leave role i k { f with subscribeMsgType := 0 }).setSession s
        { session with
          sessionId := none, role := none, subscribeMsgType := 0, fifoIdx := none
          msgKfifo := 0 }).leftRole role
  | some _, none, _ | some _, some _, none => none

/-- `mediaproxy_release`. As for `disconnect`, a session without a FIFO is left out. The
    subscription of the FIFO stays. -/
def release (d : Dev S) (s : S) : Option (Dev S) :=
  let session := d.sessions s
  let closed (d : Dev S) : Dev S := { d with isOpen := update d.isOpen s false }
  match session.role, session.sessionId, session.fifoIdx with
  | none, _, _ => some (closed d)
  | some role, some i, some k =>
    (d.fifos role k).map fun f =>
      closed (((d.leave role i k f).setSession s .creat).leftRole role)
  | some _, none, _ | some _, some _, none => none

/-- `MEDIAPROXY_MSG_TYPE_SUBSCRIBE`. -/
def subscribe (d : Dev S) (s : S) (type : ℕ) : Option (Dev S) :=
  let session := { d.sessions s with subscribeMsgType := type }
  let d := d.setSession s session
  let d := if session.role = some .consumer then d.updateSubscribeMsgType else d
  match session.role, session.fifoIdx with
  | some role, some k =>
    (d.fifos role k).map fun f => d.setFifo role k { f with subscribeMsgType := type }
  | _, _ => some d

/-- `MEDIAPROXY_SET_FIFO_LEN`. -/
def setFifoLen (d : Dev S) (s : S) (len : ℕ) : Dev S := d.setSession s { d.sessions s with
    fifoLen := if len ≤ 32 then 32 else if len ≤ 64 then 64 else if len ≤ 128 then 128 else 256 }

/-- `MEDIAPROXY_SET_VDEC_ID`. -/
def setVdecId (d : Dev S) (s : S) (id : ℕ) : Option (Dev S) :=
  let session := { d.sessions s with vdecId := id }
  let d := d.setSession s session
  match session.role, session.fifoIdx with
  | some role, some k => (d.fifos role k).map fun f => d.setFifo role k { f with vdecId := id }
  | _, _ => some d

/-- The FIFO of a session in a role. The calls of a session in another role fail. -/
def idxOf (d : Dev S) (s : S) (role : Role) : Option Idx :=
  if (d.sessions s).role = some role then (d.sessions s).fifoIdx else none

/-- Messages are put into the FIFO of a producer. -/
def putIn (d : Dev S) (i : Idx) (msgs : List Msg) : Option (Dev S) :=
  (d.fifos .producer i).map fun f =>
    { d.setFifo .producer i (f.put msgs) with
      allProducerFifoEmpty := (f.put msgs).msgs.isEmpty }

/-- The messages that `mediaproxy_write` does not skip. The session's own FIFO, of which it has the
    size that was set when it connected, takes as many as it has room for. -/
def accepted (d : Dev S) (s : S) (msgs : List Msg) : List Msg :=
  (msgs.take (d.sessions s).msgKfifo).filter fun msg => msg.messageType &&& d.subscribeMsgType ≠ 0

/-- `mediaproxy_write`. -/
def write (d : Dev S) (s : S) (msgs : List Msg) : Option (Dev S) :=
  match d.idxOf s .producer with
  | some i => d.putIn i (d.accepted s msgs)
  | none => some d

/-- One turn of the loop of `notify_msg_to_mediaproxy`. -/
def notify (d : Dev S) (s : S) (msg : Msg) : Option (Dev S) :=
  match d.idxOf s .producer with
  | some i => if msg.messageType &&& d.subscribeMsgType ≠ 0 then d.putIn i [msg] else some d
  | none => some d

/-- `mediaproxy_inject_buf`. The address that `vzalloc` gives is not in use. -/
def injectBuf (d : Dev S) (s : S) (type content ptr : ℕ) (copied : Bool) : Option (Dev S) :=
  if (d.sessions s).role ≠ some .producer ∨ ptr = 0 then some d
  else if d.allocs.count ptr ≠ d.frees.count ptr then none
  else
    let d := { d with allocs := ptr :: d.allocs }
    if !copied then some (d.vfree ptr)
    else
      match (d.sessions s).fifoIdx with
      | some i => d.putIn i [{ messageType := type, ptr, content }]
      | none => some (d.vfree ptr)

/-- `mediaproxy_get_buf`. -/
def getBuf (d : Dev S) (s : S) : Option (Dev S) :=
  match d.idxOf s .consumer with
  | some k =>
    (d.fifos .consumer k).map fun f =>
      match f.msgs with
      | [] => d
      | msg :: msgs => (d.setFifo .consumer k { f with msgs }).vfree msg.ptr
  | none => some d

/-- `mediaproxy_read`. -/
def read (d : Dev S) (s : S) (count : ℕ) : Option (Dev S) :=
  match d.idxOf s .consumer with
  | some k =>
    (d.fifos .consumer k).map fun f => d.setFifo .consumer k { f with msgs := f.msgs.drop count }
  | none => some d

/-- `receive_msg_from_mediaproxy`. It does not look at the role: a producer reads from the FIFO of
    the consumer that has the same index, if there is one. -/
def receive (d : Dev S) (s : S) (num : ℕ) : Option (Dev S) :=
  match (d.sessions s).fifoIdx with
  | some k =>
    (d.fifos .consumer k).map fun f => d.setFifo .consumer k { f with msgs := f.msgs.drop num }
  | none => some d

/-- One step. A call is of a session that is open. -/
def step (d : Dev S) : Op S → Option (Dev S)
  | .opens s =>
    if d.isOpen s then none
    else some { d.setSession s .creat with isOpen := update d.isOpen s true }
  | .connect s role => if d.isOpen s then some (d.connect s role) else none
  | .disconnect s => if d.isOpen s then d.disconnect s else none
  | .closes s => if d.isOpen s then d.release s else none
  | .subscribe s type => if d.isOpen s then d.subscribe s type else none
  | .setFifoLen s len => if d.isOpen s then some (d.setFifoLen s len) else none
  | .setVdecId s id => if d.isOpen s then d.setVdecId s id else none
  | .write s msgs => if d.isOpen s then d.write s msgs else none
  | .notify s msg => if d.isOpen s then d.notify s msg else none
  | .injectBuf s type content ptr copied =>
    if d.isOpen s then d.injectBuf s type content ptr copied else none
  | .getBuf s => if d.isOpen s then d.getBuf s else none
  | .read s count => if d.isOpen s then d.read s count else none
  | .receive s num => if d.isOpen s then d.receive s num else none
  | .thread => d.thread

end Dev

end CommonDrivers.Media.MediaProxy
