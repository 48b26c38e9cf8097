import Mathlib

/-!
# The sessions of the AV sync

The driver (`msync.c`) has four sessions. A process gets one through a control file and finds it
again by its id: to open it as a file of its own, or to remove it. A session counts its references,
one for the allocation and one for each open file, and goes when the last of them does.

The threads here are calls to the driver that are under way. What a thread does under `sync.lock`,
and each access to a counter, is one step; the threads take their steps in any order. The sessions
themselves are there from the start, so that a thread that comes too late finds the session of that
id again, in whatever state it is then.

The times, the works and the events of a session are left out, as are the counts at which an `int`
overflows.
-/

namespace CommonDrivers.Msync

open Function

/-- `MAX_SESSION_NUM`. -/
abbrev maxSessionNum : ℕ := 4

/-- An id, and the session of that index in `sync.session`. -/
abbrev Id := Fin maxSessionNum

instance : LawfulBEq Id := inferInstance

/-- The part of `struct sync_session` its lifetime depends on. -/
structure Session where
  id : Id
  refcnt : ℤ
  deriving DecidableEq

/-- Where a thread is, between two steps. The file is the control file of the call. -/
inductive Thread where
  | idle
  /-- `msync_ioctl` has marked an id, and wants the private data of the file. -/
  | reserved (file : ℕ) (i : Id)
  /-- `create_session` begins. -/
  | creating (file : ℕ) (i : Id)
  /-- `create_session` has set the session up. -/
  | linking (file : ℕ) (i : Id)
  /-- `create_session` has failed. -/
  | failed (file : ℕ) (i : Id)
  /-- The session is created. -/
  | attaching (file : ℕ) (i : Id)
  /-- `session_open` has looked for an id, and has a session. -/
  | opening (id : ℕ) (j : Id)
  /-- `destroy_session` begins; the private data of the file, if there is one, are freed later. -/
  | removing (file : Option ℕ) (id : Id)
  /-- `destroy_session` has looked for an id, and has a session. -/
  | dropping (file : Option ℕ) (id j : Id)
  /-- `free_session` begins. -/
  | freeing (file : Option ℕ) (j : Id)
  /-- `free_session` has taken the session from the list. -/
  | freed (file : Option ℕ) (j : Id)
  deriving DecidableEq

/-- The control file that the thread is in a call of. -/
def Thread.file : Thread → Option ℕ
  | .reserved f _ => some f
  | .creating f _ => some f
  | .linking f _ => some f
  | .failed f _ => some f
  | .attaching f _ => some f
  | .removing f _ => f
  | .dropping f _ _ => f
  | .freeing f _ => f
  | .freed f _ => f
  | .idle => none
  | .opening _ _ => none

/-- `struct msync`, with the open files and the threads. -/
structure Sync where
  idPool : Id → Bool
  session : Id → Session
  /-- The list of sessions, the newest first. -/
  head : List Id
  /-- The open control files, each with the id in its private data. -/
  ctl : ℕ → Option (Option Id)
  /-- The open session files, each with its session. -/
  files : List Id
  /-- The allocations that are not yet removed. The driver does not record them. -/
  allocated : Id → Bool
  threads : List Thread

namespace Sync

/-- A thread goes on. -/
def setThread (s : Sync) (n : ℕ) (t : Thread) : Sync := { s with threads := s.threads.set n t }

/-- An id is marked in the pool, or given back. -/
def setId (s : Sync) (i : Id) (b : Bool) : Sync :=
  { s with idPool := update s.idPool i b }

/-- A session is written. -/
def setSession (s : Sync) (j : Id) (x : Session) : Sync :=
  { s with session := update s.session j x }

/-- A control file is opened or closed, or its private data change. -/
def setCtl (s : Sync) (f : ℕ) (p : Option (Option Id)) : Sync :=
  { s with ctl := update s.ctl f p }

/-- `atomic_inc` and `atomic_dec` of the counter of a session. -/
def addRef (s : Sync) (j : Id) (v : ℤ) : Sync :=
  s.setSession j { s.session j with refcnt := (s.session j).refcnt + v }

/-- The end of a call: the private data of its file are freed. -/
def finish (s : Sync) (n : ℕ) : Option ℕ → Sync
  | none => s.setThread n .idle
  | some f => (s.setCtl f (some none)).setThread n .idle

/-- The walk over the list for an id. It stops at the session with that id, or with the last one
    that it has seen. -/
def walk (s : Sync) (id : ℕ) : List Id → Option Id → Option Id
  | [], seen => seen
  | j :: l, _ => if (s.session j).id = id then some j else s.walk id l (some j)

/-- The session that a walk for an id ends with. -/
def find (s : Sync) (id : ℕ) : Option Id := s.walk id s.head none

/-! ## The calls -/

/-- `msync_open`. -/
def msyncOpen (s : Sync) (f : ℕ) : Option Sync :=
  match s.ctl f with
  | none => some (s.setCtl f (some none))
  | some _ => none

/-- `AMSYNC_IOC_ALLOC_SESSION`: the first id that is not marked. -/
def allocSession (s : Sync) (n f : ℕ) : Option Sync :=
  match s.ctl f with
  | none => none
  | some _ =>
    match (List.finRange maxSessionNum).find? fun i => !s.idPool i with
    | none => some s
    | some i => some ((s.setId i true).setThread n (.reserved f i))

/-- `destroy_session`, if the id is marked. -/
def removeId (s : Sync) (n : ℕ) (f : Option ℕ) (id : Id) : Sync :=
  if s.idPool id then s.setThread n (.removing f id) else s

/-- `AMSYNC_IOC_REMOVE_SESSION`. -/
def removeSession (s : Sync) (n f id : ℕ) : Option Sync :=
  match s.ctl f with
  | none => none
  | some _ => if h : id < maxSessionNum then some (s.removeId n (some f) ⟨id, h⟩) else some s

/-- `msync_release`, when no call of the file is under way. -/
def msyncRelease (s : Sync) (n f : ℕ) : Option Sync :=
  if ∃ t ∈ s.threads, t.file = some f then none
  else
    match s.ctl f with
    | none => none
    | some none => some (s.setCtl f none)
    | some (some id) => some ((s.setCtl f none).removeId n none id)

/-- `session_open`, of the device with a minor number. -/
def sessionOpen (s : Sync) (n id : ℕ) : Sync :=
  match s.find id with
  | none => s
  | some j => s.setThread n (.opening id j)

/-- A reference is dropped; the last one frees the session. -/
def decAndTest (s : Sync) (n : ℕ) (f : Option ℕ) (j : Id) : Sync :=
  if ((s.addRef j (-1)).session j).refcnt = 0 then (s.addRef j (-1)).setThread n (.freeing f j)
  else (s.addRef j (-1)).finish n f

/-- `session_release`. -/
def sessionRelease (s : Sync) (n : ℕ) (j : Id) : Option Sync :=
  if j ∈ s.files then some ({ s with files := s.files.erase j }.decAndTest n none j) else none

/-- The next step of a thread, with the success of the allocation it makes. A session that is not in
    the list cannot be taken from it. -/
def goOn (s : Sync) (n : ℕ) (ok : Bool) : Thread → Option Sync
  | .idle => none
  | .reserved f i => some (s.setThread n (if ok then .creating f i else .idle))
  | .creating f i =>
    if ok then some ((s.setSession i ⟨i, 1⟩).setThread n (.linking f i))
    else some ((s.setSession i ⟨0, 0⟩).setThread n (.failed f i))
  | .linking f i =>
    some ({ s with
      head := i :: s.head
      allocated := update s.allocated i true }.setThread n (.attaching f i))
  | .failed _ i => some ((s.setId i false).setThread n .idle)
  | .attaching f i => some ((s.setCtl f (some (some i))).setThread n .idle)
  | .opening _ j => some ({ s.addRef j 1 with files := j :: s.files }.setThread n .idle)
  | .removing f id =>
    match s.find id with
    | none => some (s.finish n f)
    | some j => some (s.setThread n (.dropping f id j))
  | .dropping f id j =>
    some ({ s with allocated := update s.allocated id false }.decAndTest n f j)
  | .freeing f j =>
    if j ∈ s.head then some ({ s with head := s.head.erase j }.setThread n (.freed f j)) else none
  | .freed f j => some ((s.setId (s.session j).id false).finish n f)

end Sync

/-- What can happen next. A call is made by a thread that is idle. -/
inductive Op where
  | msyncOpen (f : ℕ)
  | allocSession (n f : ℕ)
  | removeSession (n f id : ℕ)
  | msyncRelease (n f : ℕ)
  | sessionOpen (n id : ℕ)
  | sessionRelease (n : ℕ) (j : Id)
  | goOn (n : ℕ) (ok : Bool)

namespace Sync

/-- A call of an idle thread. -/
def call (s : Sync) (n : ℕ) (s' : Option Sync) : Option Sync :=
  if s.threads[n]? = some .idle then s' else none

def step (s : Sync) : Op → Option Sync
  | .msyncOpen f => s.msyncOpen f
  | .allocSession n f => s.call n (s.allocSession n f)
  | .removeSession n f id => s.call n (s.removeSession n f id)
  | .msyncRelease n f => s.call n (s.msyncRelease n f)
  | .sessionOpen n id => s.call n (some (s.sessionOpen n id))
  | .sessionRelease n j => s.call n (s.sessionRelease n j)
  | .goOn n ok =>
    match s.threads[n]? with
    | none => none
    | some t => s.goOn n ok t

/-- The driver after `msync_init`, with a number of threads. -/
def init (n : ℕ) : Sync where
  idPool _ := false
  session _ := ⟨0, 0⟩
  head := []
  ctl _ := none
  files := []
  allocated _ := false
  threads := List.replicate n .idle

/-- A run with the steps that meet a condition. -/
inductive Reachable (P : Sync → Op → Prop) : Sync → Prop
  | init (n : ℕ) : Reachable P (init n)
  | step {s s' : Sync} {op : Op} : Reachable P s → P s op → s.step op = some s' → Reachable P s'

/-- The steps one after the other. -/
def run (s : Sync) : List Op → Option Sync
  | [] => some s
  | op :: ops =>
    match s.step op with
    | none => none
    | some s' => s'.run ops

end Sync

end CommonDrivers.Msync
