import CommonDrivers.Lib.Run
import CommonDrivers.Lib.Word

/-!
# The resource manager

Sessions acquire resources of the media drivers, and release them (`resourcemanage.c`). A resource
counts its holders, or adds up what they use. A session that does not get a resource may wait for
it, and may *preempt* holders of no higher priority before: they get an event, and are expected to
release the resource. A larger `prio` is a lower priority.

What is done under the lock of a resource is one step, so that between two steps all locks of
resources are free. A session holds its own lock during a call, also while it waits. What comes
from elsewhere is a part of the step: the state of the codec memory, and which sessions let their
lock be taken.
-/

namespace CommonDrivers.Media.ResourceMgr

open Function

/-- `enum RESMAN_STATUS`. -/
inductive Status where
  | inited
  | acquired
  | preempted
  deriving DecidableEq

/-- `struct resman_session`. -/
structure Session where
  id : ℤ
  status : Status
  prio : ℤ
  deriving DecidableEq

/-- `struct resman_node`: a session with what it holds of a resource. The type of the resource says
    which member of the union counts. -/
structure Node (S : Type*) where
  session : S
  type : Char
  score : ℕ
  secure : Bool
  use : ℕ
  deriving DecidableEq

/-- The type of a resource, with its parameters. -/
inductive Kind where
  | counter (avail : ℕ)
  | toggle
  | tvp
  | codecMm (total uhd fhd secure : ℕ)
  | capacity (total : ℕ)
  deriving DecidableEq

/-- `struct resman_resource`. Of an entry of the counter list there is the session that has taken
    it. -/
structure Resource (S : Type*) where
  kind : Kind
  value : ℤ
  nodes : List (Node S)
  items : List (Option ℤ)
  counterSecure : ℤ
  counterNonsecure : ℤ

/-- `resman_create_resource`, of a new resource. -/
def Resource.new {S : Type*} (kind : Kind) : Resource S where
  kind
  value := 0
  nodes := []
  items :=
    match kind with
    | .counter avail => List.replicate avail none
    | _ => []
  counterSecure := 0
  counterNonsecure := 0

/-- What the codec memory says when it is asked. -/
structure Memory where
  freeSize : ℤ
  tvpFreeSize : ℤ
  /-- `codec_mm_enable_tvp` succeeds. -/
  tvpEnabled : Bool

variable {S : Type*}

/-! ## The arguments of a request -/

/-- `resman_parser_kv`, with the number that the text after the colon stands for. -/
def resmanParserKv (kstrtou32 : List Char → Option UInt32) (str k : List Char) : Option ℕ :=
  match str.dropWhile (· ≠ ':') with
  | ':' :: v => if str.takeWhile (· ≠ ':') = k then (kstrtou32 v).map UInt32.toNat else none
  | _ => none

/-- `SINGLE_SIZE`. -/
def singleSize : ℕ := 64

/-- An option of `resman_codec_mm_acquire`. -/
def codecMmOpt (kstrtou32 : List Char → Option UInt32) (uhd : ℕ) (acc : ℕ × Bool)
    (opt : List Char) : ℕ × Bool :=
  if "size".toList.isPrefixOf opt then
    ((resmanParserKv kstrtou32 opt "size".toList).getD acc.1, acc.2)
  else if opt = "single".toList then (singleSize, acc.2)
  else if opt = "uhd".toList then (uhd, acc.2)
  else if opt = "secure".toList then (acc.1, true)
  else acc

/-- The size that `resman_capacity_acquire` is asked for. -/
def capacitySize (kstrtou32 : List Char → Option UInt32) : List (List Char) → ℕ → Option ℕ
  | [], size => if size = 0 then none else some size
  | opt :: opts, size =>
    if "size".toList.isPrefixOf opt then
      (resmanParserKv kstrtou32 opt "size".toList).bind (capacitySize kstrtou32 opts)
    else capacitySize kstrtou32 opts size

/-- The parts of the argument that `strsep` gives, if there is one. -/
def options (arg : Option (List Char)) : List (List Char) := (arg.map (·.splitOn ',')).getD []

/-- What a session asks for, as the node it will have. -/
def request (kstrtou32 : List Char → Option UInt32) (kind : Kind) (session : S)
    (arg : Option (List Char)) : Option (Node S) :=
  let node : Node S := { session, type := '\x00', score := 0, secure := false, use := 0 }
  match kind with
  | .counter _ => some node
  | .toggle => (arg.bind List.head?).map fun type => { node with type }
  | .tvp => some node
  | .codecMm _ uhd fhd _ =>
    let (score, secure) := (options arg).foldl (codecMmOpt kstrtou32 uhd) (fhd, false)
    some { node with score, secure }
  | .capacity _ => (capacitySize kstrtou32 (options arg) 0).map fun use => { node with use }

/-! ## Taking and releasing -/

/-- `resman_counter_res_list_acquire_item`. -/
def acquireItem (ssid : ℤ) : List (Option ℤ) → List (Option ℤ)
  | [] => []
  | none :: items => some ssid :: items
  | some x :: items => some x :: acquireItem ssid items

/-- The loop of `resman_counter_res_list_release_item`. -/
def releaseItemLoop (ssid : ℤ) : List (Option ℤ) → List (Option ℤ)
  | [] => []
  | item :: items =>
    if item = some ssid then none :: items else item :: releaseItemLoop ssid items

/-- `resman_counter_res_list_release_item`. -/
def releaseItem (ssid : ℤ) (items : List (Option ℤ)) : List (Option ℤ) :=
  if ssid ≤ 0 then items else releaseItemLoop ssid items

namespace Resource

/-- `resman_codec_mm_enough`. -/
def codecMmEnough (mem : Memory) (score : ℕ) (secure : Bool) : Bool :=
  if secure then score ≤ u32 ((mem.tvpFreeSize + mem.freeSize) / 2 ^ 20)
  else score ≤ u32 (mem.freeSize / 2 ^ 20)

/-- The check that a request has to pass. For a capacity it is `resman_capacity_enough`. -/
def enough (r : Resource S) (mem : Memory) (node : Node S) : Bool :=
  match r.kind with
  | .counter avail => u32 r.value < avail
  | .toggle => (node.type = '+' ∧ 0 ≤ r.value) ∨ (node.type = '-' ∧ r.value ≤ 0)
  | .tvp => mem.tvpEnabled
  | .codecMm _ _ _ _ => codecMmEnough mem node.score node.secure
  | .capacity total => u32 (r.value + node.use) ≤ total

/-- An `int` is added to. -/
def addInt (value : ℤ) (v : ℤ) : ℤ := i32 (u32 (value + v))

/-- The end of an acquire that has passed its check, by a session with that id. -/
def take (r : Resource S) (id : ℤ) (node : Node S) : Resource S :=
  let r := { r with nodes := r.nodes ++ [node] }
  match r.kind with
  | .counter _ => { r with value := addInt r.value 1, items := acquireItem id r.items }
  | .toggle => { r with value := addInt r.value (if node.type = '+' then 1 else -1) }
  | .tvp => { r with value := addInt r.value 1 }
  | .codecMm _ _ _ _ =>
    { r with
      value := addInt r.value node.score
      counterSecure := if node.secure then addInt r.counterSecure 1 else r.counterSecure
      counterNonsecure := if node.secure then r.counterNonsecure else addInt r.counterNonsecure 1 }
  | .capacity _ => { r with value := addInt r.value node.use }

/-- The value without an amount, if it is as large. -/
def subtract (value : ℤ) (amount : ℕ) : ℤ :=
  if u32 value ≥ amount then addInt value (-amount) else value

/-- The release of a node, of a session with that id. -/
def release (r : Resource S) (id : ℤ) (node : Node S) : Resource S :=
  match r.kind with
  | .counter _ =>
    if r.value > 0 then
      { r with value := addInt r.value (-1), items := releaseItem id r.items }
    else r
  | .toggle =>
    if node.type = '+' then
      if r.value > 0 then { r with value := addInt r.value (-1) } else r
    else if node.type = '-' then
      if r.value < 0 then { r with value := addInt r.value 1 } else r
    else r
  | .tvp => if r.value > 0 then { r with value := addInt r.value (-1) } else r
  | .codecMm _ _ _ _ =>
    { r with
      value := subtract r.value node.score
      counterSecure := if node.secure then addInt r.counterSecure (-1) else r.counterSecure
      counterNonsecure :=
        if node.secure then r.counterNonsecure else addInt r.counterNonsecure (-1) }
  | .capacity _ => { r with value := subtract r.value node.use }

end Resource

/-! ## Preempting -/

/-- The sessions after a preemption, those that were sent the event, and the result. -/
structure Outcome (S : Type*) where
  sess : S → Session
  sent : List S
  ret : Bool

section Preempt

variable [DecidableEq S] (sess : S → Session) (curr : S) (nodes : List (Node S))

/-- `resman_preempt_session`. The lock of the session is free, or the session is about to release
    its node, as `reach` says. -/
def preemptSession (reach : S → Bool) : Option (Node S) → Outcome S
  | none => { sess, sent := [], ret := false }
  | some node =>
    let s := node.session
    if (sess s).status ≠ .acquired then { sess, sent := [], ret := false }
    else if !reach s then { sess, sent := [], ret := false }
    else
      { sess := update sess s { sess s with status := .preempted }
        sent := [s], ret := true }

/-- The loop for the lowest priority below a given one, among the nodes that count, and that
    priority. -/
def findLowest (counts : Node S → Bool) (lowestprio : ℤ) : Option (Node S) × ℤ :=
  nodes.foldl (fun acc node =>
    if counts node ∧ (sess node.session).prio > acc.2 then
      (some node, (sess node.session).prio)
    else acc) (none, lowestprio)

/-- `resman_counter_preempt`. -/
def counterPreempt (reach : S → Bool) : Outcome S :=
  let prio := (sess curr).prio
  let selected := nodes.find? fun node =>
    (sess node.session).status = .preempted ∧ (sess node.session).prio ≥ prio
  let lowest := findLowest sess nodes (fun _ => true) prio
  let selected := selected.or lowest.1
  let selected := selected.or (nodes.find? fun node => (sess node.session).prio = prio)
  preemptSession sess reach selected

/-- `resman_tvp_preempt`, with the nodes of the codec memory. -/
def tvpPreempt (reach : S → Bool) : Outcome S :=
  let lowestprio := (findLowest sess nodes (fun node => !node.secure) (sess curr).prio).2
  preemptSession sess reach
    (nodes.find? fun node => !node.secure ∧ (sess node.session).prio ≥ lowestprio)

/-- What is used without the nodes of the sessions that are preempted, as an `unsigned int`. -/
def usedWithout (amount : Node S → ℕ) (value : ℤ) : ℕ :=
  u32 (value - ((nodes.filter fun node => (sess node.session).status = .preempted).map amount).sum)

/-- The node that the loop of `resman_codec_mm_preempt` and `resman_capacity_preempt` selects. -/
def selectNode (lowestprio : ℤ) : Option (Node S) × ℤ :=
  let lowest :=
    findLowest sess nodes (fun node => (sess node.session).status = .acquired) lowestprio
  match lowest.1 with
  | some node => (some node, lowest.2)
  | none =>
    (nodes.find? fun node => (sess node.session).status = .acquired ∧
      (sess node.session).prio = lowestprio, lowestprio)

end Preempt

/-- The loop of `resman_codec_mm_preempt` and `resman_capacity_preempt` with its turns left, its
    `lowestprio` and what it has done. The sessions that can be reached may change between two
    turns. -/
def reclaim [DecidableEq S] (curr : S) (nodes : List (Node S)) (amount : Node S → ℕ) (value : ℤ)
    (total need : ℕ) (reach : ℕ → S → Bool) : ℕ → ℤ → Outcome S → Outcome S
  | 0, _, acc => acc
  | turns + 1, lowestprio, acc =>
    let used := usedWithout acc.sess nodes amount value
    if u32 (used + need) ≤ total then acc
    else
      let (selected, lowestprio) := selectNode acc.sess nodes lowestprio
      match selected with
      | none => acc
      | some node =>
        let out := preemptSession acc.sess (reach turns) (some node)
        if out.ret then
          let acc := { sess := out.sess, sent := acc.sent ++ out.sent, ret := true }
          if u32 (u32 (used - amount node) + need) > total then
            reclaim curr nodes amount value total need reach turns (acc.sess curr).prio acc
          else acc
        else reclaim curr nodes amount value total need reach turns lowestprio acc

/-- `resman_capacity_preempt`. -/
def capacityPreempt [DecidableEq S] (sess : S → Session) (curr : S) (nodes : List (Node S))
    (value : ℤ) (total size : ℕ) (reach : ℕ → S → Bool) (turns : ℕ) : Outcome S :=
  reclaim curr nodes (·.use) value total size reach turns (sess curr).prio
    { sess, sent := [], ret := false }

/-- The first loop of `resman_codec_mm_preempt`: secure instances, if there are too many. -/
def reclaimSecure [DecidableEq S] (reach : S → Bool) (limit : ℕ) :
    List (Node S) → ℤ → Outcome S → Outcome S
  | [], _, acc => acc
  | node :: nodes, secureCount, acc =>
    if u32 secureCount < limit then acc
    else if node.secure then
      let out := preemptSession acc.sess reach (some node)
      reclaimSecure reach limit nodes (secureCount - 1)
        { sess := out.sess, sent := acc.sent ++ out.sent, ret := acc.ret || out.ret }
    else reclaimSecure reach limit nodes secureCount acc

/-- `resman_codec_mm_preempt`. -/
def codecMmPreempt [DecidableEq S] (sess : S → Session) (curr : S) (nodes : List (Node S))
    (value counterSecure : ℤ) (total limit score : ℕ) (secure : Bool) (reach : ℕ → S → Bool)
    (turns : ℕ) : Outcome S :=
  let acc : Outcome S := { sess, sent := [], ret := false }
  let acc := if secure then reclaimSecure (reach turns) limit nodes counterSecure acc else acc
  reclaim curr nodes (·.score) value total score reach turns (sess curr).prio acc

/-! ## The manager -/

/-- An acquire that waits. -/
structure Pending (R S : Type*) where
  resource : R
  node : Node S

/-- The resources and the sessions. -/
structure Manager (R S : Type*) where
  resources : R → Resource S
  sessions : S → Session
  isOpen : S → Bool
  /-- The resources in the list of a session. -/
  held : S → List R
  waiting : S → Option (Pending R S)

/-- What does not change: `kstrtou32`, `preempt_timeout_ms` and the resource of the codec memory. -/
structure Config (R : Type*) where
  kstrtou32 : List Char → Option UInt32
  preemptTimeoutMs : ℕ
  codecMm : Option R

/-- What comes from elsewhere while a resource is locked: the codec memory at the first check and at
    the last one, and how often a loop goes round, with the sessions it can reach. -/
structure Outside (S : Type*) where
  first : Memory
  last : Memory
  turns : ℕ
  reach : ℕ → S → Bool

/-- The ioctls of a session. -/
inductive Step (R S : Type*) where
  | opens (s : S) (id : ℤ)
  | setAppInfo (s : S) (prio : ℤ)
  | acquire (s : S) (r : R) (preempt : Bool) (timeout : ℕ) (arg : Option (List Char))
    (o : Outside S)
  /-- The wait of an acquire is over. -/
  | wake (s : S) (o : Outside S)
  | release (s : S) (r : R)
  /-- `resman_close_session` has released the resources of the session. -/
  | closes (s : S)

namespace Manager

variable {R : Type*} [DecidableEq R] [DecidableEq S] (cfg : Config R)

/-- `resman_count_codec_mm_session`, of the sessions that are not secure. -/
def countNonsecure (m : Manager R S) : ℤ :=
  (cfg.codecMm.map fun r => (m.resources r).counterNonsecure).getD 0

/-- The preemption for a resource. -/
def preempt (m : Manager R S) (curr : S) (r : R) (node : Node S) (o : Outside S) : Outcome S :=
  let res := m.resources r
  match res.kind with
  | .counter _ => counterPreempt m.sessions curr res.nodes (o.reach o.turns)
  | .toggle => { sess := m.sessions, sent := [], ret := false }
  | .tvp =>
    match cfg.codecMm with
    | some c => tvpPreempt m.sessions curr (m.resources c).nodes (o.reach o.turns)
    | none => { sess := m.sessions, sent := [], ret := false }
  | .codecMm total _ _ limit =>
    codecMmPreempt m.sessions curr res.nodes res.value res.counterSecure total limit node.score
      node.secure o.reach o.turns
  | .capacity total =>
    capacityPreempt m.sessions curr res.nodes res.value total node.use o.reach o.turns

/-- A session gets a resource. -/
def take (m : Manager R S) (s : S) (r : R) (node : Node S) : Manager R S :=
  { m with
    resources := update m.resources r ((m.resources r).take (m.sessions s).id node)
    sessions := update m.sessions s { m.sessions s with status := .acquired }
    held := update m.held s (m.held s ++ [r])
    waiting := update m.waiting s none }

/-- A session does not get a resource. -/
def fail (m : Manager R S) (s : S) : Manager R S :=
  { m with waiting := update m.waiting s none }

/-- The last check of an acquire. -/
def finish (m : Manager R S) (s : S) (r : R) (node : Node S) (mem : Memory) : Manager R S :=
  if (m.resources r).enough mem node then m.take s r node else m.fail s

/-- A session waits for a resource. -/
def wait (m : Manager R S) (s : S) (r : R) (node : Node S) : Manager R S :=
  { m with waiting := update m.waiting s (some { resource := r, node }) }

/-- The loop of `resman_tvp_acquire`, until it waits. -/
def tryTvp (m : Manager R S) (s : S) (r : R) (preempt : Bool) (node : Node S) (o : Outside S) :
    Manager R S :=
  if (m.resources r).enough o.first node then m.take s r node
  else if !preempt ∨ m.countNonsecure cfg = 0 then m.fail s
  else
    let out := m.preempt cfg s r node o
    if out.ret then { m with sessions := out.sess }.wait s r node
    else { m with sessions := out.sess }.fail s

/-- The hook of a resource that is acquired, until it waits. -/
def tryAcquire (m : Manager R S) (s : S) (r : R) (preempt : Bool) (timeout : ℕ) (node : Node S)
    (o : Outside S) : Manager R S :=
  match (m.resources r).kind with
  | .toggle => m.finish s r node o.first
  | .tvp => m.tryTvp cfg s r preempt node o
  | _ =>
    -- a request that passes is checked once more, when the codec memory may have changed
    if (m.resources r).enough o.first node then m.finish s r node o.last
    else if preempt then
      let out := m.preempt cfg s r node o
      let m := { m with sessions := out.sess }
      let timeout := if timeout = 0 then cfg.preemptTimeoutMs else timeout
      if out.ret ∧ timeout ≠ 0 then m.wait s r node else m.finish s r node o.last
    else if timeout ≠ 0 then m.wait s r node
    else m.finish s r node o.last

/-- The hook goes on after its wait. -/
def wake (m : Manager R S) (s : S) (p : Pending R S) (o : Outside S) : Manager R S :=
  match (m.resources p.resource).kind with
  | .tvp => m.tryTvp cfg s p.resource true p.node o
  | _ => m.finish s p.resource p.node o.last

/-- `resman_release_resource`. -/
def release (m : Manager R S) (s : S) (r : R) : Manager R S :=
  let res := m.resources r
  match res.nodes.find? fun node => node.session = s with
  | some node =>
    { m with
      resources := update m.resources r
        { res.release (m.sessions s).id node with
          nodes := res.nodes.eraseP fun node => node.session = s }
      held := update m.held s ((m.held s).erase r) }
  | none => m

/-- One step. It is `none` if the session is not there, or in a call. -/
def step (m : Manager R S) : Step R S → Option (Manager R S)
  | .opens s id =>
    if m.isOpen s then none
    else
      some { m with
        sessions := update m.sessions s { id, status := .inited, prio := 0 }
        isOpen := update m.isOpen s true
        held := update m.held s []
        waiting := update m.waiting s none }
  | .setAppInfo s prio =>
    if m.isOpen s then
      some { m with sessions := update m.sessions s { m.sessions s with prio } }
    else none
  | .acquire s r preempt timeout arg o =>
    if m.isOpen s ∧ (m.waiting s).isNone then
      if r ∈ m.held s then some m
      else
        match request cfg.kstrtou32 (m.resources r).kind s arg with
        | some node => some (m.tryAcquire cfg s r preempt timeout node o)
        | none => some m
    else none
  | .wake s o => if m.isOpen s then (m.waiting s).map fun p => m.wake cfg s p o else none
  | .release s r =>
    if m.isOpen s ∧ (m.waiting s).isNone then
      if r ∈ m.held s then some (m.release s r) else some m
    else none
  | .closes s =>
    if m.isOpen s ∧ (m.waiting s).isNone ∧ m.held s = [] then
      some { m with isOpen := update m.isOpen s false }
    else none

end Manager

end CommonDrivers.Media.ResourceMgr
