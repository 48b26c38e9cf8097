import CommonDrivers.Media.MediaProxy.Queues

/-!
# The messages on their way

A run of the proxy is logged (`Log`): what the producers write, what of it gets into their FIFOs,
the transfers of the thread with the consumers as it has found them, and what the consumers have
read. `Delivered` says that the FIFOs hold what is between two of these, and each step keeps it as
long as no FIFO is full.
-/

namespace CommonDrivers.Media.MediaProxy

open List Function

variable {S : Type*} {d d' : Dev S} {s : S} {role : Role} {i j k : Idx} {f : Fifo} {op : Op S}
  {msg : Msg} {msgs : List Msg}

/-! ## The log of a run -/

/-- A message on its way from a producer, with its decoder, and the FIFOs of the consumers as they
    were when it was offered to them. -/
structure Transfer where
  src : Idx
  msg : Msg
  vdecId : ℕ
  seen : List (Idx × Option Fifo)

namespace Transfer

variable {t : Transfer} {c : Option Fifo}

/-- The message matches the subscription of a consumer. -/
def Matches (t : Transfer) (c : Option Fifo) : Prop := ∃ f ∈ c, Dev.Takes t.msg t.vdecId f

instance (t : Transfer) (c : Option Fifo) : Decidable (t.Matches c) :=
  inferInstanceAs (Decidable (∃ f ∈ c, _))

/-- The consumers that match. -/
def matching (t : Transfer) : List Idx := (t.seen.filter fun x => t.Matches x.2).map Prod.fst

/-- The consumers that the message is for: of closed captions, the first that matches. -/
def receivers (t : Transfer) : List Idx :=
  if t.msg.messageType = mediaVideoCcInfo then t.matching.take 1 else t.matching

/-- The message is offered to one more consumer. -/
def see (t : Transfer) (j : Idx) (c : Option Fifo) : Transfer :=
  { t with seen := t.seen ++ [(j, c)] }

/-- Every consumer was looked at, once and in turn, up to the one that has taken a message with
    closed captions. -/
def Complete (t : Transfer) : Prop := t.seen.map Prod.fst = List.finRange maxSession ∨
    t.msg.messageType = mediaVideoCcInfo ∧ t.receivers ≠ [] ∧
      t.seen.map Prod.fst <+: List.finRange maxSession

theorem matching_see (t : Transfer) (j : Idx) (c : Option Fifo) :
    (t.see j c).matching = t.matching ++ if t.Matches c then [j] else [] := by
  change ((t.seen ++ [(j, c)]).filter fun x => t.Matches x.2).map Prod.fst = _
  rw [filter_append, map_append, matching]
  by_cases hc : t.Matches c <;> simp [hc]

theorem receivers_see_of_not (h : ¬ t.Matches c) : (t.see j c).receivers = t.receivers := by
  rw [receivers, matching_see, if_neg h, append_nil, receivers]
  rfl

theorem receivers_see (hcc : t.msg.messageType = mediaVideoCcInfo → t.receivers = [])
    (h : t.Matches c) : (t.see j c).receivers = t.receivers ++ [j] := by
  have htype : (t.see j c).msg = t.msg := rfl
  rw [receivers, matching_see, if_pos h, htype]
  split
  · next hmsg =>
    have hnil := hcc hmsg
    rw [receivers, if_pos hmsg, take_eq_nil_iff] at hnil
    rw [hcc hmsg, hnil.resolve_left one_ne_zero]
    rfl
  · next hmsg => rw [receivers, if_neg hmsg]

theorem receivers_subset (t : Transfer) : t.receivers ⊆ t.seen.map Prod.fst := by
  have hmatching : t.matching ⊆ t.seen.map Prod.fst := map_subset _ (filter_subset_self _)
  rw [receivers]
  split
  · exact fun x hx => hmatching (mem_of_mem_take hx)
  · exact hmatching

end Transfer

/-- A message that is written, and the FIFOs of the consumers at that time. -/
structure Written where
  msg : Msg
  consumers : Idx → Option Fifo

/-- A consumer that is connected has subscribed to the type of the message. -/
def Written.Wanted (w : Written) : Prop :=
  ∃ k, ∃ f ∈ w.consumers k, f.state = .used ∧ w.msg.messageType &&& f.subscribeMsgType ≠ 0

instance (w : Written) : Decidable w.Wanted :=
  inferInstanceAs (Decidable (∃ k, ∃ f ∈ w.consumers k, _))

/-- What has happened so far: the messages written by the producers, those put into their FIFOs,
    those taken from there, the latest first, and those that the consumers have got. -/
structure Log where
  written : Idx → List Written
  accepted : Idx → List Msg
  transfers : List Transfer
  obtained : Idx → List Msg

namespace Log

variable {log : Log}

/-- Nothing has happened yet. -/
def empty : Log where
  written _ := []
  accepted _ := []
  transfers := []
  obtained _ := []

/-- Messages are put into the FIFO of a producer. -/
def accept (log : Log) (i : Idx) (msgs : List Msg) : Log :=
  { log with accepted := update log.accepted i (log.accepted i ++ msgs) }

/-- Messages are read by a consumer. -/
def fetch (log : Log) (k : Idx) (msgs : List Msg) : Log :=
  { log with obtained := update log.obtained k (log.obtained k ++ msgs) }

theorem fetch_nil (log : Log) (k : Idx) : log.fetch k [] = log := by
  rw [fetch, append_nil, update_eq_self]

/-- The latest message is offered to a consumer. -/
def see (log : Log) (j : Idx) (c : Option Fifo) : Log :=
  { log with
    transfers :=
      match log.transfers with
      | [] => []
      | t :: ts => t.see j c :: ts }

end Log

/-- What a step of the thread adds to the log. -/
def Pc.record (d : Dev S) (log : Log) : Pc → Log
  | .visit (i :: _) =>
    match d.queue .producer i with
    | [] => log
    | msg :: _ =>
      { log with
        transfers :=
          { src := i, msg, vdecId := ((d.fifos .producer i).map Fifo.vdecId).getD 0, seen := [] } ::
            log.transfers }
  | .offer _ _ _ (j :: _) _ => log.see j (d.fifos .consumer j)
  | .asleep | .visit [] | .offer _ _ _ [] _ | .tidy _ _ => log

/-- What a step adds to the log. -/
def Op.record (d : Dev S) (log : Log) : Op S → Log
  | .write s msgs =>
    match d.idxOf s .producer with
    | some i => log.accept i (d.accepted s msgs)
    | none => log
  | .notify s msg =>
    match d.idxOf s .producer with
    | some i => if msg.messageType &&& d.subscribeMsgType ≠ 0 then log.accept i [msg] else log
    | none => log
  | .injectBuf s type content ptr copied =>
    match d.idxOf s .producer with
    | some i =>
      if ptr ≠ 0 ∧ copied then log.accept i [{ messageType := type, ptr, content }] else log
    | none => log
  | .getBuf s =>
    match d.idxOf s .consumer with
    | some k => log.fetch k ((d.queue .consumer k).take 1)
    | none => log
  | .read s count =>
    match d.idxOf s .consumer with
    | some k => log.fetch k ((d.queue .consumer k).take count)
    | none => log
  | .receive s num =>
    match d.idxOf s .consumer with
    | some k => log.fetch k ((d.queue .consumer k).take num)
    | none => log
  | .thread => d.pc.record d log
  | .opens _ | .connect _ _ | .disconnect _ | .closes _ | .subscribe _ _ | .setFifoLen _ _
  | .setVdecId _ _ => log

/-- The messages that a producer hands to a call, as far as its own FIFO has room for them. -/
def Dev.writes (d : Dev S) : Op S → Option (Idx × List Msg)
  | .write s msgs => (d.idxOf s .producer).map (·, msgs.take (d.sessions s).msgKfifo)
  | .notify s msg => (d.idxOf s .producer).map (·, [msg])
  | .injectBuf s type content ptr copied =>
    if ptr ≠ 0 ∧ copied then
      (d.idxOf s .producer).map (·, [{ messageType := type, ptr, content }])
    else none
  | _ => none

/-- The messages that were written, after a step. -/
def Log.note (log : Log) (d : Dev S) (op : Op S) : Idx → List Written :=
  match d.writes op with
  | some (i, msgs) =>
    update log.written i (log.written i ++ msgs.map (⟨·, d.fifos .consumer⟩))
  | none => log.written

/-! ## The runs -/

/-- No FIFO is full when the thread puts a message into it. -/
def Pc.NotFull (d : Dev S) : Pc → Prop
  | .offer _ msg vdecId (j :: _) _ =>
    ∀ c ∈ d.fifos .consumer j, Dev.Takes msg vdecId c → c.msgs.length < kfifoMaxSize
  | .asleep | .visit _ | .offer _ _ _ [] _ | .tidy _ _ => True

/-- No FIFO is full when a message is put into it, no session leaves, and the messages are received
    by consumers. -/
def Op.NotFull (d : Dev S) : Op S → Prop
  | .write s msgs => ∀ i ∈ d.idxOf s .producer,
    (d.queue .producer i).length + (d.accepted s msgs).length ≤ kfifoMaxSize
  | .notify s _ | .injectBuf s _ _ _ _ => ∀ i ∈ d.idxOf s .producer,
    (d.queue .producer i).length < kfifoMaxSize
  | .receive s _ => ∀ k ∈ (d.sessions s).fifoIdx, (d.sessions s).role = some .consumer
  | .thread => d.pc.NotFull d
  | .disconnect _ | .closes _ => False
  | .opens _ | .connect _ _ | .subscribe _ _ | .setFifoLen _ _ | .setVdecId _ _ | .getBuf _
  | .read _ _ => True

/-- When the last message of a producer is taken, no other producer has one. -/
def Pc.Sole (d : Dev S) : Pc → Prop
  | .visit (i :: _) => (d.queue .producer i).length = 1 → ∀ k ≠ i, d.queue .producer k = []
  | .asleep | .visit [] | .offer _ _ _ _ _ | .tidy _ _ => True

/-- A step that leaves the FIFO of a producer empty finds the others empty as well. -/
def Op.Sole (d : Dev S) : Op S → Prop
  | .write s msgs => ∀ i ∈ d.idxOf s .producer, d.queue .producer i = [] →
    d.accepted s msgs = [] → ∀ k, d.queue .producer k = []
  | .thread => d.pc.Sole d
  | .opens _ | .connect _ _ | .disconnect _ | .closes _ | .subscribe _ _ | .setFifoLen _ _
  | .setVdecId _ _ | .notify _ _ | .injectBuf _ _ _ _ _ | .getBuf _ | .read _ _
  | .receive _ _ => True

instance (d : Dev S) : (pc : Pc) → Decidable (pc.NotFull d)
  | .offer _ _ _ (j :: _) _ => inferInstanceAs (Decidable (∀ c ∈ d.fifos .consumer j, _))
  | .asleep | .visit _ | .offer _ _ _ [] _ | .tidy _ _ => inferInstanceAs (Decidable True)

instance (d : Dev S) : (op : Op S) → Decidable (op.NotFull d)
  | .write s _ | .notify s _ | .injectBuf s _ _ _ _ =>
    inferInstanceAs (Decidable (∀ i ∈ d.idxOf s .producer, _))
  | .receive s _ => inferInstanceAs (Decidable (∀ k ∈ (d.sessions s).fifoIdx, _))
  | .thread => inferInstanceAs (Decidable (d.pc.NotFull d))
  | .disconnect _ | .closes _ => inferInstanceAs (Decidable False)
  | .opens _ | .connect _ _ | .subscribe _ _ | .setFifoLen _ _ | .setVdecId _ _ | .getBuf _
  | .read _ _ => inferInstanceAs (Decidable True)

instance (d : Dev S) : (pc : Pc) → Decidable (pc.Sole d)
  | .visit (i :: _) => inferInstanceAs (Decidable ((d.queue .producer i).length = 1 → _))
  | .asleep | .visit [] | .offer _ _ _ _ _ | .tidy _ _ => inferInstanceAs (Decidable True)

instance (d : Dev S) : (op : Op S) → Decidable (op.Sole d)
  | .write s _ => inferInstanceAs (Decidable (∀ i ∈ d.idxOf s .producer, _))
  | .thread => inferInstanceAs (Decidable (d.pc.Sole d))
  | .opens _ | .connect _ _ | .disconnect _ | .closes _ | .subscribe _ _ | .setFifoLen _ _
  | .setVdecId _ _ | .notify _ _ | .injectBuf _ _ _ _ _ | .getBuf _ | .read _ _
  | .receive _ _ => inferInstanceAs (Decidable True)

section

variable {log : Log}

theorem Op.record_of_puts (h : d.puts op = some (i, msgs)) :
    op.record d log = log.accept i msgs := by
  cases op <;> grind [Dev.puts, Op.record]

theorem Op.record_of_fetches {n : ℕ} (hroom : op.NotFull d) (h : d.fetches op = some (k, n)) :
    op.record d log = log.fetch k ((d.queue .consumer k).take n) := by
  cases op with
  | receive s num =>
    obtain ⟨k, hk, ⟨⟩⟩ := Option.map_eq_some_iff.1 h
    rw [Op.record, Dev.idxOf, if_pos (hroom k hk), hk]
  | _ => grind [Dev.fetches, Op.record]

theorem Op.record_quiet (hop : op ≠ .thread) (hroom : op.NotFull d) (hputs : d.puts op = none)
    (hfetches : ∀ k n, d.fetches op = some (k, n) → d.queue .consumer k = []) :
    op.record d log = log := by
  rcases hfetch : d.fetches op with - | ⟨k, n⟩
  · cases op <;> grind [Dev.puts, Dev.fetches, Op.record, Dev.idxOf]
  · rw [Op.record_of_fetches hroom hfetch, hfetches k n hfetch, take_nil, Log.fetch_nil]

theorem Op.NotFull.puts (h : op.NotFull d) (hputs : d.puts op = some (i, msgs)) :
    (d.queue .producer i).length + msgs.length ≤ kfifoMaxSize := by
  cases op <;> grind [Dev.puts, Op.NotFull, Option.mem_def, Option.map_eq_some_iff]

theorem Op.Sole.puts (h : op.Sole d) (hputs : d.puts op = some (i, msgs))
    (hnil : d.queue .producer i ++ msgs = []) (k : Idx) : d.queue .producer k = [] := by
  obtain ⟨hqueue, rfl⟩ := append_eq_nil_iff.1 hnil
  cases op <;> grind [Dev.puts, Op.Sole, Option.mem_def, Option.map_eq_some_iff]

end

/-- The transfers that are over. -/
def Log.finished (log : Log) : Pc → List Transfer
  | .offer _ _ _ _ _ => log.transfers.tail
  | .asleep | .visit _ | .tidy _ _ => log.transfers

/-- The messages of the transfers with some property, in the order in which they were taken. -/
def Log.taken (log : Log) (p : Transfer → Bool) : List Msg :=
  ((log.transfers.filter p).map Transfer.msg).reverse

/-- What the log says of the messages. -/
structure Delivered (d : Dev S) (log : Log) : Prop where
  sent i : log.taken (·.src = i) ++ d.queue .producer i = log.accepted i
  got j : log.obtained j ++ d.queue .consumer j = log.taken (j ∈ ·.receivers)
  complete : ∀ t ∈ log.finished d.pc, t.Complete
  current : ∀ {i msg vdecId js rest}, d.pc = .offer i msg vdecId js rest →
    ∃ t ts, log.transfers = t :: ts ∧ t.src = i ∧ t.msg = msg ∧ t.vdecId = vdecId ∧
      t.seen.map Prod.fst ++ js = List.finRange maxSession ∧
      (msg.messageType = mediaVideoCcInfo → t.receivers = [])

namespace Delivered

variable {log : Log}

theorem init : Delivered (Dev.init : Dev S) .empty where
  sent _ := rfl
  got _ := rfl
  complete := nofun
  current := nofun

theorem congr (h : Delivered d log) (hqueue : d'.queue = d.queue) (hpc : d'.pc = d.pc) :
    Delivered d' log := by
  refine ⟨fun i => ?_, fun j => ?_, ?_, ?_⟩
  · rw [hqueue]
    exact h.sent i
  · rw [hqueue]
    exact h.got j
  · rw [hpc]
    exact h.complete
  · rw [hpc]
    exact h.current

/-- The thread goes on, and is not with a message before or after. -/
theorem goOn (h : Delivered d log) (pc : Pc) (hpc : log.finished d.pc = log.transfers)
    (hpc' : ∀ i msg vdecId js rest, pc ≠ .offer i msg vdecId js rest) :
    Delivered { d with pc } log := by
  refine ⟨h.sent, h.got, ?_, fun heq => absurd heq (hpc' _ _ _ _ _)⟩
  have hcomplete := h.complete
  rw [hpc] at hcomplete
  cases pc with
  | offer i msg vdecId js rest => exact absurd rfl (hpc' i msg vdecId js rest)
  | asleep | visit rest | tidy i rest => exact hcomplete

/-- A call of a session. -/
theorem call (h : Delivered d log) (hop : op ≠ .thread) (hroom : op.NotFull d)
    (hcall : d.Call op d') : Delivered d' (op.record d log) := by
  cases hcall with
  | quiet _ hputs hfetches =>
    rw [Op.record_quiet hop hroom hputs hfetches]
    exact h.congr rfl rfl
  | @put i f msgs hputs hf =>
    have hput : (f.put msgs).msgs = d.queue .producer i ++ msgs := by
      have hlen := hroom.puts hputs
      rw [Dev.queue_of_fifo hf] at hlen ⊢
      rw [Fifo.put, take_of_length_le (by omega)]
    rw [Op.record_of_puts hputs]
    refine ⟨fun k => ?_, fun j => ?_, h.complete, h.current⟩
    · change log.taken _ ++ (d.setFifo .producer i (f.put msgs)).queue .producer k =
        update log.accepted i (log.accepted i ++ msgs) k
      by_cases hk : k = i
      · subst hk
        rw [update_self, Dev.queue_setFifo_self, hput, ← append_assoc, ← h.sent k]
      · rw [update_of_ne hk, Dev.queue_setFifo_of_ne fun heq => hk heq.2]
        exact h.sent k
    · change log.obtained j ++ (d.setFifo .producer i (f.put msgs)).queue .consumer j = _
      rw [Dev.queue_setFifo_consumer]
      exact h.got j
  | @fetch k f n hfetches hf =>
    rw [Op.record_of_fetches hroom hfetches, Dev.queue_of_fifo hf]
    refine ⟨fun i => ?_, fun j => ?_, h.complete, h.current⟩
    · change _ ++ (d.setFifo .consumer k { f with msgs := f.msgs.drop n }).queue .producer i = _
      rw [Dev.queue_setFifo_producer]
      exact h.sent i
    change update log.obtained k (log.obtained k ++ f.msgs.take n) j ++
      (d.setFifo .consumer k { f with msgs := f.msgs.drop n }).queue .consumer j = log.taken _
    by_cases hj : j = k
    · subst hj
      rw [update_self, Dev.queue_setFifo_self, append_assoc, take_append_drop,
        ← Dev.queue_of_fifo hf]
      exact h.got j
    · rw [update_of_ne hj, Dev.queue_setFifo_of_ne fun heq => hj heq.2]
      exact h.got j

end Delivered

namespace Log

variable {log : Log} {t t' : Transfer} {ts : List Transfer} {p : Transfer → Bool}

theorem taken_cons_of_pos (h : log.transfers = t :: ts) (hp : p t = true) :
    log.taken p = ((ts.filter p).map Transfer.msg).reverse ++ [t.msg] := by
  rw [taken, h, filter_cons_of_pos hp, map_cons, reverse_cons]

theorem taken_see {c : Option Fifo} (h : log.transfers = t :: ts)
    (hp : p (t.see j c) = p t) : (log.see j c).taken p = log.taken p := by
  have hsee : (log.see j c).transfers = t.see j c :: ts := by rw [see, h]
  rw [taken, taken, hsee, h, filter_cons, filter_cons, hp]
  split <;> rfl

theorem taken_cons_of_neg (h : log.transfers = t :: ts) (hp : p t ≠ true) :
    log.taken p = ((ts.filter p).map Transfer.msg).reverse := by
  rw [taken, h, filter_cons_of_neg hp]

end Log

namespace Delivered

variable {log : Log} {rest : List Idx} {vdecId : ℕ}

variable (h : Delivered d log)
include h

theorem take {f : Fifo} (hpc : d.pc = .visit (i :: rest)) (hf : d.fifos .producer i = some f)
    (hmsgs : f.msgs = msg :: msgs) : Delivered { d.setFifo .producer i { f with msgs } with
      allProducerFifoEmpty := msgs.isEmpty
      pc := .offer i msg f.vdecId (finRange maxSession) rest } (d.pc.record d log) := by
  have hqueue : d.queue .producer i = msg :: msgs := (Dev.queue_of_fifo hf).trans hmsgs
  have hcomplete := h.complete
  rw [hpc, Log.finished] at hcomplete
  rw [hpc, Pc.record, hqueue, hf]
  refine ⟨fun k => ?_, fun j => ?_, hcomplete, ?_⟩
  · change Log.taken _ _ ++ (d.setFifo .producer i { f with msgs }).queue .producer k = _
    by_cases hk : k = i
    · subst hk
      rw [Log.taken_cons_of_pos rfl (decide_eq_true rfl), Dev.queue_setFifo_self, append_assoc]
      have hsent := h.sent k
      rw [hqueue] at hsent
      exact hsent
    · rw [Log.taken_cons_of_neg rfl (by simpa using Ne.symm hk),
        Dev.queue_setFifo_of_ne fun heq => hk heq.2]
      exact h.sent k
  · change log.obtained j ++ (d.setFifo .producer i { f with msgs }).queue .consumer j = _
    rw [Dev.queue_setFifo_consumer, Log.taken_cons_of_neg rfl (by simp [Transfer.receivers,
      Transfer.matching])]
    exact h.got j
  · rintro i' msg' vdecId' js rest' ⟨⟩
    refine ⟨_, _, rfl, rfl, rfl, rfl, rfl, fun _ => ?_⟩
    simp [Transfer.receivers, Transfer.matching]

/-- The message goes to one more consumer, or passes it. -/
theorem offer {js : List Idx} (hpc : d.pc = .offer i msg vdecId (j :: js) rest)
    (hroom : d.pc.NotFull d) : ((¬ ∃ c ∈ d.fifos .consumer j, Dev.Takes msg vdecId c) →
      Delivered { d with pc := .offer i msg vdecId js rest } (d.pc.record d log)) ∧
    ∀ c, d.fifos .consumer j = some c → Dev.Takes msg vdecId c →
      Delivered { d.setFifo .consumer j (c.put [msg]) with
        pc := if msg.messageType = mediaVideoCcInfo then .tidy i rest
          else .offer i msg vdecId js rest } (d.pc.record d log) := by
  obtain ⟨t, ts, htransfers, rfl, rfl, rfl, hseen, hcc⟩ := h.current hpc
  have hsee : (log.see j (d.fifos .consumer j)).transfers =
      t.see j (d.fifos .consumer j) :: ts := by
    rw [Log.see, htransfers]
  have hmap : (t.see j (d.fifos .consumer j)).seen.map Prod.fst ++ js =
      finRange maxSession := by
    rw [← hseen, Transfer.see, map_append, append_assoc]
    rfl
  have htail : ∀ t ∈ ts, t.Complete := by
    have hcomplete := h.complete
    rw [hpc, Log.finished, htransfers] at hcomplete
    exact hcomplete
  rw [hpc, Pc.NotFull] at hroom
  rw [hpc, Pc.record]
  refine ⟨fun hmatch => ?_, fun c hc htakes => ?_⟩
  · -- the consumer is passed
    rw [← Transfer.Matches] at hmatch
    refine ⟨fun i => ?_, fun k => ?_, ?_, ?_⟩
    · rw [Log.taken_see htransfers rfl]
      exact h.sent i
    · rw [Log.taken_see htransfers (by rw [Transfer.receivers_see_of_not hmatch])]
      exact h.got k
    · rw [Log.finished, hsee]
      exact htail
    · rintro _ _ _ _ _ ⟨⟩
      refine ⟨_, ts, hsee, rfl, rfl, rfl, hmap, fun htype => ?_⟩
      rw [Transfer.receivers_see_of_not hmatch]
      exact hcc htype
  · have hreceivers := Transfer.receivers_see (j := j) hcc ⟨c, hc, htakes⟩
    have hput : (c.put [t.msg]).msgs = c.msgs ++ [t.msg] := by
      have hlen := hroom c hc htakes
      rw [Fifo.put, take_of_length_le (by rw [length_singleton]; omega)]
    -- it has not got the message before
    have hnew : j ∉ t.receivers := fun hj => by
      have hnodup := nodup_finRange maxSession
      rw [← hseen] at hnodup
      exact disjoint_of_nodup_append hnodup (t.receivers_subset hj) mem_cons_self
    refine ⟨fun i => ?_, fun k => ?_, ?_, ?_⟩
    · change _ ++ (d.setFifo .consumer j (c.put [t.msg])).queue .producer i = _
      rw [Log.taken_see htransfers rfl, Dev.queue_setFifo_producer]
      exact h.sent i
    · change log.obtained k ++ (d.setFifo .consumer j (c.put [t.msg])).queue .consumer k = _
      by_cases hk : k = j
      · subst hk
        have hgot := h.got k
        rw [Log.taken_cons_of_neg htransfers (by simpa using hnew), Dev.queue_of_fifo hc] at hgot
        rw [Dev.queue_setFifo_self, hput, ← append_assoc, hgot,
          Log.taken_cons_of_pos hsee (by simp [hreceivers])]
        rfl
      · rw [Dev.queue_setFifo_of_ne fun heq => hk heq.2,
          Log.taken_see htransfers (by simp [hreceivers, hk])]
        exact h.got k
    · dsimp only
      split
      · next htype =>
        -- a message for closed captions goes to the first match only
        rw [Log.finished, hsee]
        refine forall_mem_cons.2 ⟨.inr ⟨htype, ?_, ⟨js, hmap⟩⟩, htail⟩
        rw [hreceivers]
        exact append_ne_nil_of_right_ne_nil _ (cons_ne_nil j [])
      · rw [Log.finished, hsee]
        exact htail
    · intro i' msg' vdecId' js' rest' heq
      dsimp only at heq
      split at heq
      · cases heq
      · next htype =>
        cases heq
        exact ⟨_, ts, hsee, rfl, rfl, rfl, hmap, fun hmsg => absurd hmsg htype⟩

theorem drop {frees : List ℕ} (hpc : d.pc = .offer i msg vdecId [] rest) :
    Delivered { d with frees, pc := .tidy i rest } log := by
  obtain ⟨t, ts, htransfers, -, -, -, hseen, -⟩ := h.current hpc
  rw [append_nil] at hseen
  have hcomplete : ∀ t ∈ log.transfers, t.Complete := by
    have htail := h.complete
    rw [hpc, Log.finished, htransfers] at htail
    rw [htransfers]
    exact forall_mem_cons.2 ⟨.inl hseen, htail⟩
  exact ⟨h.sent, h.got, hcomplete, nofun⟩

end Delivered

end CommonDrivers.Media.MediaProxy
