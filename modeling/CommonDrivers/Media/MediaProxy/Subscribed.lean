import CommonDrivers.Media.MediaProxy.Connected
import CommonDrivers.Media.MediaProxy.Transfers

/-!
# The subscriptions

A message that no consumer has subscribed to is not put into the FIFO of a producer: it is compared
with `subscribe_msg_type`, which `update_subscribe_msg_type` computes from the sessions in the table
of the consumers. `mediaproxy_connect` does not call it. So the mask covers the subscriptions of all
consumers (`Covers`) in the runs in which a consumer that connects has subscribed to nothing that is
not in the mask already (`Op.Covered`), and then every message that a consumer wants is put
(`Heard`).
-/

namespace CommonDrivers.Media.MediaProxy

open List Function Option

variable {S : Type*} {d d' : Dev S} {s : S} {role : Role} {i k : Idx} {f f' : Fifo} {op : Op S}
  {type : ℕ} {session : Session}

/-- What a consumer has subscribed to when it connects is in the mask. -/
def Op.Covered (d : Dev S) : Op S → Prop
  | .connect s .consumer =>
    (d.sessions s).subscribeMsgType ||| d.subscribeMsgType = d.subscribeMsgType
  | .connect _ .producer | .opens _ | .disconnect _ | .closes _ | .subscribe _ _ | .setFifoLen _ _
  | .setVdecId _ _ | .write _ _ | .notify _ _ | .injectBuf _ _ _ _ _ | .getBuf _ | .read _ _
  | .receive _ _ | .thread => True

instance (d : Dev S) : (op : Op S) → Decidable (op.Covered d)
  | .connect _ .consumer => inferInstanceAs (Decidable (_ = _))
  | .connect _ .producer | .opens _ | .disconnect _ | .closes _ | .subscribe _ _ | .setFifoLen _ _
  | .setVdecId _ _ | .write _ _ | .notify _ _ | .injectBuf _ _ _ _ _ | .getBuf _ | .read _ _
  | .receive _ _ | .thread => inferInstanceAs (Decidable True)

namespace Dev

/-- A consumer in the table has that FIFO and that subscription. -/
structure Listens (d : Dev S) (s : S) (i k : Idx) (type : ℕ) : Prop where
  entry : d.entries .consumer i = some s
  isOpen : d.isOpen s = true
  sessionId : (d.sessions s).sessionId = some i
  role : (d.sessions s).role = some .consumer
  fifoIdx : (d.sessions s).fifoIdx = some k
  type : (d.sessions s).subscribeMsgType = type

/-- Each FIFO of a consumer has the subscription of a session in the table. -/
def Known (d : Dev S) : Prop :=
  ∀ k f, d.fifos .consumer k = some f → ∃ s i, d.Listens s i k f.subscribeMsgType

/-- The mask covers the subscriptions. -/
def Covers (d : Dev S) : Prop :=
  ∀ k f, d.fifos .consumer k = some f →
    f.subscribeMsgType ||| d.subscribeMsgType = d.subscribeMsgType

/-! ## The mask -/

/-- What is in one of the subscriptions, or was there before, is in their union. -/
theorem or_foldl_entries (d : Dev S) {l : List Idx} {acc : ℕ}
    (h : type ||| acc = acc ∨ ∃ i ∈ l, ∃ s, d.entries .consumer i = some s ∧
      (d.sessions s).subscribeMsgType = type) :
    type ||| l.foldl (fun type i =>
      match d.entries .consumer i with
      | some s => type ||| (d.sessions s).subscribeMsgType
      | none => type) acc = l.foldl (fun type i =>
      match d.entries .consumer i with
      | some s => type ||| (d.sessions s).subscribeMsgType
      | none => type) acc := by
  induction l generalizing acc with
  | nil => exact h.resolve_right (by simp)
  | cons j l ih =>
    rw [foldl_cons]
    refine ih ?_
    rcases h with hacc | ⟨i, hi, s, hs, htype⟩
    · left
      split
      · rw [← Nat.lor_assoc, hacc]
      · exact hacc
    rcases mem_cons.1 hi with rfl | hi
    · left
      rw [hs]
      dsimp only
      rw [htype, Nat.lor_comm acc, ← Nat.lor_assoc, Nat.or_self]
    · exact .inr ⟨i, hi, s, hs, htype⟩

theorem Known.covers_update (h : d.Known) : d.updateSubscribeMsgType.Covers := by
  intro k f hf
  obtain ⟨s, i, hs⟩ := h k f hf
  exact or_foldl_entries d (.inr ⟨i, mem_finRange i, s, hs.entry, hs.type⟩)

/-- A message that a consumer has subscribed to passes the mask. -/
theorem Covers.passes {msg : Msg} (h : d.Covers)
    (hwanted : Written.Wanted ⟨msg, d.fifos .consumer⟩) :
    msg.messageType &&& d.subscribeMsgType ≠ 0 := by
  obtain ⟨k, f, hf, -, htype⟩ := hwanted
  intro hzero
  rw [← h k f hf, Nat.and_or_distrib_left, Nat.or_eq_zero_iff] at hzero
  exact htype hzero.1

/-! ## The steps -/

namespace Listens

variable [DecidableEq S] {t : S}

theorem setSession_of_ne (h : d.Listens t i k type) (hts : t ≠ s) :
    (d.setSession s session).Listens t i k type := by
  have hsession : (d.setSession s session).sessions t = d.sessions t := update_of_ne hts ..
  refine ⟨h.entry, h.isOpen, ?_, ?_, ?_, ?_⟩ <;> rw [hsession]
  exacts [h.sessionId, h.role, h.fifoIdx, h.type]

/-- The session keeps its entry and its FIFO. -/
theorem setSession_self {type' : ℕ} (h : d.Listens s i k type')
    (hid : session.sessionId = (d.sessions s).sessionId)
    (hrole : session.role = (d.sessions s).role) (hidx : session.fifoIdx = (d.sessions s).fifoIdx)
    (htype : session.subscribeMsgType = type) : (d.setSession s session).Listens s i k type := by
  have hsession : (d.setSession s session).sessions s = session := update_self ..
  refine ⟨h.entry, h.isOpen, ?_, ?_, ?_, ?_⟩ <;> rw [hsession]
  exacts [hid.trans h.sessionId, hrole.trans h.role, hidx.trans h.fifoIdx, htype]

end Listens

/-- The subscriptions are known to the table, and the mask covers them. -/
structure Tuned (d : Dev S) : Prop where
  known : d.Known
  covers : d.Covers

namespace Tuned

theorem init : (init : Dev S).Tuned := ⟨nofun, nofun⟩

theorem remask (h : d.Known) : d.updateSubscribeMsgType.Tuned := by
  refine ⟨fun k f hf => ?_, h.covers_update⟩
  obtain ⟨s, i, hs⟩ := h k f hf
  exact ⟨s, i, { hs with }⟩

variable (h : d.Tuned)
include h

theorem congr (hfifos : d'.fifos = d.fifos) (hentries : d'.entries = d.entries)
    (hsessions : d'.sessions = d.sessions) (hopen : d'.isOpen = d.isOpen)
    (hmask : d'.subscribeMsgType = d.subscribeMsgType) : d'.Tuned := by
  refine ⟨fun k f hf => ?_, fun k f hf => ?_⟩ <;> rw [hfifos] at hf
  · obtain ⟨s, i, hs⟩ := h.known k f hf
    refine ⟨s, i, ?_⟩
    constructor <;> simp only [hentries, hsessions, hopen]
    exacts [hs.entry, hs.isOpen, hs.sessionId, hs.role, hs.fifoIdx, hs.type]
  · rw [hmask]
    exact h.covers k f hf

/-- A FIFO is written: if it is one of a consumer, this is in the table, and in the mask. -/
theorem writeFifo (hknown : role = .consumer → ∃ s i, d.Listens s i k f.subscribeMsgType)
    (hcovers : role = .consumer →
      f.subscribeMsgType ||| d.subscribeMsgType = d.subscribeMsgType) :
    (d.setFifo role k f).Tuned := by
  refine ⟨fun j g hg => ?_, fun j g hg => ?_⟩ <;> by_cases hjk : .consumer = role ∧ j = k
  · obtain ⟨rfl, rfl⟩ := hjk
    rw [fifos_setFifo_self] at hg
    cases hg
    obtain ⟨s, i, hs⟩ := hknown rfl
    exact ⟨s, i, { hs with }⟩
  · rw [fifos_setFifo_of_ne hjk] at hg
    obtain ⟨s, i, hs⟩ := h.known j g hg
    exact ⟨s, i, { hs with }⟩
  · obtain ⟨rfl, rfl⟩ := hjk
    rw [fifos_setFifo_self] at hg
    cases hg
    exact hcovers rfl
  · rw [fifos_setFifo_of_ne hjk] at hg
    exact h.covers j g hg

/-- A FIFO keeps its subscription. -/
theorem setFifo (hf : d.fifos role k = some f) (htype : f'.subscribeMsgType = f.subscribeMsgType) :
    (d.setFifo role k f').Tuned := by
  refine h.writeFifo ?_ ?_ <;> rintro rfl <;> rw [htype]
  exacts [h.known k f hf, h.covers k f hf]

/-- A call that moves messages. -/
theorem call (hcall : d.Call op d') : d'.Tuned := by
  cases hcall with
  | quiet => exact h.congr rfl rfl rfl rfl rfl
  | @put i f msgs _ hf =>
    have hput : (d.setFifo .producer i (f.put msgs)).Tuned := h.setFifo hf rfl
    exact hput.congr rfl rfl rfl rfl rfl
  | @fetch k f n _ hf =>
    have hfetch : (d.setFifo .consumer k { f with msgs := f.msgs.drop n }).Tuned :=
      h.setFifo hf rfl
    exact hfetch.congr rfl rfl rfl rfl rfl

theorem turn (hused : d.AllUsed) (hturn : Turn d d') : d'.Tuned := by
  cases hturn with
  | wake | sleep | skip | pass | drop => exact h.congr rfl rfl rfl rfl rfl
  | @take i rest f msg msgs _ hf =>
    have htake : (d.setFifo .producer i { f with msgs }).Tuned := h.setFifo hf rfl
    exact htake.congr rfl rfl rfl rfl rfl
  | @give i j msg _ _ _ c _ hc =>
    have hgive : (d.setFifo .consumer j (c.put [msg])).Tuned := h.setFifo hc rfl
    exact hgive.congr rfl rfl rfl rfl rfl
  | tidy _ hproducer hconsumer =>
    cases hused.tidied hproducer
    cases hused.tidied hconsumer
    exact h.congr rfl rfl rfl rfl rfl

variable [DecidableEq S]

/-- A session changes that has no FIFO of a consumer. -/
theorem setOther (hother : ∀ i k type, ¬ d.Listens s i k type) :
    (d.setSession s session).Tuned := by
  refine ⟨fun k f hf => ?_, h.covers⟩
  obtain ⟨t, i, ht⟩ := h.known k f hf
  refine ⟨t, i, ht.setSession_of_ne ?_⟩
  rintro rfl
  exact hother i k _ ht

/-- A session changes, but neither its entry nor its FIFO nor its subscription. -/
theorem setSession (hid : session.sessionId = (d.sessions s).sessionId)
    (hrole : session.role = (d.sessions s).role) (hidx : session.fifoIdx = (d.sessions s).fifoIdx)
    (htype : session.subscribeMsgType = (d.sessions s).subscribeMsgType) :
    (d.setSession s session).Tuned := by
  refine ⟨fun k f hf => ?_, h.covers⟩
  obtain ⟨t, i, ht⟩ := h.known k f hf
  by_cases hts : t = s
  · subst hts
    exact ⟨t, i, ht.setSession_self hid hrole hidx (htype.trans ht.type)⟩
  · exact ⟨t, i, ht.setSession_of_ne hts⟩

theorem opens (hs : d.isOpen s = false) :
    ({ d.setSession s .creat with isOpen := update d.isOpen s true } : Dev S).Tuned := by
  have hset : (d.setSession s .creat).Tuned := h.setOther fun i k type hlistens => by
    rw [hlistens.isOpen] at hs
    cases hs
  refine ⟨fun k f hf => ?_, h.covers⟩
  obtain ⟨t, i, ht⟩ := hset.known k f hf
  refine ⟨t, i, { ht with isOpen := ?_ }⟩
  change update d.isOpen s true t = true
  rw [update_apply]
  split
  · rfl
  · exact ht.isOpen

/-- A session that is not connected gets a free entry. -/
theorem enter (hid : (d.sessions s).sessionId = none) (hentry : d.entries role i = none) :
    (d.enter s role i).Tuned := by
  refine ⟨fun k f hf => ?_, h.covers⟩
  obtain ⟨t, j, ht⟩ := h.known k f hf
  have hts : t ≠ s := by
    rintro rfl
    cases hid.symm.trans ht.sessionId
  refine ⟨t, j, { ht.setSession_of_ne hts with entry := ?_ }⟩
  refine (if_neg ?_).trans ht.entry
  rintro ⟨rfl, rfl⟩
  cases hentry.symm.trans ht.entry

theorem connect (hs : d.isOpen s = true) (hcovered : Op.Covered d (.connect s role)) :
    (d.connect s role).Tuned := by
  rcases connect_cases d s role with heq | ⟨i, hid, hentry, ⟨-, heq⟩ | ⟨k, hk, heq⟩⟩ <;> rw [heq]
  · exact h
  · exact h.enter hid hentry
  refine (h.enter hid hentry).writeFifo ?_ ?_ <;> rintro rfl
  · have hsession : (d.enter s .consumer i).sessions s = _ := update_self ..
    refine ⟨s, i, if_pos ⟨rfl, rfl⟩, hs, ?_, ?_, ?_, ?_⟩ <;> rw [hsession]
    · exact hk
    · rfl
  · exact hcovered

theorem subscribe (hwired : d.Wired) (hs : d.isOpen s = true)
    (hstep : d.subscribe s type = some d') : d'.Tuned := by
  rw [Dev.subscribe] at hstep
  dsimp only at hstep
  have hother : (d.sessions s).role ≠ some .consumer ∨ (d.sessions s).fifoIdx = none →
      (d.setSession s { d.sessions s with subscribeMsgType := type }).Tuned := by
    refine fun hno => h.setOther fun i k type hlistens => ?_
    rcases hno with hrole | hidx
    · exact hrole hlistens.role
    · cases hidx.symm.trans hlistens.fifoIdx
  by_cases hrole : (d.sessions s).role = some .consumer
  · rw [if_pos hrole] at hstep
    split at hstep
    · next role k hsome hk =>
      cases hrole.symm.trans hsome
      obtain ⟨f, hf, rfl⟩ := map_eq_some_iff.1 hstep
      -- The mask does not depend on the FIFO that is written after it.
      have hknown : ((d.setSession s { d.sessions s with subscribeMsgType := type }).setFifo
          .consumer k { f with subscribeMsgType := type }).Known := by
        intro j g hg
        by_cases hjk : j = k
        · subst hjk
          rw [fifos_setFifo_self] at hg
          cases hg
          obtain ⟨t, i, ht⟩ := h.known j f hf
          obtain rfl := hwired.inj ht.isOpen hs ht.role hrole ht.fifoIdx hk
          have hself : (d.setSession t { d.sessions t with subscribeMsgType := type }).Listens t i j
              type := ht.setSession_self rfl rfl rfl rfl
          exact ⟨t, i, { hself with }⟩
        · rw [fifos_setFifo_of_ne fun heq => hjk heq.2] at hg
          obtain ⟨t, i, ht⟩ := h.known j g hg
          have hts : t ≠ s := by
            rintro rfl
            exact hjk (some.inj (ht.fifoIdx.symm.trans hk))
          exact ⟨t, i, { ht.setSession_of_ne hts with }⟩
      exact .remask hknown
    · next hnone =>
      cases hstep
      have hidx : (d.sessions s).fifoIdx = none := by
        rw [eq_none_iff_forall_ne_some]
        exact fun k hk => hnone .consumer k hrole hk
      exact .remask (hother (.inr hidx)).known
  · rw [if_neg hrole] at hstep
    split at hstep
    · next role k hsome hk =>
      obtain ⟨f, hf, rfl⟩ := map_eq_some_iff.1 hstep
      refine (hother (.inl hrole)).writeFifo ?_ ?_ <;> rintro rfl <;> exact absurd hsome hrole
    · cases hstep
      exact hother (.inl hrole)

theorem setVdecId {id : ℕ} (hstep : d.setVdecId s id = some d') : d'.Tuned := by
  rw [Dev.setVdecId] at hstep
  have hset : (d.setSession s { d.sessions s with vdecId := id }).Tuned :=
    h.setSession rfl rfl rfl rfl
  dsimp only at hstep
  split at hstep
  · obtain ⟨f, hf, rfl⟩ := map_eq_some_iff.1 hstep
    exact hset.setFifo hf rfl
  · cases hstep
    exact hset

/-- A step in which no session leaves. -/
theorem step (hwired : d.Wired) (hused : d.AllUsed) (hroom : op.NotFull d)
    (hcovered : op.Covered d) (hstep : d.step op = some d') : d'.Tuned := by
  have hopen : ∀ {s e}, (if d.isOpen s = true then e else none) = some d' →
      d.isOpen s = true ∧ e = some d' := ite_none_right_eq_some.1
  cases op with
  | opens s =>
    obtain ⟨hs, hstep⟩ := ite_none_left_eq_some.1 hstep
    cases hstep
    exact h.opens (eq_false_of_ne_true hs)
  | connect s role =>
    obtain ⟨hs, hstep⟩ := hopen hstep
    cases hstep
    exact h.connect hs hcovered
  | disconnect s | closes s => exact hroom.elim
  | subscribe s type => exact h.subscribe hwired (hopen hstep).1 (hopen hstep).2
  | setFifoLen s len =>
    obtain ⟨-, hstep⟩ := hopen hstep
    cases hstep
    exact h.setSession rfl rfl rfl rfl
  | setVdecId s id => exact h.setVdecId (hopen hstep).2
  | write s msgs => exact h.call (.write hwired (hopen hstep).1 (hopen hstep).2)
  | notify s msg => exact h.call (.notify hwired (hopen hstep).1 (hopen hstep).2)
  | injectBuf s type content ptr copied =>
    exact h.call (.injectBuf hwired (hopen hstep).1 (hopen hstep).2)
  | getBuf s => exact h.call (.getBuf hwired (hopen hstep).1 (hopen hstep).2)
  | read s count => exact h.call (.read hwired (hopen hstep).1 (hopen hstep).2)
  | receive s num => exact h.call (.receive (hopen hstep).2)
  | thread => exact h.turn hused (turn_of_thread hstep)

end Tuned

end Dev

/-! ## The messages that are wanted -/

/-- Every message that a consumer wanted when it was written is put into the FIFO of its producer,
    once, and they are put in the order in which they were written. -/
def Heard (log : Log) : Prop :=
  ∀ i, ∃ l, (log.written i).filter (·.Wanted) <+ l ∧ l <+ log.written i ∧
    l.map Written.msg = log.accepted i

/-- Which of the messages that are written a call lets pass. -/
def Dev.admits (d : Dev S) : Op S → Msg → Bool
  | .injectBuf _ _ _ _ _, _ => true
  | _, msg => msg.messageType &&& d.subscribeMsgType ≠ 0

theorem Pc.record_accepted (d : Dev S) (log : Log) (pc : Pc) :
    (pc.record d log).accepted = log.accepted := by
  cases pc with
  | asleep | tidy i rest => rfl
  | visit rest =>
    cases rest with
    | nil => rfl
    | cons i rest =>
      rw [record]
      split <;> rfl
  | offer i msg vdecId js rest => cases js <;> rfl

theorem Op.record_accepted (d : Dev S) (log : Log) (op : Op S) :
    (op.record d log).accepted = match d.writes op with
      | some (i, msgs) => update log.accepted i (log.accepted i ++ msgs.filter (d.admits op))
      | none => log.accepted := by
  cases op with
  | write s msgs =>
    rw [record, Dev.writes]
    cases d.idxOf s .producer <;> rfl
  | notify s msg =>
    rw [record, Dev.writes]
    cases d.idxOf s .producer with
    | none => rfl
    | some i =>
      by_cases hmask : msg.messageType &&& d.subscribeMsgType = 0 <;>
        simp [hmask, Dev.admits, Log.accept]
  | injectBuf s type content ptr copied =>
    rw [record, Dev.writes]
    cases d.idxOf s .producer with
    | none => simp
    | some i =>
      dsimp only [map_some]
      split <;> rfl
  | getBuf s | read s count | receive s num =>
    rw [record]
    cases d.idxOf s .consumer <;> rfl
  | thread => exact d.pc.record_accepted d log
  | _ => rfl

theorem Heard.step {log : Log} (h : Heard log) (hcovers : d.Covers) (op : Op S) :
    Heard { op.record d log with written := log.note d op } := by
  have haccepted := op.record_accepted d log
  intro k
  obtain ⟨l, hwanted, hl, hmsgs⟩ := h k
  dsimp only
  rw [haccepted, Log.note]
  rcases d.writes op with - | ⟨i, msgs⟩
  · exact ⟨l, hwanted, hl, hmsgs⟩
  dsimp only
  by_cases hk : k = i
  · subst hk
    rw [update_self, update_self, filter_append, List.filter_map]
    refine ⟨l ++ (msgs.filter (d.admits op)).map (⟨·, d.fifos .consumer⟩), hwanted.append ?_,
      hl.append (filter_sublist.map _), ?_⟩
    · refine Sublist.map _ (monotone_filter_right msgs fun msg hmsg => ?_)
      have hpass := hcovers.passes (of_decide_eq_true hmsg)
      cases op <;> simp [Dev.admits, hpass]
    · rw [map_append, hmsgs, List.map_map]
      congr 1
      exact List.map_id _
  · rw [update_of_ne hk, update_of_ne hk]
    exact ⟨l, hwanted, hl, hmsgs⟩

end CommonDrivers.Media.MediaProxy
