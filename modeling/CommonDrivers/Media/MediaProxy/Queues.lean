import CommonDrivers.Media.MediaProxy.Proxy

/-!
# The sessions and their FIFOs

A session that is connected has a FIFO of its own, which is in use, and a FIFO that is free is empty
(`Wired`). The calls that set up a session leave the messages where they are (`Quiet`). The others
put messages into the FIFO of a producer or take them from that of a consumer (`Call`), so that
`step_cases` says what a step can do.
-/

namespace CommonDrivers.Media.MediaProxy.Dev

open List Function Option

variable {S : Type*} {d d' : Dev S} {s : S} {role r : Role} {i k : Idx} {f f' : Fifo} {op : Op S}

/-- The messages of a FIFO. -/
def queue (d : Dev S) (role : Role) (k : Idx) : List Msg := ((d.fifos role k).map Fifo.msgs).getD []

theorem queue_of_fifo (h : d.fifos role k = some f) : d.queue role k = f.msgs := by
  rw [queue, h]
  rfl

theorem fifos_setFifo_self (d : Dev S) (role : Role) (k : Idx) (f : Fifo) :
    (d.setFifo role k f).fifos role k = some f := if_pos ⟨rfl, rfl⟩

theorem fifos_setFifo_of_ne (h : ¬ (r = role ∧ i = k)) :
    (d.setFifo role k f).fifos r i = d.fifos r i := if_neg h

theorem queue_setFifo_self (d : Dev S) (role : Role) (k : Idx) (f : Fifo) :
    (d.setFifo role k f).queue role k = f.msgs := queue_of_fifo (fifos_setFifo_self d role k f)

theorem queue_setFifo_of_ne (h : ¬ (r = role ∧ i = k)) :
    (d.setFifo role k f).queue r i = d.queue r i := by
  rw [queue, fifos_setFifo_of_ne h, queue]

theorem queue_setFifo_consumer (d : Dev S) (i k : Idx) (f : Fifo) :
    (d.setFifo .producer k f).queue .consumer i = d.queue .consumer i :=
  queue_setFifo_of_ne fun h => nomatch h.1

theorem queue_setFifo_producer (d : Dev S) (i k : Idx) (f : Fifo) :
    (d.setFifo .consumer k f).queue .producer i = d.queue .producer i :=
  queue_setFifo_of_ne fun h => nomatch h.1

/-- The messages stay where they are. -/
theorem queue_setFifo (h : f.msgs = d.queue role k) : (d.setFifo role k f).queue = d.queue := by
  funext r i
  by_cases hrk : r = role ∧ i = k
  · rw [hrk.1, hrk.2, queue_setFifo_self, h]
  · exact queue_setFifo_of_ne hrk

/-! ## The invariant -/

/-- Each connected session has a FIFO of its own in use. -/
structure Wired (d : Dev S) : Prop where
  empty : ∀ {role k f}, d.fifos role k = some f → f.state = .unused → f.msgs = []
  used : ∀ {s role k}, d.isOpen s = true → (d.sessions s).role = some role →
    (d.sessions s).fifoIdx = some k → ∃ f, d.fifos role k = some f ∧ f.state = .used
  inj : ∀ {s s' role k}, d.isOpen s = true → d.isOpen s' = true →
    (d.sessions s).role = some role → (d.sessions s').role = some role →
    (d.sessions s).fifoIdx = some k → (d.sessions s').fifoIdx = some k → s = s'

/-- The messages, and what is written with them, stay the same. -/
structure Quiet (d d' : Dev S) : Prop where
  queue : d'.queue = d.queue
  pc : d'.pc = d.pc
  allocs : d'.allocs = d.allocs
  frees : d'.frees = d.frees
  flag : d'.allProducerFifoEmpty = d.allProducerFifoEmpty

/-- Messages are moved: the sessions stay the same, and the states of the FIFOs. -/
structure Moved (d d' : Dev S) : Prop where
  sessions : d'.sessions = d.sessions
  isOpen : d'.isOpen = d.isOpen
  hasConsumer : d'.hasConsumer = d.hasConsumer
  fifos : ∀ r i, d'.fifos r i = d.fifos r i ∨ ∃ f f', d.fifos r i = some f ∧
    d'.fifos r i = some f' ∧ f'.state = f.state ∧ (f.msgs = [] → f.state = .unused → f'.msgs = [])

namespace Wired

theorem init : (init : Dev S).Wired where
  empty := nofun
  used := nofun
  inj := nofun

variable (h : d.Wired)
include h

theorem congr (hfifos : d'.fifos = d.fifos) (hsessions : d'.sessions = d.sessions)
    (hopen : d'.isOpen = d.isOpen) : d'.Wired := by
  refine ⟨?_, ?_, ?_⟩
  · rw [hfifos]
    exact h.empty
  · rw [hfifos, hsessions, hopen]
    exact h.used
  · rw [hsessions, hopen]
    exact h.inj

theorem moved (hm : Moved d d') : d'.Wired := by
  refine ⟨fun {r i g} hg hunused => ?_, fun {s r i} hs hr hi => ?_, ?_⟩
  · rcases hm.fifos r i with heq | ⟨f, f', hf, hf', hstate, hempty⟩
    · exact h.empty (heq ▸ hg) hunused
    · cases hf'.symm.trans hg
      rw [hstate] at hunused
      exact hempty (h.empty hf hunused) hunused
  · rw [hm.isOpen] at hs
    rw [hm.sessions] at hr hi
    obtain ⟨g, hg, hused⟩ := h.used hs hr hi
    rcases hm.fifos r i with heq | ⟨f, f', hf, hf', hstate, -⟩
    · exact ⟨g, heq ▸ hg, hused⟩
    · cases hf.symm.trans hg
      exact ⟨f', hf', hstate.trans hused⟩
  · rw [hm.sessions, hm.isOpen]
    exact h.inj

/-- A FIFO changes: it is empty if it is free then, and in use if a session has it. -/
theorem writeFifo (hempty : f.state = .unused → f.msgs = [])
    (hused : ∀ {s}, d.isOpen s = true → (d.sessions s).role = some role →
      (d.sessions s).fifoIdx = some k → f.state = .used) : (d.setFifo role k f).Wired where
  empty {r i g} hg hunused := by
    by_cases hrk : r = role ∧ i = k
    · rw [hrk.1, hrk.2, fifos_setFifo_self] at hg
      cases hg
      exact hempty hunused
    · rw [fifos_setFifo_of_ne hrk] at hg
      exact h.empty hg hunused
  used {s r i} hs hr hi := by
    by_cases hrk : r = role ∧ i = k
    · obtain ⟨rfl, rfl⟩ := hrk
      exact ⟨f, fifos_setFifo_self .., hused hs hr hi⟩
    · rw [fifos_setFifo_of_ne hrk]
      exact h.used hs hr hi
  inj := h.inj

theorem state_eq (hf : d.fifos role k = some f) (hs : d.isOpen s = true)
    (hr : (d.sessions s).role = some role) (hk : (d.sessions s).fifoIdx = some k) :
    f.state = .used := by
  obtain ⟨g, hg, hused⟩ := h.used hs hr hk
  rw [hf] at hg
  cases hg
  exact hused

/-- A FIFO that no session has becomes free. -/
theorem setFifo_unused (hf : d.fifos role k = some f) (hstate : f.state ≠ .used)
    (hempty : f'.msgs = []) : (d.setFifo role k f').Wired :=
  h.writeFifo (fun _ => hempty) fun hs hr hk => absurd (h.state_eq hf hs hr hk) hstate

/-- Sessions are opened that have no FIFO, and others closed. -/
theorem reopen (isOpen : S → Bool) (hopen : ∀ {t k}, isOpen t = true →
      (d.sessions t).fifoIdx = some k → d.isOpen t = true) : ({ d with isOpen } : Dev S).Wired where
  empty := h.empty
  used ht hr hk := h.used (hopen ht hk) hr hk
  inj ht ht' hr hr' hk hk' := h.inj (hopen ht hk) (hopen ht' hk') hr hr' hk hk'

variable [DecidableEq S] {session : Session}

/-- A session changes: if it has a FIFO then, this is in use, and no other session has it. -/
theorem writeSession (hused : ∀ {r i}, d.isOpen s = true → session.role = some r →
      session.fifoIdx = some i →
      (∃ f, d.fifos r i = some f ∧ f.state = .used) ∧ ∀ {t}, d.isOpen t = true →
        (d.sessions t).role = some r → (d.sessions t).fifoIdx = some i → t = s) :
    (d.setSession s session).Wired := by
  have hself : (d.setSession s session).sessions s = session := update_self ..
  have hne : ∀ {t}, t ≠ s → (d.setSession s session).sessions t = d.sessions t := fun ht =>
    update_of_ne ht ..
  refine ⟨h.empty, fun {t r i} ht hr hi => ?_, fun {t t' r i} ht ht' hr hr' hi hi' => ?_⟩
  · by_cases hts : t = s
    · rw [hts, hself] at hr hi
      exact (hused (hts ▸ ht) hr hi).1
    · rw [hne hts] at hr hi
      exact h.used ht hr hi
  by_cases hts : t = s
  · rw [hts, hself] at hr hi
    by_contra hne'
    have hts' : t' ≠ s := fun heq => hne' (hts.trans heq.symm)
    rw [hne hts'] at hr' hi'
    exact hts' ((hused (hts ▸ ht) hr hi).2 ht' hr' hi')
  rw [hne hts] at hr hi
  by_cases hts' : t' = s
  · rw [hts', hself] at hr' hi'
    exact absurd ((hused (hts' ▸ ht') hr' hi').2 ht hr hi) hts
  · rw [hne hts'] at hr' hi'
    exact h.inj ht ht' hr hr' hi hi'

/-- A session changes, but neither its role nor its FIFO. -/
theorem setSession (hrole : session.role = (d.sessions s).role)
    (hidx : session.fifoIdx = (d.sessions s).fifoIdx) : (d.setSession s session).Wired := by
  refine h.writeSession fun hs hr hi => ?_
  rw [hrole] at hr
  rw [hidx] at hi
  exact ⟨h.used hs hr hi, fun ht hr' hi' => h.inj ht hs hr' hr hi' hi⟩

/-- A session gets a FIFO that was free. -/
theorem assign (hfree : ∀ f, d.fifos role k = some f → f.state = .unused)
    (hrole : session.role = some role) (hidx : session.fifoIdx = some k)
    (hused : f.state = .used) : ((d.setSession s session).setFifo role k f).Wired := by
  have hset : (d.setFifo role k f).Wired :=
    h.writeFifo (fun hunused => nomatch hused.symm.trans hunused) fun _ _ _ => hused
  refine hset.writeSession fun _ hr hi => ?_
  rw [hrole] at hr
  rw [hidx] at hi
  cases hr
  cases hi
  refine ⟨⟨f, fifos_setFifo_self .., hused⟩, fun ht hr hi => ?_⟩
  obtain ⟨g, hg, hgused⟩ := h.used ht hr hi
  exact nomatch (hfree g hg).symm.trans hgused

/-- A session has no FIFO any more. -/
theorem forget (hidx : session.fifoIdx = none) : (d.setSession s session).Wired :=
  h.writeSession fun _ _ hi => nomatch hidx.symm.trans hi

/-- The FIFO that a session had is changed after the session has forgotten it. -/
theorem leave (hs : d.isOpen s = true) (hrole : (d.sessions s).role = some role)
    (hk : (d.sessions s).fifoIdx = some k) (hidx : session.fifoIdx = none)
    (hstate : f'.state = .unusing) : ((d.setSession s session).setFifo role k f').Wired := by
  refine (h.forget hidx).writeFifo (fun hunused => nomatch hstate.symm.trans hunused)
    fun {t} ht hr hi => ?_
  change (update d.sessions s session t).role = _ at hr
  change (update d.sessions s session t).fifoIdx = _ at hi
  by_cases hts : t = s
  · rw [hts, update_self, hidx] at hi
    cases hi
  · rw [update_of_ne hts] at hr hi
    exact absurd (h.inj ht hs hr hrole hi hk) hts

end Wired

namespace Moved

theorem refl (d : Dev S) : Moved d d := ⟨rfl, rfl, rfl, fun _ _ => .inl rfl⟩

/-- A FIFO changes, but not its state. -/
theorem setFifo (hf : d.fifos role k = some f) (hstate : f'.state = f.state)
    (hempty : f.msgs = [] → f.state = .unused → f'.msgs = []) : Moved d (d.setFifo role k f') := by
  refine ⟨rfl, rfl, rfl, fun r i => ?_⟩
  by_cases hrk : r = role ∧ i = k
  · rw [hrk.1, hrk.2]
    exact .inr ⟨f, f', hf, fifos_setFifo_self .., hstate, hempty⟩
  · exact .inl (fifos_setFifo_of_ne hrk)

/-- The messages of a FIFO that is in use are changed. -/
theorem setMsgs {msgs : List Msg} (hf : d.fifos role i = some f) (hused : f.state = .used) :
    Moved d (d.setFifo role i { f with msgs }) :=
  .setFifo hf rfl fun _ hunused => nomatch hused.symm.trans hunused

end Moved

/-! ## The calls that set up a session -/

theorem getFifo_free (h : d.getFifo role = some k) :
    ∀ f, d.fifos role k = some f → f.state = .unused := by
  intro f hf
  have hk := find?_some h
  simpa [hf] using hk

theorem Wired.queue_free (h : d.Wired) (hk : d.getFifo role = some k) : d.queue role k = [] := by
  cases hf : d.fifos role k with
  | none =>
    rw [queue, hf]
    rfl
  | some f =>
    rw [queue_of_fifo hf]
    exact h.empty hf (getFifo_free hk f hf)

theorem newFifo_msgs {session : Session} (h : d.Wired) (hk : d.getFifo role = some k) :
    (newFifo session (d.fifos role k)).msgs = d.queue role k := by
  change (if _ then d.queue role k else []) = _
  rw [h.queue_free hk, ite_self]

variable [DecidableEq S]

/-- A session gets an entry, and the FIFO that is free, if there is one. -/
def enter (d : Dev S) (s : S) (role : Role) (i : Idx) : Dev S :=
  let hasConsumer := if role = .consumer then d.hasConsumer + 1 else d.hasConsumer
  let msgKfifo := if role = .producer then (d.sessions s).fifoLen else (d.sessions s).msgKfifo
  ({ d with hasConsumer }.setEntry role i (some s)).setSession s
    { d.sessions s with
      sessionId := some i, role := some role, fifoIdx := d.getFifo role, msgKfifo }

/-- A session that is not connected gets a free entry, with a FIFO or without. -/
theorem connect_cases (d : Dev S) (s : S) (role : Role) :
    d.connect s role = d ∨ ∃ i, (d.sessions s).sessionId = none ∧ d.entries role i = none ∧
      (d.getFifo role = none ∧ d.connect s role = d.enter s role i ∨
        ∃ k, d.getFifo role = some k ∧ d.connect s role =
          (d.enter s role i).setFifo role k (newFifo (d.sessions s) (d.fifos role k))) := by
  rw [connect]
  dsimp only
  split
  · exact .inl rfl
  next hid =>
  rw [not_isSome_iff_eq_none] at hid
  split
  · exact .inl rfl
  next i hi =>
  have hentry := find?_some hi
  rw [isNone_iff_eq_none] at hentry
  refine .inr ⟨i, hid, hentry, ?_⟩
  split
  · next hnone => exact .inl ⟨hnone, rfl⟩
  · next k hk => exact .inr ⟨k, hk, rfl⟩

/-- What a call that sets up a session can do. -/
inductive SetUp (d : Dev S) : Op S → Dev S → Prop
  | stay {op : Op S} : SetUp d op d
  | opens {s : S} : d.isOpen s = false →
    SetUp d (.opens s) { d.setSession s .creat with isOpen := update d.isOpen s true }
  /-- The session keeps its entry and its FIFO. -/
  | change {op : Op S} {s : S} {session : Session} {d' : Dev S} :
    Moved (d.setSession s session) d' → session.sessionId = (d.sessions s).sessionId →
    session.role = (d.sessions s).role → session.fifoIdx = (d.sessions s).fifoIdx → Quiet d d' →
    d'.entries = d.entries → d'.hasUnusingFifo = d.hasUnusingFifo → SetUp d op d'
  | stuck {s : S} {role : Role} {i : Idx} : d.isOpen s = true → (d.sessions s).sessionId = none →
    d.entries role i = none → d.getFifo role = none →
    SetUp d (.connect s role) (d.enter s role i)
  | connect {s : S} {role : Role} {i k : Idx} : d.isOpen s = true →
    (d.sessions s).sessionId = none → d.entries role i = none → d.getFifo role = some k →
    SetUp d (.connect s role)
      ((d.enter s role i).setFifo role k (newFifo (d.sessions s) (d.fifos role k)))
  | leave {op : Op S} {s : S} {role : Role} {i k : Idx} {f : Fifo} {session : Session}
    {isOpen : S → Bool} {type : ℕ} : op = .disconnect s ∨ op = .closes s → d.isOpen s = true →
    (d.sessions s).role = some role → (d.sessions s).sessionId = some i →
    (d.sessions s).fifoIdx = some k → f.msgs = d.queue role k → session.sessionId = none →
    session.role = none → session.fifoIdx = none → (∀ t ≠ s, isOpen t = d.isOpen t) →
    SetUp d op
      { (d.leave role i k f).setSession s session with isOpen, subscribeMsgType := type }
  | closes {s : S} : d.isOpen s = true → (d.sessions s).role = none →
    SetUp d (.closes s) { d with isOpen := update d.isOpen s false }

namespace SetUp

theorem wired (hset : SetUp d op d') (h : d.Wired) : d'.Wired := by
  cases hset with
  | stay => exact h
  | @opens s =>
    have hforget : (d.setSession s .creat).Wired := h.forget rfl
    refine hforget.reopen _ fun {t k} ht hk => ?_
    change (update d.sessions s .creat t).fifoIdx = _ at hk
    by_cases hts : t = s
    · rw [hts, update_self] at hk
      cases hk
    · rwa [update_of_ne hts] at ht
  | change hmoved _ hrole hidx => exact (h.setSession hrole hidx).moved hmoved
  | stuck _ _ _ hnone => exact (h.forget hnone).congr rfl rfl rfl
  | connect _ _ _ hk => exact (h.assign (getFifo_free hk) rfl hk rfl).congr rfl rfl rfl
  | @leave _ s role i k f session isOpen type _ hs hrole _ hk _ _ _ hidx hopen =>
    have hleft : ((d.setSession s session).setFifo role k { f with state := .unusing }).Wired :=
      h.leave hs hrole hk hidx rfl
    refine (hleft.reopen isOpen fun {t _} ht _ => ?_).congr rfl rfl rfl
    by_cases hts : t = s
    · exact hts ▸ hs
    · exact (hopen t hts).symm.trans ht
  | @closes s hs =>
    refine h.reopen _ fun {t _} ht _ => ?_
    by_cases hts : t = s
    · exact hts ▸ hs
    · rwa [update_of_ne hts] at ht

theorem quiet (hset : SetUp d op d') (h : d.Wired) : Quiet d d' := by
  cases hset with
  | stay | opens | stuck | closes => exact ⟨rfl, rfl, rfl, rfl, rfl⟩
  | change _ _ _ _ hquiet => exact hquiet
  | @connect s role i k _ _ _ hk =>
    have hmsgs : (newFifo (d.sessions s) (d.fifos role k)).msgs = (d.enter s role i).queue role k :=
      newFifo_msgs h hk
    exact ⟨queue_setFifo hmsgs, rfl, rfl, rfl, rfl⟩
  | @leave _ s role i k f session _ _ _ _ _ _ _ hmsgs =>
    have hqueue : (d.setFifo role k { f with state := .unusing }).queue = d.queue :=
      queue_setFifo hmsgs
    exact ⟨hqueue, rfl, rfl, rfl, rfl⟩

theorem of_connect (hs : d.isOpen s = true) (role : Role) :
    SetUp d (.connect s role) (d.connect s role) := by
  rcases connect_cases d s role with heq | ⟨i, hid, hentry, ⟨hnone, heq⟩ | ⟨k, hk, heq⟩⟩ <;>
    rw [heq]
  exacts [.stay, .stuck hs hid hentry hnone, .connect hs hid hentry hk]

theorem of_disconnect (hs : d.isOpen s = true) (hstep : d.disconnect s = some d') :
    SetUp d (.disconnect s) d' := by
  rw [disconnect] at hstep
  split at hstep
  · cases hstep
    exact .stay
  · next role i k hrole hi hk =>
    obtain ⟨f, hf, rfl⟩ := map_eq_some_iff.1 hstep
    cases role <;>
      exact .leave (.inl rfl) hs hrole hi hk (queue_of_fifo hf).symm rfl rfl rfl fun _ _ => rfl
  · cases hstep
  · cases hstep

theorem of_release (hs : d.isOpen s = true) (hstep : d.release s = some d') :
    SetUp d (.closes s) d' := by
  rw [release] at hstep
  split at hstep
  · next hrole =>
    cases hstep
    exact .closes hs hrole
  · next role i k hrole hi hk =>
    obtain ⟨f, hf, rfl⟩ := map_eq_some_iff.1 hstep
    cases role <;>
      exact .leave (.inr rfl) hs hrole hi hk (queue_of_fifo hf).symm rfl rfl rfl fun _ hts =>
        update_of_ne hts ..
  · cases hstep
  · cases hstep

/-- A field of a session is written, and that of its FIFO, if it has one. -/
theorem of_change (session : Session) (g : Fifo → Fifo) {n : ℕ}
    (hstep : (match session.role, session.fifoIdx with
      | some role, some k => (d.fifos role k).map fun f =>
        ({ d.setSession s session with subscribeMsgType := n } : Dev S).setFifo role k (g f)
      | _, _ => some { d.setSession s session with subscribeMsgType := n }) = some d')
    (hid : session.sessionId = (d.sessions s).sessionId)
    (hrole : session.role = (d.sessions s).role) (hidx : session.fifoIdx = (d.sessions s).fifoIdx)
    (hstate : ∀ f, (g f).state = f.state) (hmsgs : ∀ f, (g f).msgs = f.msgs) : SetUp d op d' := by
  have hmoved : Moved (d.setSession s session)
      { d.setSession s session with subscribeMsgType := n } := { Moved.refl _ with }
  split at hstep
  · next role k _ _ =>
    obtain ⟨f, hf, rfl⟩ := map_eq_some_iff.1 hstep
    have hset : Moved (d.setSession s session) ((d.setSession s session).setFifo role k (g f)) :=
      .setFifo hf (hstate f) fun hnil _ => (hmsgs f).trans hnil
    have hqueue : (d.setFifo role k (g f)).queue = d.queue :=
      queue_setFifo ((hmsgs f).trans (queue_of_fifo hf).symm)
    exact .change { hset with } hid hrole hidx ⟨hqueue, rfl, rfl, rfl, rfl⟩ rfl rfl
  · cases hstep
    exact .change hmoved hid hrole hidx ⟨rfl, rfl, rfl, rfl, rfl⟩ rfl rfl

theorem of_subscribe {type : ℕ} (hstep : d.subscribe s type = some d') : SetUp d op d' := by
  rw [subscribe] at hstep
  dsimp only at hstep
  obtain ⟨n, hn⟩ : ∃ n, (if (d.sessions s).role = some .consumer then
      (d.setSession s { d.sessions s with subscribeMsgType := type }).updateSubscribeMsgType
      else d.setSession s { d.sessions s with subscribeMsgType := type }) =
      { d.setSession s { d.sessions s with subscribeMsgType := type } with
        subscribeMsgType := n } := by
    split <;> exact ⟨_, rfl⟩
  rw [hn] at hstep
  exact of_change { d.sessions s with subscribeMsgType := type }
    ({ · with subscribeMsgType := type }) hstep rfl rfl rfl (fun _ => rfl) fun _ => rfl

end SetUp

/-! ## The messages that are moved -/

section Messages

variable {msg : Msg} {msgs : List Msg} {vdecId : ℕ} {j : Idx}

omit [DecidableEq S]

theorem Wired.idxOf (h : d.Wired) (hs : d.isOpen s = true) (hi : d.idxOf s role = some i) :
    ∃ f, d.fifos role i = some f ∧ f.state = .used := by
  rw [Dev.idxOf] at hi
  split at hi
  · next hrole => exact h.used hs hrole hi
  · cases hi

theorem putIn_eq (hf : d.fifos .producer i = some f) : d.putIn i msgs = some
      { d.setFifo .producer i (f.put msgs) with
        allProducerFifoEmpty := (f.put msgs).msgs.isEmpty } := by
  rw [putIn, hf]
  rfl

theorem foldl_vfree (msgs : List Msg) (d : Dev S) : msgs.foldl (fun d msg => d.vfree msg.ptr) d =
      { d with frees := ((msgs.map Msg.ptr).filter (· ≠ 0)).reverse ++ d.frees } := by
  induction msgs generalizing d with
  | nil => rfl
  | cons msg msgs ih =>
    rw [foldl_cons, ih, Dev.vfree, map_cons]
    split
    · next hzero => rw [filter_cons_of_neg (by simpa using hzero)]
    · next hzero =>
      rw [filter_cons_of_pos (by simpa using hzero), reverse_cons, append_assoc]
      rfl

/-- A FIFO is looked at for a session that is gone. -/
inductive Tidied (d : Dev S) (role : Role) (i : Idx) : Dev S → Prop
  | stay : Tidied d role i d
  | free {f : Fifo} : d.fifos role i = some f → f.state = .unusing →
    (role = .producer → f.msgs = []) → Tidied d role i
      { d.setFifo role i { f with state := .unused, msgs := [] } with
        hasUnusingFifo := d.hasUnusingFifo - 1
        frees := (if f.subscribeMsgType = mediaVideoCcInfo then
          ((f.msgs.map Msg.ptr).filter (· ≠ 0)).reverse else []) ++ d.frees }

theorem tidied_producer (d : Dev S) (i : Idx) : Tidied d .producer i (d.tidyProducer i) := by
  rw [tidyProducer]
  split
  · exact .stay
  next f hf =>
  split
  · next hgone =>
    have hfree := Tidied.free hf hgone.1 fun _ => hgone.2
    simp only [hgone.2, map_nil, filter_nil, reverse_nil, ite_self] at hfree
    rwa [← hgone.2] at hfree
  · exact .stay

theorem tidied_consumer (d : Dev S) (i : Idx) : Tidied d .consumer i (d.tidyConsumer i) := by
  rw [tidyConsumer]
  split
  · exact .stay
  next f hf =>
  split
  · next hgone =>
    have hfree := Tidied.free hf hgone nofun
    dsimp only
    split
    · next hcc =>
      rw [if_pos hcc] at hfree
      rw [foldl_vfree]
      exact hfree
    · next hcc =>
      rw [if_neg hcc] at hfree
      exact hfree
  · exact .stay

namespace Tidied

theorem wired (ht : Tidied d role i d') (h : d.Wired) : d'.Wired := by
  cases ht with
  | stay => exact h
  | @free f hf hgone =>
    have hwired : (d.setFifo role i { f with state := .unused, msgs := [] }).Wired :=
      h.setFifo_unused hf (by rw [hgone]; decide) rfl
    exact hwired.congr rfl rfl rfl

theorem fifos (ht : Tidied d role i d') (hr : r ≠ role) : d'.fifos r = d.fifos r := by
  cases ht with
  | stay => rfl
  | @free f =>
    funext k
    exact fifos_setFifo_of_ne (f := { f with state := .unused, msgs := [] }) fun heq => hr heq.1

theorem pc (ht : Tidied d role i d') : d'.pc = d.pc := by
  cases ht <;> rfl

end Tidied

/-- What a step of the thread can do. -/
inductive Turn (d : Dev S) : Dev S → Prop
  | wake : d.pc = .asleep → Turn d { d with pc := .visit (finRange maxSession) }
  | sleep : d.pc = .visit [] → Turn d { d with pc := .asleep }
  | skip {i : Idx} {rest : List Idx} : d.pc = .visit (i :: rest) → d.queue .producer i = [] →
    Turn d { d with pc := .tidy i rest }
  | take {i : Idx} {rest : List Idx} {f : Fifo} {msg : Msg} {msgs : List Msg} :
    d.pc = .visit (i :: rest) → d.fifos .producer i = some f → f.msgs = msg :: msgs →
    Turn d { d.setFifo .producer i { f with msgs } with
      allProducerFifoEmpty := msgs.isEmpty
      pc := .offer i msg f.vdecId (finRange maxSession) rest }
  | pass {i j : Idx} {msg : Msg} {vdecId : ℕ} {js rest : List Idx} :
    d.pc = .offer i msg vdecId (j :: js) rest →
    (¬ ∃ c ∈ d.fifos .consumer j, Takes msg vdecId c) →
    Turn d { d with pc := .offer i msg vdecId js rest }
  | give {i j : Idx} {msg : Msg} {vdecId : ℕ} {js rest : List Idx} {c : Fifo} :
    d.pc = .offer i msg vdecId (j :: js) rest → d.fifos .consumer j = some c →
    Takes msg vdecId c → Turn d { d.setFifo .consumer j (c.put [msg]) with
      pc :=
        if msg.messageType = mediaVideoCcInfo then .tidy i rest else .offer i msg vdecId js rest }
  | drop {i : Idx} {msg : Msg} {vdecId : ℕ} {rest : List Idx} :
    d.pc = .offer i msg vdecId [] rest → Turn d { d with
      frees :=
        (if msg.messageType = mediaVideoCcInfo ∧ msg.ptr ≠ 0 then [msg.ptr] else []) ++ d.frees
      pc := .tidy i rest }
  | tidy {i : Idx} {rest : List Idx} {e e' : Dev S} : d.pc = .tidy i rest →
    Tidied d .producer i e → Tidied e .consumer i e' → Turn d { e' with pc := .visit rest }

theorem turn_of_thread (hstep : d.thread = some d') : Turn d d' := by
  rw [thread] at hstep
  split at hstep
  · next hpc =>
    obtain ⟨-, hstep⟩ := ite_none_right_eq_some.1 hstep
    cases hstep
    exact .wake hpc
  · next hpc =>
    cases hstep
    exact .sleep hpc
  · next i rest hpc =>
    cases hstep
    rw [visitFifo]
    split
    · next hnone => exact .skip hpc (by rw [queue, hnone]; rfl)
    next f hf =>
    split
    · next hnil => exact .skip hpc ((queue_of_fifo hf).trans hnil)
    · next hmsgs => exact .take hpc hf hmsgs
  · next i msg vdecId j js rest hpc =>
    cases hstep
    rw [offerTo]
    split
    · next hnone => exact .pass hpc (by simp [hnone])
    next c hc =>
    split
    · next htakes => exact .give hpc hc htakes
    · next htakes => exact .pass hpc (by simpa [hc] using htakes)
  · next i msg vdecId rest hpc =>
    cases hstep
    have hdrop := Turn.drop hpc
    rw [offered, vfree]
    split_ifs at hdrop ⊢ <;> simp_all
  · next i rest hpc =>
    cases hstep
    exact .tidy hpc (tidied_producer d i) (tidied_consumer _ i)

/-- A step of the thread moves messages, or tidies up. -/
theorem Turn.moved (h : Turn d d') :
    (Moved d d' ∧ d'.entries = d.entries ∧ d'.hasUnusingFifo = d.hasUnusingFifo) ∨
      ∃ i e e' rest, Tidied d .producer i e ∧ Tidied e .consumer i e' ∧
        d' = { e' with pc := .visit rest } := by
  cases h with
  | wake | sleep | skip | pass | drop => exact .inl ⟨{ Moved.refl d with }, rfl, rfl⟩
  | @take i rest f msg msgs _ hf hmsgs =>
    have hmoved : Moved d (d.setFifo .producer i { f with msgs }) :=
      .setFifo hf rfl fun hnil => nomatch hmsgs.symm.trans hnil
    exact .inl ⟨{ hmoved with }, rfl, rfl⟩
  | give _ hc htakes => exact .inl ⟨{ Moved.setMsgs hc htakes.1 with }, rfl, rfl⟩
  | tidy _ hproducer hconsumer => exact .inr ⟨_, _, _, _, hproducer, hconsumer, rfl⟩

theorem Wired.turn (h : d.Wired) (hturn : Turn d d') : d'.Wired := by
  obtain ⟨hmoved, -⟩ | ⟨i, e, e', rest, hproducer, hconsumer, rfl⟩ := hturn.moved
  · exact h.moved hmoved
  · exact (hconsumer.wired (hproducer.wired h)).congr rfl rfl rfl

/-! ## The calls that move messages -/

/-- The messages that a call puts into the FIFO of a producer. -/
def puts (d : Dev S) : Op S → Option (Idx × List Msg)
  | .write s msgs => (d.idxOf s .producer).map (·, d.accepted s msgs)
  | .notify s msg =>
    if msg.messageType &&& d.subscribeMsgType ≠ 0 then (d.idxOf s .producer).map (·, [msg])
    else none
  | .injectBuf s type content ptr copied =>
    if ptr ≠ 0 ∧ copied then
      (d.idxOf s .producer).map (·, [{ messageType := type, ptr, content }])
    else none
  | _ => none

/-- How many messages a call takes from the FIFO of a consumer. -/
def fetches (d : Dev S) : Op S → Option (Idx × ℕ)
  | .getBuf s => (d.idxOf s .consumer).map (·, 1)
  | .read s count => (d.idxOf s .consumer).map (·, count)
  | .receive s num => (d.sessions s).fifoIdx.map (·, num)
  | _ => none

/-- The buffer that a call allocates for a message. -/
def news : Op S → List ℕ
  | .injectBuf _ _ _ ptr _ => [ptr]
  | _ => []

/-- The buffers that a call frees with the messages it has taken. -/
def freed (msgs : List Msg) : Op S → List ℕ
  | .getBuf _ => (msgs.map Msg.ptr).filter (· ≠ 0)
  | _ => []

/-- What a call that moves messages does, of a session that is open. -/
inductive Call (d : Dev S) (op : Op S) : Dev S → Prop
  | quiet (l : List ℕ) : d.puts op = none →
    (∀ k n, d.fetches op = some (k, n) → d.queue .consumer k = []) →
    Call d op { d with allocs := l ++ d.allocs, frees := l ++ d.frees }
  | put {i : Idx} {f : Fifo} {msgs : List Msg} : d.puts op = some (i, msgs) →
    d.fifos .producer i = some f → f.state = .used →
    (∀ ptr ∈ news op, d.allocs.count ptr = d.frees.count ptr) →
    Call d op { d.setFifo .producer i (f.put msgs) with
      allProducerFifoEmpty := (f.put msgs).msgs.isEmpty
      allocs := news op ++ d.allocs }
  | fetch {k : Idx} {f : Fifo} {n : ℕ} : d.fetches op = some (k, n) →
    d.fifos .consumer k = some f →
    Call d op { d.setFifo .consumer k { f with msgs := f.msgs.drop n } with
      frees := freed (f.msgs.take n) op ++ d.frees }

theorem Call.moved (h : Call d op d') : Moved d d' := by
  cases h with
  | quiet => exact { Moved.refl d with }
  | put _ hf hused => exact { Moved.setMsgs hf hused with }
  | @fetch k f n _ hf =>
    have hmoved : Moved d (d.setFifo .consumer k { f with msgs := f.msgs.drop n }) :=
      .setFifo hf rfl fun hnil _ => by rw [hnil, drop_nil]
    exact { hmoved with }

section

variable (h : d.Wired) (hs : d.isOpen s = true)
include h hs

theorem Call.write (hstep : d.write s msgs = some d') : Call d (.write s msgs) d' := by
  rw [Dev.write] at hstep
  split at hstep
  · next i hi =>
    obtain ⟨f, hf, hused⟩ := h.idxOf hs hi
    rw [putIn_eq hf] at hstep
    cases hstep
    exact .put (by rw [puts, hi]; rfl) hf hused nofun
  · next hi =>
    cases hstep
    exact .quiet [] (by rw [puts, hi]; rfl) nofun

theorem Call.notify (hstep : d.notify s msg = some d') : Call d (.notify s msg) d' := by
  rw [Dev.notify] at hstep
  split at hstep
  · next i hi =>
    obtain ⟨f, hf, hused⟩ := h.idxOf hs hi
    split at hstep
    · next htype =>
      rw [putIn_eq hf] at hstep
      cases hstep
      exact .put (by rw [puts, if_pos htype, hi]; rfl) hf hused nofun
    · next htype =>
      cases hstep
      exact .quiet [] (if_neg htype) nofun
  · next hi =>
    cases hstep
    exact .quiet [] (by rw [puts, hi]; exact ite_self _) nofun

theorem Call.injectBuf {type content ptr : ℕ} {copied : Bool}
    (hstep : d.injectBuf s type content ptr copied = some d') :
    Call d (.injectBuf s type content ptr copied) d' := by
  rw [Dev.injectBuf] at hstep
  split at hstep
  · next hnot =>
    cases hstep
    refine .quiet [] ?_ nofun
    rw [puts, idxOf]
    rcases hnot with hrole | hptr
    · rw [if_neg hrole]
      exact ite_self _
    · exact if_neg fun hnew => hnew.1 hptr
  next hready =>
  rw [not_or, not_not] at hready
  obtain ⟨hrole, hptr⟩ := hready
  obtain ⟨hfresh, hstep⟩ := ite_none_left_eq_some.1 hstep
  have hidx : d.idxOf s .producer = (d.sessions s).fifoIdx := if_pos hrole
  dsimp only at hstep
  rw [vfree, if_neg hptr] at hstep
  split at hstep
  · next hcopied =>
    cases hstep
    exact .quiet [ptr] (if_neg fun hnew => by simp [hnew.2] at hcopied) nofun
  next hcopied =>
  split at hstep
  · next i hi =>
    obtain ⟨f, hf, hused⟩ := h.used hs hrole hi
    rw [putIn_eq (d := { d with allocs := ptr :: d.allocs }) hf] at hstep
    cases hstep
    exact .put (by rw [puts, if_pos ⟨hptr, by simpa using hcopied⟩, hidx, hi]; rfl) hf hused
      (by simpa [news] using hfresh)
  · next hi =>
    cases hstep
    exact .quiet [ptr] (by rw [puts, hidx, hi]; exact ite_self _) nofun

theorem Call.getBuf (hstep : d.getBuf s = some d') : Call d (.getBuf s) d' := by
  rw [Dev.getBuf] at hstep
  split at hstep
  · next k hk =>
    obtain ⟨f, hf, -⟩ := h.idxOf hs hk
    have hfetch : d.fetches (.getBuf s) = some (k, 1) := by rw [fetches, hk]; rfl
    rw [hf] at hstep
    cases hstep
    dsimp only
    split
    · next hnil =>
      refine .quiet [] rfl fun k' n heq => ?_
      cases hfetch.symm.trans heq
      rw [queue_of_fifo hf, hnil]
    next msg msgs hmsgs =>
    have hcall := Call.fetch hfetch hf
    rw [hmsgs] at hcall
    rw [vfree]
    split <;> next hzero =>
      simp [freed, hzero] at hcall
      exact hcall
  · next hk =>
    cases hstep
    exact .quiet [] rfl fun k n heq => by simp [fetches, hk] at heq

theorem Call.read {count : ℕ} (hstep : d.read s count = some d') : Call d (.read s count) d' := by
  rw [Dev.read] at hstep
  split at hstep
  · next k hk =>
    obtain ⟨f, hf, -⟩ := h.idxOf hs hk
    rw [hf] at hstep
    cases hstep
    exact .fetch (by rw [fetches, hk]; rfl) hf
  · next hk =>
    cases hstep
    exact .quiet [] rfl fun k n heq => by simp [fetches, hk] at heq

omit h hs in
theorem Call.receive {num : ℕ} (hstep : d.receive s num = some d') :
    Call d (.receive s num) d' := by
  rw [Dev.receive] at hstep
  split at hstep
  · next k hk =>
    obtain ⟨f, hf, rfl⟩ := map_eq_some_iff.1 hstep
    exact .fetch (by rw [fetches, hk]; rfl) hf
  · next hk =>
    cases hstep
    exact .quiet [] rfl fun k n heq => by simp [fetches, hk] at heq

end

end Messages

/-- A step sets up a session, or is one of the calls that move messages, or a step of the thread. -/
theorem step_cases (h : d.Wired) (hstep : d.step op = some d') :
    (op ≠ .thread ∧ d.puts op = none ∧ d.fetches op = none ∧ SetUp d op d') ∨
      (op ≠ .thread ∧ Call d op d') ∨ op = .thread ∧ Turn d d' := by
  have hopen : ∀ {s e}, (if d.isOpen s = true then e else none) = some d' →
      d.isOpen s = true ∧ e = some d' := ite_none_right_eq_some.1
  cases op with
  | opens s =>
    obtain ⟨hs, hstep⟩ := ite_none_left_eq_some.1 hstep
    cases hstep
    exact .inl ⟨nofun, rfl, rfl, .opens (eq_false_of_ne_true hs)⟩
  | connect s role =>
    obtain ⟨hs, hstep⟩ := hopen hstep
    cases hstep
    exact .inl ⟨nofun, rfl, rfl, .of_connect hs role⟩
  | disconnect s =>
    exact .inl ⟨nofun, rfl, rfl, .of_disconnect (hopen hstep).1 (hopen hstep).2⟩
  | closes s => exact .inl ⟨nofun, rfl, rfl, .of_release (hopen hstep).1 (hopen hstep).2⟩
  | subscribe s type => exact .inl ⟨nofun, rfl, rfl, .of_subscribe (hopen hstep).2⟩
  | setFifoLen s len =>
    obtain ⟨-, hstep⟩ := hopen hstep
    cases hstep
    exact .inl ⟨nofun, rfl, rfl,
      .change (.refl (d.setFifoLen s len)) rfl rfl rfl ⟨rfl, rfl, rfl, rfl, rfl⟩ rfl rfl⟩
  | setVdecId s id =>
    have hset : SetUp d (.setVdecId s id) d' :=
      .of_change { d.sessions s with vdecId := id } ({ · with vdecId := id }) (hopen hstep).2
        rfl rfl rfl (fun _ => rfl) fun _ => rfl
    exact .inl ⟨nofun, rfl, rfl, hset⟩
  | write s msgs => exact .inr (.inl ⟨nofun, .write h (hopen hstep).1 (hopen hstep).2⟩)
  | notify s msg => exact .inr (.inl ⟨nofun, .notify h (hopen hstep).1 (hopen hstep).2⟩)
  | injectBuf s type content ptr copied =>
    exact .inr (.inl ⟨nofun, .injectBuf h (hopen hstep).1 (hopen hstep).2⟩)
  | getBuf s => exact .inr (.inl ⟨nofun, .getBuf h (hopen hstep).1 (hopen hstep).2⟩)
  | read s count => exact .inr (.inl ⟨nofun, .read h (hopen hstep).1 (hopen hstep).2⟩)
  | receive s num => exact .inr (.inl ⟨nofun, .receive (hopen hstep).2⟩)
  | thread => exact .inr (.inr ⟨rfl, turn_of_thread hstep⟩)

theorem Wired.step (h : d.Wired) (hstep : d.step op = some d') : d'.Wired := by
  rcases step_cases h hstep with ⟨-, -, -, hset⟩ | ⟨-, hcall⟩ | ⟨-, hturn⟩
  · exact hset.wired h
  · exact h.moved hcall.moved
  · exact h.turn hturn

end CommonDrivers.Media.MediaProxy.Dev
