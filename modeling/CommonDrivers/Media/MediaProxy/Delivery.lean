import CommonDrivers.Media.MediaProxy.Subscribed
import CommonDrivers.Media.MediaProxy.Wakeup

/-!
# The delivery of messages

`delivery` is about every run of calls and steps of the thread in which no FIFO is full and no
session leaves: what a producer has written is taken in this order, without the messages that no
consumer has subscribed to, and each consumer gets exactly the messages that it has subscribed to
when it is their turn. For this a consumer may not bring a new subscription when it connects, of
which the producers would not hear.

The thread takes one message of each producer in a pass, and goes on as long as
`all_producer_fifo_empty` is not set. But that is the state of the producer it came to last: a
producer with more messages than the others is left behind (`delivery_left_behind`). The thread
wakes up for every message in the runs in which a FIFO is only found empty when all are.
-/

namespace CommonDrivers.Media.MediaProxy

open List Option

variable {S : Type*} {d d' : Dev S} {k : Idx} {op : Op S} {log : Log}

/-! ## The steps -/

namespace Delivered

variable (h : Delivered d log)
include h

theorem turn (hused : d.AllUsed) (hroom : d.pc.NotFull d) (hturn : d.Turn d') :
    Delivered d' (d.pc.record d log) := by
  cases hturn with
  | wake hpc | sleep hpc =>
    rw [hpc]
    exact h.goOn _ (by rw [hpc]; rfl) (by simp)
  | skip hpc hqueue =>
    rw [hpc, Pc.record, hqueue]
    exact h.goOn _ (by rw [hpc]; rfl) (by simp)
  | take hpc hf hmsgs => exact h.take hpc hf hmsgs
  | pass hpc hnot => exact (h.offer hpc hroom).1 hnot
  | give hpc hc htakes => exact (h.offer hpc hroom).2 _ hc htakes
  | drop hpc =>
    rw [hpc]
    exact h.drop hpc
  | tidy hpc hproducer hconsumer =>
    cases hused.tidied hproducer
    cases hused.tidied hconsumer
    rw [hpc]
    exact h.goOn _ (by rw [hpc]; rfl) (by simp)

end Delivered

/-! ## The runs -/

/-- What holds in every run without a full FIFO and a session that leaves. -/
structure Sound (d : Dev S) (log : Log) : Prop where
  wired : d.Wired
  used : d.AllUsed
  served : d.Served
  delivered : Delivered d log

theorem Sound.init : Sound (Dev.init : Dev S) .empty where
  wired := .init
  used := nofun
  served := nofun
  delivered := .init

/-- The messages that were written have no part in it. -/
theorem Sound.note (h : Sound d log) (written : Idx → List Written) :
    Sound d { log with written } := by
  have hdelivered := h.delivered
  exact { h with delivered :=
    ⟨hdelivered.sent, hdelivered.got, hdelivered.complete, hdelivered.current⟩ }

variable [DecidableEq S]

theorem Sound.step (h : Sound d log) (hroom : op.NotFull d) (hstep : d.step op = some d') :
    Sound d' (op.record d log) := by
  have hwired : d'.Wired := h.wired.step hstep
  -- A call that moves messages leaves the sessions, one that sets up a session the messages.
  have hmove : d.Kept d' → Delivered d' (op.record d log) → Sound d' (op.record d log) :=
    fun hkept hdelivered => ⟨hwired, hkept.used h.used, h.served.keeps hkept, hdelivered⟩
  rcases Dev.step_cases h.wired hstep with ⟨hop, hputs, hfetches, hset⟩ | ⟨hop, hcall⟩ |
    ⟨rfl, hturn⟩
  · have hstays : ∀ s, op ≠ .disconnect s ∧ op ≠ .closes s := fun s =>
      ⟨by rintro rfl; exact hroom, by rintro rfl; exact hroom⟩
    obtain ⟨hused, hserved⟩ := hset.keeps hstays h.used h.served
    have hquiet := hset.quiet h.wired
    rw [Op.record_quiet hop hroom hputs fun k n hfetch => nomatch hfetches.symm.trans hfetch]
    exact ⟨hwired, hused, hserved, h.delivered.congr hquiet.queue hquiet.pc⟩
  · exact hmove hcall.moved.keeps (h.delivered.call hop hroom hcall)
  · exact hmove (.turn h.used hturn) (h.delivered.turn h.used hroom hturn)

theorem Dev.Flagged.step (h : d.Flagged) (hsound : Sound d log) (hroom : op.NotFull d)
    (hsole : op.Sole d) (hstep : d.step op = some d') : d'.Flagged := by
  rcases step_cases hsound.wired hstep with ⟨-, -, -, hset⟩ | ⟨-, hcall⟩ | ⟨rfl, hturn⟩
  · have hquiet := hset.quiet hsound.wired
    exact h.congr (by rw [hquiet.queue]) hquiet.flag
  · exact h.call hroom hsole hcall
  · exact h.turn hsound.used hsole hturn

/-- The start of a run, and of its log. -/
def Start (x : Dev S × Log) : Prop := x = (.init, .empty)

/-- A step with its log. -/
def runStep (x : Dev S × Log) (op : Op S) : Option (Dev S × Log) :=
  (x.1.step op).map fun d => (d, { op.record x.1 x.2 with written := x.2.note x.1 op })

/-- As long as no FIFO is full and the subscriptions are in the mask, of the messages that a
    producer has written those that a consumer wants are put once, and taken in the order in which
    they were written; each consumer gets those whose type it has subscribed to at that time, in the
    order in which they are taken; each transfer has looked at every consumer, or has found one for
    closed captions. If a FIFO is only emptied when the others are empty, the thread wakes up
    whenever there is a message and a consumer. -/
theorem delivery :
    (∀ d log, Reached Start runStep
        (fun (x : Dev S × Log) op => op.NotFull x.1 ∧ op.Covered x.1) (d, log) →
      (∀ i, ∃ l, (log.written i).filter (·.Wanted) <+ l ∧ l <+ log.written i ∧
        l.map Written.msg = log.taken (·.src = i) ++ d.queue .producer i) ∧
      (∀ j, log.obtained j ++ d.queue .consumer j = log.taken (j ∈ ·.receivers)) ∧
      (∀ t ∈ log.finished d.pc, t.Complete) ∧
      ∀ s s' k, d.isOpen s = true → d.isOpen s' = true → d.idxOf s .consumer = some k →
        d.idxOf s' .consumer = some k → s = s') ∧ ∀ d log, Reached Start runStep
        (fun (x : Dev S × Log) op => op.NotFull x.1 ∧ op.Sole x.1) (d, log) →
      (∃ s, d.isOpen s = true ∧ (d.sessions s).role = some .consumer) →
      (∃ i, d.queue .producer i ≠ []) → d.checkThreadWakeup = true := by
  constructor
  · intro d log h
    obtain ⟨hsound, -, hheard⟩ : Sound d log ∧ d.Tuned ∧ Heard log := by
      refine h.inv (I := fun x => Sound x.1 x.2 ∧ x.1.Tuned ∧ Heard x.2) ?_ ?_
      · rintro x rfl
        exact ⟨.init, .init, fun i => ⟨[], .slnil, .slnil, rfl⟩⟩
      · intro x op x' ⟨hsound, htuned, hheard⟩ hop hstep
        obtain ⟨d, hd, rfl⟩ := map_eq_some_iff.1 hstep
        exact ⟨(hsound.step hop.1 hd).note _,
          htuned.step hsound.wired hsound.used hop.1 hop.2 hd, hheard.step htuned.covers op⟩
    refine ⟨fun i => ?_, hsound.delivered.got, hsound.delivered.complete, ?_⟩
    · rw [hsound.delivered.sent i]
      exact hheard i
    intro s s' k hs hs' hk hk'
    -- two consumers have different FIFOs
    have hidx : ∀ {s}, d.idxOf s .consumer = some k →
        (d.sessions s).role = some .consumer ∧ (d.sessions s).fifoIdx = some k := by
      intro s hk
      rw [Dev.idxOf] at hk
      split at hk
      · next hrole => exact ⟨hrole, hk⟩
      · cases hk
    exact hsound.wired.inj hs hs' (hidx hk).1 (hidx hk').1 (hidx hk).2 (hidx hk').2
  · rintro d log h ⟨s, hs, hrole⟩ ⟨i, hi⟩
    have hsound : Sound d log ∧ d.Flagged := by
      refine h.inv (I := fun x => Sound x.1 x.2 ∧ x.1.Flagged) ?_ fun x op x' hx hop hstep => ?_
      · rintro x rfl
        exact ⟨.init, fun i hi => absurd rfl hi⟩
      · obtain ⟨d, hd, rfl⟩ := map_eq_some_iff.1 hstep
        exact ⟨(hx.1.step hop.1 hd).note _, hx.2.step hx.1 hop.1 hop.2 hd⟩
    have hcount := hsound.1.served s hs hrole
    have hflag := hsound.2 i hi
    simp [Dev.checkThreadWakeup, hcount, hflag]

/-- Two producers and a consumer of one type. -/
def talk : List (Op (Fin 3)) :=
  [.opens 0, .opens 1, .opens 2, .connect 0 .producer, .connect 1 .producer,
    .connect 2 .consumer, .subscribe 2 1]

/-- A message of that type. -/
def hello : Msg := { messageType := 1, ptr := 0, content := 5 }

/-- A message of another type. -/
def aside : Msg := { messageType := 2, ptr := 0, content := 6 }

theorem delivery_hello : ∃ (d : Dev (Fin 3)) (log : Log),
    (log.written 0).map Written.msg = [hello, aside, hello, hello] ∧ log.obtained 0 = [hello] ∧
      d.queue .consumer 0 = [hello] ∧ log.taken (0 ∈ ·.receivers) = [hello, hello] ∧
      (∃ l, (log.written 0).filter (·.Wanted) <+ l ∧ l <+ log.written 0 ∧
        l.map Written.msg = log.taken (·.src = 0) ++ [hello]) ∧ d.checkThreadWakeup = true := by
  have hrun : ∃ x ∈ exec runStep (fun (x : Dev (Fin 3) × Log) op =>
        (op.NotFull x.1 ∧ op.Covered x.1) ∧ op.Sole x.1)
      (talk ++ [.write 0 [hello, aside, hello, hello]] ++ List.replicate 54 .thread ++ [.read 2 1])
      (.init, .empty), (x.2.written 0).map Written.msg = [hello, aside, hello, hello] ∧
      x.2.obtained 0 = [hello] ∧ x.1.queue .consumer 0 = [hello] ∧
      x.1.queue .producer 0 = [hello] ∧ x.1.isOpen 2 = true ∧
      (x.1.sessions 2).role = some .consumer := by decide +kernel
  obtain ⟨⟨d, log⟩, hexec, hwritten, hread, hconsumer, hproducer, hopen, hrole⟩ := hrun
  dsimp only at hwritten hread hconsumer hproducer
  have hstart : Start ((.init, .empty) : Dev (Fin 3) × Log) := rfl
  have hreached := (Reached.start hstart).exec hexec
  obtain ⟨hsent, hgot, -⟩ := delivery.1 d log (hreached.imp fun _ _ hop => hop.1)
  have hsent := hsent 0
  have hgot := hgot 0
  rw [hproducer] at hsent
  rw [hread, hconsumer] at hgot
  have hmessage : d.queue .producer 0 ≠ [] := by
    rw [hproducer]
    exact List.cons_ne_nil hello []
  exact ⟨d, log, hwritten, hread, hconsumer, hgot.symm, hsent, delivery.2 d log
    (hreached.imp fun _ _ hop => ⟨hop.1.1, hop.2⟩) ⟨2, hopen, hrole⟩ ⟨0, hmessage⟩⟩

/-- The first producer has one message more than the second one. The thread takes one of each, the
    flag is that of the second one, and the thread goes to sleep. And a consumer that has subscribed
    before it connects does not get what is written then. -/
theorem delivery_left_behind :
    (∃ x : Dev (Fin 3) × Log,
      Reached Start runStep (fun x op => op.NotFull x.1 ∧ op.Covered x.1) x ∧
      x.1.pc = .asleep ∧ x.1.queue .producer 0 = [hello] ∧ x.1.isOpen 2 = true ∧
      (x.1.sessions 2).role = some .consumer ∧ x.1.checkThreadWakeup = false) ∧
    ∃ x : Dev (Fin 3) × Log, Reached Start runStep (fun x op => op.NotFull x.1 ∧ op.Sole x.1) x ∧
      (x.2.written 0).map Written.msg = [hello] ∧ (∀ w ∈ x.2.written 0, w.Wanted) ∧
      x.2.taken (·.src = 0) ++ x.1.queue .producer 0 = [] := by
  have hstart : Start ((.init, .empty) : Dev (Fin 3) × Log) := rfl
  have hsleeps : ∃ x ∈ exec runStep
      (fun (x : Dev (Fin 3) × Log) op => op.NotFull x.1 ∧ op.Covered x.1)
      (talk ++ [.write 0 [hello, hello], .write 1 [hello]] ++ List.replicate 68 .thread)
      (.init, .empty), x.1.pc = .asleep ∧ x.1.queue .producer 0 = [hello] ∧ x.1.isOpen 2 = true ∧
      (x.1.sessions 2).role = some .consumer ∧ x.1.checkThreadWakeup = false := by decide +kernel
  have hdrops : ∃ x ∈ exec runStep
      (fun (x : Dev (Fin 3) × Log) op => op.NotFull x.1 ∧ op.Sole x.1)
      [.opens 0, .opens 2, .connect 0 .producer, .subscribe 2 1, .connect 2 .consumer,
        .write 0 [hello]] (.init, .empty), (x.2.written 0).map Written.msg = [hello] ∧
      (∀ w ∈ x.2.written 0, w.Wanted) ∧
      x.2.taken (·.src = 0) ++ x.1.queue .producer 0 = [] := by decide +kernel
  obtain ⟨x, hexec, hx⟩ := hsleeps
  obtain ⟨y, hexec', hy⟩ := hdrops
  exact ⟨⟨x, (Reached.start hstart).exec hexec, hx⟩, y, (Reached.start hstart).exec hexec', hy⟩

end CommonDrivers.Media.MediaProxy
