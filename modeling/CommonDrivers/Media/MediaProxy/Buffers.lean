import CommonDrivers.Lib.Tally
import CommonDrivers.Media.MediaProxy.Queues

/-!
# The buffers of closed captions

`mediaproxy_inject_buf` allocates a buffer, and its address goes with a message through two FIFOs.
In the runs whose steps are as `Op.Proper` says, each buffer is in one message until it is freed,
which happens once, and nothing else is freed (`buffers_owned`).

Without this, a message that a user has written is taken for one with a buffer: `mediaproxy_get_buf`
frees whatever address is in it (`buffers_foreign`). Buffers are lost when a FIFO is full, when they
are read instead of fetched, and when a consumer disconnects, as its subscription is cleared before
its FIFO; a buffer injected under another type goes to several consumers, or to none.
-/

namespace CommonDrivers.Media.MediaProxy

open List Option

variable {S : Type*} {d d' : Dev S} {s : S} {role : Role} {i k : Idx} {f : Fifo} {op : Op S} {p : ℕ}

/-- The messages with closed captions whose buffer is at `p`. -/
def held (p : ℕ) (msgs : List Msg) : ℕ :=
  msgs.countP fun msg => msg.messageType = mediaVideoCcInfo ∧ msg.ptr = p

/-- The message that the thread has taken and not put yet. -/
def Pc.hand : Pc → List Msg
  | .offer _ msg _ _ _ => [msg]
  | .asleep | .visit _ | .tidy _ _ => []

theorem held_append (p : ℕ) (msgs msgs' : List Msg) :
    held p (msgs ++ msgs') = held p msgs + held p msgs' := countP_append

theorem held_cons (p : ℕ) (msg : Msg) (msgs : List Msg) :
    held p (msg :: msgs) = held p [msg] + held p msgs := held_append p [msg] msgs

theorem held_eq_zero {msgs : List Msg} (h : ∀ msg ∈ msgs, msg.messageType ≠ mediaVideoCcInfo) :
    held p msgs = 0 := countP_eq_zero.2 fun msg hmsg htrue => h msg hmsg (of_decide_eq_true htrue).1

theorem held_singleton {msg : Msg} (h : msg.messageType = mediaVideoCcInfo) :
    held p [msg] = if msg.ptr = p then 1 else 0 := by
  simp [held, countP_cons, h]

instance : Fintype Role where
  elems := {.producer, .consumer}
  complete role := by cases role <;> decide

/-- The messages in all FIFOs whose buffer is at `p`. -/
@[irreducible]
def total (p : ℕ) (queue : Role → Idx → List Msg) : ℕ := ∑ x : Role × Idx, held p (queue x.1 x.2)

namespace Dev

variable {msgs : List Msg} {msg : Msg} {vdecId : ℕ}

/-- The messages that refer to the buffer at `p`, in the FIFOs or with the thread. -/
def refs (d : Dev S) (p : ℕ) : ℕ := total p d.queue + held p d.pc.hand

theorem total_setFifo (d : Dev S) (role : Role) (k : Idx) (f : Fifo) (p : ℕ) :
    total p (d.setFifo role k f).queue + held p (d.queue role k) =
      total p d.queue + held p f.msgs := by
  have hchange := sum_change (i := (role, k)) (f := fun x : Role × Idx => held p (d.queue x.1 x.2))
    (g := fun x : Role × Idx => held p ((d.setFifo role k f).queue x.1 x.2)) fun x hx => by
      rw [queue_setFifo_of_ne fun h => hx (Prod.ext h.1 h.2)]
  simpa only [total, queue_setFifo_self] using hchange

/-- Each buffer that is not freed is in one message, and no other is. -/
structure Owned (d : Dev S) : Prop where
  count p : d.allocs.count p = d.frees.count p + d.refs p
  once p : d.refs p ≤ 1
  null : d.refs 0 = 0

theorem Owned.init : (init : Dev S).Owned := by
  have hrefs : ∀ p, (Dev.init : Dev S).refs p = 0 := fun p => by
    rw [refs, total]
    exact Nat.add_eq_zero_iff.2 ⟨Finset.sum_eq_zero fun _ _ => rfl, rfl⟩
  refine ⟨fun p => ?_, fun p => ?_, hrefs 0⟩
  · rw [hrefs]
    rfl
  · rw [hrefs]
    exact Nat.zero_le 1

/-- The messages that refer to a buffer change when it is freed, and not before. -/
theorem Owned.move (h : d.Owned) (hallocs : d'.allocs = d.allocs)
    (hcount : ∀ p, d'.frees.count p + d'.refs p = d.frees.count p + d.refs p)
    (hle : ∀ p, d'.refs p ≤ d.refs p) : d'.Owned := by
  refine ⟨fun p => ?_, fun p => (hle p).trans (h.once p), ?_⟩
  · rw [hcount, hallocs]
    exact h.count p
  · exact Nat.le_zero.1 ((hle 0).trans h.null.le)

theorem Owned.same (h : d.Owned) (hrefs : ∀ p, d'.refs p = d.refs p)
    (hallocs : d'.allocs = d.allocs) (hfrees : d'.frees = d.frees) : d'.Owned :=
  h.move hallocs (fun p => by rw [hfrees, hrefs]) fun p => (hrefs p).le

theorem Owned.quiet (h : d.Owned) (hquiet : Quiet d d') : d'.Owned := by
  refine h.same (fun p => ?_) hquiet.allocs hquiet.frees
  rw [refs, hquiet.queue, hquiet.pc, refs]

section

variable (h : d.Owned)
include h

/-- No message refers to a buffer at 0. -/
theorem Owned.held_null (role : Role) (k : Idx) : held 0 (d.queue role k) = 0 := by
  have htotal := total_setFifo d role k { newFifo .creat none with msgs := [] } 0
  have hnull := h.null
  rw [refs] at hnull
  change _ = _ + 0 at htotal
  omega

/-- A producer puts messages into its FIFO, with the buffers that were allocated for them. -/
theorem Owned.put {flag : Bool} {l : List ℕ} (hf : d.fifos .producer i = some f)
    (hheld : ∀ p, held p (msgs.take (kfifoMaxSize - f.msgs.length)) = l.count p)
    (hfresh : ∀ p ∈ l, p ≠ 0 ∧ l.count p = 1 ∧ d.allocs.count p = d.frees.count p) :
    ({ d.setFifo .producer i (f.put msgs) with
      allProducerFifoEmpty := flag, allocs := l ++ d.allocs } : Dev S).Owned := by
  have hrefs : ∀ p, (d.setFifo .producer i (f.put msgs)).refs p = d.refs p + l.count p := by
    intro p
    have htotal := total_setFifo d .producer i (f.put msgs) p
    have hmsgs : (f.put msgs).msgs = f.msgs ++ msgs.take (kfifoMaxSize - f.msgs.length) := rfl
    rw [queue_of_fifo hf, hmsgs, held_append, hheld] at htotal
    change total p _ + held p d.pc.hand = total p _ + held p d.pc.hand + _
    omega
  refine ⟨fun p => ?_, fun p => ?_, ?_⟩
  · change (l ++ d.allocs).count p = d.frees.count p + (d.setFifo .producer i (f.put msgs)).refs p
    rw [count_append, hrefs, h.count p]
    omega
  · change (d.setFifo .producer i (f.put msgs)).refs p ≤ 1
    rw [hrefs]
    by_cases hp : p ∈ l
    · obtain ⟨-, hone, hcount⟩ := hfresh p hp
      have := h.count p
      omega
    · rw [count_eq_zero.2 hp]
      exact h.once p
  · change (d.setFifo .producer i (f.put msgs)).refs 0 = 0
    rw [hrefs, h.null, count_eq_zero.2 fun hzero => (hfresh 0 hzero).1 rfl]

/-- Messages are taken from a FIFO, and their buffers are freed. -/
theorem Owned.takes {l : List Msg} {frees : List ℕ} {n : ℤ} (hl : d.queue role k = l ++ f.msgs)
    (hfrees : ∀ p, frees.count p = d.frees.count p + held p l) :
    ({ d.setFifo role k f with frees, hasUnusingFifo := n } : Dev S).Owned := by
  have hrefs : ∀ p, (d.setFifo role k f).refs p + held p l = d.refs p := fun p => by
    have htotal := total_setFifo d role k f p
    rw [hl, held_append] at htotal
    change total p _ + held p d.pc.hand + _ = total p _ + held p d.pc.hand
    omega
  refine h.move rfl (fun p => ?_) fun p => ?_
  · change frees.count p + (d.setFifo role k f).refs p = _
    rw [hfrees, ← hrefs p]
    omega
  · rw [← hrefs p]
    exact Nat.le_add_right _ _

/-! ## The thread -/

/-- The thread goes on with the same message, or with none. -/
theorem Owned.goOn {pc : Pc} (hpc : pc.hand = d.pc.hand) : ({ d with pc } : Dev S).Owned :=
  h.same (fun p => by rw [refs, refs, hpc]; rfl) rfl rfl

theorem Owned.take {rest : List Idx} {flag : Bool} (hpc : d.pc.hand = [])
    (hf : d.fifos .producer i = some f) (hmsgs : f.msgs = msg :: msgs) :
    ({ d.setFifo .producer i { f with msgs } with
      allProducerFifoEmpty := flag
      pc := .offer i msg f.vdecId (finRange maxSession) rest } : Dev S).Owned := by
  refine h.same (fun p => ?_) rfl rfl
  have htotal := total_setFifo d .producer i { f with msgs } p
  rw [queue_of_fifo hf, hmsgs, held_cons] at htotal
  change total p (d.setFifo .producer i { f with msgs }).queue + held p [msg] = _
  rw [refs, hpc]
  dsimp only at htotal
  change _ = _ + 0
  omega

theorem Owned.give {j : Idx} {js rest : List Idx} {c : Fifo}
    (hpc : d.pc = .offer i msg vdecId (j :: js) rest) (hc : d.fifos .consumer j = some c)
    (hroom : msg.messageType = mediaVideoCcInfo → c.msgs.length < kfifoMaxSize) :
    ({ d.setFifo .consumer j (c.put [msg]) with
      pc := if msg.messageType = mediaVideoCcInfo then .tidy i rest
        else .offer i msg vdecId js rest } : Dev S).Owned := by
  refine h.same (fun p => ?_) rfl rfl
  have hp := total_setFifo d .consumer j (c.put [msg]) p
  have hmsgs : (c.put [msg]).msgs = c.msgs ++ [msg].take (kfifoMaxSize - c.msgs.length) := rfl
  rw [queue_of_fifo hc, hmsgs, held_append] at hp
  change total p (d.setFifo .consumer j (c.put [msg])).queue + held p (Pc.hand _) = _
  rw [refs, hpc]
  by_cases htype : msg.messageType = mediaVideoCcInfo
  · have hlen := hroom htype
    rw [take_of_length_le (by rw [length_singleton]; omega)] at hp
    rw [if_pos htype]
    change _ + 0 = _ + held p [msg]
    omega
  · have hzero : held p ([msg].take (kfifoMaxSize - c.msgs.length)) = 0 := by
      refine held_eq_zero fun msg' hmsg => ?_
      rw [mem_singleton.1 (mem_of_mem_take hmsg)]
      exact htype
    rw [if_neg htype]
    change _ + held p [msg] = _ + held p [msg]
    omega

theorem Owned.drop {rest : List Idx} (hpc : d.pc = .offer i msg vdecId [] rest) :
    ({ d with
      frees := (if msg.messageType = mediaVideoCcInfo ∧ msg.ptr ≠ 0 then [msg.ptr] else []) ++
        d.frees
      pc := .tidy i rest } : Dev S).Owned := by
  have hrefs : ∀ p, d.refs p = total p d.queue + held p [msg] := fun p => by
    rw [refs, hpc]
    rfl
  by_cases htype : msg.messageType = mediaVideoCcInfo
  · have hptr : msg.ptr ≠ 0 := by
      intro hzero
      have hnull := h.null
      rw [hrefs, held_singleton htype, if_pos hzero] at hnull
      exact Nat.succ_ne_zero _ hnull
    rw [if_pos ⟨htype, hptr⟩]
    refine h.move rfl (fun p => ?_) fun p => ?_
    · change (msg.ptr :: d.frees).count p + (total p d.queue + 0) = _
      rw [count_cons, hrefs, held_singleton htype]
      simp only [beq_iff_eq]
      omega
    · rw [hrefs]
      exact Nat.le_add_right _ _
  · rw [if_neg fun hcc => htype hcc.1]
    refine h.same (fun p => ?_) rfl rfl
    have hzero : held p [msg] = 0 := held_eq_zero fun msg' hmsg => by
      rw [mem_singleton.1 hmsg]
      exact htype
    rw [hrefs, hzero]
    rfl

end

/-- What `vfree` gets of messages with closed captions. -/
theorem count_ptrs (h : ∀ msg ∈ msgs, msg.messageType = mediaVideoCcInfo)
    (hnull : held 0 msgs = 0) (p : ℕ) :
    ((msgs.map Msg.ptr).filter (· ≠ 0)).count p = held p msgs := by
  by_cases hp : p = 0
  · subst hp
    rw [hnull, count_eq_zero]
    intro hmem
    exact absurd rfl (of_decide_eq_true (mem_filter.1 hmem).2)
  · rw [count_filter (by simpa using hp), count_eq_countP, countP_map, held]
    refine countP_congr fun msg hmsg => ?_
    simp [h msg hmsg]

theorem Owned.tidied (h : d.Owned) (ht : Tidied d role i d')
    (hgone : role = .consumer → ∀ f ∈ d.fifos .consumer i, f.state = .unusing →
      if f.subscribeMsgType = mediaVideoCcInfo then
        ∀ msg ∈ f.msgs, msg.messageType = mediaVideoCcInfo
      else ∀ msg ∈ f.msgs, msg.messageType ≠ mediaVideoCcInfo) : d'.Owned := by
  cases ht with
  | stay => exact h
  | @free f hf hstate hnil =>
    have hqueue := queue_of_fifo hf
    have hnull := h.held_null role i
    have hl : d.queue role i = f.msgs ++ [] := by rw [hqueue, append_nil]
    rw [hqueue] at hnull
    refine h.takes (f := { f with state := .unused, msgs := [] }) hl fun p => ?_
    rw [count_append, Nat.add_comm]
    congr 1
    cases role with
    | producer => simp [hnil rfl, held]
    | consumer =>
      have hmsgs := hgone rfl f hf hstate
      split at hmsgs
      · next hcc => rw [if_pos hcc, count_reverse, count_ptrs hmsgs hnull]
      · next hcc =>
        rw [if_neg hcc, held_eq_zero hmsgs]
        rfl

end Dev

/-! ## The runs -/

/-- What the next step of the thread asks for. -/
def Pc.Proper (d : Dev S) : Pc → Prop
  | .offer _ msg vdecId (j :: _) _ => msg.messageType = mediaVideoCcInfo →
    ∀ c ∈ d.fifos .consumer j, Dev.Takes msg vdecId c → c.msgs.length < kfifoMaxSize
  | .tidy i _ => ∀ f ∈ d.fifos .consumer i, f.state = .unusing →
    if f.subscribeMsgType = mediaVideoCcInfo then
      ∀ msg ∈ f.msgs, msg.messageType = mediaVideoCcInfo
    else ∀ msg ∈ f.msgs, msg.messageType ≠ mediaVideoCcInfo
  | .asleep | .visit _ | .offer _ _ _ [] _ => True

instance (d : Dev S) : (pc : Pc) → Decidable (pc.Proper d)
  | .offer _ msg _ (_ :: _) _ =>
    inferInstanceAs (Decidable (msg.messageType = mediaVideoCcInfo → _))
  | .tidy i _ => inferInstanceAs (Decidable (∀ f ∈ d.fifos .consumer i, _ → ite _ _ _))
  | .asleep | .visit _ | .offer _ _ _ [] _ => inferInstanceAs (Decidable True)

/-- What a step asks for. Messages with closed captions come from `mediaproxy_inject_buf` only,
    which is for nothing else; there is room for them; they are fetched by `mediaproxy_get_buf`,
    which is for nothing else; and a consumer that goes away has subscribed to them only, or has
    none of them left. -/
def Op.Proper (d : Dev S) : Op S → Prop
  | .write _ msgs => ∀ msg ∈ msgs, msg.messageType ≠ mediaVideoCcInfo
  | .notify _ msg => msg.messageType ≠ mediaVideoCcInfo
  | .injectBuf s type _ _ _ => type = mediaVideoCcInfo ∧
    ∀ k ∈ d.idxOf s .producer, (d.queue .producer k).length < kfifoMaxSize
  | .getBuf s => ∀ k ∈ d.idxOf s .consumer, ∀ msg ∈ (d.queue .consumer k).head?,
    msg.messageType = mediaVideoCcInfo
  | .read s count => ∀ k ∈ d.idxOf s .consumer, ∀ msg ∈ (d.queue .consumer k).take count,
    msg.messageType ≠ mediaVideoCcInfo
  | .receive s num => ∀ k ∈ (d.sessions s).fifoIdx, ∀ msg ∈ (d.queue .consumer k).take num,
    msg.messageType ≠ mediaVideoCcInfo
  | .thread => d.pc.Proper d
  | .opens _ | .connect _ _ | .disconnect _ | .closes _ | .subscribe _ _ | .setFifoLen _ _
  | .setVdecId _ _ => True

instance (d : Dev S) : (op : Op S) → Decidable (op.Proper d)
  | .opens _ | .connect _ _ | .disconnect _ | .closes _ | .subscribe _ _ | .setFifoLen _ _
  | .setVdecId _ _ => inferInstanceAs (Decidable True)
  | .write _ msgs => inferInstanceAs (Decidable (∀ msg ∈ msgs, _ ≠ _))
  | .notify _ _ => inferInstanceAs (Decidable (_ ≠ _))
  | .injectBuf _ _ _ _ _ => inferInstanceAs (Decidable (_ ∧ _))
  | .getBuf s => inferInstanceAs (Decidable (∀ k ∈ d.idxOf s .consumer, _))
  | .read s _ => inferInstanceAs (Decidable (∀ k ∈ d.idxOf s .consumer, _))
  | .receive s _ => inferInstanceAs (Decidable (∀ k ∈ (d.sessions s).fifoIdx, _))
  | .thread => inferInstanceAs (Decidable (d.pc.Proper d))

namespace Dev

/-- The messages that are put have a buffer if one was allocated. -/
theorem held_puts {msgs : List Msg} (hproper : op.Proper d) (hputs : d.puts op = some (i, msgs))
    (hf : d.fifos .producer i = some f) (p : ℕ) :
    held p (msgs.take (kfifoMaxSize - f.msgs.length)) = (news op).count p := by
  cases op with
  | write s l =>
    obtain ⟨i, hi, ⟨⟩⟩ := map_eq_some_iff.1 hputs
    refine held_eq_zero fun msg hmsg => hproper msg ?_
    exact mem_of_mem_take (mem_filter.1 (mem_of_mem_take hmsg)).1
  | notify s msg =>
    obtain ⟨i, hi, ⟨⟩⟩ := map_eq_some_iff.1 (ite_none_right_eq_some.1 hputs).2
    refine held_eq_zero fun msg' hmsg => ?_
    rw [mem_singleton.1 (mem_of_mem_take hmsg)]
    exact hproper
  | injectBuf s type content ptr copied =>
    obtain ⟨i, hi, ⟨⟩⟩ := map_eq_some_iff.1 (ite_none_right_eq_some.1 hputs).2
    obtain ⟨rfl, hroom⟩ := hproper
    have hlen := hroom i hi
    rw [queue_of_fifo hf] at hlen
    rw [take_of_length_le (by rw [length_singleton]; omega), held_singleton rfl]
    simp [news, count_singleton]
  | _ => cases hputs

/-- The messages that are taken have a buffer if it is freed. -/
theorem held_fetches {n : ℕ} (h : d.Owned) (hproper : op.Proper d)
    (hfetches : d.fetches op = some (k, n)) (p : ℕ) :
    (freed ((d.queue .consumer k).take n) op).count p = held p ((d.queue .consumer k).take n) := by
  cases op with
  | getBuf s =>
    obtain ⟨k, hk, ⟨⟩⟩ := map_eq_some_iff.1 hfetches
    have hnull := h.held_null .consumer k
    rw [← take_append_drop 1 (d.queue .consumer k), held_append] at hnull
    refine count_ptrs (fun msg hmsg => hproper k hk msg ?_) (by omega) p
    cases hq : d.queue .consumer k <;> simp_all
  | read s count | receive s num =>
    obtain ⟨k, hk, ⟨⟩⟩ := map_eq_some_iff.1 hfetches
    exact (held_eq_zero (hproper k hk)).symm
  | _ => cases hfetches

theorem Owned.call (h : d.Owned) (hproper : op.Proper d) (hcall : d.Call op d') : d'.Owned := by
  cases hcall with
  | quiet l =>
    refine ⟨fun p => ?_, h.once, h.null⟩
    change (l ++ d.allocs).count p = (l ++ d.frees).count p + d.refs p
    rw [count_append, count_append, h.count p, Nat.add_assoc]
  | put hputs hf _ hfresh =>
    refine h.put hf (held_puts hproper hputs hf) fun p hp => ?_
    have hptr : p ≠ 0 ∧ (news op).count p = 1 := by cases op <;> grind [puts, news]
    exact ⟨hptr.1, hptr.2, hfresh p hp⟩
  | fetch hfetches hf =>
    have hqueue := queue_of_fifo hf
    refine h.takes (hqueue.trans (take_append_drop ..).symm) fun p => ?_
    rw [count_append, ← hqueue, held_fetches h hproper hfetches, Nat.add_comm]

theorem Owned.turn (h : d.Owned) (hproper : Op.Proper d .thread) (hturn : Turn d d') :
    d'.Owned := by
  rw [Op.Proper] at hproper
  cases hturn with
  | wake hpc | sleep hpc | skip hpc | pass hpc => exact h.goOn (by rw [hpc]; rfl)
  | take hpc hf hmsgs => exact h.take (by rw [hpc]; rfl) hf hmsgs
  | give hpc hc htakes =>
    rw [hpc] at hproper
    exact h.give hpc hc fun htype => hproper htype _ hc htakes
  | drop hpc => exact h.drop hpc
  | tidy hpc hproducer hconsumer =>
    rw [hpc] at hproper
    refine ((h.tidied hproducer nofun).tidied hconsumer fun _ => ?_).goOn ?_
    · rw [hproducer.fifos (r := .consumer) nofun]
      exact hproper
    · rw [hconsumer.pc, hproducer.pc, hpc]
      rfl

variable [DecidableEq S]

theorem Owned.step (h : d.Owned) (hwired : d.Wired) (hproper : op.Proper d)
    (hstep : d.step op = some d') : d'.Owned := by
  rcases step_cases hwired hstep with ⟨-, -, -, hset⟩ | ⟨-, hcall⟩ | ⟨rfl, hturn⟩
  · exact h.quiet (hset.quiet hwired)
  · exact h.call hproper hcall
  · exact h.turn hproper hturn

end Dev

section Runs

variable [DecidableEq S]

/-- Each buffer of `mediaproxy_inject_buf` is freed once, or is in one message that is queued or
    with the thread. No other address is freed. -/
theorem buffers_owned
    (h : Reached Dev.Initial Dev.step (fun (d : Dev S) op => op.Proper d) d) (p : ℕ) :
    d.allocs.count p = d.frees.count p + d.refs p ∧ d.refs p ≤ 1 ∧
      (p ∈ d.frees → p ∈ d.allocs) := by
  have hinv : d.Wired ∧ d.Owned := by
    refine h.inv (I := fun d => d.Wired ∧ d.Owned) ?_ ?_
    · rintro _ rfl
      exact ⟨.init, .init⟩
    · intro d op d' hd hproper hstep
      exact ⟨hd.1.step hstep, hd.2.step hd.1 hproper hstep⟩
  have hcount := hinv.2.count p
  refine ⟨hcount, hinv.2.once p, fun hfreed => ?_⟩
  rw [← count_pos_iff] at hfreed ⊢
  omega

end Runs

/-- A producer and a consumer of closed captions. -/
def captions : List (Op (Fin 2)) :=
  [.opens 0, .opens 1, .connect 0 .producer, .connect 1 .consumer, .subscribe 1 mediaVideoCcInfo]

/-- The message of the first producer goes to the first consumer. -/
def passOn : List (Op (Fin 2)) := [.thread, .thread, .thread]

theorem buffers_owned_fetched :
    ∃ d : Dev (Fin 2), d.allocs = [4096] ∧ d.frees = [4096] ∧ d.refs 4096 = 0 := by
  have hrun : ∃ d ∈ exec Dev.step (fun (d : Dev (Fin 2)) op => op.Proper d)
      (captions ++ [.injectBuf 0 mediaVideoCcInfo 7 4096 true] ++ passOn ++ [.getBuf 1]) .init,
      d.allocs = [4096] ∧ d.frees = [4096] := by decide +kernel
  obtain ⟨d, hexec, hallocs, hfrees⟩ := hrun
  have hinit : Dev.Initial (.init : Dev (Fin 2)) := rfl
  have hcount := (buffers_owned ((Reached.start hinit).exec hexec) 4096).1
  rw [hallocs, hfrees] at hcount
  exact ⟨d, hallocs, hfrees, by omega⟩

/-- An address that is written by a user is freed. -/
theorem buffers_foreign : ∃ d : Dev (Fin 2), Reached Dev.Initial Dev.step (fun _ _ => True) d ∧
      d.allocs = [] ∧ d.frees = [4096] := by
  have hrun : ∃ d ∈ exec Dev.step (fun (_ : Dev (Fin 2)) _ => True)
      (captions ++ [.write 0 [{ messageType := mediaVideoCcInfo, ptr := 4096, content := 0 }]] ++
        passOn ++ [.getBuf 1]) .init, d.allocs = [] ∧ d.frees = [4096] := by decide +kernel
  obtain ⟨d, hexec, hd⟩ := hrun
  have hinit : Dev.Initial (.init : Dev (Fin 2)) := rfl
  exact ⟨d, (Reached.start hinit).exec hexec, hd⟩

end CommonDrivers.Media.MediaProxy
