import CommonDrivers.Media.DiMulti.QueueSlots

/-!
# Where the buffers are, and in which order they leave

What the queues hold is a list of buffers each (`Contents`). A channel `Refines` such contents if
its slots and its fifos are those of the lists, each buffer is in one list at most and its
`queue_index` is the number of that list's queue. Each call appends a buffer to a list, takes one
out, or does nothing (`step_refines`), if the bits that `pw_buf_2_qindex` leaves unset are the same
in all the words.

* `queues_in_order`: in every run with the same unset bits, each buffer is once in the queue that
  it names, the head can be removed, and rings and fifos hand out in the order of insertion;
* `head_refused`: with other unset bits the head of a fifo is not removed.
-/

namespace CommonDrivers.DiMulti

open List Function Option QueueIdx

variable {s : Channel} {b b' : DiBuf} {g : ℕ} {q : QueueId} {t : QueType} {Q Q' : QueueIdx}

/-! ## Numbers of queues -/

namespace QueueIdx

theorem num_ne_neg_one (Q : QueueIdx) : Q.num ≠ -1 := by
  cases Q <;> simp only [num] <;> omega

@[simp]
theorem diQueType2New_new (t : QueType) : diQueType2New (new t).num = some t := by
  cases t <;> rfl

@[simp]
theorem diQueType2New_old (q : QueueId) : diQueType2New (old q).num = none := by
  cases q <;> rfl

@[simp]
theorem oldQueue_old (q : QueueId) : oldQueue (old q).num = some q := by
  cases q <;> rfl

@[simp]
theorem diQueType2New_neg_one : diQueType2New (-1) = none := by decide

@[simp]
theorem oldQueue_neg_one : oldQueue (-1) = none := by decide

/-- The queue of a number. -/
def ofNum (i : ℤ) : Option QueueIdx :=
  match diQueType2New i with
  | some t => some (new t)
  | none => (oldQueue i).map old

@[simp]
theorem ofNum_num (Q : QueueIdx) : ofNum Q.num = some Q := by
  cases Q with
  | old q => rw [ofNum, diQueType2New_old, oldQueue_old]; rfl
  | new t => rw [ofNum, diQueType2New_new]

@[simp]
theorem ofNum_neg_one : ofNum (-1) = none := by decide

theorem num_injective : Injective num := fun Q Q' h => by
  have := congrArg ofNum h
  rwa [ofNum_num, ofNum_num, Option.some.injEq] at this

end QueueIdx

/-! ## Contents -/

/-- The buffers of each queue. -/
abbrev Contents := QueueIdx → List DiBuf

/-- What a call does to the contents. -/
inductive Event
  | nothing
  | insert (Q : QueueIdx) (b : DiBuf)
  | handOut (Q : QueueIdx) (b : DiBuf)
  | pick (Q : QueueIdx) (b : DiBuf)

namespace Contents

def insert (c : Contents) (Q : QueueIdx) (b : DiBuf) : Contents := update c Q (c Q ++ [b])

def erase (c : Contents) (Q : QueueIdx) (b : DiBuf) : Contents := update c Q ((c Q).erase b)

def apply (c : Contents) : Event → Contents
  | .nothing => c
  | .insert Q b => c.insert Q b
  | .handOut Q b => c.erase Q b
  | .pick Q b => c.erase Q b

@[simp]
theorem insert_self (c : Contents) (Q : QueueIdx) (b : DiBuf) : c.insert Q b Q = c Q ++ [b] :=
  update_self ..

theorem insert_of_ne (c : Contents) (b : DiBuf) (h : Q' ≠ Q) : c.insert Q b Q' = c Q' :=
  update_of_ne h ..

@[simp]
theorem erase_self (c : Contents) (Q : QueueIdx) (b : DiBuf) : c.erase Q b Q = (c Q).erase b :=
  update_self ..

theorem erase_of_ne (c : Contents) (b : DiBuf) (h : Q' ≠ Q) : c.erase Q b Q' = c Q' :=
  update_of_ne h ..

end Contents

variable {c : Contents}

/-- Each buffer is in one list at most, and names it. -/
structure Tags (f : DiBuf → ℤ) (c : Contents) : Prop where
  nodup : ∀ Q, (c Q).Nodup
  mem_iff : ∀ Q b, b ∈ c Q ↔ f b = Q.num
  named : ∀ b, f b = -1 ∨ ∃ Q : QueueIdx, f b = Q.num

namespace Tags

variable {f : DiBuf → ℤ}

theorem not_mem (h : Tags f c) (hb : f b = -1) (Q : QueueIdx) : b ∉ c Q := fun hmem =>
  Q.num_ne_neg_one (((h.mem_iff Q b).1 hmem).symm.trans hb)

/-- A buffer gets into one list, or out of it, and no other one moves. -/
theorem set (h : Tags f c) {l : List DiBuf} {i : ℤ} (hl : l.Nodup)
    (hmem : ∀ b' ≠ b, b' ∈ l ↔ b' ∈ c Q) (hother : ∀ Q' ≠ Q, b ∉ c Q')
    (hi : b ∈ l ∧ i = Q.num ∨ b ∉ l ∧ i = -1) : Tags (update f b i) (update c Q l) := by
  refine ⟨fun Q' => ?_, fun Q' b' => ?_, fun b' => ?_⟩
  · rcases eq_or_ne Q' Q with rfl | hne
    · rwa [update_self]
    · rw [update_of_ne hne]
      exact h.nodup Q'
  · rcases eq_or_ne b' b with rfl | hbne
    · rw [update_self]
      rcases eq_or_ne Q' Q with rfl | hne
      · rw [update_self]
        rcases hi with ⟨hb, hi⟩ | ⟨hb, hi⟩
        · exact iff_of_true hb hi
        · exact iff_of_false hb fun heq => Q'.num_ne_neg_one (heq.symm.trans hi)
      rw [update_of_ne hne]
      refine iff_of_false (hother Q' hne) fun heq => ?_
      rcases hi with ⟨-, hi⟩ | ⟨-, hi⟩
      · exact hne (num_injective (heq.symm.trans hi))
      · exact Q'.num_ne_neg_one (heq.symm.trans hi)
    · rw [update_of_ne hbne, ← h.mem_iff]
      rcases eq_or_ne Q' Q with rfl | hne
      · rw [update_self, hmem b' hbne]
      · rw [update_of_ne hne]
  · rcases eq_or_ne b' b with rfl | hbne
    · rw [update_self]
      exact hi.elim (fun hi => .inr ⟨Q, hi.2⟩) fun hi => .inl hi.2
    · rw [update_of_ne hbne]
      exact h.named b'

theorem insert (h : Tags f c) (hb : f b = -1) (Q : QueueIdx) :
    Tags (update f b Q.num) (c.insert Q b) :=
  h.set (nodup_append'.2 ⟨h.nodup Q, nodup_singleton b, disjoint_singleton.2 (h.not_mem hb Q)⟩)
    (fun b' hne => by rw [mem_append, mem_singleton, or_iff_left hne])
    (fun Q' _ => h.not_mem hb Q') (.inl ⟨mem_append_right _ (mem_singleton_self b), rfl⟩)

theorem erase (h : Tags f c) (hb : b ∈ c Q) : Tags (update f b (-1)) (c.erase Q b) := by
  refine h.set ((h.nodup Q).erase b) (fun b' hne => mem_erase_of_ne hne) (fun Q' hne hb' => ?_)
    (.inr ⟨(h.nodup Q).not_mem_erase, rfl⟩)
  exact hne (num_injective (((h.mem_iff Q' b).1 hb').symm.trans ((h.mem_iff Q b).1 hb)))

end Tags

/-- The queue is a ring or a fifo. -/
def QueueIdx.InOrder (kind : QueueId → QueueKind) : QueueIdx → Prop
  | old q => kind q = .fifo
  | new _ => True

/-- The channel holds the contents; the words of its fifos have the bits `g`. -/
structure Refines (kind : QueueId → QueueKind) (g : ℕ) (s : Channel) (c : Contents) : Prop
    extends Tags s.queueIndex c where
  kinds : ∀ q, (s.queue q).type = kind q
  old : ∀ q, (s.queue q).Holds (c (.old q))
  new : ∀ t, s.fifo t = (c (.new t)).map (pwBuf2Qindex g)
  length_le : ∀ t, (c (.new t)).length ≤ 32

variable {kind : QueueId → QueueKind}

/-- A fifo without a word. -/
theorem requeue_eq (w : ℕ) (arr : List ℕ) (h : arr.length ≤ 32) :
    requeue w arr = arr.filter (· ≠ w) := by
  have hall : ∀ (arr l : List ℕ), l.length + arr.length ≤ 32 →
      arr.foldl (fun l x => if x = w then l else (pwQueueIn l x).getD l) l =
        l ++ arr.filter (· ≠ w) := by
    intro arr
    induction arr with
    | nil => exact fun l _ => (append_nil l).symm
    | cons x arr ih =>
      intro l hl
      rw [length_cons] at hl
      rw [foldl_cons]
      by_cases hx : x = w
      · rw [if_pos hx, ih l (by omega), filter_cons_of_neg (by simpa using hx)]
      · have hin : pwQueueIn l x = some (l ++ [x]) := if_pos (by rw [maxFifoSize]; omega)
        rw [if_neg hx, hin, getD_some, ih (l ++ [x]) (by simp; omega),
          filter_cons_of_pos (by simpa using hx), append_assoc, singleton_append]
  exact hall arr [] (by simpa using h)

namespace Refines

theorem init (kind : QueueId → QueueKind) (g : ℕ) :
    Refines kind g (Channel.init kind) fun _ => [] where
  nodup _ := nodup_nil
  mem_iff Q b := iff_of_false not_mem_nil fun h => Q.num_ne_neg_one h.symm
  named _ := .inl rfl
  kinds _ := rfl
  old q := by
    refine ⟨rfl, ?_, fun _ => ⟨Nat.zero_lt_succ _, rfl, rfl, fun _ _ _ => rfl⟩,
      fun _ _ _ h => absurd rfl h⟩
    have hnil : ((Channel.init kind).queue q).cells = [] := filter_eq_nil_iff.2 fun v hv => by
      obtain ⟨i, -, rfl⟩ := mem_map.1 hv
      exact fun h => of_decide_eq_true h rfl
    rw [hnil]
    rfl
  new _ := rfl
  length_le _ := Nat.zero_le _

section

variable (h : Refines kind g s c)
include h

theorem length_lt (Q : QueueIdx) : (c Q).length < 256 := DiBuf.length_lt_of_nodup (h.nodup Q)

theorem setOld {x : Queue} {i : ℤ} {l : List DiBuf}
    (htags : Tags (update s.queueIndex b i) (update c (.old q) l))
    (htype : x.type = (s.queue q).type) (hx : x.Holds l) :
    Refines kind g ((s.setQueue q x).setIndex b i) (update c (.old q) l) where
  toTags := htags
  kinds q' := by
    change (update s.queue q x q').type = kind q'
    rcases eq_or_ne q' q with rfl | hne
    · rw [update_self, htype]
      exact h.kinds q'
    · rw [update_of_ne hne]
      exact h.kinds q'
  old q' := by
    change (update s.queue q x q').Holds _
    rcases eq_or_ne q' q with rfl | hne
    · rwa [update_self, update_self]
    · rw [update_of_ne hne, update_of_ne fun heq => hne (QueueIdx.old.inj heq)]
      exact h.old q'
  new := h.new
  length_le := h.length_le

theorem setNew {i : ℤ} {l : List DiBuf}
    (htags : Tags (update s.queueIndex b i) (update c (.new t) l)) (hl : l.length ≤ 32) :
    Refines kind g ((s.setFifo t (l.map (pwBuf2Qindex g))).setIndex b i) (update c (.new t) l) where
  toTags := htags
  kinds := h.kinds
  old := h.old
  new t' := by
    change update s.fifo t (l.map (pwBuf2Qindex g)) t' = _
    rcases eq_or_ne t' t with rfl | hne
    · rw [update_self, update_self]
    · rw [update_of_ne hne, update_of_ne fun heq => hne (QueueIdx.new.inj heq)]
      exact h.new t'
  length_le t' := by
    rcases eq_or_ne t' t with rfl | hne
    · rwa [update_self]
    · rw [update_of_ne fun heq => hne (QueueIdx.new.inj heq)]
      exact h.length_le t'

theorem insertOld (hb : s.queueIndex b = -1) {x : Queue} (hx : (s.queue q).insert b = some x) :
    Refines kind g ((s.setQueue q x).setIndex b (QueueIdx.old q).num) (c.insert (.old q) b) := by
  obtain ⟨htype, hholds⟩ := (h.old q).insert (h.length_lt _) hx
  exact h.setOld (h.toTags.insert hb (.old q)) htype hholds

theorem insertNew (hb : s.queueIndex b = -1) (hlt : (s.fifo t).length < 32) :
    Refines kind g ((s.setFifo t (s.fifo t ++ [pwBuf2Qindex g b])).setIndex b (QueueIdx.new t).num)
      (c.insert (.new t) b) := by
  have hset := h.setNew (h.toTags.insert hb (.new t))
  rw [h.new, length_map] at hlt
  rw [map_append, ← h.new, length_append] at hset
  exact hset hlt

theorem eraseOld {x : Queue} (hx : (s.queue q).remove b = some x) :
    Refines kind g ((s.setQueue q x).setIndex b (-1)) (c.erase (.old q) b) := by
  obtain ⟨hmem, htype, hholds, -⟩ := (h.old q).remove (h.length_lt _) hx
  exact h.setOld (h.toTags.erase hmem) htype hholds

theorem eraseNew (hb : b ∈ c (.new t)) :
    Refines kind g ((s.setFifo t (((c (.new t)).erase b).map (pwBuf2Qindex g))).setIndex b (-1))
      (c.erase (.new t) b) := h.setNew (h.toTags.erase hb) (length_erase_le.trans (h.length_le t))

theorem eraseHead {l : List DiBuf} (hc : c (.new t) = b :: l) :
    Refines kind g ((s.setFifo t (l.map (pwBuf2Qindex g))).setIndex b (-1))
      (c.erase (.new t) b) := by
  have herase := h.eraseNew (t := t) (b := b) (by rw [hc]; exact mem_cons_self)
  rwa [hc, erase_cons_head] at herase

/-- The word of a buffer is in the fifo if the buffer is. -/
theorem mem_fifo : pwBuf2Qindex g b ∈ s.fifo t ↔ b ∈ c (.new t) := by
  rw [h.new, List.mem_map_of_injective (DiBuf.pwBuf2Qindex_injective g)]

theorem requeue (t : QueType) (b : DiBuf) :
    requeue (pwBuf2Qindex g b) (s.fifo t) = ((c (.new t)).erase b).map (pwBuf2Qindex g) := by
  have hinj := DiBuf.pwBuf2Qindex_injective g
  rw [requeue_eq _ _ (by rw [h.new, length_map]; exact h.length_le t), h.new,
    (h.nodup (.new t)).erase_eq_filter, List.filter_map]
  congr 1
  refine filter_congr fun x _ => ?_
  by_cases hx : x = b
  · simp [hx]
  · simp [hx, hinj.ne hx]

end

end Refines

/-! ## One call -/

/-- What the call does to the contents, by what it returns and by the `queue_index` it leaves. -/
def event (g : ℕ) (s : Channel) : Call → Event
  | .queueIn b Q => if (queueIn g s b Q).queueIndex b = Q.num then .insert Q b else .nothing
  | .queueOut b =>
    match ofNum (s.queueIndex b) with
    | none => .nothing
    | some Q => if (queueOut g s b).queueIndex b = -1 then .handOut Q b else .nothing
  | .diQueIn t b => if (diQueIn g s t b).2 then .insert (.new t) b else .nothing
  | .diQueOut t b => if (diQueOut g s t b).2 then .handOut (.new t) b else .nothing
  | .diQueOutToDiBuf t =>
    match (diQueOutToDiBuf s t).2 with
    | none => .nothing
    | some b => .handOut (.new t) b
  | .diQueOutNotFifo t b => if (diQueOutNotFifo g s t b).2 then .pick (.new t) b else .nothing

/-- The buffer that a call inserts. -/
def Call.inserted : Call → Option DiBuf
  | queueIn b _ => some b
  | diQueIn _ b => some b
  | _ => none

/-- A ring or a fifo hands out its first buffer. -/
def Event.FromHead (kind : QueueId → QueueKind) (c : Contents) : Event → Prop
  | handOut Q b => Q.InOrder kind → (c Q).head? = some b
  | _ => True

namespace Refines

section

variable (h : Refines kind g s c)
include h

theorem diQueIn_spec (hb : s.queueIndex b = -1) :
    ((diQueIn g s t b).2 = true ∧ (diQueIn g s t b).1.queueIndex b = (QueueIdx.new t).num ∧
      Refines kind g (diQueIn g s t b).1 (c.insert (.new t) b)) ∨
    ((diQueIn g s t b).2 = false ∧ (diQueIn g s t b).1 = s) := by
  rw [diQueIn, if_neg (not_not.2 hb)]
  by_cases hlt : (s.fifo t).length < maxFifoSize
  · have hin : pwQueueIn (s.fifo t) (pwBuf2Qindex g b) = some (s.fifo t ++ [pwBuf2Qindex g b]) :=
      if_pos hlt
    rw [hin]
    exact .inl ⟨rfl, update_self .., h.insertNew hb hlt⟩
  · have hin : pwQueueIn (s.fifo t) (pwBuf2Qindex g b) = none := if_neg hlt
    rw [hin]
    exact .inr ⟨rfl, rfl⟩

/-- Only the first buffer of the fifo goes out, and it does. -/
theorem diQueOut_spec : ((diQueOut g s t b).2 = true ∧ (c (.new t)).head? = some b ∧
      (diQueOut g s t b).1.queueIndex b = -1 ∧
      Refines kind g (diQueOut g s t b).1 (c.erase (.new t) b)) ∨
    ((diQueOut g s t b).2 = false ∧ (c (.new t)).head? ≠ some b ∧ (diQueOut g s t b).1 = s) := by
  have hfifo := h.new t
  rw [diQueOut]
  cases hc : c (.new t) with
  | nil =>
    rw [hc] at hfifo
    rw [hfifo]
    exact .inr ⟨rfl, nofun, rfl⟩
  | cons b' l =>
    rw [hc, map_cons] at hfifo
    rw [hfifo]
    dsimp only
    by_cases heq : pwBuf2Qindex g b = pwBuf2Qindex g b'
    · rw [if_neg (not_not.2 heq)]
      obtain rfl := DiBuf.pwBuf2Qindex_injective g heq
      exact .inl ⟨rfl, rfl, update_self .., h.eraseHead hc⟩
    · rw [if_pos heq]
      refine .inr ⟨rfl, fun hhead => heq ?_, rfl⟩
      rw [some.inj hhead]

theorem diQueOutToDiBuf_spec : (diQueOutToDiBuf s t).2 = (c (.new t)).head? ∧
    match (c (.new t)).head? with
    | none => (diQueOutToDiBuf s t).1 = s
    | some b => Refines kind g (diQueOutToDiBuf s t).1 (c.erase (.new t) b) := by
  have hfifo := h.new t
  rw [diQueOutToDiBuf]
  cases hc : c (.new t) with
  | nil =>
    rw [hc] at hfifo
    rw [hfifo]
    exact ⟨rfl, rfl⟩
  | cons b l =>
    rw [hc, map_cons] at hfifo
    rw [hfifo]
    dsimp only
    rw [DiBuf.ofCode_pwBuf2Qindex]
    exact ⟨rfl, h.eraseHead hc⟩

theorem diQueOutNotFifo_spec : ((diQueOutNotFifo g s t b).2 = true ∧
      Refines kind g (diQueOutNotFifo g s t b).1 (c.erase (.new t) b)) ∨
    ((diQueOutNotFifo g s t b).2 = false ∧ Refines kind g (diQueOutNotFifo g s t b).1 c) := by
  rw [diQueOutNotFifo]
  split
  · exact .inr ⟨rfl, h⟩
  by_cases hmem : pwBuf2Qindex g b ∈ s.fifo t
  · rw [if_pos hmem, h.requeue]
    exact .inl ⟨rfl, h.eraseNew (h.mem_fifo.1 hmem)⟩
  -- the fifo is rebuilt as it was
  rw [if_neg hmem, h.requeue, erase_of_not_mem fun hb => hmem (h.mem_fifo.2 hb), ← h.new,
    Channel.setFifo, update_eq_self]
  exact .inr ⟨rfl, h⟩

theorem queueIn_spec (hb : s.queueIndex b = -1) (Q : QueueIdx) :
    ((queueIn g s b Q).queueIndex b = Q.num ∧ Refines kind g (queueIn g s b Q) (c.insert Q b)) ∨
    ((queueIn g s b Q).queueIndex b ≠ Q.num ∧ queueIn g s b Q = s) := by
  have hne : s.queueIndex b ≠ Q.num := fun heq => Q.num_ne_neg_one (heq.symm.trans hb)
  cases Q with
  | new t =>
    rcases h.diQueIn_spec hb with ⟨-, hnum, hs⟩ | ⟨-, hs⟩
    · exact .inl ⟨hnum, hs⟩
    · exact .inr ⟨by rw [queueIn, hs]; exact hne, hs⟩
  | old q =>
    rw [queueIn, if_neg (not_not.2 hb)]
    split
    · exact .inr ⟨hne, rfl⟩
    · next x hx => exact .inl ⟨update_self .., h.insertOld hb hx⟩

/-- A buffer of a queue goes out of it, of a ring or a fifo if it is the first. -/
theorem queueOut_spec (hb : b ∈ c Q) :
    ((queueOut g s b).queueIndex b = -1 ∧ (Q.InOrder kind → (c Q).head? = some b) ∧
      Refines kind g (queueOut g s b) (c.erase Q b)) ∨
    ((queueOut g s b).queueIndex b ≠ -1 ∧ ¬ (Q.InOrder kind → (c Q).head? = some b) ∧
      queueOut g s b = s) := by
  have hnum : s.queueIndex b = Q.num := (h.mem_iff Q b).1 hb
  have hne : s.queueIndex b ≠ -1 := hnum ▸ Q.num_ne_neg_one
  cases Q with
  | new t =>
    rw [queueOut, hnum, diQueType2New_new]
    dsimp only
    rcases h.diQueOut_spec (t := t) (b := b) with ⟨-, hhead, hneg, hs⟩ | ⟨-, hhead, hs⟩
    · exact .inl ⟨hneg, fun _ => hhead, hs⟩
    · exact .inr ⟨by rw [hs]; exact hne, fun hin => hhead (hin trivial), hs⟩
  | old q =>
    rw [queueOut, hnum, diQueType2New_old, oldQueue_old]
    dsimp only
    cases hx : (s.queue q).remove b with
    | none =>
      refine .inr ⟨hne, fun hin => ?_, rfl⟩
      have hsome := (h.old q).remove_isSome hb (h.kinds q ▸ hin)
      rw [hx] at hsome
      cases hsome
    | some x =>
      obtain ⟨-, -, -, hhead⟩ := (h.old q).remove (h.length_lt _) hx
      exact .inl ⟨update_self .., fun hin => hhead ((h.kinds q).trans hin), h.eraseOld hx⟩

end

/-- A buffer that is in no queue stays where it is. -/
theorem queueOut_of_neg_one (g : ℕ) (hb : s.queueIndex b = -1) : queueOut g s b = s := by
  rw [queueOut, hb, diQueType2New_neg_one, oldQueue_neg_one]

theorem step (h : Refines kind g s c) (call : Call)
    (hcall : ∀ b, call.inserted = some b → s.queueIndex b = -1) :
    Refines kind g (step g s call) (c.apply (event g s call)) ∧
      (event g s call).FromHead kind c := by
  cases call with
  | queueIn b Q =>
    rw [DiMulti.step, event]
    rcases h.queueIn_spec (hcall b rfl) Q with ⟨hnum, hs⟩ | ⟨hnum, hs⟩
    · rw [if_pos hnum]
      exact ⟨hs, trivial⟩
    · rw [if_neg hnum, hs]
      exact ⟨h, trivial⟩
  | queueOut b =>
    rw [DiMulti.step, event]
    -- a buffer that is in no queue, or in one that the call may refuse
    rcases h.named b with hneg | ⟨Q, hQ⟩
    · rw [hneg, ofNum_neg_one, queueOut_of_neg_one g hneg]
      exact ⟨h, trivial⟩
    rw [hQ, ofNum_num]
    dsimp only
    rcases h.queueOut_spec ((h.mem_iff Q b).2 hQ) with ⟨hneg, hhead, hs⟩ | ⟨hneg, -, hs⟩
    · rw [if_pos hneg]
      exact ⟨hs, hhead⟩
    · rw [if_neg hneg, hs]
      exact ⟨h, trivial⟩
  | diQueIn t b =>
    rw [DiMulti.step, event]
    rcases h.diQueIn_spec (t := t) (hcall b rfl) with ⟨hret, -, hs⟩ | ⟨hret, hs⟩
    · rw [if_pos hret]
      exact ⟨hs, trivial⟩
    · rw [hret, hs]
      exact ⟨h, trivial⟩
  | diQueOut t b =>
    rw [DiMulti.step, event]
    rcases h.diQueOut_spec (t := t) (b := b) with ⟨hret, hhead, -, hs⟩ | ⟨hret, -, hs⟩
    · rw [if_pos hret]
      exact ⟨hs, fun _ => hhead⟩
    · rw [hret, hs]
      exact ⟨h, trivial⟩
  | diQueOutToDiBuf t =>
    rw [DiMulti.step, event]
    obtain ⟨hret, hs⟩ := h.diQueOutToDiBuf_spec (t := t)
    rw [hret]
    cases hhead : (c (.new t)).head? with
    | none =>
      rw [hhead] at hs
      rw [hs]
      exact ⟨h, trivial⟩
    | some b =>
      rw [hhead] at hs
      exact ⟨hs, fun _ => hhead⟩
  | diQueOutNotFifo t b =>
    rw [DiMulti.step, event]
    rcases h.diQueOutNotFifo_spec (t := t) (b := b) with ⟨hret, hs⟩ | ⟨hret, hs⟩
    · rw [if_pos hret]
      exact ⟨hs, trivial⟩
    · rw [hret]
      exact ⟨hs, trivial⟩

end Refines

/-! ## Runs -/

/-- How often the buffer occurs in the queue: in its slots, or as the low half of its words. -/
def occurrences (s : Channel) (b : DiBuf) : QueueIdx → ℕ
  | .old q => ((List.range maxQueuePoolSize).map (s.queue q).pool).count b.code
  | .new t => ((s.fifo t).map (· % 2 ^ 16)).count b.code

/-- The buffers of a ring or a fifo, from the head on. -/
def contents (s : Channel) : QueueIdx → List DiBuf
  | .old q =>
    (Ring.window maxQueuePoolSize (s.queue q).pool (s.queue q).outIdx (s.queue q).num).filterMap
      DiBuf.ofCode
  | .new t => (s.fifo t).filterMap DiBuf.ofCode

/-- The buffers that were inserted in each queue and those that it handed out, in this order. -/
structure Log where
  inserted : QueueIdx → List DiBuf
  handed : QueueIdx → List DiBuf

def Log.note (l : Log) : Event → Log
  | .insert Q b => { l with inserted := update l.inserted Q (l.inserted Q ++ [b]) }
  | .handOut Q b => { l with handed := update l.handed Q (l.handed Q ++ [b]) }
  | _ => l

/-- The states of a channel, with a log. A buffer is only inserted while it is in no queue, and the
    words of the fifos all have the bits `g`. -/
inductive Reach (kind : QueueId → QueueKind) (g : ℕ) : Channel → Log → Prop
  | init : Reach kind g (Channel.init kind) ⟨fun _ => [], fun _ => []⟩
  | step {s : Channel} {l : Log} (call : Call) : Reach kind g s l →
      (∀ b, call.inserted = some b → ∀ Q, occurrences s b Q = 0) →
      Reach kind g (step g s call) (l.note (event g s call))

variable {l : Log}

namespace Refines

theorem occurrences_eq (h : Refines kind g s c) (b : DiBuf) (Q : QueueIdx) :
    occurrences s b Q = if s.queueIndex b = Q.num then 1 else 0 := by
  have hcount : (c Q).count b = if s.queueIndex b = Q.num then 1 else 0 := by
    rw [(h.nodup Q).count]
    exact if_congr (h.mem_iff Q b) rfl rfl
  rw [← hcount]
  cases Q with
  | old q =>
    have hperm := ((h.old q).cells).count_eq b.code
    rw [count_map_of_injective _ _ DiBuf.code_injective, Queue.cells, count_filter] at hperm
    · exact hperm
    · exact decide_eq_true b.code_ne_zero
  | new t =>
    have hlow : (s.fifo t).map (· % 2 ^ 16) = (c (.new t)).map DiBuf.code := by
      rw [h.new, List.map_map]
      refine map_congr_left fun x _ => ?_
      have := x.code_lt
      rw [comp_apply, pwBuf2Qindex]
      omega
    rw [occurrences, hlow, count_map_of_injective _ _ DiBuf.code_injective]

theorem contents_eq (h : Refines kind g s c) (hQ : Q.InOrder kind) : contents s Q = c Q := by
  have hof : DiBuf.ofCode ∘ DiBuf.code = some := funext DiBuf.ofCode_code
  have hword : DiBuf.ofCode ∘ pwBuf2Qindex g = some := funext (DiBuf.ofCode_pwBuf2Qindex g)
  cases Q with
  | old q =>
    rw [contents, (h.old q).num, maxQueuePoolSize,
      ((h.old q).ring ((h.kinds q).trans hQ)).window, filterMap_map, hof, filterMap_some]
  | new t => rw [contents, h.new, filterMap_map, hword, filterMap_some]

end Refines

/-- The channel holds contents whose order is that of the log. -/
theorem exists_refines (h : Reach kind g s l) : ∃ c, Refines kind g s c ∧
    ∀ Q, Q.InOrder kind → (l.handed Q ++ c Q).Sublist (l.inserted Q) := by
  induction h with
  | init => exact ⟨fun _ => [], .init kind g, fun _ _ => .refl []⟩
  | @step s l call _ hcall ih =>
    obtain ⟨c, hc, horder⟩ := ih
    -- what is inserted is in no queue
    have hfree : ∀ b, call.inserted = some b → s.queueIndex b = -1 := by
      intro b hb
      rcases hc.named b with hneg | ⟨Q, hQ⟩
      · exact hneg
      · have := hc.occurrences_eq b Q
        rw [if_pos hQ, hcall b hb Q] at this
        cases this
    obtain ⟨hs, hhead⟩ := hc.step call hfree
    refine ⟨_, hs, fun Q hQ => ?_⟩
    have hQlog := horder Q hQ
    cases hevent : event g s call with
    | nothing => exact hQlog
    | insert Q' b =>
      change (l.handed Q ++ c.insert Q' b Q).Sublist (update l.inserted Q' _ Q)
      rcases eq_or_ne Q Q' with rfl | hne
      · rw [Contents.insert_self, update_self, ← append_assoc]
        exact hQlog.append (.refl [b])
      · rw [c.insert_of_ne b hne, update_of_ne hne]
        exact hQlog
    | handOut Q' b =>
      change (update l.handed Q' _ Q ++ c.erase Q' b Q).Sublist (l.inserted Q)
      rcases eq_or_ne Q Q' with rfl | hne
      · -- what is handed out was the first of its queue
        rw [hevent] at hhead
        obtain ⟨rest, hrest⟩ := head?_eq_some_iff.1 (hhead hQ)
        rw [Contents.erase_self, update_self, hrest, erase_cons_head,
          append_assoc, singleton_append, ← hrest]
        exact hQlog
      · rw [c.erase_of_ne b hne, update_of_ne hne]
        exact hQlog
    | pick Q' b =>
      change (l.handed Q ++ c.erase Q' b Q).Sublist (l.inserted Q)
      refine .trans (.append_left ?_ _) hQlog
      rcases eq_or_ne Q Q' with rfl | hne
      · rw [Contents.erase_self]
        exact erase_sublist
      · rw [c.erase_of_ne b hne]

/-- The `queue_index` tells whether a buffer may be inserted. -/
theorem Reach.step_of_free (call : Call) (h : Reach kind g s l)
    (hfree : ∀ b, call.inserted = some b → s.queueIndex b = -1) :
    Reach kind g (DiMulti.step g s call) (l.note (event g s call)) := by
  obtain ⟨c, hc, -⟩ := exists_refines h
  refine .step call h fun b hb Q => ?_
  rw [hc.occurrences_eq, hfree b hb, if_neg fun heq => Q.num_ne_neg_one heq.symm]

/-! ## The queues -/

/-- The buffer is the head of the queue, and each way to take the head out does so. -/
structure HeadLeaves (g : ℕ) (s : Channel) (Q : QueueIdx) (b : DiBuf) : Prop where
  head : getDiBufHead s Q = some b
  held : s.queueIndex b = Q.num
  queueIndex : (queueOut g s b).queueIndex b = -1
  gone : ∀ Q', occurrences (queueOut g s b) b Q' = 0
  diQueOut : ∀ t, Q = .new t → diQueOut g s t b = (queueOut g s b, true)
  diQueOutToDiBuf : ∀ t, Q = .new t → diQueOutToDiBuf s t = (queueOut g s b, some b)
  diQueOutNotFifo : ∀ t, Q = .new t → diQueOutNotFifo g s t b = (queueOut g s b, true)

/-- What holds of the queues in each state of a run. -/
structure Sound (kind : QueueId → QueueKind) (g : ℕ) (s : Channel) (l : Log) : Prop where
  once : ∀ b (Q : QueueIdx), occurrences s b Q = if s.queueIndex b = Q.num then 1 else 0
  named : ∀ b, s.queueIndex b = -1 ∨ ∃ Q : QueueIdx, s.queueIndex b = Q.num
  num : ∀ q, (s.queue q).num = (List.range maxQueuePoolSize).countP fun i => (s.queue q).pool i ≠ 0
  order : ∀ Q : QueueIdx, Q.InOrder kind → (l.handed Q ++ contents s Q).Sublist (l.inserted Q) ∧
      getDiBufHead s Q = (contents s Q).head?
  head : ∀ b Q, occurrences s b Q ≠ 0 → ∃ b', HeadLeaves g s Q b'
  isInQueue : ∀ b (Q : QueueIdx), isInQueue g s b Q ↔ s.queueIndex b = Q.num

namespace Refines

variable (h : Refines kind g s c)
include h

theorem num_eq (q : QueueId) : (s.queue q).num =
    (range maxQueuePoolSize).countP fun i => (s.queue q).pool i ≠ 0 := by
  have hlen := (h.old q).cells.length_eq
  rw [length_map, ← (h.old q).num, Queue.cells, ← countP_eq_length_filter, countP_map] at hlen
  exact hlen.symm

theorem isInQueue_iff (b : DiBuf) (Q : QueueIdx) : isInQueue g s b Q ↔ s.queueIndex b = Q.num := by
  rw [← h.mem_iff]
  cases Q with
  | old q => exact (h.old q).inQueueLoop_iff (h.length_lt _)
  | new t => exact decide_eq_true_iff.trans h.mem_fifo

/-- The head is a buffer of the queue, in a ring and a fifo the first one. -/
theorem exists_head (hQ : c Q ≠ []) : ∃ b ∈ c Q,
    getDiBufHead s Q = some b ∧ (Q.InOrder kind → (c Q).head? = some b) := by
  cases Q with
  | old q =>
    obtain ⟨i, b, hslot, hv, hb, hhead⟩ := (h.old q).headSlot hQ
    refine ⟨b, hb, ?_, fun hin => hhead ((h.kinds q).trans hin)⟩
    rw [getDiBufHead, hslot, bind_some, hv, DiBuf.ofCode_code]
  | new t =>
    obtain ⟨b, rest, hc⟩ := exists_cons_of_ne_nil hQ
    refine ⟨b, hc ▸ mem_cons_self, ?_, fun _ => hc ▸ rfl⟩
    rw [getDiBufHead, diQuePeek, h.new, hc, map_cons]
    exact DiBuf.ofCode_pwBuf2Qindex g b

theorem getDiBufHead_of_nil (hQ : c Q = []) : getDiBufHead s Q = none := by
  cases Q with
  | old q =>
    have hnum : (s.queue q).num = 0 := by
      rw [(h.old q).num, hQ]
      rfl
    rw [getDiBufHead, Queue.headSlot, if_pos hnum]
    rfl
  | new t =>
    rw [getDiBufHead, diQuePeek, h.new, hQ]
    rfl

theorem getDiBufHead_eq (hQ : Q.InOrder kind) : getDiBufHead s Q = (c Q).head? := by
  by_cases hnil : c Q = []
  · rw [h.getDiBufHead_of_nil hnil, hnil]
    rfl
  · obtain ⟨b, -, hget, hhead⟩ := h.exists_head hnil
    rw [hget, hhead hQ]

/-- The ways to take the head out of a fifo agree. -/
theorem fifo_out (hb : (c (.new t)).head? = some b) :
    DiMulti.diQueOut g s t b = (queueOut g s b, true) ∧
      DiMulti.diQueOutToDiBuf s t = (queueOut g s b, some b) ∧
      DiMulti.diQueOutNotFifo g s t b = (queueOut g s b, true) := by
  obtain ⟨rest, hc⟩ := head?_eq_some_iff.1 hb
  have hnum : s.queueIndex b = (QueueIdx.new t).num := (h.mem_iff (.new t) b).1 (hc ▸ mem_cons_self)
  have hfifo : s.fifo t = pwBuf2Qindex g b :: rest.map (pwBuf2Qindex g) := by
    rw [h.new, hc, map_cons]
  have hout : DiMulti.diQueOut g s t b =
      ((s.setFifo t (rest.map (pwBuf2Qindex g))).setIndex b (-1), true) := by
    rw [DiMulti.diQueOut, hfifo]
    exact if_neg (not_not.2 rfl)
  have hqueueOut : queueOut g s b = (s.setFifo t (rest.map (pwBuf2Qindex g))).setIndex b (-1) := by
    rw [queueOut, hnum, diQueType2New_new]
    exact congrArg Prod.fst hout
  refine ⟨hout.trans (by rw [hqueueOut]), ?_, ?_⟩
  · rw [DiMulti.diQueOutToDiBuf, hfifo, hqueueOut]
    dsimp only
    rw [DiBuf.ofCode_pwBuf2Qindex]
  have hrebuilt := h.requeue t b
  rw [hc, erase_cons_head, hfifo] at hrebuilt
  rw [DiMulti.diQueOutNotFifo, hfifo, hqueueOut]
  dsimp only
  rw [if_pos mem_cons_self, hrebuilt]

theorem headLeaves (hQ : c Q ≠ []) : ∃ b, HeadLeaves g s Q b := by
  obtain ⟨b, hb, hget, hhead⟩ := h.exists_head hQ
  rcases h.queueOut_spec hb with ⟨hneg, -, hs⟩ | ⟨-, hno, -⟩
  · refine ⟨b, hget, (h.mem_iff Q b).1 hb, hneg, fun Q' => ?_, ?_, ?_, ?_⟩
    · rw [hs.occurrences_eq, hneg, if_neg fun heq => Q'.num_ne_neg_one heq.symm]
    · rintro t rfl
      exact (h.fifo_out (hhead trivial)).1
    · rintro t rfl
      exact (h.fifo_out (hhead trivial)).2.1
    · rintro t rfl
      exact (h.fifo_out (hhead trivial)).2.2
  · exact absurd hhead hno

end Refines

/-- In every run with the same unset bits, the queues are sound in each state. -/
theorem queues_in_order (h : Reach kind g s l) : Sound kind g s l := by
  obtain ⟨c, hc, horder⟩ := exists_refines h
  refine ⟨hc.occurrences_eq, hc.named, hc.num_eq, fun Q hQ => ?_, fun b Q hocc => ?_,
    hc.isInQueue_iff⟩
  · rw [hc.contents_eq hQ]
    exact ⟨horder Q hQ, hc.getDiBufHead_eq hQ⟩
  refine hc.headLeaves fun hnil => hocc ?_
  rw [hc.occurrences_eq, if_neg]
  rw [← hc.mem_iff, hnil]
  exact not_mem_nil

/-- A buffer of the local type. -/
def localBuf (i : Fin 10) : DiBuf := ⟨.typeLocal, i⟩

/-- Two buffers are put in a fifo and the first one goes out again. -/
theorem queues_in_order_two : ∃ s l, Reach (fun _ => .fifo) 0 s l ∧
    l.inserted (.new .preReady) = [localBuf 0, localBuf 1] ∧
    l.handed (.new .preReady) = [localBuf 0] ∧
    contents s (.new .preReady) = [localBuf 1] ∧ Sound (fun _ => .fifo) 0 s l := by
  have h0 : Reach (fun _ => .fifo) 0 _ _ := Reach.init
  have h1 := Reach.step_of_free (.diQueIn .preReady (localBuf 0)) h0 (by
    rintro _ ⟨rfl⟩
    rfl)
  have h2 := Reach.step_of_free (.diQueIn .preReady (localBuf 1)) h1 (by
    rintro _ ⟨rfl⟩
    rfl)
  have h3 := Reach.step (.queueOut (localBuf 0)) h2 nofun
  exact ⟨_, _, h3, by decide +kernel, by decide +kernel, by decide +kernel, queues_in_order h3⟩

/-- The word of a buffer is put in a fifo. When it is made again with other unset bits, the head of
    the fifo is not found and not taken out. -/
theorem head_refused : ∃ s : Channel,
    s = step 0 (Channel.init fun _ => .fifo) (.diQueIn .preReady (localBuf 0)) ∧
    getDiBufHead s (.new .preReady) = some (localBuf 0) ∧
    (diQueOut 1 s .preReady (localBuf 0)).2 = false ∧
    (queueOut 1 s (localBuf 0)).queueIndex (localBuf 0) ≠ -1 ∧
    isInQueue 1 s (localBuf 0) (.new .preReady) = false := by
  refine ⟨_, rfl, ?_, ?_, ?_, ?_⟩ <;> decide +kernel

end CommonDrivers.DiMulti
