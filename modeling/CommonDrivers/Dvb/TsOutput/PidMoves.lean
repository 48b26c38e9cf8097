import CommonDrivers.Dvb.TsOutput.PidLists

/-!
# Another stream for a demux

When a demux gets another stream, each slot of its recordings is taken out of the hardware, a slot
in the range of the new stream id is looked for, linked behind the new ones that are there already,
and the old slot is freed. Where there is `room` for all PIDs beforehand (`Placed`), the search
never fails, and the lists are in order afterwards.

* `Placed.step`: one slot takes at most one place of another PID, and a row of its own PID;
* `Slots.moveSlot`: what one step of the loop keeps;
* `Slots.updateFilter`: the recordings of the demux, one after the other.
-/

namespace CommonDrivers.PidFilter

open List Function

namespace Output

variable {s s' : Output} {sid e f i j k : ℕ} {pid q : Pid} {owner : ℕ → Option ℕ} {l : List ℕ}

/-! ## Room -/

theorem countP_le_add {α : Type*} {l m : List α} {p q : α → Bool} (hl : l.Nodup)
    (h : ∀ a ∈ l, p a = true → q a = true ∨ a ∈ m) : l.countP p ≤ l.countP q + m.length := by
  classical
  rw [countP_eq_length_filter, countP_eq_length_filter, ← length_append]
  refine ((hl.filter p).subperm fun a ha => ?_).length_le
  obtain ⟨hmem, hp⟩ := mem_filter.1 ha
  rw [mem_append, mem_filter]
  exact (h a hmem hp).imp (fun hq => ⟨hmem, hq⟩) id

theorem nodup_slotsOf (s : Output) (sid : ℕ) : (s.slotsOf sid).Nodup := nodup_range'

/-- The ranges are the same, and the places that are lost are in `m`. -/
theorem room_le {m : List ℕ} (hsid : s'.sidTable = s.sidTable)
    (hcur : s'.curSidPidIndex = s.curSidPidIndex) (hmax : s'.maxPidNumPerSid = s.maxPidNumPerSid)
    (hfree : ∀ i, s.isFree pid i = true → s'.isFree pid i = true ∨ i ∈ m) :
    s.room sid pid ≤ s'.room sid pid + m.length := by
  have hok : (s'.initSidPid sid).2 = (s.initSidPid sid).2 := by
    rw [initSidPid, initSidPid, hsid, hcur, hmax]
    split_ifs <;> rfl
  have hslots : (s'.initSidPid sid).1.slotsOf sid = (s.initSidPid sid).1.slotsOf sid := by
    rw [initSidPid, initSidPid, hsid, hcur, hmax]
    split_ifs
    · rw [slotsOf, slotsOf, hsid]
    · rw [slotsOf, slotsOf, hsid]
    · rw [slotsOf, slotsOf, hsid]
    · rfl
  rw [room, room, hok, hslots]
  split_ifs
  · exact countP_le_add (nodup_slotsOf _ sid) fun i _ hi => hfree i hi
  · exact Nat.zero_le _

/-- A range that is there is looked for again. -/
theorem room_initSidPid (s : Output) (sid : ℕ) (pid : Pid) :
    (s.initSidPid sid).1.room sid pid = s.room sid pid := by
  have htwice : (s.initSidPid sid).1.initSidPid sid =
      ((s.initSidPid sid).1, (s.initSidPid sid).2) := by
    rcases s.initSidPid_cases sid with heq | ⟨heq, -⟩ | ⟨-, -, heq⟩
    · rw [heq, heq]
    · rw [heq, heq]
    have hsid : ¬ maxSidNum ≤ sid := by
      intro hsid
      rw [initSidPid, if_pos hsid] at heq
      cases congrArg Prod.snd heq
    rw [heq, initSidPid, if_neg hsid, if_pos]
    dsimp only
    rw [update_self]
  rw [room, htwice, room, isFree_congr (sameTable_initSidPid s sid).pidTable]

/-- The slots of the row. -/
def row (i : ℕ) : List ℕ := List.range' (i / 4 * 4) 4

/-- The places that a slot takes: its own, and its row for its PID. -/
theorem room_le_setSlot (s : Output) (i : ℕ) (y : Slot) (sid : ℕ) (pid : Pid) :
    s.room sid pid ≤ (s.setSlot i y).room sid pid + if pid = y.pid then 4 else 1 := by
  have hfree : ∀ j, s.isFree pid j = true → j ≠ i → (pid = y.pid → j / 4 ≠ i / 4) →
      (s.setSlot i y).isFree pid j = true := by
    intro j hj hne hrow
    obtain ⟨hunused, hpid⟩ := isFree_iff.1 hj
    refine isFree_iff.2 ⟨?_, fun k hk => ?_⟩
    · rw [pidTable_setSlot_of_ne s y hne]
      exact hunused
    by_cases hki : k = i
    · subst hki
      rw [pidTable_setSlot]
      exact fun _ heq => hrow heq.symm hk.symm
    · rw [pidTable_setSlot_of_ne s y hki]
      exact hpid k hk
  split_ifs with hpid
  · refine room_le (m := row i) rfl rfl rfl fun j hj => ?_
    by_cases hrow : j / 4 = i / 4
    · exact .inr (mem_range'_1.2 (by omega))
    · refine .inl (hfree j hj ?_ fun _ => hrow)
      rintro rfl
      exact hrow rfl
  · refine room_le (m := [i]) rfl rfl rfl fun j hj => ?_
    by_cases hji : j = i
    · exact .inr (mem_singleton.2 hji)
    · exact .inl (hfree j hj hji fun heq => absurd heq hpid)

/-- No place is lost where slots are freed, or change their links. -/
theorem room_mono (hsid : s'.sidTable = s.sidTable)
    (hcur : s'.curSidPidIndex = s.curSidPidIndex) (hmax : s'.maxPidNumPerSid = s.maxPidNumPerSid)
    (hslot : ∀ i, (s'.pidTable i).used = true →
      (s.pidTable i).used = true ∧ (s'.pidTable i).pid = (s.pidTable i).pid) :
    s.room sid pid ≤ s'.room sid pid := by
  refine room_le (m := []) hsid hcur hmax fun i hi => .inl ?_
  obtain ⟨hunused, hpid⟩ := isFree_iff.1 hi
  refine isFree_iff.2 ⟨?_, fun j hj hused => ?_⟩
  · by_contra hused
    rw [(hslot i (eq_true_of_ne_false hused)).1] at hunused
    cases hunused
  · rw [(hslot j hused).2]
    exact hpid j hj (hslot j hused).1

/-- There is room for the PIDs, in whichever order they come. -/
def Placed (r : Pid → ℕ) (l : List Pid) : Prop :=
  ∀ pid ∈ l, l.length + 3 * (l.count pid - 1) ≤ r pid

theorem Placed.pos {r : Pid → ℕ} {l : List Pid} (h : Placed r (q :: l)) : 0 < r q := by
  have := h q mem_cons_self
  rw [length_cons] at this
  omega

theorem Placed.step {r r' : Pid → ℕ} {l : List Pid} (h : Placed r (q :: l))
    (hr : ∀ pid, r pid ≤ r' pid + if pid = q then 4 else 1) : Placed r' l := by
  intro pid hpid
  have hle := h pid (mem_cons_of_mem q hpid)
  have hlt := hr pid
  have hcount := count_pos_iff.2 hpid
  rw [length_cons, count_cons] at hle
  by_cases hq : pid = q
  · subst hq
    rw [if_pos BEq.rfl] at hle
    rw [if_pos rfl] at hlt
    omega
  · rw [if_neg hq] at hlt
    omega

/-! ## The loop over the slots -/

theorem initSidPid_turnOff (s : Output) (i sid : ℕ) :
    (s.turnOff i).initSidPid sid = ((s.initSidPid sid).1.turnOff i, (s.initSidPid sid).2) := by
  have hsid : (s.turnOff i).sidTable = s.sidTable := rfl
  have hcur : (s.turnOff i).curSidPidIndex = s.curSidPidIndex := rfl
  have hmax : (s.turnOff i).maxPidNumPerSid = s.maxPidNumPerSid := rfl
  rw [initSidPid, initSidPid, hsid, hcur, hmax]
  by_cases h : maxSidNum ≤ sid
  · rw [if_pos h, if_pos h]
  rw [if_neg h, if_neg h]
  by_cases h : (s.sidTable sid).used = true
  · rw [if_pos h, if_pos h]
  split_ifs <;> rfl

theorem malloc_turnOff (s : Output) (i sid : ℕ) (pid : Pid) :
    (s.turnOff i).mallocPidEntrySlot sid pid =
      ((s.mallocPidEntrySlot sid pid).1.turnOff i, (s.mallocPidEntrySlot sid pid).2) := by
  rw [mallocPidEntrySlot, initSidPid_turnOff, mallocPidEntrySlot]
  split_ifs <;> rfl

/-- The element `e` is under way: `ns` has its new slots, and `os` the old ones. -/
structure Moving (e : ℕ) (y : Elem) (ns os : List ℕ) (m : Move) (owner : ℕ → Option ℕ) : Prop where
  slots : Slots (some e) m.out owner
  elem : m.out.outElem e = y
  used : y.used = true
  old : Linked m.out.pnext os.head? os
  new : Linked m.out.pnext m.head ns
  prev : m.prev = ns.getLast?
  nodup : (ns ++ os).Nodup
  mem : ∀ i, i ∈ ns ++ os ↔ owner i = some e
  inRange : ∀ i ∈ ns, m.out.InRange y.sid i

/-- The state after a move of the slot `i` to the place `k`, in another order: the new slot is there
    before the old one is taken out of the hardware. -/
def movedTo (s : Output) (e i k : ℕ) (prev : Option ℕ) : Output :=
  let x := { s.pidTable i with used := true, pnext := none }
  (((((s.setSlot k x).turnOn k e).linkBehind prev k).turnOff i).freePidEntrySlot i)

theorem turnOff_comm (s : Output) (hik : i ≠ k) (hw : Option HwPid) :
    update (update s.hw i none) k hw = update (update s.hw k hw) i none :=
  update_comm hik none hw s.hw

theorem moveSlot_eq {m : Move} {t : Output}
    (heq : m.out.mallocPidEntrySlot (m.out.outElem e).sid (m.out.pidTable i).pid = (t, some k))
    (hik : i ≠ k) (hprev : m.prev ≠ some k) (hhead : m.head = none ↔ m.prev = none) :
    moveSlot e i m = (⟨t.movedTo e i k m.prev, m.head.or (some k), some k⟩, false) := by
  obtain ⟨out, head, prev⟩ := m
  rw [moveSlot, malloc_turnOff, heq]
  dsimp only
  rw [movedTo, Move.append]
  cases prev with
  | none =>
    obtain rfl := hhead.2 rfl
    simp only [turnOn, turnOff, freePidEntrySlot, setSlot, linkBehind, bufferId, turnOff_comm _ hik]
    rfl
  | some j =>
    have hjk : k ≠ j := fun h => hprev (congrArg some h.symm)
    cases head with
    | none => cases hhead.1 rfl
    | some h =>
      simp only [turnOn, turnOff, freePidEntrySlot, setSlot, linkBehind, bufferId,
        turnOff_comm _ hik, update_of_ne hjk]
      rfl

section MovedTo

variable {prev : Option ℕ}

theorem Slots.movedTo (hs : Slots (some e) s owner) (hused : (s.outElem e).used = true)
    (hfree : s.isFree (s.pidTable i).pid k = true) (hi : owner i = some e)
    (hprev : ∀ j, prev = some j → owner j = some e) : Slots (some e) (s.movedTo e i k prev)
      (update (update owner k (some e)) i none) := by
  have howned : ∀ j, owner j = some e → update owner k (some e) j = some e := by
    intro j hj
    rw [update_apply]
    split_ifs
    · rfl
    · exact hj
  have htake := hs.take (y := { s.pidTable i with used := true, pnext := none }) hused hfree rfl
  refine Slots.give ?_ (howned i hi)
  cases prev with
  | none => exact htake
  | some j => exact htake.relink rfl rfl rfl (.inr (howned j (hprev j rfl)))

theorem outElem_movedTo (s : Output) (e i k : ℕ) (prev : Option ℕ) :
    (s.movedTo e i k prev).outElem = s.outElem := by
  cases prev <;> rfl

theorem inRange_movedTo (s : Output) (e i k : ℕ) (prev : Option ℕ) :
    (s.movedTo e i k prev).InRange = s.InRange := by
  cases prev <;> rfl

theorem pidTable_movedTo (s : Output) (hi : j ≠ i) (hk : j ≠ k) (hprev : prev ≠ some j) :
    (s.movedTo e i k prev).pidTable j = s.pidTable j := by
  rw [movedTo, freePidEntrySlot, pidTable_setSlot_of_ne _ _ hi]
  cases prev with
  | none => exact pidTable_setSlot_of_ne _ _ hk
  | some h =>
    have hj : j ≠ h := fun heq => hprev (congrArg some heq.symm)
    exact (pidTable_setSlot_of_ne _ _ hj).trans (pidTable_setSlot_of_ne _ _ hk)

/-- The link of the old slot stays as it is. -/
theorem pnext_movedTo_old (s : Output) (hik : i ≠ k) (hprev : prev ≠ some i) :
    (s.movedTo e i k prev).pnext i = s.pnext i := by
  rw [movedTo, pnext_give]
  cases prev with
  | none => exact congrArg Slot.pnext (pidTable_setSlot_of_ne _ _ hik)
  | some j =>
    have hj : i ≠ j := fun heq => hprev (congrArg some heq.symm)
    exact congrArg Slot.pnext
      ((pidTable_setSlot_of_ne _ _ hj).trans (pidTable_setSlot_of_ne _ _ hik))

theorem pnext_movedTo_new (s : Output) (hprev : prev ≠ some k) :
    (s.movedTo e i k prev).pnext k = none := by
  rw [movedTo, pnext_give]
  cases prev with
  | none => exact congrArg Slot.pnext (pidTable_setSlot s k _)
  | some j =>
    have hj : k ≠ j := fun heq => hprev (congrArg some heq.symm)
    exact congrArg Slot.pnext ((pidTable_setSlot_of_ne _ _ hj).trans (pidTable_setSlot s k _))

theorem pnext_movedTo_prev (s : Output) (e i j k : ℕ) :
    (s.movedTo e i k (some j)).pnext j = some k := by
  rw [movedTo, pnext_give]
  exact congrArg Slot.pnext (pidTable_setSlot _ j _)

theorem room_movedTo (s : Output) (e i k : ℕ) (prev : Option ℕ) (sid : ℕ) (pid : Pid) :
    s.room sid pid ≤
      (s.movedTo e i k prev).room sid pid + if pid = (s.pidTable i).pid then 4 else 1 := by
  refine (room_le_setSlot s k { s.pidTable i with used := true, pnext := none } sid pid).trans ?_
  refine Nat.add_le_add_right ?_ _
  have hlink : ∀ t : Output, t.room sid pid ≤ (t.linkBehind prev k).room sid pid := fun t => by
    cases prev with
    | none => exact le_rfl
    | some j =>
      refine room_mono rfl rfl rfl fun a hused => ?_
      rw [linkBehind] at hused ⊢
      by_cases ha : a = j
      · subst ha
        rw [pidTable_setSlot] at hused ⊢
        exact ⟨hused, rfl⟩
      · rw [pidTable_setSlot_of_ne _ _ ha] at hused ⊢
        exact ⟨hused, rfl⟩
  have hfree : ∀ t : Output, t.room sid pid ≤ ((t.turnOff i).freePidEntrySlot i).room sid pid :=
    fun t => by
      refine room_mono rfl rfl rfl fun a hused => ?_
      rw [freePidEntrySlot] at hused ⊢
      by_cases ha : a = i
      · subst ha
        rw [pidTable_setSlot] at hused
        cases hused
      · rw [pidTable_setSlot_of_ne _ _ ha] at hused ⊢
        exact ⟨hused, rfl⟩
  have hon : ∀ t : Output, t.room sid pid ≤ (t.turnOn k e).room sid pid := fun t =>
    room_mono rfl rfl rfl fun _ hused => ⟨hused, rfl⟩
  exact ((hon _).trans (hlink _)).trans (hfree _)

end MovedTo

variable {y : Elem} {m : Move} {ns os : List ℕ} {owner' : ℕ → Option ℕ} {rest : List Pid}
  {es : List ℕ}

theorem Moving.of_sameTable (hm : Moving e y ns os m owner) (hsame : SameTable m.out s)
    (hranges : Ranges s) : Moving e y ns os { m with out := s } owner := by
  have hnext : s.pnext = m.out.pnext := by
    funext j
    rw [pnext, pnext, hsame.pidTable]
  refine ⟨hm.slots.of_sameTable hsame hranges, ?_, hm.used, ?_, ?_, hm.prev, hm.nodup, hm.mem,
    fun j hj => hsame.inRange _ j (hm.inRange j hj)⟩
  · exact (congrFun hsame.outElem e).trans hm.elem
  · exact hnext ▸ hm.old
  · exact hnext ▸ hm.new

theorem Moving.not_mem (hm : Moving e y ns (i :: os) m owner) : i ∉ ns ++ os :=
  (nodup_cons.1 (nodup_middle.1 hm.nodup)).1

theorem Moving.prev_mem (hm : Moving e y ns os m owner) (hj : m.prev = some j) : j ∈ ns :=
  mem_of_getLast? (hm.prev ▸ hj)

/-- The new slots, with the one that has come. -/
theorem Moving.linked_new (hm : Moving e y ns (i :: os) m owner) (hk : k ∉ ns ++ i :: os) :
    Linked (m.out.movedTo e i k m.prev).pnext (m.head.or (some k)) (ns ++ [k]) := by
  have hkprev : m.prev ≠ some k := fun h => hk (mem_append_left _ (hm.prev_mem h))
  have hlast := pnext_movedTo_new m.out (e := e) (i := i) hkprev
  have hnew := hm.new
  have hprev := hm.prev
  rcases eq_nil_or_concat ns with rfl | ⟨ns, j, rfl⟩
  · rw [hnew.head]
    exact ⟨rfl, hlast⟩
  rw [concat_eq_append] at *
  rw [getLast?_concat] at hprev
  have hhead : m.head.or (some k) = m.head := by
    rw [hnew.head]
    cases ns <;> rfl
  rw [hhead, append_assoc, singleton_append]
  refine hnew.relink (fun a ha => ?_) ?_
  · -- the others keep their links
    have hnodup := hm.nodup
    rw [append_assoc, singleton_append] at hnodup
    have haj : a ≠ j := by
      rintro rfl
      refine (nodup_cons.1 (nodup_middle.1 hnodup)).1 ?_
      exact mem_append_left _ ha
    have hai : a ≠ i := by
      rintro rfl
      exact hm.not_mem (mem_append_left _ (mem_append_left _ ha))
    have hak : a ≠ k := by
      rintro rfl
      exact hk (mem_append_left _ (mem_append_left _ ha))
    refine congrArg Slot.pnext (pidTable_movedTo m.out hai hak ?_)
    rw [hprev]
    exact fun h => haj (Option.some.inj h).symm
  · rw [hprev] at hlast ⊢
    rw [pnext_movedTo_prev]
    exact ⟨rfl, hlast⟩

theorem Moving.movedTo (hm : Moving e y ns (i :: os) m owner) (hrange : m.out.InRange y.sid k)
    (hfree : m.out.isFree (m.out.pidTable i).pid k = true) :
    Moving e y (ns ++ [k]) os ⟨m.out.movedTo e i k m.prev, m.head.or (some k), some k⟩
      (update (update owner k (some e)) i none) := by
  have hknone := hm.slots.unowned (isFree_iff.1 hfree).1
  have hk : k ∉ ns ++ i :: os := fun h => by
    rw [hm.mem, hknone] at h
    cases h
  have hins := hm.not_mem
  have hik : i ≠ k := by
    rintro rfl
    exact hk (mem_append_right ns mem_cons_self)
  have hiown := (hm.mem i).1 (mem_append_right ns mem_cons_self)
  refine ⟨hm.slots.movedTo ?_ hfree hiown fun j hj => ?_, ?_, hm.used, ?_, hm.linked_new hk,
    getLast?_concat.symm, ?_, fun j => ?_, fun j hj => ?_⟩
  · rw [hm.elem]
    exact hm.used
  · exact (hm.mem j).1 (mem_append_left _ (hm.prev_mem hj))
  · rw [outElem_movedTo]
    exact hm.elem
  · -- the slots that are not moved yet keep their links
    refine Linked.congr (hm.old.2.head ▸ hm.old.2) fun j hj => ?_
    have hji : j ≠ i := ne_of_mem_of_not_mem (mem_append_right ns hj) hins
    have hjk : j ≠ k := ne_of_mem_of_not_mem (mem_append_right ns (mem_cons_of_mem i hj)) hk
    refine congrArg Slot.pnext (pidTable_movedTo m.out hji hjk fun h => ?_)
    exact disjoint_of_nodup_append hm.nodup (hm.prev_mem h) (mem_cons_of_mem i hj)
  · rw [append_assoc, singleton_append, nodup_middle, nodup_cons]
    refine ⟨fun h => hk ?_, ?_⟩
    · exact ((sublist_cons_self i os).append_left ns).subset h
    · exact (nodup_cons.1 (nodup_middle.1 hm.nodup)).2
  · rw [update_apply, update_apply]
    -- the old slot is given up, the new one taken
    split_ifs with hji hjk
    · subst hji
      refine iff_of_false (fun h => ?_) nofun
      rw [append_assoc, singleton_append] at h
      rcases mem_append.1 h with h | h
      · exact hins (mem_append_left _ h)
      · rcases mem_cons.1 h with h | h
        · exact hik h
        · exact hins (mem_append_right _ h)
    · refine iff_of_true ?_ rfl
      rw [hjk]
      exact mem_append_left _ (mem_append_right _ mem_cons_self)
    · rw [← hm.mem j]
      simp only [mem_append, mem_cons, not_mem_nil, hji, hjk, or_false, false_or]
  · rw [inRange_movedTo]
    rcases mem_append.1 hj with hj | hj
    · exact hm.inRange j hj
    · rw [mem_singleton.1 hj]
      exact hrange

/-- What the other elements have is the same. -/
structure Kept (e : ℕ) (s : Output) (owner : ℕ → Option ℕ) (s' : Output)
    (owner' : ℕ → Option ℕ) : Prop where
  elem : ∀ f ≠ e, s'.outElem f = s.outElem f
  slot : ∀ i f, f ≠ e → owner i = some f → owner' i = some f ∧ s'.pidTable i = s.pidTable i

theorem Kept.trans {s₀ : Output} {owner₀ owner' : ℕ → Option ℕ} (h : Kept e s₀ owner₀ s owner)
    (h' : Kept e s owner s' owner') : Kept e s₀ owner₀ s' owner' where
  elem f hf := (h'.elem f hf).trans (h.elem f hf)
  slot i f hf hi := by
    obtain ⟨hown, heq⟩ := h.slot i f hf hi
    obtain ⟨hown', heq'⟩ := h'.slot i f hf hown
    exact ⟨hown', heq'.trans heq⟩

/-- A slot moves, if there is room for its PID. -/
theorem Moving.step (hm : Moving e y ns (i :: os) m owner)
    (hroom : 0 < m.out.room y.sid (m.out.pidTable i).pid) :
    ∃ m' k owner', moveSlot e i m = (m', false) ∧ m'.out.pnext i = os.head? ∧
      Moving e y (ns ++ [k]) os m' owner' ∧ Kept e m.out owner m'.out owner' ∧
      (∀ j ∈ os, m'.out.pidTable j = m.out.pidTable j) ∧
      ∀ pid, m.out.room y.sid pid ≤ m'.out.room y.sid pid +
        if pid = (m.out.pidTable i).pid then 4 else 1 := by
  obtain ⟨t, r, heq⟩ : ∃ t r, m.out.mallocPidEntrySlot (m.out.outElem e).sid
      (m.out.pidTable i).pid = (t, r) := ⟨_, _, rfl⟩
  have hspec := mallocPidEntrySlot_spec hm.slots.ranges y.sid (m.out.pidTable i).pid
  have hfst := mallocPidEntrySlot_fst m.out y.sid (m.out.pidTable i).pid
  have hsame := sameTable_initSidPid m.out y.sid
  have hfound := hm.slots.malloc heq
  have heq' := heq
  rw [hm.elem] at heq' hfound
  rw [heq'] at hspec hfst
  rw [← hfst] at hsame
  cases r with
  | none => exact absurd (hspec.1 rfl) hroom.ne'
  | some k =>
    obtain ⟨ht, -, hk⟩ := hfound
    obtain ⟨hrange, hfree⟩ := hk k rfl
    have hmt := hm.of_sameTable hsame ht.ranges
    rw [← hsame.pidTable] at hfree
    have hknone := ht.unowned (isFree_iff.1 hfree).1
    have hk : k ∉ ns ++ i :: os := fun h => by
      rw [hm.mem, hknone] at h
      cases h
    have hik : i ≠ k := by
      rintro rfl
      exact hk (mem_append_right ns mem_cons_self)
    have hkprev : m.prev ≠ some k := fun h => hk (mem_append_left _ (hm.prev_mem h))
    have hhead : m.head = none ↔ m.prev = none := by
      rw [hm.new.head, hm.prev, head?_eq_none_iff, getLast?_eq_none_iff]
    -- a slot that is none of these is the same
    have hslot : ∀ j, j ≠ i → j ≠ k → j ∉ ns →
        (t.movedTo e i k m.prev).pidTable j = m.out.pidTable j := fun j hji hjk hjns => by
      rw [← hsame.pidTable]
      exact pidTable_movedTo t hji hjk fun h => hjns (hm.prev_mem h)
    refine ⟨_, k, _, moveSlot_eq heq hik hkprev hhead, ?_, hmt.movedTo hrange hfree,
      ⟨fun f _ => ?_, fun j f hf hj => ?_⟩, fun j hj => ?_, fun pid => ?_⟩
    · rw [pnext_movedTo_old t hik fun h => hm.not_mem (mem_append_left _ (hm.prev_mem h)),
        pnext, hsame.pidTable]
      exact hm.old.2.head
    · rw [outElem_movedTo, hsame.outElem]
    · have hother : j ∉ ns ++ i :: os := fun h =>
        hf (Option.some.inj (hj.symm.trans ((hm.mem j).1 h)))
      have hjk : j ≠ k := by
        rintro rfl
        rw [hknone] at hj
        cases hj
      have hji : j ≠ i := fun h => hother (h ▸ mem_append_right ns mem_cons_self)
      rw [update_of_ne hji, update_of_ne hjk]
      exact ⟨hj, hslot j hji hjk fun h => hother (mem_append_left _ h)⟩
    · have hj' := mem_append_right ns (mem_cons_of_mem i hj)
      refine hslot j ?_ (ne_of_mem_of_not_mem hj' hk) fun h => ?_
      · exact ne_of_mem_of_not_mem (mem_append_right ns hj) hm.not_mem
      · exact disjoint_of_nodup_append hm.nodup h (mem_cons_of_mem i hj)
    · rw [← room_initSidPid m.out, ← hfst, ← hsame.pidTable]
      exact room_movedTo t e i k m.prev _ pid

/-- All slots of the element move, and the room that the other PIDs need is still there. -/
theorem Moving.walk (hm : Moving e y [] l m owner) (hlen : l.length ≤ maxTsPidNum)
    (hroom : Placed (m.out.room y.sid) (l.map (fun i => (m.out.pidTable i).pid) ++ rest)) :
    ∃ m' ns owner', walk (fun m => m.out.pnext) (moveSlot e) maxTsPidNum l.head? m =
        some (m', none) ∧ Moving e y ns [] m' owner' ∧ Placed (m'.out.room y.sid) rest ∧
      Kept e m.out owner m'.out owner' := by
  have hwalk : ∃ m' r, CommonDrivers.walk (fun m => m.out.pnext) (moveSlot e) maxTsPidNum l.head?
      m = some (m', r) ∧ r = none ∧ ∃ ns owner', Moving e y ns [] m' owner' ∧
        Placed (m'.out.room y.sid) rest ∧ Kept e m.out owner m'.out owner' := by
    refine walk_spec (I := fun os u => ∃ ns owner', Moving e y ns os u owner' ∧
      Placed (u.out.room y.sid) (os.map (fun i => (u.out.pidTable i).pid) ++ rest) ∧
      Kept e m.out owner u.out owner')
      ⟨[], owner, hm, hroom, fun _ _ => rfl, fun _ _ _ h => ⟨h, rfl⟩⟩ rfl hlen ?_ ?_
    · rintro i os u ⟨ns, owner', hu, hplaced, hkept⟩
      obtain ⟨u', k, owner'', heq, hnext, hu', hkept', hslot, hroom'⟩ := hu.step hplaced.pos
      rw [heq, if_neg Bool.false_ne_true]
      refine ⟨hnext, _, _, hu', ?_, hkept.trans hkept'⟩
      have hmap : os.map (fun i => (u'.out.pidTable i).pid) =
          os.map fun i => (u.out.pidTable i).pid :=
        map_congr_left fun j hj => congrArg Slot.pid (hslot j hj)
      rw [hmap]
      exact hplaced.step hroom'
    · rintro u ⟨ns, owner', hu, hplaced, hkept⟩
      exact ⟨rfl, ns, owner', hu, hplaced, hkept⟩
  obtain ⟨m', r, heq, rfl, ns, owner', hm', hplaced, hkept⟩ := hwalk
  exact ⟨m', ns, owner', heq, hm', hplaced, hkept⟩

/-! ## The recordings of a demux -/

/-- The slots of an element, by its list. -/
def listed (s : Output) (e : ℕ) : List ℕ := collect s.pnext maxTsPidNum (s.outElem e).pidList

/-- The PIDs of an element. -/
def pidsOf (s : Output) (e : ℕ) : List Pid := (s.listed e).map fun i => (s.pidTable i).pid

/-- The PIDs that move with the demux. -/
def movedPids (s : Output) (dmx : ℕ) (es : List ℕ) : List Pid :=
  (es.filter (s.recordsFor dmx)).flatMap s.pidsOf

theorem Lists.listed_eq (hl : Lists s owner e l) (hs : Ranges s) : s.listed e = l :=
  collect_eq hl.linked (hl.length_le hs)

theorem Lists.pidsOf_eq (hl : Lists s owner e l) (hs : Ranges s) :
    s.pidsOf e = l.map fun i => (s.pidTable i).pid := by
  rw [pidsOf, hl.listed_eq hs]

theorem Placed.mono {r r' : Pid → ℕ} {l : List Pid} (h : Placed r l) (hr : ∀ pid, r pid ≤ r' pid) :
    Placed r' l := fun pid hpid => (h pid hpid).trans (hr pid)

theorem room_le_setElem (s : Output) (e : ℕ) (y : Elem) (sid : ℕ) (pid : Pid) :
    s.room sid pid ≤ (s.setElem e y).room sid pid :=
  room_mono rfl rfl rfl fun _ hused => ⟨hused, rfl⟩

theorem Slots.updateDvrSid (hs : Slots none s owner) (hused : (s.outElem e).used = true)
    (hroom : Placed (s.room (sid % 256)) (s.pidsOf e ++ rest)) :
    ∃ s' owner', s.updateDvrSid e sid = some s' ∧ Slots none s' owner' ∧
      Placed (s'.room (sid % 256)) rest ∧ Kept e s owner s' owner' := by
  obtain ⟨l, hl⟩ := hs.lists e nofun hused
  rw [hl.pidsOf_eq hs.ranges] at hroom
  let y := { s.outElem e with sid := sid % 256 }
  have hm : Moving e y [] l ⟨s.setElem e y, none, none⟩ owner := by
    refine ⟨(hs.start e).setElem rfl rfl (hs.clone e), outElem_setElem s e y, hused, ?_, rfl, rfl,
      hl.nodup, hl.mem, nofun⟩
    exact hl.linked.head ▸ hl.linked
  obtain ⟨m, ns, owner', heq, hm', hplaced, hkept⟩ := hm.walk (hl.length_le hs.ranges)
    (hroom.mono fun pid => room_le_setElem s e y _ pid)
  rw [← hl.linked.head] at heq
  rw [Output.updateDvrSid]
  rw [outElem_setElem, heq]
  have hslots := hm'.slots.setElem (y := { m.out.outElem e with pidList := m.head }) rfl rfl
    (hm'.slots.clone e)
  refine ⟨_, owner', rfl, hslots.finish (l := ns) ⟨?_, ?_, fun i => ?_, fun i hi => ?_⟩, ?_, ?_⟩
  · rw [outElem_setElem]
    exact hm'.new
  · exact append_nil ns ▸ hm'.nodup
  · rw [← hm'.mem i, append_nil]
  · rw [outElem_setElem, hm'.elem]
    exact hm'.inRange i hi
  · exact hplaced.mono fun pid => room_le_setElem _ e _ _ pid
  · refine ⟨fun f hf => ?_, hkept.slot⟩
    rw [outElem_setElem_of_ne _ _ hf, hkept.elem f hf]
    exact outElem_setElem_of_ne s y hf

theorem Kept.pidsOf (h : Kept e s owner s' owner') (hs : Slots none s owner) (hf : f ≠ e)
    (hused : (s.outElem f).used = true) : s'.pidsOf f = s.pidsOf f := by
  obtain ⟨l, hl⟩ := hs.lists f nofun hused
  have hslot : ∀ i ∈ l, s'.pidTable i = s.pidTable i := fun i hi =>
    (h.slot i f hf ((hl.mem i).1 hi)).2
  have hlinked : Linked s'.pnext (s.outElem f).pidList l :=
    hl.linked.congr fun i hi => congrArg Slot.pnext (hslot i hi)
  rw [hl.pidsOf_eq hs.ranges, Output.pidsOf, listed, h.elem f hf,
    collect_eq hlinked (hl.length_le hs.ranges)]
  exact map_congr_left fun i hi => congrArg Slot.pid (hslot i hi)

theorem Kept.movedPids (h : Kept e s owner s' owner') (hs : Slots none s owner) (dmx : ℕ)
    (he : e ∉ es) : s'.movedPids dmx es = s.movedPids dmx es := by
  have hrec : ∀ f ∈ es, s'.recordsFor dmx f = s.recordsFor dmx f := fun f hf => by
    rw [recordsFor, recordsFor, h.elem f (ne_of_mem_of_not_mem hf he)]
  rw [Output.movedPids, Output.movedPids, filter_congr hrec]
  refine flatMap_congr fun f hf => ?_
  obtain ⟨hmem, hfor⟩ := mem_filter.1 hf
  rw [recordsFor, Bool.and_eq_true, Bool.and_eq_true] at hfor
  exact h.pidsOf hs (ne_of_mem_of_not_mem hmem he) hfor.1.1

theorem Slots.updateFilter (hs : Slots none s owner) (dmx sid : ℕ) (hes : es.Nodup)
    (hroom : Placed (s.room (sid % 256)) (s.movedPids dmx es)) : ∃ s' owner', es.foldlM
      (fun s e => if s.recordsFor dmx e then s.updateDvrSid e sid else some s) s = some s' ∧
      Slots none s' owner' := by
  induction es generalizing s owner with
  | nil => exact ⟨s, owner, rfl, hs⟩
  | cons e es ih =>
    obtain ⟨he, hes⟩ := nodup_cons.1 hes
    rw [foldlM_cons]
    by_cases hfor : s.recordsFor dmx e = true
    · have hused : (s.outElem e).used = true := by
        rw [recordsFor, Bool.and_eq_true, Bool.and_eq_true] at hfor
        exact hfor.1.1
      rw [movedPids, filter_cons_of_pos hfor, flatMap_cons] at hroom
      obtain ⟨t, owner', heq, ht, hplaced, hkept⟩ := hs.updateDvrSid hused hroom
      rw [if_pos hfor, heq]
      refine ih ht hes ?_
      rw [hkept.movedPids hs dmx he]
      exact hplaced
    · rw [if_neg hfor]
      rw [movedPids, filter_cons_of_neg hfor] at hroom
      exact ih hs hes hroom

end Output

end CommonDrivers.PidFilter
