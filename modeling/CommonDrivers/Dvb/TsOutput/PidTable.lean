import CommonDrivers.Dvb.TsOutput.PidFilter

/-!
# The table of slots

`Slots` is what holds of the table while the list of one element may be under way: each used slot
has an *owner*, its filter in the hardware, and a PID that is alone in its row; the lists of the
other elements have the slots that they own. With no element under way it is the invariant of the
calls.

* `mallocPidEntrySlot_spec`: what the search for a slot gives; it fails only without `room`;
* `Slots.take`, `Slots.give`: a slot gets an owner, and loses it;
* `Slots.start`, `Slots.finish`: the list of an element is under way, and is in order again.
-/

namespace CommonDrivers.PidFilter

open List Function Option

namespace Output

variable {s s' : Output} {sid tid e f i j : ℕ} {pid : Pid}

/-! ## Ranges -/

/-- The slot is in the range of the stream id. -/
def InRange (s : Output) (sid i : ℕ) : Prop := (s.sidTable sid).used = true ∧ i ∈ s.slotsOf sid

/-- The number of slots that the parameter gives to a stream id fits in the table. -/
def ParamFits (num : ℤ) : Prop := 0 ≤ num ∧ num ≤ maxTsPidNum

/-- The ranges are in the table, one behind the other. -/
structure Ranges (s : Output) : Prop where
  table : (0 ≤ s.curSidPidIndex ∧ s.curSidPidIndex ≤ maxTsPidNum) ∧ ParamFits s.maxPidNumPerSid
  inside : ∀ sid, (s.sidTable sid).used = true → ∀ i ∈ s.slotsOf sid, i < s.curSidPidIndex
  disjoint : ∀ sid tid i, s.InRange sid i → s.InRange tid i → sid = tid

theorem Ranges.lt (hs : Ranges s) (hi : s.InRange sid i) : i < maxTsPidNum :=
  Int.ofNat_lt.1 ((hs.inside sid hi.1 i hi.2).trans_le hs.table.1.2)

/-- The next range ends without an overflow. -/
theorem Ranges.intAdd_eq (hs : Ranges s) :
    intAdd s.curSidPidIndex s.maxPidNumPerSid = s.curSidPidIndex + s.maxPidNumPerSid := by
  obtain ⟨⟨hcur, htable⟩, hparam, hmax⟩ := hs.table
  have hlen : maxTsPidNum = 1024 := rfl
  exact Int.bmod_eq_of_le (by omega) (by omega)

/-- The range is there already, or is the next one, or there is none. -/
theorem initSidPid_cases (s : Output) (sid : ℕ) : s.initSidPid sid = (s, false) ∨
      (s.initSidPid sid = (s, true) ∧ (s.sidTable sid).used = true) ∨
      ((s.sidTable sid).used = false ∧
        intAdd s.curSidPidIndex s.maxPidNumPerSid ≤ maxTsPidNum ∧
        s.initSidPid sid = ({ s with
          sidTable := update s.sidTable sid ⟨true, s.curSidPidIndex, s.maxPidNumPerSid⟩
          curSidPidIndex := intAdd s.curSidPidIndex s.maxPidNumPerSid }, true)) := by
  rw [initSidPid]
  split_ifs with hsid hused hfull
  · exact .inl rfl
  · exact .inr (.inl ⟨rfl, hused⟩)
  · exact .inl rfl
  · exact .inr (.inr ⟨eq_false_of_ne_true hused, not_lt.1 hfull, rfl⟩)

/-- Only the ranges change, and the ones that are there stay. -/
structure SameTable (s s' : Output) : Prop where
  pidTable : s'.pidTable = s.pidTable
  outElem : s'.outElem = s.outElem
  hw : s'.hw = s.hw
  inRange : ∀ sid i, s.InRange sid i → s'.InRange sid i

theorem sameTable_initSidPid (s : Output) (sid : ℕ) : SameTable s (s.initSidPid sid).1 := by
  rcases s.initSidPid_cases sid with heq | ⟨heq, -⟩ | ⟨hunused, -, heq⟩
  · rw [heq]
    exact ⟨rfl, rfl, rfl, fun _ _ h => h⟩
  · rw [heq]
    exact ⟨rfl, rfl, rfl, fun _ _ h => h⟩
  rw [heq]
  refine ⟨rfl, rfl, rfl, fun tid i hi => ?_⟩
  have hne : tid ≠ sid := by
    rintro rfl
    cases hi.1.symm.trans hunused
  rw [InRange, slotsOf]
  dsimp only
  rw [update_of_ne hne]
  exact hi

theorem Ranges.initSidPid (hs : Ranges s) (sid : ℕ) : Ranges (s.initSidPid sid).1 := by
  rcases s.initSidPid_cases sid with heq | ⟨heq, -⟩ | ⟨hunused, hle, heq⟩
  · rw [heq]
    exact hs
  · rw [heq]
    exact hs
  rw [hs.intAdd_eq] at hle heq
  obtain ⟨⟨hcur, -⟩, hparam⟩ := hs.table
  rw [heq]
  -- a range is the new one, or was there before
  have hcases : ∀ tid i, (s.initSidPid sid).1.InRange tid i →
      (tid = sid ∧ s.curSidPidIndex ≤ i ∧ i < s.curSidPidIndex + s.maxPidNumPerSid) ∨
        (tid ≠ sid ∧ s.InRange tid i) := by
    intro tid i hi
    rw [heq, InRange, slotsOf] at hi
    dsimp only at hi
    by_cases htid : tid = sid
    · subst htid
      rw [update_self, hs.intAdd_eq] at hi
      have hrange := mem_range'_1.1 hi.2
      dsimp only at hrange
      exact .inl ⟨rfl, by omega⟩
    · rw [update_of_ne htid] at hi
      exact .inr ⟨htid, hi⟩
  rw [heq] at hcases
  refine ⟨⟨⟨Int.add_nonneg hcur hparam.1, hle⟩, hparam⟩, fun tid hused i hi => ?_,
    fun t u i ht hu => ?_⟩
  · rcases hcases tid i ⟨hused, hi⟩ with ⟨-, -, hlt⟩ | ⟨-, hin⟩
    · exact hlt
    · exact (hs.inside tid hin.1 i hin.2).trans_le (Int.le_add_of_nonneg_right hparam.1)
  rcases hcases t i ht with ⟨rfl, hge, -⟩ | ⟨hne, hin⟩ <;>
    rcases hcases u i hu with ⟨rfl, hge', -⟩ | ⟨hne', hin'⟩
  · rfl
  · exact absurd (hs.inside u hin'.1 i hin'.2) (not_lt.2 hge)
  · exact absurd (hs.inside t hin.1 i hin.2) (not_lt.2 hge')
  · exact hs.disjoint t u i hin hin'

/-! ## The search for a slot -/

/-- The number of slots that can be taken for the PID. -/
def room (s : Output) (sid : ℕ) (pid : Pid) : ℕ :=
  if (s.initSidPid sid).2 then ((s.initSidPid sid).1.slotsOf sid).countP (s.isFree pid) else 0

theorem mallocPidEntrySlot_fst (s : Output) (sid : ℕ) (pid : Pid) :
    (s.mallocPidEntrySlot sid pid).1 = (s.initSidPid sid).1 := by
  rw [mallocPidEntrySlot]
  split_ifs with hsid
  · rw [initSidPid, if_pos hsid]
  · rfl
  · rfl

theorem isFree_congr (h : s'.pidTable = s.pidTable) (pid : Pid) : s'.isFree pid = s.isFree pid := by
  funext i
  rw [isFree, isFree, rowHas, rowHas, h]

theorem inRange_of_initSidPid (hok : (s.initSidPid sid).2 = true)
    (hi : i ∈ (s.initSidPid sid).1.slotsOf sid) : (s.initSidPid sid).1.InRange sid i := by
  refine ⟨?_, hi⟩
  rcases s.initSidPid_cases sid with heq | ⟨heq, hused⟩ | ⟨-, -, heq⟩
  · rw [heq] at hok
    cases hok
  · rw [heq]
    exact hused
  · rw [heq]
    dsimp only
    rw [update_self]

theorem mallocPidEntrySlot_snd (hok : (s.initSidPid sid).2 = true) :
    (s.mallocPidEntrySlot sid pid).2 =
      (((s.initSidPid sid).1.slotsOf sid).takeWhile (· < maxTsPidNum)).find? (s.isFree pid) := by
  have hsid : ¬ maxSidNum ≤ sid := by
    intro hsid
    rw [initSidPid, if_pos hsid] at hok
    cases hok
  rw [mallocPidEntrySlot, if_neg hsid, hok, if_neg (nofun : ¬ true = false),
    ← isFree_congr (sameTable_initSidPid s sid).pidTable]

theorem mallocPidEntrySlot_spec (hs : Ranges s) (sid : ℕ) (pid : Pid) :
    ((s.mallocPidEntrySlot sid pid).2 = none → s.room sid pid = 0) ∧
      ∀ i, (s.mallocPidEntrySlot sid pid).2 = some i →
        (s.initSidPid sid).1.InRange sid i ∧ s.isFree pid i = true := by
  cases hok : (s.initSidPid sid).2 with
  | false =>
    refine ⟨fun _ => ?_, fun i hi => ?_⟩
    · rw [room, hok]
      rfl
    · rw [mallocPidEntrySlot, if_pos hok] at hi
      split at hi <;> cases hi
  | true =>
    -- all of the range is in the table
    have hall : ((s.initSidPid sid).1.slotsOf sid).takeWhile (· < maxTsPidNum) =
        (s.initSidPid sid).1.slotsOf sid := by
      rw [takeWhile_eq_self_iff]
      exact fun i hi => decide_eq_true ((hs.initSidPid sid).lt (inRange_of_initSidPid hok hi))
    rw [mallocPidEntrySlot_snd hok, hall, room, hok, if_pos rfl]
    refine ⟨fun hnone => ?_, fun i hi => ⟨?_, find?_some hi⟩⟩
    · rw [countP_eq_zero]
      exact find?_eq_none.1 hnone
    · exact inRange_of_initSidPid hok (mem_of_find?_eq_some hi)

theorem isFree_iff : s.isFree pid i = true ↔ (s.pidTable i).used = false ∧
    ∀ j, j / 4 = i / 4 → (s.pidTable j).used = true → (s.pidTable j).pid ≠ pid := by
  rw [isFree, Bool.and_eq_true, Bool.not_eq_true', Bool.not_eq_true', rowHas, List.any_eq_false]
  refine and_congr_right fun _ => ⟨fun h j hrow hused heq => ?_, fun h j hj => ?_⟩
  · refine h j (mem_range'_1.2 (by omega)) ?_
    rw [hused, heq, BEq.rfl]
    rfl
  · rw [Bool.and_eq_true, beq_iff_eq]
    have := mem_range'_1.1 hj
    exact fun ⟨hused, heq⟩ => h j (by omega) hused heq

/-! ## Owners -/

/-- The list of the element has the slots that it owns. -/
structure Lists (s : Output) (owner : ℕ → Option ℕ) (e : ℕ) (l : List ℕ) : Prop where
  linked : Linked s.pnext (s.outElem e).pidList l
  nodup : l.Nodup
  mem : ∀ i, i ∈ l ↔ owner i = some e
  inRange : ∀ i ∈ l, s.InRange (s.outElem e).sid i

/-- The table with its owners, where the list of `x` is under way. -/
structure Slots (x : Option ℕ) (s : Output) (owner : ℕ → Option ℕ) : Prop where
  used : ∀ i, (s.pidTable i).used = true ↔ owner i ≠ none
  opens : ∀ i e, owner i = some e → (s.outElem e).used = true
  rows : ∀ i j, (s.pidTable i).used = true → (s.pidTable j).used = true → i / 4 = j / 4 →
    (s.pidTable i).pid = (s.pidTable j).pid → i = j
  hw : ∀ i, s.hw i =
    (owner i).map fun e => hwPid (s.pidTable i).pid (s.pidTable i).pidMask (s.bufferId e)
  chan : ∀ e, (s.outElem e).used = true → (s.outElem e).pchan ≠ none
  clone : ∀ e, (s.outElem e).used = true → (s.outElem e).format = .clone → (s.outElem e).ref = 0
  ranges : Ranges s
  lists : ∀ e, some e ≠ x → (s.outElem e).used = true → ∃ l, s.Lists owner e l

variable {x : Option ℕ} {owner : ℕ → Option ℕ} {l : List ℕ} {y : Elem}

theorem Slots.unowned (hs : Slots x s owner) (hi : (s.pidTable i).used = false) :
    owner i = none := by
  by_contra hne
  exact absurd (((hs.used i).2 hne).symm.trans hi) nofun

theorem Lists.lt (hl : Lists s owner e l) (hs : Ranges s) (hi : i ∈ l) : i < maxTsPidNum :=
  hs.lt (hl.inRange i hi)

theorem Lists.length_le (hl : Lists s owner e l) (hs : Ranges s) : l.length ≤ maxTsPidNum := by
  have hsub : l ⊆ range maxTsPidNum := fun i hi => mem_range.2 (hl.lt hs hi)
  have hle := (hl.nodup.subperm hsub).length_le
  rwa [length_range] at hle

theorem Slots.start (hs : Slots none s owner) (e : ℕ) : Slots (some e) s owner :=
  { hs with lists := fun f _ hf => hs.lists f nofun hf }

theorem Slots.finish (hs : Slots (some e) s owner) (hl : Lists s owner e l) : Slots none s owner :=
  { hs with
    lists := fun f _ hf => by
      by_cases hfe : f = e
      · exact ⟨l, hfe ▸ hl⟩
      · exact hs.lists f (fun heq => hfe (some.inj heq)) hf }

/-- The list of another element is not touched. -/
theorem Lists.of_same (hl : Lists s owner e l) (s' : Output)
    (hnext : ∀ i ∈ l, s'.pnext i = s.pnext i) (helem : s'.outElem e = s.outElem e)
    (hrange : ∀ sid i, s.InRange sid i → s'.InRange sid i) {owner' : ℕ → Option ℕ}
    (howner : ∀ i, owner' i = some e ↔ owner i = some e) : Lists s' owner' e l where
  linked := helem ▸ hl.linked.congr hnext
  nodup := hl.nodup
  mem i := (hl.mem i).trans (howner i).symm
  inRange i hi := helem ▸ hrange _ i (hl.inRange i hi)

theorem Slots.of_sameTable (hs : Slots x s owner) (hsame : SameTable s s') (hranges : Ranges s') :
    Slots x s' owner where
  used i := hsame.pidTable ▸ hs.used i
  opens i e := hsame.outElem ▸ hs.opens i e
  rows i j := hsame.pidTable ▸ hs.rows i j
  hw i := by
    rw [hsame.hw, hs.hw, hsame.pidTable]
    simp only [bufferId, hsame.outElem]
  chan e := hsame.outElem ▸ hs.chan e
  clone e := hsame.outElem ▸ hs.clone e
  ranges := hranges
  lists e hx hused := by
    obtain ⟨l, hl⟩ := hs.lists e hx (hsame.outElem ▸ hused)
    refine ⟨l, hl.of_same s' (fun i _ => ?_) (congrFun hsame.outElem e) hsame.inRange
      fun _ => Iff.rfl⟩
    rw [pnext, pnext, hsame.pidTable]

theorem Slots.initSidPid (hs : Slots x s owner) (sid : ℕ) : Slots x (s.initSidPid sid).1 owner :=
  hs.of_sameTable (sameTable_initSidPid s sid) (hs.ranges.initSidPid sid)

/-! ## Steps -/

theorem pidTable_setSlot (s : Output) (i : ℕ) (y : Slot) : (s.setSlot i y).pidTable i = y :=
  update_self ..

theorem pidTable_setSlot_of_ne (s : Output) (y : Slot) (h : j ≠ i) :
    (s.setSlot i y).pidTable j = s.pidTable j := update_of_ne h ..

theorem outElem_setElem (s : Output) (e : ℕ) (y : Elem) : (s.setElem e y).outElem e = y :=
  update_self ..

theorem outElem_setElem_apply (s : Output) (e f : ℕ) (y : Elem) :
    (s.setElem e y).outElem f = if f = e then y else s.outElem f := update_apply ..

theorem outElem_setElem_of_ne (s : Output) (y : Elem) (h : f ≠ e) :
    (s.setElem e y).outElem f = s.outElem f := update_of_ne h ..

/-- A slot changes its link or its references. -/
theorem Slots.relink (hs : Slots x s owner) {y : Slot} (hused : y.used = (s.pidTable i).used)
    (hpid : y.pid = (s.pidTable i).pid) (hmask : y.pidMask = (s.pidTable i).pidMask)
    (hnext : y.pnext = s.pnext i ∨ owner i = x) : Slots x (s.setSlot i y) owner := by
  have hsame : ∀ j, ((s.setSlot i y).pidTable j).used = (s.pidTable j).used ∧
      ((s.setSlot i y).pidTable j).pid = (s.pidTable j).pid ∧
      ((s.setSlot i y).pidTable j).pidMask = (s.pidTable j).pidMask := by
    intro j
    by_cases hj : j = i
    · subst hj
      rw [pidTable_setSlot]
      exact ⟨hused, hpid, hmask⟩
    · rw [pidTable_setSlot_of_ne s y hj]
      exact ⟨rfl, rfl, rfl⟩
  refine ⟨fun j => ?_, hs.opens, fun j k => ?_, fun j => ?_, hs.chan, hs.clone,
    ⟨hs.ranges.table, hs.ranges.inside, hs.ranges.disjoint⟩, fun e hx he => ?_⟩
  · rw [(hsame j).1]
    exact hs.used j
  · rw [(hsame j).1, (hsame k).1, (hsame j).2.1, (hsame k).2.1]
    exact hs.rows j k
  · rw [(hsame j).2.1, (hsame j).2.2]
    exact hs.hw j
  · obtain ⟨l, hl⟩ := hs.lists e hx he
    refine ⟨l, hl.of_same (s.setSlot i y) (fun j hj => ?_) rfl (fun _ _ h => h) fun _ => Iff.rfl⟩
    rw [pnext]
    by_cases hji : j = i
    · subst hji
      rw [pidTable_setSlot]
      exact hnext.resolve_right fun heq => hx ((hl.mem j).1 hj ▸ heq)
    · rw [pidTable_setSlot_of_ne s y hji]
      rfl

/-- A free slot gets an owner, and its filter. -/
theorem Slots.take (hs : Slots (some e) s owner) (he : (s.outElem e).used = true) {y : Slot}
    (hfree : s.isFree y.pid i = true) (hy : y.used = true) :
    Slots (some e) ((s.setSlot i y).turnOn i e) (update owner i (some e)) := by
  obtain ⟨hunused, hrow⟩ := isFree_iff.1 hfree
  have hnone := hs.unowned hunused
  have hslot : ∀ j, ((s.setSlot i y).turnOn i e).pidTable j = if j = i then y else s.pidTable j :=
    fun j => by
      split_ifs with hj
      · subst hj
        exact pidTable_setSlot s j y
      · exact pidTable_setSlot_of_ne s y hj
  refine ⟨fun j => ?_, fun j f => ?_, fun j k => ?_, fun j => ?_, hs.chan, hs.clone,
    ⟨hs.ranges.table, hs.ranges.inside, hs.ranges.disjoint⟩, fun f hx hf => ?_⟩
  · rw [hslot, update_apply]
    split_ifs with hj
    · exact iff_of_true hy nofun
    · exact hs.used j
  · rw [update_apply]
    split_ifs with hj
    · exact fun heq => some.inj heq ▸ he
    · exact hs.opens j f
  · rw [hslot, hslot]
    -- no slot of the row has the PID already
    split_ifs with hj hk hk
    · exact fun _ _ _ _ => hj.trans hk.symm
    · exact fun _ hused hdiv hpid => absurd hpid.symm (hrow k (hj ▸ hdiv.symm) hused)
    · exact fun hused _ hdiv hpid => absurd hpid (hrow j (hk ▸ hdiv) hused)
    · exact hs.rows j k
  · have hself := pidTable_setSlot s i y
    change update s.hw i (some (hwPid ((s.setSlot i y).pidTable i).pid
      ((s.setSlot i y).pidTable i).pidMask (s.bufferId e))) j = _
    rw [hself, hslot, update_apply, update_apply]
    split_ifs with hj
    · rfl
    · exact hs.hw j
  · obtain ⟨l, hl⟩ := hs.lists f hx hf
    -- the slot is in no list yet
    have hout : i ∉ l := fun hi => by
      rw [hl.mem, hnone] at hi
      cases hi
    refine ⟨l, hl.of_same ((s.setSlot i y).turnOn i e) (fun j hj => ?_) rfl (fun _ _ h => h)
      fun j => ?_⟩
    · rw [pnext, hslot, if_neg (ne_of_mem_of_not_mem hj hout)]
      rfl
    rw [update_apply]
    split_ifs with hj
    · subst hj
      rw [hnone]
      exact iff_of_false (fun heq => hx heq.symm) nofun
    · rfl

/-- A slot loses its owner, and its filter. -/
theorem Slots.give (hs : Slots (some e) s owner) (hi : owner i = some e) :
    Slots (some e) ((s.turnOff i).freePidEntrySlot i) (update owner i none) := by
  have hslot : ∀ j, j ≠ i → ((s.turnOff i).freePidEntrySlot i).pidTable j = s.pidTable j :=
    fun j hj => pidTable_setSlot_of_ne _ _ hj
  have hself : (((s.turnOff i).freePidEntrySlot i).pidTable i).used = false := by
    rw [freePidEntrySlot, pidTable_setSlot]
  refine ⟨fun j => ?_, fun j f => ?_, fun j k hused hused' => ?_, fun j => ?_, hs.chan, hs.clone,
    ⟨hs.ranges.table, hs.ranges.inside, hs.ranges.disjoint⟩, fun f hx hf => ?_⟩
  · rw [update_apply]
    split_ifs with hj
    · subst hj
      rw [hself]
      exact iff_of_false nofun fun h => h rfl
    · rw [hslot j hj]
      exact hs.used j
  · rw [update_apply]
    split_ifs with hj
    · exact nofun
    · exact hs.opens j f
  · have hne : ∀ j, (((s.turnOff i).freePidEntrySlot i).pidTable j).used = true → j ≠ i := by
      rintro j hused rfl
      cases hused.symm.trans hself
    have hj := hslot j (hne j hused)
    have hk := hslot k (hne k hused')
    rw [hj] at hused ⊢
    rw [hk] at hused' ⊢
    exact hs.rows j k hused hused'
  · change update s.hw i none j = _
    rw [update_apply, update_apply]
    split_ifs with hj
    · rfl
    · rw [hslot j hj]
      exact hs.hw j
  · obtain ⟨l, hl⟩ := hs.lists f hx hf
    have hout : i ∉ l := fun hmem => hx ((hl.mem i).1 hmem ▸ hi)
    refine ⟨l, hl.of_same ((s.turnOff i).freePidEntrySlot i) (fun j hj => ?_) rfl
      (fun _ _ h => h) fun j => ?_⟩
    · rw [pnext, hslot j (ne_of_mem_of_not_mem hj hout)]
      rfl
    rw [update_apply]
    split_ifs with hj
    · subst hj
      rw [hi]
      exact iff_of_false nofun fun heq => hx heq.symm
    · rfl

theorem Lists.setElem_of_ne (hl : Lists s owner f l) (y : Elem) (hf : f ≠ e) :
    Lists (s.setElem e y) owner f l :=
  hl.of_same (s.setElem e y) (fun _ _ => rfl) (outElem_setElem_of_ne s y hf) (fun _ _ h => h)
    fun _ => Iff.rfl

/-- The element that is under way changes. -/
theorem Slots.setElem (hs : Slots (some e) s owner) (hused : y.used = (s.outElem e).used)
    (hchan : y.pchan.map Chan.id = (s.outElem e).pchan.map Chan.id)
    (hclone : y.used = true → y.format = .clone → y.ref = 0) :
    Slots (some e) (s.setElem e y) owner := by
  refine ⟨hs.used, fun i f hi => ?_, hs.rows, fun i => ?_, fun f => ?_, fun f => ?_,
    ⟨hs.ranges.table, hs.ranges.inside, hs.ranges.disjoint⟩, fun f hx hf => ?_⟩
  · have hopen := hs.opens i f hi
    rw [outElem_setElem_apply]
    split_ifs with hfe
    · rw [hused, ← hfe]
      exact hopen
    · exact hopen
  · have hbuffer : ∀ f, (s.setElem e y).bufferId f = s.bufferId f := fun f => by
      rw [bufferId, outElem_setElem_apply, bufferId]
      split_ifs with hfe
      · rw [hchan, hfe]
      · rfl
    simp only [hbuffer]
    exact hs.hw i
  · rw [outElem_setElem_apply]
    split_ifs with hfe
    · intro hopen hnone
      rw [hnone, map_none] at hchan
      exact hs.chan e (hused ▸ hopen) (map_eq_none_iff.1 hchan.symm)
    · exact hs.chan f
  · rw [outElem_setElem_apply]
    split_ifs with hfe
    · exact hclone
    · exact hs.clone f
  · have hfe : f ≠ e := fun heq => hx (congrArg some heq)
    rw [outElem_setElem_apply, if_neg hfe] at hf
    obtain ⟨l, hl⟩ := hs.lists f hx hf
    exact ⟨l, hl.setElem_of_ne y hfe⟩

theorem Lists.setElem (hl : Lists s owner e l) (hlist : y.pidList = (s.outElem e).pidList)
    (hsid : y.sid = (s.outElem e).sid) : Lists (s.setElem e y) owner e l where
  linked := by
    rw [outElem_setElem, hlist]
    exact hl.linked
  nodup := hl.nodup
  mem := hl.mem
  inRange i hi := by
    rw [outElem_setElem, hsid]
    exact hl.inRange i hi

/-- An element changes that has no slots; it is opened or closed. -/
theorem Slots.setElem_of_empty (hs : Slots (some e) s owner) (hno : ∀ i, owner i ≠ some e)
    (hy : y.used = true → y.pchan ≠ none ∧ (y.format = .clone → y.ref = 0) ∧ y.pidList = none) :
    Slots none (s.setElem e y) owner := by
  have hne : ∀ i f, owner i = some f → f ≠ e := by
    rintro i f hi rfl
    exact hno i hi
  refine ⟨hs.used, fun i f hi => ?_, hs.rows, fun i => ?_, fun f => ?_, fun f => ?_,
    ⟨hs.ranges.table, hs.ranges.inside, hs.ranges.disjoint⟩, fun f hx hf => ?_⟩
  · rw [outElem_setElem_apply, if_neg (hne i f hi)]
    exact hs.opens i f hi
  · change s.hw i = _
    rw [hs.hw i]
    refine Option.map_congr fun f hi => ?_
    rw [bufferId, bufferId, outElem_setElem_apply, if_neg (hne i f hi)]
    rfl
  · rw [outElem_setElem_apply]
    split_ifs
    · exact fun hopen => (hy hopen).1
    · exact hs.chan f
  · rw [outElem_setElem_apply]
    split_ifs
    · exact fun hopen => (hy hopen).2.1
    · exact hs.clone f
  · by_cases hfe : f = e
    · subst hfe
      rw [outElem_setElem] at hf
      refine ⟨[], ?_, nodup_nil, fun i => ?_, nofun⟩
      · rw [outElem_setElem]
        exact (hy hf).2.2
      · exact iff_of_false not_mem_nil (hno i)
    · rw [outElem_setElem_apply, if_neg hfe] at hf
      obtain ⟨l, hl⟩ := hs.lists f (fun heq => hfe (some.inj heq)) hf
      exact ⟨l, hl.setElem_of_ne y hfe⟩

end Output

end CommonDrivers.PidFilter
