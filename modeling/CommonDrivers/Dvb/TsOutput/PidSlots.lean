import CommonDrivers.Dvb.TsOutput.PidMoves

/-!
# The slots in every state of a run

`SlotsOk` is what the table is for: each used slot is on the list of one open element, once, in the
range of its stream id, with its filter in the hardware, and the PIDs of a row are different.
`pid_slots` has it for the runs whose steps are `SlotFits`. These leave out

* the move of a demux to a stream id without room for its PIDs, as the loop returns in the middle:
  the slots that have moved are on no list, and the list has the slots that were freed;
* an element that is closed with slots, as after the second of two filters found no slot;
* the removal of the PIDs of a clone that is not closed, as its list still has the slots.
-/

namespace CommonDrivers.PidFilter

open Option

namespace Output

variable {s s' : Output} {sid e i j : ℕ} {pid q pidMask : Pid} {owner : ℕ → Option ℕ}
  {chan : Option Chan} {format : Format}

/-! ## Adding two filters -/

/-- The search for a slot fails without room, and leaves the room as it is. -/
theorem Ranges.malloc_room (hs : Ranges s) {r : Option ℕ}
    (heq : s.mallocPidEntrySlot sid pid = (s', r)) :
    (r = none ↔ s.room sid pid = 0) ∧ ∀ q, s'.room sid q = s.room sid q := by
  have hspec := mallocPidEntrySlot_spec hs sid pid
  have hfst := mallocPidEntrySlot_fst s sid pid
  rw [heq] at hspec hfst
  dsimp only at hspec hfst
  refine ⟨⟨hspec.1, fun hzero => ?_⟩, fun q => ?_⟩
  · cases r with
    | none => rfl
    | some i =>
      obtain ⟨hrange, hfree⟩ := hspec.2 i rfl
      rw [room] at hzero
      split at hzero
      · exact absurd hzero (List.countP_pos_iff.2 ⟨i, hrange.2, hfree⟩).ne'
      · next hok =>
        rw [mallocPidEntrySlot, if_pos (eq_false_of_ne_true hok)] at heq
        split at heq <;> cases heq
  · rw [hfst, room_initSidPid]

theorem room_linkSlot (s : Output) (e i : ℕ) (pidMask : Pid) (sid : ℕ) (hpid : pid ≠ q) :
    s.room sid pid ≤ (s.linkSlot e i q pidMask).room sid pid + 1 := by
  have hset := room_le_setSlot s i ⟨true, q, pidMask, 1, (s.outElem e).pidList⟩ sid pid
  rw [if_neg hpid] at hset
  refine hset.trans (Nat.add_le_add_right ?_ 1)
  exact room_mono rfl rfl rfl fun _ hused => ⟨hused, rfl⟩

/-- A PID is added to an element, if `ok`, and takes at most one slot of the others. -/
structure Added (e : ℕ) (pid : Pid) (s t : Output) (ok : Bool) : Prop where
  used : (t.outElem e).used = true
  sid : (t.outElem e).sid = (s.outElem e).sid
  format : (t.outElem e).format = (s.outElem e).format
  fail : ok = false → t.outElem = s.outElem ∧ s.room (s.outElem e).sid pid = 0
  some : ok = true → (s.outElem e).pidList = none → 0 < s.room (s.outElem e).sid pid
  room : ∀ q ≠ pid, s.room (s.outElem e).sid q ≤ t.room (s.outElem e).sid q + 1

/-- The condition that both filters of a feed for all packets find a slot, or the first does not. -/
def RoomForAll (s : Output) (sid : ℕ) (first second : Pid) : Prop :=
  s.room sid first = 0 ∨ 2 ≤ s.room sid second

theorem RoomForAll.mono {first second : Pid} (h : s.RoomForAll sid first second)
    (hroom : ∀ pid, s'.room sid pid = s.room sid pid) : s'.RoomForAll sid first second := by
  rw [RoomForAll, hroom, hroom]
  exact h

/-- An element that was opened just now. -/
theorem tsOutputOpen_some {mem : Bool} (heq : s.tsOutputOpen sid format chan mem = (s', some e)) :
    (s'.outElem e).used = true ∧ (s'.outElem e).format = format ∧ (s'.outElem e).sid = sid ∧
      (s'.outElem e).pidList = none ∧ (s'.outElem e).ref = 0 ∧ ∃ y, s' = s.setElem e y := by
  rw [tsOutputOpen] at heq
  split at heq
  · cases heq
  split at heq
  · cases heq
  split at heq
  · cases heq
  split at heq
  · cases heq
    rw [outElem_setElem]
    exact ⟨rfl, rfl, rfl, rfl, rfl, _, rfl⟩
  · cases heq

theorem room_setElem (s : Output) (e : ℕ) (y : Elem) (sid : ℕ) (pid : Pid) :
    (s.setElem e y).room sid pid = s.room sid pid := by
  refine le_antisymm ?_ (room_le_setElem s e y sid pid)
  exact room_mono rfl rfl rfl fun _ hused => ⟨hused, rfl⟩

theorem tsOutputFindDvr_some {secLevel : ℕ} (h : s.tsOutputFindDvr sid secLevel = some e) :
    (s.outElem e).used = true ∧ (s.outElem e).format = .dvr := by
  have hfound := List.find?_some h
  simp only [Bool.and_eq_true, beq_iff_eq] at hfound
  exact ⟨hfound.1.1.1, hfound.1.2⟩

section

variable (hs : Slots none s owner)
include hs

section

variable (hused : (s.outElem e).used = true)
include hused

/-- What `ts_output_add_pid` does for a recording: it finds the PID, or a slot for it, or none. -/
theorem Slots.addDvr (pid pidMask : Pid) : ∃ t ok owner',
    s.addDvr e pid pidMask = some (t, ok) ∧ Slots none t owner' ∧ Added e pid s t ok := by
  obtain ⟨l, hl⟩ := hs.lists e nofun hused
  obtain ⟨r, hfind⟩ := hl.findPid hs.ranges pid
  rw [Output.addDvr, hfind]
  cases r with
  | some i =>
    -- the PID is there: only its references change
    have hroom : ∀ q, s.room (s.outElem e).sid q ≤ (s.setSlot i
        { s.pidTable i with ref := (s.pidTable i).ref + 1 }).room (s.outElem e).sid q := fun q => by
      refine room_mono rfl rfl rfl fun j hj => ?_
      by_cases hji : j = i
      · subst hji
        rw [pidTable_setSlot] at hj ⊢
        exact ⟨hj, rfl⟩
      · rw [pidTable_setSlot_of_ne s _ hji] at hj ⊢
        exact ⟨hj, rfl⟩
    refine ⟨_, _, owner, rfl, hs.relink rfl rfl rfl (.inl rfl), hused, rfl, rfl, nofun,
      fun _ hnil => ?_, fun q _ => (hroom q).trans_lt (Nat.lt_succ_self _) |>.le⟩
    rw [findPid, hnil, walk_none] at hfind
    cases hfind
  | none =>
    dsimp only
    split
    · next t heq =>
      -- no slot is free
      obtain ⟨ht, helem, -⟩ := hs.malloc heq
      obtain ⟨hnone, hroom⟩ := hs.ranges.malloc_room heq
      refine ⟨_, _, owner, rfl, ht, ?_, ?_, ?_, fun _ => ⟨helem, hnone.1 rfl⟩, nofun, fun q _ => ?_⟩
      · rw [helem]
        exact hused
      · rw [helem]
      · rw [helem]
      · rw [hroom]
        exact Nat.le_add_right _ 1
    · next t i heq =>
      obtain ⟨ht, helem, hi⟩ := hs.malloc heq
      obtain ⟨hrange, hfree⟩ := hi i rfl
      obtain ⟨hsome, hroom⟩ := hs.ranges.malloc_room heq
      have hused' : (t.outElem e).used = true := helem ▸ hused
      rw [if_neg (by rw [isNone_iff_eq_none]; exact ht.chan e hused')]
      obtain ⟨hu, hsid⟩ := outElem_linkSlot_used t e i e pid pidMask
      refine ⟨_, _, _, rfl, ht.linkSlot hused' (helem ▸ hrange) hfree, hu.trans hused', ?_, ?_,
        nofun, fun _ _ => ?_, fun q hq => ?_⟩
      · rw [hsid, helem]
      · rw [linkSlot_eq, outElem_setElem, helem]
      · exact Nat.pos_of_ne_zero fun hzero => nomatch hsome.2 hzero
      · rw [← hroom q]
        exact room_linkSlot t e i pidMask _ hq

/-- What `ts_output_add_pid` does for a clone: it finds two slots, or one, or none. -/
theorem Slots.addClone :
    ∃ t ok owner', s.addClone e = (t, ok) ∧ Slots none t owner' ∧ (t.outElem e).used = true ∧
      (s.RoomForAll (s.outElem e).sid 0x1fff 0x1ffe → (s.outElem e).pidList = none →
        ok = false → (t.outElem e).pidList = none) := by
  rw [Output.addClone]
  split
  · next t heq =>
    obtain ⟨ht, helem, -⟩ := hs.malloc heq
    exact ⟨t, _, owner, rfl, ht, helem ▸ hused, fun _ hnil _ => helem ▸ hnil⟩
  next t i heq =>
  obtain ⟨ht, helem, hi⟩ := hs.malloc heq
  obtain ⟨hrange, hfree⟩ := hi i rfl
  obtain ⟨hsome, hroom⟩ := hs.ranges.malloc_room heq
  have hused' : (t.outElem e).used = true := helem ▸ hused
  have hlink : Slots none (t.linkSlot e i 0x1fff 0) _ := ht.linkSlot hused' (helem ▸ hrange) hfree
  obtain ⟨hkeep, hsid⟩ := outElem_linkSlot_used t e i e 0x1fff 0
  rw [if_neg (by rw [isNone_iff_eq_none]; exact ht.chan e hused')]
  split
  · next u heq' =>
    obtain ⟨hu, helem', -⟩ := hlink.malloc heq'
    refine ⟨u, _, _, rfl, hu, ?_, fun hfits _ _ => ?_⟩
    · rw [helem', hkeep]
      exact hused'
    -- the second slot is missing, so there was no room for the first one, either
    have hzero := (hlink.ranges.malloc_room heq').1.1 rfl
    have hle := room_linkSlot t e i 0 (s.outElem e).sid (by decide : (0x1ffe : Pid) ≠ 0x1fff)
    have hsecond := hfits.resolve_left fun hzero => nomatch hsome.2 hzero
    rw [hroom] at hle
    rw [helem] at hzero
    omega
  · next u j heq' =>
    obtain ⟨hu, helem', hj⟩ := hlink.malloc heq'
    obtain ⟨hrange', hfree'⟩ := hj j rfl
    have hopen : (u.outElem e).used = true := by
      rw [helem', hkeep]
      exact hused'
    rw [← hsid, ← helem'] at hrange'
    refine ⟨_, _, _, rfl, hu.linkSlot hopen hrange' hfree', ?_, nofun⟩
    exact (outElem_linkSlot_used u e j e 0x1ffe 0x1fff).1.trans hopen

theorem Slots.addPid (pid pidMask : Pid) :
    ∃ t owner', s.tsOutputAddPid e pid pidMask = some t ∧ Slots none t.1 owner' := by
  rw [tsOutputAddPid]
  split
  · obtain ⟨t, ok, owner', heq, ht, -⟩ := hs.addClone hused
    exact ⟨_, owner', congrArg some heq, ht⟩
  · obtain ⟨t, ok, owner', heq, ht, -⟩ := hs.addDvr hused pid pidMask
    exact ⟨_, owner', heq, ht⟩

variable (hdvr : (s.outElem e).format = .dvr)
include hdvr

theorem Slots.addDvrPid (pid pidMask : Pid) :
    ∃ t ok owner', s.tsOutputAddPid e pid pidMask = some (t, ok) ∧ Slots none t owner' ∧
      Added e pid s t ok := by
  rw [tsOutputAddPid, hdvr]
  exact hs.addDvr hused pid pidMask

theorem Slots.addFeedPid (pid : Pid) :
    ∃ t ok owner', s.addFeedPid e pid = some (t, ok) ∧ Slots none t owner' ∧
      (t.outElem e).used = true ∧ (t.outElem e).format = .dvr ∧ ((s.outElem e).pidList = none →
        (pid = 0x2000 → s.RoomForAll (s.outElem e).sid 0x1fff 0x2000) →
        ok = false → (t.outElem e).pidList = none) := by
  rw [Output.addFeedPid]
  split
  · next hall =>
    subst hall
    obtain ⟨t, ok, owner', heq, ht, hfirst⟩ := hs.addDvrPid hused hdvr 0x1fff 0
    have hdvr' := hfirst.format.trans hdvr
    obtain ⟨u, ok', owner'', heq', hu, hsecond⟩ := ht.addDvrPid hfirst.used hdvr' 0x2000 0x1fff
    rw [heq]
    refine ⟨u, ok', owner'', heq', hu, hsecond.used, hsecond.format.trans hdvr',
      fun hnil hfits hok => ?_⟩
    obtain ⟨helem, hzero⟩ := hsecond.fail hok
    rw [helem]
    rcases hfits rfl with hnone | htwo
    · -- the first filter has found no slot, either
      cases ok with
      | false => rw [(hfirst.fail rfl).1, hnil]
      | true => exact absurd hnone (hfirst.some rfl hnil).ne'
    · have hle := hfirst.room 0x2000 (by decide)
      rw [hfirst.sid] at hzero
      omega
  · obtain ⟨t, ok, owner', heq, ht, hadded⟩ := hs.addDvrPid hused hdvr pid 0
    refine ⟨t, ok, owner', heq, ht, hadded.used, hadded.format.trans hdvr, fun hnil _ hok => ?_⟩
    rw [(hadded.fail hok).1, hnil]

end

/-- An element that was opened just now, with its buffer. -/
theorem Slots.opened {mem : Bool}
    (heq : s.tsOutputOpen sid format chan mem = (s', some e)) (level : ℕ) :
    Slots none (s'.tsOutputClose e).1 owner ∧ Slots none (s'.setMem e level) owner ∧
      ((s'.setMem e level).outElem e).used = true ∧
      ((s'.setMem e level).outElem e).format = format ∧ ((s'.setMem e level).outElem e).sid = sid ∧
      ((s'.setMem e level).outElem e).pidList = none ∧
      ∀ pid, (s'.setMem e level).room sid pid = s.room sid pid := by
  have hopen := hs.openElem sid format chan mem
  rw [heq] at hopen
  obtain ⟨hused, hformat, hsid, hnil, -, y, hs'⟩ := tsOutputOpen_some heq
  refine ⟨hopen.close_of_nil hused (.inr hnil), hopen.setMem hused level, ?_⟩
  rw [Output.setMem, outElem_setElem]
  refine ⟨hused, hformat, hsid, hnil, fun pid => ?_⟩
  rw [room_setElem, hs', room_setElem]

/-- A recording is added to an element that is there, or to a new one. -/
theorem Slots.feedSet (dmx sid secLevel : ℕ) (pid : Pid) (r : Resources)
    (hfits : s.tsOutputFindDvr sid secLevel = none → pid = 0x2000 →
      s.RoomForAll sid 0x1fff 0x2000) :
    ∃ s' owner', s.dmxTsFeedSet dmx sid secLevel pid r = some s' ∧ Slots none s' owner' := by
  rw [dmxTsFeedSet]
  split
  · next e he =>
    obtain ⟨hused, hdvr⟩ := tsOutputFindDvr_some he
    obtain ⟨t, ok, owner', heq, ht, hused', hdvr', -⟩ := hs.addFeedPid hused hdvr pid
    rw [heq]
    exact ⟨_, owner', rfl, ht.addCb hused' hdvr' dmx dmx r.cb⟩
  next hnone =>
  split
  · next t heq =>
    have hopen := hs.openElem sid .dvr r.chan r.node
    rw [heq] at hopen
    exact ⟨t, owner, rfl, hopen⟩
  next t e heq =>
  split
  · exact ⟨_, owner, rfl, (hs.opened heq 0).1⟩
  next level _ =>
  obtain ⟨-, hmem, hused, hdvr, hsid, hnil, hroom⟩ := hs.opened heq level
  obtain ⟨u, ok, owner', heq', hu, hused', hdvr', hfail⟩ := hmem.addFeedPid hused hdvr pid
  rw [heq']
  cases ok with
  | true => exact ⟨_, owner', rfl, hu.addCb hused' hdvr' dmx dmx r.cb⟩
  | false =>
    refine ⟨_, owner', rfl, hu.close_of_nil hused' (.inr (hfail hnil (fun hall => ?_) rfl))⟩
    rw [hsid]
    exact (hfits hnone hall).mono hroom

theorem Slots.cloneOpen (sid : ℕ) (loop : Bool) (r : Resources)
    (hfits : s.RoomForAll (loopSid sid loop) 0x1fff 0x1ffe) :
    ∃ s' owner', s.tsCloneOpenOutput sid loop r = some s' ∧ Slots none s' owner' := by
  rw [tsCloneOpenOutput]
  split
  · next t heq =>
    have hopen := hs.openElem (loopSid sid loop) .clone r.chan r.node
    rw [heq] at hopen
    exact ⟨t, owner, rfl, hopen⟩
  next t e heq =>
  obtain ⟨hclose, hmem, hused, hclone, hsid, hnil, hroom⟩ := hs.opened heq 0
  split
  · exact ⟨_, owner, rfl, hclose⟩
  obtain ⟨u, ok, owner', heq', hu, hopen', hfalse⟩ := hmem.addClone hused
  have hadd : (t.setMem e 0).tsOutputAddPid e 0x1fff 0x1fff = some (u, ok) := by
    rw [tsOutputAddPid, hclone]
    exact congrArg some heq'
  rw [hadd]
  cases ok with
  | true => exact ⟨u, owner', rfl, hu⟩
  | false =>
    refine ⟨_, owner', rfl, hu.close_of_nil hopen' (.inr (hfalse ?_ hnil rfl))⟩
    rw [hsid]
    exact hfits.mono hroom

/-! ## Runs -/

/-- The steps that the table is kept by. -/
def SlotFits (s : Output) : Op → Prop
  | .setParam num => ParamFits num
  | .removePid e _ => (s.outElem e).format = .clone → (s.outElem e).pidList = none
  | .close e => (s.outElem e).ref ≠ 0 ∨ (s.outElem e).pidList = none
  | .updateFilter dmx sid loop =>
    Placed (s.room (loopSid sid loop % 256)) (s.movedPids dmx (List.range maxOutElemNum))
  | .feedSet _ sid secLevel pid _ =>
    s.tsOutputFindDvr sid secLevel = none → pid = 0x2000 → s.RoomForAll sid 0x1fff 0x2000
  | .cloneOpen sid loop _ => s.RoomForAll (loopSid sid loop) 0x1fff 0x1ffe
  | _ => True

/-- `ts_output_init`: nothing is used. -/
structure Fresh (s : Output) : Prop where
  slot : ∀ i, (s.pidTable i).used = false
  sid : ∀ sid, (s.sidTable sid).used = false
  elem : ∀ e, (s.outElem e).used = false
  cur : s.curSidPidIndex = 0
  param : ParamFits s.maxPidNumPerSid
  hw : ∀ i, s.hw i = none

/-- The states that a run reaches. -/
inductive SlotRun : Output → Prop
  | start {s : Output} : Fresh s → SlotRun s
  | step {s s' : Output} {op : Op} : SlotRun s → s.Calls op → s.SlotFits op →
      s.step op = some s' → SlotRun s'

omit hs in
theorem Fresh.slots (hs : Fresh s) : Slots none s fun _ => none where
  used i := by
    rw [hs.slot]
    exact iff_of_false nofun fun h => h rfl
  opens := nofun
  rows i j hi := absurd (hi.symm.trans (hs.slot i)) nofun
  hw i := hs.hw i
  chan e he := absurd (he.symm.trans (hs.elem e)) nofun
  clone e he := absurd (he.symm.trans (hs.elem e)) nofun
  ranges :=
    { table := by
        rw [hs.cur]
        exact ⟨⟨le_rfl, by decide⟩, hs.param⟩
      inside := fun sid hused => absurd (hused.symm.trans (hs.sid sid)) nofun
      disjoint := fun sid _ _ hin => absurd (hin.1.symm.trans (hs.sid sid)) nofun }
  lists e _ he := absurd (he.symm.trans (hs.elem e)) nofun

theorem Slots.step {op : Op} (hcalls : s.Calls op)
    (hfits : s.SlotFits op) : ∃ s' owner', s.step op = some s' ∧ Slots none s' owner' := by
  cases op with
  | setParam num =>
    exact ⟨_, owner, rfl, hs.used, hs.opens, hs.rows, hs.hw, hs.chan, hs.clone,
      ⟨⟨hs.ranges.table.1, hfits⟩, hs.ranges.inside, hs.ranges.disjoint⟩, fun e hx he =>
        (hs.lists e hx he).imp fun l hl => { hl with }⟩
  | openElem sid format r => exact ⟨_, owner, rfl, hs.openElem sid format r.chan r.node⟩
  | addPid e pid pidMask =>
    obtain ⟨t, owner', heq, ht⟩ := hs.addPid hcalls pid pidMask
    exact ⟨t.1, owner', congrArg (Option.map Prod.fst) heq, ht⟩
  | removePid e pid => exact hs.removePid hcalls hfits pid
  | addCb e cbId demuxId mem =>
    exact ⟨_, owner, rfl, hs.addCb hcalls.1 hcalls.2 cbId demuxId mem⟩
  | removeCb e cbId => exact ⟨_, owner, rfl, hs.removeCb hcalls.1 hcalls.2 cbId⟩
  | updateFilter dmx sid loop =>
    exact hs.updateFilter dmx (loopSid sid loop) List.nodup_range hfits
  | close e => exact ⟨_, owner, rfl, hs.close_of_nil hcalls hfits⟩
  | feedSet dmx sid secLevel pid r => exact hs.feedSet dmx sid secLevel pid r hfits
  | cloneOpen sid loop r => exact hs.cloneOpen sid loop r hfits
  | cloneClose e => exact hs.cloneClose hcalls.1 hcalls.2

omit hs in
theorem SlotRun.slots (h : SlotRun s) : ∃ owner, Slots none s owner := by
  induction h with
  | start hs => exact ⟨_, hs.slots⟩
  | step _ hcalls hfits hstep ih =>
    obtain ⟨owner, hs⟩ := ih
    obtain ⟨t, owner', heq, ht⟩ := hs.step hcalls hfits
    exact ⟨owner', some.inj (heq.symm.trans hstep) ▸ ht⟩

/-- What the table is for. -/
structure SlotsOk (s : Output) : Prop where
  /-- The lists end. -/
  linked : ∀ e, (s.outElem e).used = true → Linked s.pnext (s.outElem e).pidList (s.listed e)
  once : ∀ e, (s.outElem e).used = true → (s.listed e).Nodup
  used : ∀ i, (s.pidTable i).used = true ↔ ∃ e, (s.outElem e).used = true ∧ i ∈ s.listed e
  one : ∀ e f i, (s.outElem e).used = true → (s.outElem f).used = true → i ∈ s.listed e →
    i ∈ s.listed f → e = f
  inRange : ∀ e i, (s.outElem e).used = true → i ∈ s.listed e → s.InRange (s.outElem e).sid i
  ranges : ∀ sid i, s.InRange sid i → i < maxTsPidNum
  disjoint : ∀ sid tid i, s.InRange sid i → s.InRange tid i → sid = tid
  rows : ∀ i j, (s.pidTable i).used = true → (s.pidTable j).used = true → i / 4 = j / 4 →
    (s.pidTable i).pid = (s.pidTable j).pid → i = j
  on : ∀ e i, (s.outElem e).used = true → i ∈ s.listed e → ∃ c, (s.outElem e).pchan = some c ∧
    s.hw i = some (hwPid (s.pidTable i).pid (s.pidTable i).pidMask c.id)
  off : ∀ i, (s.pidTable i).used = false → s.hw i = none

theorem Slots.listed (he : (s.outElem e).used = true) : Lists s owner e (s.listed e) := by
  obtain ⟨l, hl⟩ := hs.lists e nofun he
  rwa [hl.listed_eq hs.ranges]

theorem Slots.ok : SlotsOk s where
  linked e he := (hs.listed he).linked
  once e he := (hs.listed he).nodup
  used i := by
    rw [hs.used i]
    refine ⟨fun hne => ?_, fun ⟨e, he, hi⟩ => ?_⟩
    · obtain ⟨e, hi⟩ := ne_none_iff_exists'.1 hne
      have he := hs.opens i e hi
      exact ⟨e, he, ((hs.listed he).mem i).2 hi⟩
    · rw [((hs.listed he).mem i).1 hi]
      exact nofun
  one e f i he hf hi hi' :=
    some.inj ((((hs.listed he).mem i).1 hi).symm.trans (((hs.listed hf).mem i).1 hi'))
  inRange e i he hi := (hs.listed he).inRange i hi
  ranges _ _ hin := hs.ranges.lt hin
  disjoint := hs.ranges.disjoint
  rows := hs.rows
  on e i he hi := by
    obtain ⟨c, hc⟩ := ne_none_iff_exists'.1 (hs.chan e he)
    refine ⟨c, hc, ?_⟩
    rw [hs.hw i, ((hs.listed he).mem i).1 hi, map_some, bufferId, hc]
    rfl
  off i hi := by
    rw [hs.hw i, hs.unowned hi]
    rfl

end

/-- The slots in every state of a run, where each call returns. -/
theorem pid_slots (h : SlotRun s) :
    SlotsOk s ∧ ∀ op, s.Calls op → s.SlotFits op → ∃ s', s.step op = some s' := by
  obtain ⟨owner, hs⟩ := h.slots
  refine ⟨hs.ok, fun op hcalls hfits => ?_⟩
  obtain ⟨t, -, heq, -⟩ := hs.step hcalls hfits
  exact ⟨t, heq⟩

/-- Nothing is used, and a stream id gets 32 slots. -/
def cleared : Output where
  pidTable _ := ⟨false, 0, 0, 0, none⟩
  sidTable _ := ⟨false, 0, 0⟩
  outElem _ := ⟨false, 0, .dvr, 0, none, none, []⟩
  curSidPidIndex := 0
  maxPidNumPerSid := 32
  hw _ := none

theorem fresh_cleared : Fresh cleared :=
  ⟨fun _ => rfl, fun _ => rfl, fun _ => rfl, rfl, ⟨by decide, by decide⟩, fun _ => rfl⟩

/-- All that is asked for is there; the buffer is `id`. -/
def plenty (id : ℕ) : Resources := ⟨some ⟨id, 0⟩, true, some 0, true⟩

/-- The steps one after the other. -/
def run (s : Output) (ops : List Op) : Option Output := ops.foldlM step s

/-- Each of the steps may be taken. -/
def RunFits (s : Output) : List Op → Prop
  | [] => True
  | op :: ops => (s.Calls op ∧ s.SlotFits op) ∧ ∀ s' ∈ s.step op, s'.RunFits ops

instance (r : Pid → ℕ) (l : List Pid) : Decidable (Placed r l) :=
  List.decidableBAll _ l

instance (s : Output) (sid : ℕ) (first second : Pid) : Decidable (s.RoomForAll sid first second) :=
  inferInstanceAs (Decidable (_ ∨ _))

instance decidableCalls (s : Output) : (op : Op) → Decidable (s.Calls op ∧ s.SlotFits op)
  | .setParam num => inferInstanceAs (Decidable (True ∧ 0 ≤ num ∧ num ≤ maxTsPidNum))
  | .openElem .. => inferInstanceAs (Decidable (True ∧ True))
  | .addPid .. => inferInstanceAs (Decidable (_ = true ∧ True))
  | .addCb e .. | .removeCb e _ => inferInstanceAs (Decidable
      (((s.outElem e).used = true ∧ (s.outElem e).format = .dvr) ∧ True))
  | .cloneClose e => inferInstanceAs (Decidable
      (((s.outElem e).used = true ∧ (s.outElem e).format = .clone) ∧ True))
  | .removePid .. => inferInstanceAs (Decidable (_ = true ∧ (_ = Format.clone → _ = none)))
  | .close _ => inferInstanceAs (Decidable (_ = true ∧ (_ ≠ 0 ∨ _ = none)))
  | .updateFilter dmx sid loop => inferInstanceAs (Decidable (True ∧
      Placed (s.room (loopSid sid loop % 256)) (s.movedPids dmx (List.range maxOutElemNum))))
  | .feedSet _ sid secLevel pid _ => inferInstanceAs (Decidable (True ∧
      (s.tsOutputFindDvr sid secLevel = none → pid = 0x2000 → s.RoomForAll sid 0x1fff 0x2000)))
  | .cloneOpen sid loop _ =>
    inferInstanceAs (Decidable (True ∧ s.RoomForAll (loopSid sid loop) 0x1fff 0x1ffe))

instance decidableRunFits : (ops : List Op) → (s : Output) → Decidable (s.RunFits ops)
  | [], _ => isTrue trivial
  | op :: ops, s =>
    have := decidableRunFits ops
    inferInstanceAs (Decidable (_ ∧ ∀ s' ∈ s.step op, s'.RunFits ops))

theorem RunFits.slotRun {ops : List Op} (hfits : s.RunFits ops) (hrun : SlotRun s) :
    ∃ t ∈ s.run ops, SlotRun t := by
  induction ops generalizing s with
  | nil => exact ⟨s, rfl, hrun⟩
  | cons op ops ih =>
    obtain ⟨⟨hcalls, hop⟩, hrest⟩ := hfits
    obtain ⟨owner, hs⟩ := hrun.slots
    obtain ⟨s', -, hstep, -⟩ := hs.step hcalls hop
    obtain ⟨t, ht, hrun'⟩ := ih (hrest s' hstep) (.step hrun hcalls hop hstep)
    refine ⟨t, ?_, hrun'⟩
    rw [run, List.foldlM_cons, hstep]
    exact ht

/-- Two PIDs are recorded, and move to a stream id with half the slots, where one of the PIDs and a
    clone are there already. -/
def moving : List Op :=
  [.feedSet 2 0 0 7 (plenty 8), .feedSet 2 0 0 8 (plenty 8), .setParam 16,
    .feedSet 9 1 0 7 (plenty 9), .cloneOpen 1 false (plenty 5), .updateFilter 2 1 false,
    .openElem 3 .dvr (plenty 4), .addPid 3 0x21 0, .removePid 3 0x21]

/-- The PID that is there already gets a slot in another row. -/
theorem pid_slots_move :
    ∃ s, SlotRun s ∧ SlotsOk s ∧ s.listed 0 = [35, 36] ∧ s.listed 1 = [32] ∧
      s.listed 2 = [34, 33] ∧ s.hw 36 = some (hwPid 7 0 8) ∧ s.hw 0 = none := by
  have hfits : cleared.RunFits moving := by decide +kernel
  have hlist : ∀ t ∈ cleared.run moving, t.listed 0 = [35, 36] ∧ t.listed 1 = [32] ∧
      t.listed 2 = [34, 33] ∧ t.hw 36 = some (hwPid 7 0 8) ∧ t.hw 0 = none := by
    decide +kernel
  obtain ⟨t, ht, hrun⟩ := hfits.slotRun (.start fresh_cleared)
  exact ⟨t, hrun, (pid_slots hrun).1, hlist t ht⟩

/-- The slot is used, and no open element has it. -/
def Lost (s : Output) (i : ℕ) : Prop :=
  (s.pidTable i).used = true ∧ ∀ e < maxOutElemNum, (s.outElem e).used = true → i ∉ s.listed e

instance (s : Output) (i : ℕ) : Decidable (s.Lost i) := inferInstanceAs (Decidable (_ ∧ _))

/-- Recordings of `n` PIDs from 100 on, for the stream id 1. -/
def fill (n : ℕ) : List Op :=
  (List.range n).map fun k => .feedSet 9 1 0 (BitVec.ofNat 16 (100 + k)) (plenty 9)

/-- Where the range of a stream id is full but for one slot, a demux with two PIDs moves to it, a
    feed for all packets and a clone are opened for it; and the PIDs of a clone are removed. -/
theorem pid_slots_lost :
    (∃ s ∈ cleared.run (fill 31 ++ [.feedSet 2 0 0 7 (plenty 8), .feedSet 2 0 0 8 (plenty 8),
      .updateFilter 2 1 false]), s.Lost 31 ∧ ∃ i ∈ s.listed 1, (s.pidTable i).used = false) ∧
    (∃ s ∈ cleared.run (fill 31 ++ [.feedSet 2 1 1 0x2000 (plenty 8)]), s.Lost 31) ∧
    (∃ s ∈ cleared.run (fill 31 ++ [.cloneOpen 1 false (plenty 8)]), s.Lost 31) ∧
    (∃ s ∈ cleared.run [.openElem 0 .clone (plenty 8), .addPid 0 0x1fff 0x1fff,
      .removePid 0 0x1fff], (s.outElem 0).used = true ∧
        ∃ i ∈ s.listed 0, (s.pidTable i).used = false) := by
  decide +kernel

end Output

end CommonDrivers.PidFilter
