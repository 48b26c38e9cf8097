import CommonDrivers.Dvb.TsOutput.PidTable

/-!
# The lists of slots

The calls that open and close elements and that add and remove PIDs keep the table and its owners
(`Slots`), where the call fails for want of a slot, too.

* `Slots.linkSlot`: a slot comes to the list of an element;
* `Slots.removeDvr`: a slot is taken out of the list of a recording;
* `Slots.cloneClose`: the slots of a clone go together with it.
-/

namespace CommonDrivers.PidFilter

open List Function

namespace Output

variable {s s' : Output} {sid e f i j : ℕ} {pid pidMask : Pid} {x : Option ℕ}
  {owner : ℕ → Option ℕ} {l : List ℕ}

/-- The state after the search for a slot, and the slot that is found. -/
theorem Slots.malloc (hs : Slots x s owner) {r : Option ℕ}
    (heq : s.mallocPidEntrySlot sid pid = (s', r)) : Slots x s' owner ∧ s'.outElem = s.outElem ∧
      ∀ i, r = some i → s'.InRange sid i ∧ s'.isFree pid i = true := by
  have hfst : (s.initSidPid sid).1 = s' := by
    rw [← mallocPidEntrySlot_fst s sid pid, heq]
  have hsame := sameTable_initSidPid s sid
  have hspec := (mallocPidEntrySlot_spec hs.ranges sid pid).2
  rw [hfst] at hsame hspec
  refine ⟨hfst ▸ hs.initSidPid sid, hsame.outElem, fun i hi => ?_⟩
  rw [isFree_congr hsame.pidTable]
  exact hspec i (by rw [heq, hi])

/-! ## Elements -/

theorem Slots.openElem (hs : Slots none s owner) (sid : ℕ) (format : Format) (chan : Option Chan)
    (mem : Bool) : Slots none (s.tsOutputOpen sid format chan mem).1 owner := by
  rw [tsOutputOpen]
  split
  · exact hs
  split
  · exact hs
  next e he =>
  have hclosed : (s.outElem e).used = false := by
    have := find?_some he
    rwa [Bool.not_eq_true'] at this
  have hno : ∀ i, owner i ≠ some e := fun i hi =>
    absurd ((hs.opens i e hi).symm.trans hclosed) nofun
  split
  · refine (hs.start e).setElem_of_empty hno fun hused => ?_
    cases hused.symm.trans hclosed
  split
  · exact (hs.start e).setElem_of_empty hno fun _ => ⟨nofun, fun _ => rfl, rfl⟩
  · refine (hs.start e).setElem_of_empty hno fun hused => ?_
    cases hused.symm.trans hclosed

theorem Slots.close (hs : Slots (some e) s owner) (hno : ∀ i, owner i ≠ some e)
    (href : (s.outElem e).ref = 0) : Slots none (s.tsOutputClose e).1 owner := by
  rw [tsOutputClose, if_neg (not_not.2 href)]
  exact hs.setElem_of_empty hno nofun

theorem Lists.not_owned_of_nil (hl : Lists s owner e []) (i : ℕ) : owner i ≠ some e :=
  fun hi => not_mem_nil ((hl.mem i).2 hi)

theorem Lists.eq_nil (hl : Lists s owner e l) (hnil : (s.outElem e).pidList = none) : l = [] := by
  have hhead := hl.linked.head
  rw [hnil] at hhead
  exact head?_eq_none_iff.1 hhead.symm

section

variable (hs : Slots none s owner)
include hs

variable (hused : (s.outElem e).used = true)
include hused

/-- An element without slots is closed, or stays. -/
theorem Slots.close_of_nil (hfits : (s.outElem e).ref ≠ 0 ∨ (s.outElem e).pidList = none) :
    Slots none (s.tsOutputClose e).1 owner := by
  by_cases href : (s.outElem e).ref = 0
  · obtain ⟨l, hl⟩ := hs.lists e nofun hused
    obtain rfl := hl.eq_nil (hfits.resolve_left (not_not.2 href))
    exact (hs.start e).close hl.not_owned_of_nil href
  · rw [tsOutputClose, if_pos href]
    exact hs

/-- An element changes, but for its slots. -/
theorem Slots.setElem_same {y : Elem} (hy : y.used = true)
    (hchan : y.pchan.map Chan.id = (s.outElem e).pchan.map Chan.id)
    (hclone : y.format = .clone → y.ref = 0) (hlist : y.pidList = (s.outElem e).pidList)
    (hsid : y.sid = (s.outElem e).sid) : Slots none (s.setElem e y) owner := by
  obtain ⟨l, hl⟩ := hs.lists e nofun hused
  exact ((hs.start e).setElem (hy.trans hused.symm) hchan fun _ => hclone).finish
    (hl.setElem hlist hsid)

theorem Slots.setMem (level : ℕ) : Slots none (s.setMem e level) owner := by
  refine hs.setElem_same hused hused ?_ (hs.clone e hused) rfl rfl
  rw [Option.map_map]
  rfl

theorem Slots.addCb (hdvr : (s.outElem e).format = .dvr) (cbId demuxId : ℕ) (mem : Bool) :
    Slots none (s.tsOutputAddCb e cbId demuxId mem) owner := by
  have hclone : (s.outElem e).format ≠ .clone := hdvr ▸ nofun
  rw [tsOutputAddCb]
  split
  · exact hs.setElem_same hused hused rfl (fun h => absurd h hclone) rfl rfl
  split
  · exact hs.setElem_same hused hused rfl (fun h => absurd h hclone) rfl rfl
  · exact hs

theorem Slots.removeCb (hdvr : (s.outElem e).format = .dvr) (cbId : ℕ) :
    Slots none (s.tsOutputRemoveCb e cbId) owner := by
  have hclone : (s.outElem e).format ≠ .clone := hdvr ▸ nofun
  rw [tsOutputRemoveCb]
  split
  · exact hs
  split <;> exact hs.setElem_same hused hused rfl (fun h => absurd h hclone) rfl rfl

end

/-! ## PIDs are added -/

theorem linkSlot_eq (s : Output) (e i : ℕ) (pid pidMask : Pid) : s.linkSlot e i pid pidMask =
      ((s.setSlot i ⟨true, pid, pidMask, 1, (s.outElem e).pidList⟩).turnOn i e).setElem e
        { s.outElem e with pidList := some i } := by
  rw [linkSlot, turnOn, turnOn, bufferId, outElem_setElem, bufferId]
  rfl

theorem Slots.linkSlot (hs : Slots none s owner) (hused : (s.outElem e).used = true)
    (hrange : s.InRange (s.outElem e).sid i) (hfree : s.isFree pid i = true) :
    Slots none (s.linkSlot e i pid pidMask) (update owner i (some e)) := by
  obtain ⟨l, hl⟩ := hs.lists e nofun hused
  have hnone := hs.unowned (isFree_iff.1 hfree).1
  have hout : i ∉ l := fun hi => by
    rw [hl.mem, hnone] at hi
    cases hi
  rw [linkSlot_eq]
  have htake := (hs.start e).take (y := ⟨true, pid, pidMask, 1, (s.outElem e).pidList⟩) hused hfree
    rfl
  refine (htake.setElem (y := { s.outElem e with pidList := some i }) rfl rfl (hs.clone e)).finish
    (l := i :: l) ⟨?_, nodup_cons.2 ⟨hout, hl.nodup⟩, fun j => ?_, fun j hj => ?_⟩
  · rw [outElem_setElem]
    refine ⟨rfl, ?_⟩
    change Linked _ ((s.setSlot i _).pidTable i).pnext l
    rw [pidTable_setSlot]
    refine hl.linked.congr fun j hj => ?_
    exact congrArg Slot.pnext (pidTable_setSlot_of_ne s _ (ne_of_mem_of_not_mem hj hout))
  · rw [mem_cons, update_apply]
    split_ifs with hj
    · exact iff_of_true (.inl hj) rfl
    · rw [or_iff_right hj]
      exact hl.mem j
  · rw [outElem_setElem]
    rcases mem_cons.1 hj with rfl | hj
    · exact hrange
    · exact hl.inRange j hj

theorem outElem_linkSlot_used (s : Output) (e i f : ℕ) (pid pidMask : Pid) :
    ((s.linkSlot e i pid pidMask).outElem f).used = (s.outElem f).used ∧
      ((s.linkSlot e i pid pidMask).outElem f).sid = (s.outElem f).sid := by
  rw [linkSlot_eq, outElem_setElem_apply]
  split_ifs with hf
  · subst hf
    exact ⟨rfl, rfl⟩
  · exact ⟨rfl, rfl⟩

theorem Lists.findPid (hl : Lists s owner e l) (hs : Ranges s) (pid : Pid) :
    ∃ r, s.findPid e pid = some ((), r) := by
  have hwalk : ∃ u r, walk (fun _ => s.pnext) (fun i u => (u, (s.pidTable i).pid == pid))
      maxTsPidNum (s.outElem e).pidList () = some (u, r) ∧ True := by
    refine walk_spec (I := fun m _ => ∃ p, Linked s.pnext p m) ⟨_, hl.linked⟩ hl.linked.head
      (hl.length_le hs) ?_ fun _ _ => trivial
    rintro i m - ⟨p, -, hm⟩
    split
    · trivial
    · exact ⟨hm.head, _, hm⟩
  obtain ⟨u, r, heq, -⟩ := hwalk
  exact ⟨r, heq⟩

/-! ## PIDs are removed -/

theorem pnext_give (s : Output) (i j : ℕ) :
    ((s.turnOff i).freePidEntrySlot i).pnext j = s.pnext j := by
  rw [pnext, freePidEntrySlot]
  by_cases hj : j = i
  · subst hj
    rw [pidTable_setSlot]
    rfl
  · rw [pidTable_setSlot_of_ne _ _ hj]
    rfl

section

variable (hs : Slots none s owner)
include hs

/-- The slot behind `prev` is taken out of the list. -/
theorem Slots.unlink {a b : List ℕ} (hl : Lists s owner e (a ++ i :: b)) :
    Slots none (((s.unlink e a.getLast? i).turnOff i).freePidEntrySlot i)
      (update owner i none) := by
  have hnodup := hl.nodup
  have hi : owner i = some e := (hl.mem i).1 (mem_append_right a mem_cons_self)
  have hout : i ∉ a ++ b := (nodup_cons.1 (nodup_middle.1 hnodup)).1
  have hsub : (a ++ b).Sublist (a ++ i :: b) := (sublist_cons_self i b).append_left a
  have hmem : ∀ j, j ∈ a ++ b ↔ update owner i none j = some e := fun j => by
    rw [update_apply]
    split_ifs with hj
    · subst hj
      exact iff_of_false hout nofun
    · rw [← hl.mem j, mem_append, mem_append, mem_cons, or_iff_right hj]
  rcases eq_nil_or_concat a with rfl | ⟨a, j, rfl⟩
  · -- it is the first of the list
    have hs' := ((hs.start e).setElem (y := { s.outElem e with pidList := s.pnext i }) rfl rfl
      (hs.clone e)).give hi
    refine hs'.finish (l := b) ⟨?_, hnodup.of_cons, hmem, fun k hk => ?_⟩
    · refine Linked.congr ?_ fun k _ => pnext_give _ i k
      change Linked s.pnext ((s.setElem e _).outElem e).pidList b
      rw [outElem_setElem]
      exact hl.linked.2
    · change s.InRange ((s.setElem e _).outElem e).sid k
      rw [outElem_setElem]
      exact hl.inRange k (mem_cons_of_mem i hk)
  · rw [concat_eq_append] at *
    -- its predecessor gets its link
    have hlast : (a ++ [j]).getLast? = some j := getLast?_concat
    rw [hlast]
    have hj : owner j = some e := (hl.mem j).1 (by simp)
    have hs' := ((hs.start e).relink (y := { s.pidTable j with pnext := s.pnext i }) rfl rfl rfl
      (.inr hj)).give hi
    refine hs'.finish (l := a ++ [j] ++ b) ⟨?_, hnodup.sublist hsub, hmem, fun k hk => ?_⟩
    · refine Linked.congr ?_ fun k _ => pnext_give _ i k
      have hlinked := hl.linked
      rw [append_assoc, singleton_append] at hlinked hnodup ⊢
      have hne : ∀ k ∈ a ++ b, k ≠ j := by
        rintro k hk rfl
        refine (nodup_cons.1 (nodup_middle.1 hnodup)).1 ?_
        exact ((sublist_cons_self i b).append_left a).subset hk
      refine hlinked.relink (fun k hk => ?_) ?_
      · exact congrArg Slot.pnext (pidTable_setSlot_of_ne s _ (hne k (mem_append_left b hk)))
      change Linked _ ((s.setSlot j _).pidTable j).pnext b
      rw [pidTable_setSlot]
      refine hlinked.of_append.2.congr fun k hk => ?_
      exact congrArg Slot.pnext (pidTable_setSlot_of_ne s _ (hne k (mem_append_right a hk)))
    · exact hl.inRange k (hsub.subset hk)

section

variable (hused : (s.outElem e).used = true)
include hused

theorem Slots.removeDvr (pid : Pid) :
    ∃ s' owner', s.removeDvr e pid = some s' ∧ Slots none s' owner' := by
  obtain ⟨l, hl⟩ := hs.lists e nofun hused
  -- the walk is left at a slot of the list, with the one before it
  have hwalk : ∃ prev r, walk (fun _ => s.pnext)
      (fun i prev => if (s.pidTable i).pid = pid ∧ (s.pidTable i).ref ≠ 0 then (prev, true)
        else (some i, false)) maxTsPidNum (s.outElem e).pidList none = some (prev, r) ∧
      ∀ i, r = some i → ∃ a b, l = a ++ i :: b ∧ prev = a.getLast? := by
    refine walk_spec (I := fun m prev => (∃ p, Linked s.pnext p m) ∧
      ∃ a, l = a ++ m ∧ prev = a.getLast?) ⟨⟨_, hl.linked⟩, [], rfl, rfl⟩ hl.linked.head
      (hl.length_le hs.ranges) ?_ fun _ _ => nofun
    rintro i m prev ⟨⟨p, -, hm⟩, a, ha, hprev⟩
    by_cases hfound : (s.pidTable i).pid = pid ∧ (s.pidTable i).ref ≠ 0
    · rw [if_pos hfound, if_pos rfl]
      rintro j ⟨⟩
      exact ⟨a, m, ha, hprev⟩
    · rw [if_neg hfound, if_neg Bool.false_ne_true]
      refine ⟨hm.head, ⟨_, hm⟩, a ++ [i], ?_, getLast?_concat.symm⟩
      rw [ha, append_assoc, singleton_append]
  obtain ⟨prev, r, heq, hfound⟩ := hwalk
  rw [Output.removeDvr, heq]
  cases r with
  | none => exact ⟨s, owner, rfl, hs⟩
  | some i =>
    obtain ⟨a, b, rfl, rfl⟩ := hfound i rfl
    dsimp only
    split
    · exact ⟨_, owner, rfl, hs.relink rfl rfl rfl (.inl rfl)⟩
    · exact ⟨_, _, rfl, hs.unlink hl⟩

/-- All slots of a clone go, but its list still has them. -/
theorem Slots.removeClone : ∃ s' owner', s.removeClone e = some s' ∧ Slots (some e) s' owner' ∧
      (∀ i, owner' i ≠ some e) ∧ s'.outElem = s.outElem := by
  obtain ⟨l, hl⟩ := hs.lists e nofun hused
  have hwalk : ∃ t r, walk pnext (fun i s => ((s.turnOff i).freePidEntrySlot i, false))
      maxTsPidNum (s.outElem e).pidList s = some (t, r) ∧
      ∃ owner', Slots (some e) t owner' ∧ (∀ i, owner' i ≠ some e) ∧ t.outElem = s.outElem := by
    refine walk_spec (I := fun m t => ∃ owner', Slots (some e) t owner' ∧ m.Nodup ∧
      (∀ i, i ∈ m ↔ owner' i = some e) ∧ t.outElem = s.outElem ∧ ∃ p, Linked t.pnext p m)
      ⟨owner, hs.start e, hl.nodup, hl.mem, rfl, _, hl.linked⟩ hl.linked.head
      (hl.length_le hs.ranges) ?_ ?_
    · rintro i m t ⟨owner', ht, hnodup, hmem, helem, p, -, hm⟩
      have hout := (nodup_cons.1 hnodup).1
      refine ⟨(pnext_give t i i).trans hm.head, _, ht.give ((hmem i).1 mem_cons_self),
        hnodup.of_cons, fun j => ?_, helem, _, hm.congr fun j _ => pnext_give t i j⟩
      rw [update_apply]
      split_ifs with hj
      · subst hj
        exact iff_of_false hout nofun
      · rw [← hmem j, mem_cons, or_iff_right hj]
    · rintro t ⟨owner', ht, -, hmem, helem, -⟩
      exact ⟨owner', ht, fun i hi => not_mem_nil ((hmem i).2 hi), helem⟩
  obtain ⟨t, r, heq, owner', ht, hno, helem⟩ := hwalk
  rw [Output.removeClone, heq]
  exact ⟨t, owner', rfl, ht, hno, helem⟩

/-- A clone is closed with its slots. -/
theorem Slots.cloneClose (hclone : (s.outElem e).format = .clone) :
    ∃ s' owner', s.tsCloneCloseOutput e = some s' ∧ Slots none s' owner' := by
  obtain ⟨t, owner', heq, ht, hno, helem⟩ := hs.removeClone hused
  have href : (t.outElem e).ref = 0 := by
    rw [helem]
    exact hs.clone e hused hclone
  rw [tsCloneCloseOutput, tsOutputRemovePid, hclone]
  rw [heq]
  exact ⟨_, owner', rfl, ht.close hno href⟩

/-- A clone without slots has none to remove. -/
theorem Slots.removePid (hfits : (s.outElem e).format = .clone → (s.outElem e).pidList = none)
    (pid : Pid) : ∃ s' owner', s.tsOutputRemovePid e pid = some s' ∧ Slots none s' owner' := by
  rw [tsOutputRemovePid]
  split
  · next hclone =>
    rw [Output.removeClone, hfits hclone, walk_none]
    exact ⟨s, owner, rfl, hs⟩
  · exact hs.removeDvr hused pid

end

end

end Output

end CommonDrivers.PidFilter
