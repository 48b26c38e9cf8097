import CommonDrivers.Lib.Run
import CommonDrivers.Media.Ge2d.ContextInv

/-!
# The order of the work of the 2D engine

`work_order` is about every run of clients and monitor in which an enqueued command does not get an
item that has ended a group before. The blocks that a context has executed are the first ones of
those that its client has asked for: each single command, and each group from the first command
that was enqueued to the one that was posted last. A client that waits returns when its own block is
executed, and when the monitor sleeps no block is left. If no context has an open group, finitely
many steps of the monitor execute all blocks: `rank` drops with each of them.

`ge2d_wq_add_work` takes an item from the free list with the flags it has. The last item of a group
comes back there with both flags set, and a command that is enqueued in it is executed at once,
before it is posted (`work_order_lost`). A group that is open when the monitor comes to it stops the
monitor for all contexts. The driver relies on its clients for the rest
(`Step.Meant`): it does not count the commands of a group, it writes behind the context when an
empty queue is posted, a single command that is added to an open group is taken with it, and a
signal ends a wait.
-/

namespace CommonDrivers.Media.Ge2d

open List Function Option

variable {C Cmd : Type*}

/-- The client of a context uses it as it is meant: a group is posted when it is not empty and not
    larger than the buffers, single commands come between the groups, nobody waits for a command
    that is only enqueued, and a wait is not interrupted. The memory behind a context does not look
    like the flags of an item. -/
def Step.Meant (maxCmdCnt : ℕ) (s : Manager C Cmd) : Step C Cmd → Prop
  | .add wq _ waitDone enqueue _ =>
    if enqueue then waitDone = false else (blocks (s.contexts wq).calls).2 = []
  | .post wq _ =>
    (blocks (s.contexts wq).calls).2 ≠ [] ∧ (blocks (s.contexts wq).calls).2.length ≤ maxCmdCnt
  | .client _ => True
  | .signal _ => False
  | .monitor past => past = false

/-- A command that is enqueued does not get an item with the flag of a last item. -/
def Step.Clean (s : Manager C Cmd) : Step C Cmd → Prop
  | .add wq _ _ enqueue _ =>
    enqueue = true → ∀ x ∈ (s.contexts wq).freeQueue.head?, (s.contexts wq).isLast x = false
  | _ => True

instance [DecidableEq Cmd] (maxCmdCnt : ℕ) (s : Manager C Cmd) :
    DecidablePred (Step.Meant maxCmdCnt s)
  | .add wq _ waitDone enqueue _ => inferInstanceAs
    (Decidable (if enqueue then waitDone = false else (blocks (s.contexts wq).calls).2 = []))
  | .post _ _ => inferInstanceAs (Decidable (_ ∧ _))
  | .client _ => .isTrue trivial
  | .signal _ => .isFalse id
  | .monitor _ => inferInstanceAs (Decidable (_ = _))

instance (s : Manager C Cmd) : DecidablePred (Step.Clean s)
  | .add _ _ _ _ _ => inferInstanceAs (Decidable (_ → ∀ _ ∈ _, _))
  | .post _ _ => .isTrue trivial
  | .client _ => .isTrue trivial
  | .signal _ => .isTrue trivial
  | .monitor _ => .isTrue trivial

/-- The call will complete `cmd_in_com`. -/
def Client.Completing : Client → Prop
  | .added _ _ _ => True
  | .posted _ _ _ => True
  | _ => False

variable [DecidableEq C]

/-- Where the monitor is for a context. -/
def Monitor.stage (wq : C) : Monitor C Cmd → Stage Cmd
  | .sleeping => .top
  | .picking => .top
  | .working wq' v => if wq' = wq then v else .top

namespace Manager

variable {maxCmdCnt : ℕ} {s s' : Manager C Cmd} {wq : C} {c : Context Cmd} {op : Step C Cmd}
  {v : Stage Cmd} {x n : ℕ} {past : Bool} {m : Monitor C Cmd}

/-- All contexts are new, and the monitor goes round them. -/
def Initial (s : Manager C Cmd) : Prop :=
  ∃ processQueue, (∀ wq, wq ∈ processQueue) ∧ s = init Cmd processQueue

/-- The states of the runs whose steps are all as `Q` says. -/
abbrev Reachable (Q : Manager C Cmd → Step C Cmd → Prop) : Manager C Cmd → Prop :=
  Reached Initial step Q

/-- The contexts, and why the monitor need not be awake. -/
structure Inv (maxCmdCnt : ℕ) (s : Manager C Cmd) : Prop where
  context wq : (s.contexts wq).Inv maxCmdCnt (s.monitor.stage wq)
  all wq : wq ∈ s.processQueue
  awake : s.monitor = .sleeping → 0 < s.done ∨ (∃ wq, (s.contexts wq).client.Completing) ∨
    ∀ wq, (parse [] ((s.contexts wq).items (s.contexts wq).workQueue)).1 = []

theorem inv_init {processQueue : List C} (h : ∀ wq, wq ∈ processQueue) :
    (init Cmd processQueue).Inv maxCmdCnt where
  context _ := Context.inv_new
  all := h
  awake _ := .inr (.inr fun _ => rfl)

theorem contexts_setContext_self (s : Manager C Cmd) (wq : C) (c : Context Cmd) :
    (s.setContext wq c).contexts wq = c := update_self ..

theorem setContext_self (s : Manager C Cmd) (wq : C) : s.setContext wq (s.contexts wq) = s := by
  rw [setContext, update_eq_self]

theorem contexts_setContext_of_ne {wq' : C} (h : wq' ≠ wq) :
    (s.setContext wq c).contexts wq' = s.contexts wq' := update_of_ne h ..

section

variable (h : s.Inv maxCmdCnt)
include h

/-- A context changes, and the monitor with it or elsewhere. -/
theorem Inv.setContext (hc : c.Inv maxCmdCnt (m.stage wq))
    (hm : ∀ wq' ≠ wq, m.stage wq' = s.monitor.stage wq') :
    ∀ wq', ((s.setContext wq c).contexts wq').Inv maxCmdCnt (m.stage wq') := by
  intro wq'
  by_cases heq : wq' = wq
  · subst heq
    rwa [contexts_setContext_self]
  · rw [contexts_setContext_of_ne heq, hm wq' heq]
    exact h.context wq'

/-! ## The clients -/

section

variable (hc : c.Inv maxCmdCnt (s.monitor.stage wq))
include hc

/-- A client has a call to complete, so that the monitor will wake up. -/
theorem Inv.of_completing (hclient : c.client.Completing) : (s.setContext wq c).Inv maxCmdCnt where
  context := h.setContext hc fun _ _ => rfl
  all := h.all
  awake _ := .inr (.inl ⟨wq, by rwa [contexts_setContext_self]⟩)

/-- A client does something that is no work for the monitor. -/
theorem Inv.of_same (hclient : (s.contexts wq).client.Completing → c.client.Completing)
    (hparse : s.monitor = .sleeping → (parse [] (c.items c.workQueue)).1 =
      (parse [] ((s.contexts wq).items (s.contexts wq).workQueue)).1) :
    (s.setContext wq c).Inv maxCmdCnt where
  context := h.setContext hc fun _ _ => rfl
  all := h.all
  awake hm := by
    obtain hdone | ⟨wq', hcomp⟩ | hnil := h.awake hm
    · exact .inl hdone
    · refine .inr (.inl ⟨wq', ?_⟩)
      by_cases heq : wq' = wq
      · subst heq
        rw [contexts_setContext_self]
        exact hclient hcomp
      · rwa [contexts_setContext_of_ne heq]
    refine .inr (.inr fun wq' => ?_)
    by_cases heq : wq' = wq
    · subst heq
      rw [contexts_setContext_self, hparse hm]
      exact hnil wq'
    · rw [contexts_setContext_of_ne heq]
      exact hnil wq'

/-- A client completes its call. -/
theorem Inv.complete : (s.setContext wq c).complete.Inv maxCmdCnt where
  context := h.setContext hc fun _ _ => rfl
  all := h.all
  awake _ := by
    refine .inl ?_
    change 0 < if s.done = 0 then 1 else s.done
    split <;> omega

end

/-- A command is in the work queue, as a single one or enqueued. -/
theorem Inv.put {it : Item Cmd} {freeQueue : List ℕ} (hidle : (s.contexts wq).client = .idle)
    (hp : Context.Puts (s.contexts wq) ((s.contexts wq).put x freeQueue it) x it)
    (henqueue : it.queueMode = true → it.last = false ∧ it.waitDone = false)
    (hsingle : it.queueMode = false → (blocks (s.contexts wq).calls).2 = []) : (s.setContext wq
      { (s.contexts wq).put x freeQueue it with
        client := if it.queueMode then .idle
          else .added x it.waitDone (blocks ((s.contexts wq).put x freeQueue it).calls).1.length
      }).Inv maxCmdCnt := by
  have hctx := h.context wq
  cases hmode : it.queueMode with
  | true =>
    obtain ⟨hlast, hwait⟩ := henqueue hmode
    have hcalls : ((s.contexts wq).put x freeQueue it).calls =
        (s.contexts wq).calls ++ [.enqueue it.cmd] := by
      rw [Context.put, hmode]
      rfl
    have hp' : Context.Puts (s.contexts wq)
        { (s.contexts wq).put x freeQueue it with client := .idle } x it :=
      { hp with }
    refine h.of_same (hctx.enqueue hp' hidle rfl hcalls hmode hlast hwait) ?_ fun hm => ?_
    · rw [hidle]
      exact False.elim
    rw [hm] at hctx
    have hitems := hp'.items hctx
    rw [Monitor.stage, Stage.rest] at hitems
    rw [if_pos rfl, hitems, parse_enqueue _ _ hmode hlast]
    rfl
  | false =>
    have hcalls : ((s.contexts wq).put x freeQueue it).calls =
        (s.contexts wq).calls ++ [.single it.cmd] := by
      rw [Context.put, hmode]
      rfl
    have hp' : Context.Puts (s.contexts wq)
        { (s.contexts wq).put x freeQueue it with
          client := .added x it.waitDone
            (blocks ((s.contexts wq).put x freeQueue it).calls).1.length } x it :=
      { hp with }
    exact h.of_completing (hctx.single hp' hidle hcalls rfl hmode (hsingle hmode)) trivial

theorem Inv.add {cmd : Cmd} {waitDone enqueue : Bool} {addr : Option ℕ}
    (hidle : (s.contexts wq).client = .idle)
    (hmeant : (Step.add wq cmd waitDone enqueue addr).Meant maxCmdCnt s)
    (hclean : (Step.add wq cmd waitDone enqueue addr).Clean s)
    (hadd : s.add wq cmd waitDone enqueue addr = some s') : s'.Inv maxCmdCnt := by
  have hctx := h.context wq
  have hsingle : enqueue = false → (blocks (s.contexts wq).calls).2 = [] := by
    rintro rfl
    exact hmeant
  have hwait : enqueue = true → waitDone = false := by
    rintro rfl
    exact hmeant
  obtain ⟨⟨c, y⟩, hwork, rfl⟩ := map_eq_some_iff.1 hadd
  rw [Context.addWork.eq_def] at hwork
  split at hwork
  · next _ x free hfree =>
    obtain ⟨it, hx, heq⟩ := map_eq_some_iff.1 hwork
    cases heq
    have hnodup : (x :: free).Nodup := hfree ▸ hctx.nodup.of_append_right
    have hmem : x ∈ (s.contexts wq).freeQueue := hfree ▸ mem_cons_self
    refine h.put hidle ⟨rfl, rfl, rfl, fun y hy => ?_, hnodup, hctx.not_mem_workQueue hmem⟩
      (fun hmode => ⟨?_, hwait hmode⟩) hsingle
    · rw [hfree]
      exact mem_cons_of_mem x hy
    · have hlast := hclean hmode x (by rw [hfree]; rfl)
      rwa [Context.isLast, hx] at hlast
  · cases hwork
    exact h.of_same hctx id fun _ => rfl
  · next x hfree =>
    split at hwork
    · cases hwork
    next hx =>
    cases hwork
    have hfresh : x ∉ (s.contexts wq).workQueue := fun hmem =>
      hx (hctx.present x (mem_append_left _ hmem))
    exact h.put hidle ⟨rfl, rfl, rfl, (fun _ hy => by cases hy), nodup_singleton x, hfresh⟩
      (fun hmode => ⟨rfl, hwait hmode⟩) hsingle

theorem Inv.post {block : Bool} (hidle : (s.contexts wq).client = .idle)
    (hmeant : (Step.post wq block).Meant maxCmdCnt s) (hpost : s.post wq block = some s') :
    s'.Inv maxCmdCnt := by
  obtain ⟨⟨c, y⟩, hput, rfl⟩ := map_eq_some_iff.1 hpost
  rw [Context.post] at hput
  split at hput
  · next x hlast =>
    obtain ⟨it, hx, heq⟩ := map_eq_some_iff.1 hput
    cases heq
    exact h.of_completing ((h.context wq).post hidle hmeant.1 hmeant.2 hlast hx rfl rfl rfl rfl rfl
      rfl) trivial
  · cases hput

theorem Inv.stepClient (hstep : s.stepClient wq = some s') : s'.Inv maxCmdCnt := by
  have hctx := h.context wq
  rw [Manager.stepClient] at hstep
  split at hstep
  · cases hstep
  · next x block n hclient =>
    cases hstep
    cases block with
    | true =>
      exact h.complete (hctx.client_congr (by rw [hclient]; rfl) (by rw [hclient]; rfl))
    | false =>
      refine h.complete (hctx.client_idle fun y m hwaits => ?_)
      rw [hclient] at hwaits
      cases hwaits
  · next x n hclient =>
    obtain ⟨c, hset, rfl⟩ := map_eq_some_iff.1 hstep
    obtain ⟨it, hx, rfl⟩ := map_eq_some_iff.1 hset
    exact h.complete (hctx.posted hclient hx)
  · next x n hclient =>
    cases hstep
    refine h.complete (hctx.client_idle fun y m hwaits => ?_)
    rw [hclient] at hwaits
    cases hwaits
  · next x n hclient =>
    obtain ⟨it, hx, rfl⟩ := map_eq_some_iff.1 hstep
    split
    · exact h
    next hdone =>
    refine h.of_same (hctx.client_idle fun y m hwaits => ?_) ?_ fun _ => rfl
    · rw [hclient] at hwaits
      cases hwaits
      exact ⟨it, hx, by simpa using hdone⟩
    · rw [hclient]
      exact False.elim

end

/-! ## The monitor -/

theorem stage_working (wq : C) (v : Stage Cmd) : (Monitor.working wq v).stage wq = v := if_pos rfl

theorem stage_working_of_ne {wq' : C} (h : wq' ≠ wq) : (Monitor.working wq v).stage wq' = .top :=
  if_neg h.symm

section

variable (h : s.Inv maxCmdCnt)
include h

/-- The monitor goes on in a context, and is awake. -/
theorem Inv.monitor (hs : s.monitor = .working wq v) (hc : c.Inv maxCmdCnt (m.stage wq))
    (hm : ∀ wq' ≠ wq, m.stage wq' = .top) (hawake : m ≠ .sleeping) :
    ({ s.setContext wq c with monitor := m }).Inv maxCmdCnt where
  context := h.setContext hc fun wq' hne => by
    rw [hm wq' hne, hs, stage_working_of_ne hne]
  all := h.all
  awake hsleep := absurd hsleep hawake

/-- The monitor goes on with the next item, or with the next context. -/
theorem Inv.resume (hs : s.monitor = .working wq v) (hc : c.Inv maxCmdCnt .top) (more : Bool) :
    ({ s.setContext wq c with
        monitor := if more then .working wq .top else .picking }).Inv maxCmdCnt := by
  cases more with
  | true =>
    refine h.monitor hs ?_ (fun wq' hne => stage_working_of_ne hne) nofun
    rwa [if_pos rfl, stage_working]
  | false => exact h.monitor hs hc (fun _ _ => rfl) nofun

theorem Inv.getNextWorkQueue (hs : s.monitor = .picking) : s.getNextWorkQueue.Inv maxCmdCnt := by
  have hctx := h.context
  rw [hs] at hctx
  rw [Manager.getNextWorkQueue]
  split
  · next wq rest hdrop =>
    refine ⟨fun wq' => ?_, fun wq' => ?_, nofun⟩
    · have hstage : (.working wq .top : Monitor C Cmd).stage wq' = .top := by
        rw [Monitor.stage]
        split <;> rfl
      rw [hstage]
      exact hctx wq'
    have hmem := h.all wq'
    rw [← takeWhile_append_dropWhile (p := fun wq => (s.contexts wq).workQueue.isEmpty)
      (l := s.processQueue), hdrop] at hmem
    simp only [mem_append, mem_cons, not_mem_nil, or_false] at hmem ⊢
    tauto
  · next hdrop =>
    refine ⟨hctx, h.all, fun _ => .inr (.inr fun wq => ?_)⟩
    have hempty := dropWhile_eq_nil_iff.1 hdrop wq (h.all wq)
    rw [isEmpty_iff.1 hempty]
    rfl

omit h in
/-- The first item with the flag, and those before it. -/
theorem processCmdQueue_cases {cmds : List Cmd} {c' : Context Cmd}
    (h : c.processCmdQueue = some (c', x, cmds)) :
    ∃ pre rest, c.workQueue = pre ++ x :: rest ∧ (∀ y ∈ pre, c.isLast y = false) ∧
      c.isLast x = true ∧
      c' = { c with mem := fun y => if y ∈ pre then none else c.mem y, workQueue := x :: rest } ∧
      cmds = (pre ++ [x]).filterMap fun y => (c.mem y).map (·.cmd) := by
  rw [Context.processCmdQueue] at h
  split at h
  · next y rest hdrop =>
    cases h
    refine ⟨_, rest, ?_, fun y hy => ?_, ?_, rfl, rfl⟩
    · rw [← hdrop, takeWhile_append_dropWhile]
    · simpa using mem_takeWhile_imp hy
    · have hhead := head?_dropWhile_not (fun x => !c.isLast x) c.workQueue
      rw [hdrop] at hhead
      simpa using hhead
  · cases h

omit h in
theorem exists_processCmdQueue {y : ℕ} (hy : y ∈ c.workQueue) (hlast : c.isLast y = true) :
    ∃ r, c.processCmdQueue = some r := by
  rw [Context.processCmdQueue]
  split
  · exact ⟨_, rfl⟩
  · next hdrop =>
    have hnot := dropWhile_eq_nil_iff.1 hdrop y hy
    rw [hlast] at hnot
    cases hnot

theorem Inv.process (hs : s.monitor = .working wq .top)
    (hstep : s.process wq past = some s') : s'.Inv maxCmdCnt := by
  have hctx := h.context wq
  rw [hs, stage_working] at hctx
  have htop : ∀ v, ∀ wq' ≠ wq, (.working wq v : Monitor C Cmd).stage wq' = .top :=
    fun v wq' hne => stage_working_of_ne hne
  rw [Manager.process] at hstep
  split at hstep
  · next hnil =>
    cases hstep
    have hinv := h.monitor (m := .picking) hs hctx (fun _ _ => rfl) (by simp)
    rwa [setContext_self] at hinv
  next x rest hwork =>
  obtain ⟨it, hx, hstep⟩ := bind_eq_some_iff.1 hstep
  split at hstep
  · next hmode =>
    split at hstep
    · obtain ⟨⟨c, y, cmds⟩, hproc, hstep⟩ := bind_eq_some_iff.1 hstep
      obtain ⟨last, hlast, rfl⟩ := map_eq_some_iff.1 hstep
      obtain ⟨pre, rest', hsplit, hpre, hy, rfl, rfl⟩ := processCmdQueue_cases hproc
      refine h.monitor hs ?_ (htop _) (by simp)
      rw [stage_working]
      have hy' : (s.contexts wq).mem y = some last := by
        dsimp only at hlast
        split at hlast
        · cases hlast
        · exact hlast
      refine hctx.start_queue hsplit hpre hy' ?_ fun z hz it' hit' => ?_
      · rwa [Context.isLast, hy'] at hy
      rw [hwork] at hz
      cases hz
      cases hx.symm.trans hit'
      exact hmode
    · cases hstep
      exact h
  · next hmode =>
    cases hstep
    have hstart := hctx.start_single hwork hx (by simpa using hmode)
    rw [← stage_working wq (.running x it.waitDone (.single it.cmd))] at hstart
    have hinv := h.monitor hs hstart (htop _) (by simp)
    rwa [setContext_self] at hinv

theorem Inv.stepStage (hs : s.monitor = .working wq v)
    (hstep : s.stepStage wq past v = some s') : s'.Inv maxCmdCnt := by
  have hctx := h.context wq
  rw [hs, stage_working] at hctx
  have htop : ∀ v, ∀ wq' ≠ wq, (.working wq v : Monitor C Cmd).stage wq' = .top :=
    fun v wq' hne => stage_working_of_ne hne
  cases v with
  | top => exact h.process hs hstep
  | running x block given =>
    cases hstep
    refine h.monitor hs ?_ (htop _) nofun
    rw [stage_working]
    exact hctx.finish
  | done x block =>
    cases hstep
    cases block with
    | true =>
      refine h.monitor hs ?_ (htop _) nofun
      rw [if_pos rfl, stage_working]
      refine hctx.retire rfl ?_ rfl fun _ => rfl
      exact mem_append_right _ mem_cons_self
    | false =>
      refine h.resume hs ?_ _
      exact hctx.retire rfl trivial rfl fun _ => rfl
  | waking x more =>
    obtain ⟨c, hset, rfl⟩ := map_eq_some_iff.1 hstep
    obtain ⟨it, hx, rfl⟩ := map_eq_some_iff.1 hset
    exact h.resume hs (hctx.wake hx) more

theorem Inv.stepMonitor (hstep : s.stepMonitor past = some s') :
    s'.Inv maxCmdCnt := by
  rw [Manager.stepMonitor] at hstep
  split at hstep
  · next hs =>
    split at hstep
    · cases hstep
    cases hstep
    have hctx := h.context
    rw [hs] at hctx
    exact ⟨hctx, h.all, nofun⟩
  · next hs =>
    cases hstep
    exact h.getNextWorkQueue hs
  · next wq v hs => exact h.stepStage hs hstep

/-! ## Runs -/

theorem Inv.step (hmeant : op.Meant maxCmdCnt s) (hclean : op.Clean s)
    (hstep : s.step op = some s') : s'.Inv maxCmdCnt := by
  cases op with
  | add wq cmd waitDone enqueue addr =>
    rw [Manager.step] at hstep
    split at hstep
    · next hidle => exact h.add hidle hmeant hclean hstep
    · cases hstep
  | post wq block =>
    rw [Manager.step] at hstep
    split at hstep
    · next hidle => exact h.post hidle hmeant hstep
    · cases hstep
  | client wq => exact h.stepClient hstep
  | signal wq => exact hmeant.elim
  | monitor past => exact h.stepMonitor hstep

end

theorem inv_of_reachable
    (h : Reachable (fun s op => op.Meant maxCmdCnt s ∧ op.Clean s) s) : s.Inv maxCmdCnt := by
  refine h.inv (fun s hs => ?_) fun s op s' hinv hop hstep => hinv.step hop.1 hop.2 hstep
  obtain ⟨processQueue, hall, rfl⟩ := hs
  exact inv_init hall

/-! ## The flags of an item -/

/-- An item with the flag of a last one is ready. -/
def Ready (it : Item Cmd) : Prop := it.last = true → it.ready = true

/-- The two flags are set together. -/
def Flagged (s : Manager C Cmd) : Prop := ∀ wq, ∀ x, ∀ it ∈ (s.contexts wq).mem x, Ready it

section

variable (h : s.Flagged)
include h

theorem Flagged.setContext (hc : ∀ x, ∀ it ∈ c.mem x, Ready it) :
    (s.setContext wq c).Flagged := by
  intro wq'
  by_cases heq : wq' = wq
  · subst heq
    rwa [contexts_setContext_self]
  · rw [contexts_setContext_of_ne heq]
    exact h wq'

omit [DecidableEq C] in
theorem Flagged.update {it : Item Cmd} (hit : Ready it) :
    ∀ y, ∀ it' ∈ update (s.contexts wq).mem x (some it) y, Ready it' := by
  intro y it' hit'
  rw [update_apply] at hit'
  split at hit'
  · cases hit'
    exact hit
  · exact h wq y it' hit'

theorem Flagged.stepStage (hstep : s.stepStage wq past v = some s') : s'.Flagged := by
  cases v with
  | top =>
    rw [Manager.stepStage, Manager.process] at hstep
    split at hstep
    · cases hstep
      exact h
    obtain ⟨it, -, hstep⟩ := bind_eq_some_iff.1 hstep
    split_ifs at hstep
    · obtain ⟨⟨c, y, cmds⟩, hproc, hstep⟩ := bind_eq_some_iff.1 hstep
      obtain ⟨last, -, rfl⟩ := map_eq_some_iff.1 hstep
      obtain ⟨pre, rest, -, -, -, rfl, -⟩ := processCmdQueue_cases hproc
      refine h.setContext fun x it hit => ?_
      dsimp only at hit
      split at hit
      · cases hit
      · exact h wq x it hit
    · cases hstep
      exact h
    · cases hstep
      exact h
  | running | done =>
    cases hstep
    exact h.setContext (h wq)
  | waking x more =>
    obtain ⟨c, hset, rfl⟩ := map_eq_some_iff.1 hstep
    obtain ⟨it, hx, rfl⟩ := map_eq_some_iff.1 hset
    exact h.setContext (h.update (h wq x it hx))

theorem Flagged.stepMonitor (hstep : s.stepMonitor past = some s') : s'.Flagged := by
  rw [Manager.stepMonitor] at hstep
  split at hstep
  · split at hstep
    · cases hstep
    · cases hstep
      exact h
  · cases hstep
    rw [Manager.getNextWorkQueue]
    split <;> exact h
  · exact h.stepStage hstep

theorem Flagged.step (hstep : s.step op = some s') : s'.Flagged := by
  cases op with
  | add wq cmd waitDone enqueue addr =>
    rw [Manager.step] at hstep
    split at hstep
    case isFalse => cases hstep
    obtain ⟨⟨c, y⟩, hwork, rfl⟩ := map_eq_some_iff.1 hstep
    rw [Context.addWork.eq_def] at hwork
    split at hwork
    · next x free hfree =>
      obtain ⟨it, hx, heq⟩ := map_eq_some_iff.1 hwork
      cases heq
      exact h.setContext (h.update (h wq x it hx))
    · cases hwork
      exact h.setContext (h wq)
    · split at hwork
      · cases hwork
      · cases hwork
        refine h.setContext (h.update fun hlast => ?_)
        cases hlast
  | post wq block =>
    rw [Manager.step] at hstep
    split at hstep
    case isFalse => cases hstep
    obtain ⟨⟨c, y⟩, hput, rfl⟩ := map_eq_some_iff.1 hstep
    rw [Context.post] at hput
    split at hput
    · obtain ⟨it, hx, heq⟩ := map_eq_some_iff.1 hput
      cases heq
      exact h.setContext (h.update fun _ => rfl)
    · cases hput
  | client wq =>
    rw [Manager.step, Manager.stepClient] at hstep
    split at hstep
    · cases hstep
    · cases hstep
      exact h.setContext (h wq)
    · next x n hclient =>
      obtain ⟨c, hset, rfl⟩ := map_eq_some_iff.1 hstep
      obtain ⟨it, hx, rfl⟩ := map_eq_some_iff.1 hset
      exact h.setContext (h.update (h wq x it hx))
    · cases hstep
      exact h.setContext (h wq)
    · obtain ⟨it, -, rfl⟩ := map_eq_some_iff.1 hstep
      split
      · exact h
      · exact h.setContext (h wq)
  | signal wq =>
    rw [Manager.step] at hstep
    split at hstep
    · cases hstep
      exact h.setContext (h wq)
    · cases hstep
  | monitor past => exact h.stepMonitor hstep

end

theorem flagged_of_reachable {Q : Manager C Cmd → Step C Cmd → Prop} (h : Reachable Q s) :
    s.Flagged := by
  refine h.inv (fun s hs => ?_) fun s op s' hflagged _ hstep => hflagged.step hstep
  obtain ⟨processQueue, -, rfl⟩ := hs
  intro wq x it hit
  cases hit

/-! ## The monitor gets on -/

/-- The number of items in the work queues. -/
def load (s : Manager C Cmd) : ℕ :=
  (s.processQueue.map fun wq => (s.contexts wq).workQueue.length).sum

/-- How much the monitor has to do until it is done with an item or goes to sleep. -/
def phase (s : Manager C Cmd) : ℕ :=
  match s.monitor with
  | .sleeping => 0
  | .working _ (.done _ _) => 1
  | .working _ (.running _ _ _) => 2
  | .working wq .top => if (s.contexts wq).workQueue = [] then 5 else 3
  | .picking => 4
  | .working _ (.waking _ _) => 6

/-- What decreases when the monitor goes on. -/
def rank (s : Manager C Cmd) : ℕ := 7 * (s.load + s.done) + s.phase

omit [DecidableEq C] in
theorem phase_le (s : Manager C Cmd) : s.phase ≤ 6 := by
  rw [phase]
  split
  all_goals try omega
  split <;> omega

theorem load_setContext_le (h : c.workQueue.length ≤ (s.contexts wq).workQueue.length) :
    (s.setContext wq c).load ≤ s.load := by
  refine List.sum_le_sum fun wq' _ => ?_
  by_cases heq : wq' = wq
  · subst heq
    rwa [contexts_setContext_self]
  · rw [contexts_setContext_of_ne heq]

theorem load_setContext_lt (hmem : wq ∈ s.processQueue)
    (h : c.workQueue.length < (s.contexts wq).workQueue.length) :
    (s.setContext wq c).load < s.load := by
  refine List.sum_lt_sum _ _ (fun wq' _ => ?_) ⟨wq, hmem, ?_⟩
  · by_cases heq : wq' = wq
    · subst heq
      rw [contexts_setContext_self]
      exact h.le
    · rw [contexts_setContext_of_ne heq]
  · rwa [contexts_setContext_self]

/-- The next state: the monitor is awake and has come nearer to its end, without a call of a
    client. -/
structure Nearer (s s' : Manager C Cmd) : Prop where
  rank : s'.rank < s.rank
  calls wq : (s'.contexts wq).calls = (s.contexts wq).calls
  awake : s'.monitor ≠ .sleeping

theorem nearer_setContext (hcalls : c.calls = (s.contexts wq).calls) (hm : m ≠ .sleeping)
    (hrank : ({ s.setContext wq c with monitor := m }).rank < s.rank) :
    Nearer s { s.setContext wq c with monitor := m } := by
  refine ⟨hrank, fun wq' => ?_, hm⟩
  change ((s.setContext wq c).contexts wq').calls = _
  by_cases heq : wq' = wq
  · subst heq
    rw [contexts_setContext_self, hcalls]
  · rw [contexts_setContext_of_ne heq]

/-- The monitor goes on with no more items. -/
theorem nearer_of_phase (hcalls : c.calls = (s.contexts wq).calls) (hm : m ≠ .sleeping)
    (hle : c.workQueue.length ≤ (s.contexts wq).workQueue.length)
    (hphase : ({ s.setContext wq c with monitor := m }).phase < s.phase) :
    Nearer s { s.setContext wq c with monitor := m } := by
  refine nearer_setContext hcalls hm ?_
  have hload : ({ s.setContext wq c with monitor := m }).load ≤ s.load := load_setContext_le hle
  have hdone : ({ s.setContext wq c with monitor := m }).done = s.done := rfl
  rw [rank, rank, hdone]
  omega

/-- The monitor is done with an item. -/
theorem nearer_of_length (hcalls : c.calls = (s.contexts wq).calls) (hm : m ≠ .sleeping)
    (hmem : wq ∈ s.processQueue)
    (hlt : c.workQueue.length < (s.contexts wq).workQueue.length) :
    Nearer s { s.setContext wq c with monitor := m } := by
  refine nearer_setContext hcalls hm ?_
  have hload : ({ s.setContext wq c with monitor := m }).load < s.load :=
    load_setContext_lt hmem hlt
  have hdone : ({ s.setContext wq c with monitor := m }).done = s.done := rfl
  have hphase := phase_le { s.setContext wq c with monitor := m }
  rw [rank, rank, hdone]
  omega

section

variable (h : s.Inv maxCmdCnt)
include h

/-- The work of a context that is empty is done. -/
theorem Inv.executed_eq (hstage : s.monitor.stage wq = .top)
    (hnil : (s.contexts wq).workQueue = []) :
    (s.contexts wq).executed = (blocks (s.contexts wq).calls).1 := by
  have hcalled := congrArg Prod.fst (h.context wq).called
  rw [hstage, Stage.rest, Stage.pending, hnil] at hcalled
  simpa [Context.items, parse] using hcalled.symm

variable (hf : s.Flagged) (hopen : (blocks (s.contexts wq).calls).2 = [])
include hf hopen

/-- Without an open group, the first item that is enqueued has its last one behind it. -/
theorem Inv.exists_ready {it : Item Cmd} {rest : List ℕ} (hs : s.monitor = .working wq .top)
    (hwork : (s.contexts wq).workQueue = x :: rest) (hx : (s.contexts wq).mem x = some it)
    (hmode : it.queueMode = true) : ∃ y ∈ (s.contexts wq).workQueue,
      ∃ it, (s.contexts wq).mem y = some it ∧ it.last = true ∧ it.ready = true := by
  have hcalled := congrArg Prod.snd (h.context wq).called
  have hitems : (s.contexts wq).items (x :: rest) = it :: (s.contexts wq).items rest := by
    rw [Context.items, filterMap_cons_some hx, ← Context.items]
  rw [hs, stage_working, Stage.rest, hwork, hitems, hopen] at hcalled
  obtain ⟨a, ha, hlast⟩ := exists_last hmode hcalled.symm
  rw [← hitems] at ha
  obtain ⟨y, hy, hmem⟩ := mem_filterMap.1 ha
  exact ⟨y, hwork ▸ hy, a, hmem, hlast, hf wq y a hmem hlast⟩

theorem Inv.nearer_process (hs : s.monitor = .working wq .top) :
    ∃ s', s.process wq false = some s' ∧ Nearer s s' := by
  have hctx := h.context wq
  have hself := setContext_self s wq
  rw [Manager.process]
  cases hwork : (s.contexts wq).workQueue with
  | nil =>
    have hnear : Nearer s { s.setContext wq (s.contexts wq) with monitor := .picking } := by
      refine nearer_of_phase rfl (by simp) le_rfl ?_
      simp [phase, hs, hwork]
    rw [hself] at hnear
    exact ⟨_, rfl, hnear⟩
  | cons x rest =>
    obtain ⟨it, hx⟩ := isSome_iff_exists.1
      (hctx.present x (mem_append_left _ (hwork ▸ mem_cons_self)))
    dsimp only
    rw [hx, bind_some]
    cases hmode : it.queueMode with
    | false =>
      have hnear : Nearer s { s.setContext wq (s.contexts wq) with
          monitor := .working wq (.running x it.waitDone (.single it.cmd)) } := by
        refine nearer_of_phase rfl (by simp) le_rfl ?_
        simp [phase, hs, hwork]
      rw [hself] at hnear
      exact ⟨_, if_neg Bool.false_ne_true, hnear⟩
    | true =>
      obtain ⟨y, hy, last, hlast, hflag, hready⟩ := h.exists_ready hf hopen hs hwork hx hmode
      have hisReady : (s.contexts wq).isCmdQueueReady = true := by
        refine any_eq_true.2 ⟨y, hy, ?_⟩
        rw [hlast, Option.any_some, hflag, hready]
        rfl
      obtain ⟨⟨c, z, cmds⟩, hproc⟩ :=
        exists_processCmdQueue hy (by rw [Context.isLast, hlast, Option.any_some, hflag])
      obtain ⟨pre, rest', hsplit, hpre, hz, rfl, -⟩ := processCmdQueue_cases hproc
      obtain ⟨last', hlast'⟩ : ∃ it, (s.contexts wq).mem z = some it := by
        cases hmem : (s.contexts wq).mem z with
        | none =>
          rw [Context.isLast, hmem] at hz
          cases hz
        | some it => exact ⟨it, rfl⟩
      have hnot : z ∉ pre := fun hmem => Bool.false_ne_true ((hpre z hmem).symm.trans hz)
      rw [if_pos rfl, if_pos (by rw [hisReady]; rfl), hproc, bind_some]
      dsimp only
      rw [if_neg hnot, hlast', map_some]
      refine ⟨_, rfl, nearer_of_phase rfl (by simp) ?_ ?_⟩
      · rw [hsplit, length_append]
        exact Nat.le_add_left _ _
      · simp [phase, hs, hwork]

theorem Inv.nearer_stepStage (hs : s.monitor = .working wq v) :
    ∃ s', s.stepStage wq false v = some s' ∧ Nearer s s' := by
  have hctx := h.context wq
  rw [hs, stage_working] at hctx
  cases v with
  | top => exact h.nearer_process hf hopen hs
  | running x block given =>
    refine ⟨_, rfl, nearer_of_phase rfl (by simp) le_rfl ?_⟩
    simp [phase, hs]
  | done x block =>
    have hlt : (s.contexts wq).workQueue.tail.length < (s.contexts wq).workQueue.length := by
      have hplace := hctx.place
      cases hwork : (s.contexts wq).workQueue with
      | nil =>
        rw [Stage.Place, hwork] at hplace
        cases hplace
      | cons y rest => exact Nat.lt_succ_self _
    refine ⟨_, rfl, nearer_of_length rfl ?_ (h.all wq) hlt⟩
    split_ifs <;> simp
  | waking x more =>
    obtain ⟨it, hx⟩ := isSome_iff_exists.1 (hctx.present x (mem_append_right _ hctx.place))
    rw [Manager.stepStage, Context.setWaitDone, hx, map_some, map_some]
    refine ⟨_, rfl, nearer_of_phase rfl ?_ le_rfl ?_⟩
    · split_ifs <;> simp
    · have hphase : s.phase = 6 := by rw [phase, hs]
      rw [hphase, phase]
      dsimp only
      split_ifs
      · dsimp only
        split_ifs <;> omega
      · exact Nat.le_of_ble_eq_true rfl

omit hopen in
/-- The monitor goes on and comes nearer to its end, unless it finds no work. -/
theorem Inv.nearer (hopen : ∀ wq, (blocks (s.contexts wq).calls).2 = [])
    (hawake : s.monitor = .sleeping → s.done ≠ 0) :
    (∀ wq, s.monitor.stage wq = .top ∧ (s.contexts wq).workQueue = []) ∨
      ∃ s', s.step (.monitor false) = some s' ∧ Nearer s s' := by
  rw [Manager.step, Manager.stepMonitor]
  cases hs : s.monitor with
  | sleeping =>
    have hdone := hawake hs
    refine .inr ⟨_, if_neg hdone, ?_, fun _ => rfl, by simp⟩
    simp only [rank, load, phase, hs]
    omega
  | picking =>
    dsimp only
    rw [Manager.getNextWorkQueue]
    split
    · next wq rest hdrop =>
      refine .inr ⟨_, rfl, ?_, fun _ => rfl, by simp⟩
      have hsplit := takeWhile_append_dropWhile (p := fun wq => (s.contexts wq).workQueue.isEmpty)
        (l := s.processQueue)
      have hhead := head?_dropWhile_not (fun wq => (s.contexts wq).workQueue.isEmpty) s.processQueue
      rw [hdrop] at hsplit hhead
      have hne : (s.contexts wq).workQueue ≠ [] := by simpa using hhead
      -- the context has changed its place in the round
      have hload : load { s with
          processQueue :=
            rest ++ (s.processQueue.takeWhile fun wq => (s.contexts wq).workQueue.isEmpty) ++ [wq]
          monitor := .working wq .top } = s.load := by
        have hperm : (rest ++ (s.processQueue.takeWhile fun wq =>
            (s.contexts wq).workQueue.isEmpty) ++ [wq]).Perm s.processQueue := by
          conv_rhs => rw [← hsplit]
          refine (perm_append_singleton _ _).trans ((Perm.cons wq perm_append_comm).trans ?_)
          exact perm_middle.symm
        exact (hperm.map _).sum_eq
      rw [rank, rank, hload]
      simp [phase, hs, hne]
    · next hdrop =>
      refine .inl fun wq => ⟨rfl, ?_⟩
      exact isEmpty_iff.1 (dropWhile_eq_nil_iff.1 hdrop wq (h.all wq))
  | working wq v =>
    exact .inr (h.nearer_stepStage hf (hopen wq) hs)

end

/-- The monitor makes some steps. -/
def runMonitor (past : Bool) : ℕ → Manager C Cmd → Option (Manager C Cmd)
  | 0, s => some s
  | n + 1, s => (s.step (.monitor past)).bind (runMonitor past n)

theorem runMonitor_of_step (h : s.step (.monitor past) = some s) (n : ℕ) :
    s.runMonitor past n = some s := by
  induction n with
  | zero => rfl
  | succ n ih => rw [runMonitor, h, bind_some, ih]

/-- The monitor stays in `is_cmd_queue_ready`. -/
theorem step_monitor_eq_self {it : Item Cmd} {rest : List ℕ} (hs : s.monitor = .working wq .top)
    (hwork : (s.contexts wq).workQueue = x :: rest) (hx : (s.contexts wq).mem x = some it)
    (hmode : it.queueMode = true) (hready : (s.contexts wq).isCmdQueueReady = false) :
    s.step (.monitor false) = some s := by
  rw [step, stepMonitor, hs]
  dsimp only
  rw [stepStage, process, hwork]
  dsimp only
  rw [hx, bind_some, if_pos hmode, hready]
  rfl

/-- The monitor executes all that was asked for, if no group is open. -/
theorem Inv.exists_runMonitor (h : s.Inv maxCmdCnt) (hf : s.Flagged)
    (hopen : ∀ wq, (blocks (s.contexts wq).calls).2 = [])
    (hawake : s.monitor = .sleeping → s.done ≠ 0) : ∃ n, ∃ s' ∈ s.runMonitor false n, ∀ wq,
      (s'.contexts wq).calls = (s.contexts wq).calls ∧
        (s'.contexts wq).executed = (blocks (s.contexts wq).calls).1 := by
  induction hr : s.rank using Nat.strong_induction_on generalizing s with
  | _ r ih =>
    obtain hnone | ⟨s₁, hstep, hnear⟩ := h.nearer hf hopen hawake
    · exact ⟨0, s, rfl, fun wq => ⟨rfl, h.executed_eq (hnone wq).1 (hnone wq).2⟩⟩
    have hopen₁ : ∀ wq, (blocks (s₁.contexts wq).calls).2 = [] := fun wq => by
      rw [hnear.calls]
      exact hopen wq
    obtain ⟨n, s', hs', hall⟩ := ih s₁.rank (hr ▸ hnear.rank) (h.stepMonitor hstep)
      (hf.stepMonitor hstep) hopen₁ (fun hsleep => absurd hsleep hnear.awake) rfl
    refine ⟨n + 1, s', ?_, fun wq => ?_⟩
    · rw [runMonitor, hstep]
      exact hs'
    · rw [← hnear.calls]
      exact hall wq

/-- The work of the contexts is done in order. -/
structure Ordered (maxCmdCnt : ℕ) (s : Manager C Cmd) : Prop where
  /-- What is executed are the first of the blocks that the client has asked for. -/
  order wq : (s.contexts wq).executed <+: (blocks (s.contexts wq).calls).1
  /-- A group has no more commands than there are buffers. -/
  size wq cmds : .queue cmds ∈ (s.contexts wq).executed → cmds.length ≤ maxCmdCnt
  /-- A client that waits returns after its own block. -/
  waited wq x n s' : (s.contexts wq).client = .waiting x n → s.step (.client wq) = some s' →
    (s'.contexts wq).client = .idle → n ≤ (s'.contexts wq).executed.length
  /-- No block is left when the monitor sleeps. -/
  left : s.monitor = .sleeping → s.done = 0 → (∀ wq, ¬ (s.contexts wq).client.Completing) →
    ∀ wq, (s.contexts wq).executed = (blocks (s.contexts wq).calls).1
  /-- When no group is open, the monitor executes all blocks in some of its steps, unless it sleeps
      and a call is about to wake it. -/
  progress : (∀ wq, (blocks (s.contexts wq).calls).2 = []) →
    (s.monitor = .sleeping → s.done = 0 → ∀ wq, ¬ (s.contexts wq).client.Completing) →
    ∃ n, ∃ s' ∈ s.runMonitor false n, ∀ wq, (s'.contexts wq).calls = (s.contexts wq).calls ∧
      (s'.contexts wq).executed = (blocks (s.contexts wq).calls).1

end Manager

open Manager

/-- Two commands are posted as a group, and their client waits for it. -/
def groupRun : List (Step Unit ℕ) :=
  [.add () 1 false true (some 0), .add () 2 false true (some 1), .post () true, .client (),
    .monitor false, .monitor false, .monitor false, .monitor false, .monitor false, .monitor false,
    .monitor false, .client ()]

/-- A group of one command is executed, and its item is taken for the first command of the next
    group. A command of another context wakes the monitor. -/
def staleRun : List (Step Bool ℕ) :=
  [.add false 1 false true (some 0), .post false false, .client false,
    .monitor false, .monitor false, .monitor false, .monitor false, .monitor false, .monitor false,
    .add false 2 false true none, .add true 3 false false (some 0), .client true,
    .monitor false, .monitor false, .monitor false, .monitor false, .monitor false, .monitor false,
    .monitor false, .monitor false]

/-- A command is enqueued in a new item and not posted, and another context adds a single one. -/
def openRun : List (Step Bool ℕ) :=
  [.add false 1 false true (some 0), .add true 2 true false (some 0), .client true,
    .monitor false, .monitor false]

end CommonDrivers.Media.Ge2d
