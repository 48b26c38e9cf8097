import CommonDrivers.Media.Ge2d.WorkOrder

/-!
# The scan for a posted group

`is_cmd_queue_ready` has to find out whether the group at an item is posted. Its loop goes along the
work list to an item with both flags. It would end at a list head of its own that is on its stack
and not in the list, so that it comes to the head of the work list, takes the memory behind the
context for the flags of an item, and goes round.

`queue_scan_ends`: the scan looks only at items of the list, at each at most once, exactly if an
item with both flags is there or behind; and `ge2d_process_work_queue` returns, whatever is in the
memory behind the context, exactly if that is so for every group that it comes to (`Served`).
-/

namespace CommonDrivers.Media.Ge2d

open List Function Option

variable {C Cmd : Type*}

namespace Context

variable {c c' : Context Cmd} {past inGroup : Bool} {i x y : ℕ} {l pre : List ℕ}
  {looked : List (Option ℕ)}

/-- `is_cmd_queue`. -/
def isCmdQueue (c : Context Cmd) (x : ℕ) : Bool := (c.mem x).any (·.queueMode)

/-- `is_cmd_queue_last_item` and `is_cmd_item_ready`, of an item or of the head of the work list. -/
def flags (c : Context Cmd) (past : Bool) : Option ℕ → Bool
  | some x => (c.mem x).any fun it => it.last && it.ready
  | none => past

/-- The loop of `is_cmd_queue_ready` from a place of the work list on: what it looks at until it
    returns. -/
def isCmdQueueReadyFrom (c : Context Cmd) (past : Bool) : ℕ → ℕ → Option (List (Option ℕ))
  | 0, _ => none
  | fuel + 1, i =>
    let entry := c.workQueue[i]?
    if c.flags past entry then some [entry]
    -- the head of the work list comes after its last item and before its first
    else (c.isCmdQueueReadyFrom past fuel (if entry.isSome then i + 1 else 0)).map (entry :: ·)

/-- The scan comes to the item. -/
theorem exists_isCmdQueueReadyFrom (hmem : x ∈ c.workQueue.drop i)
    (hx : c.flags past (some x) = true) : ∃ fuel, ∃ looked ∈ c.isCmdQueueReadyFrom past fuel i,
      looked <+: (c.workQueue.drop i).map some := by
  induction hl : c.workQueue.drop i generalizing i with
  | nil =>
    rw [hl] at hmem
    cases hmem
  | cons y rest ih =>
    have hy : c.workQueue[i]? = some y := by
      rw [← head?_drop, hl, head?_cons]
    have hrest : c.workQueue.drop (i + 1) = rest := by
      rw [← tail_drop, hl, tail_cons]
    by_cases hflags : c.flags past (some y) = true
    · refine ⟨1, [some y], ?_, prefix_cons_inj _ |>.2 nil_prefix⟩
      rw [isCmdQueueReadyFrom, hy, if_pos hflags]
      rfl
    · have hne : x ≠ y := fun heq => hflags (heq ▸ hx)
      have hmem' : x ∈ c.workQueue.drop (i + 1) := by
        rw [hl] at hmem
        exact hrest ▸ (mem_cons.1 hmem).resolve_left hne
      obtain ⟨fuel, looked, hscan, hpre⟩ := ih hmem' hrest
      refine ⟨fuel + 1, some y :: looked, ?_, (prefix_cons_inj _).2 hpre⟩
      rw [isCmdQueueReadyFrom, hy, if_neg hflags, isSome_some, if_pos rfl, hscan]
      rfl

/-- The scan returns at both flags. -/
theorem exists_flags_of_isCmdQueueReadyFrom {fuel : ℕ}
    (h : c.isCmdQueueReadyFrom past fuel i = some looked) :
    ∃ entry ∈ looked, c.flags past entry = true := by
  induction fuel generalizing i looked with
  | zero => cases h
  | succ fuel ih =>
    rw [isCmdQueueReadyFrom] at h
    split at h
    · next hflags =>
      cases h
      exact ⟨_, mem_singleton_self _, hflags⟩
    · obtain ⟨looked', hscan, rfl⟩ := map_eq_some_iff.1 h
      obtain ⟨entry, hentry, hflags⟩ := ih hscan
      exact ⟨entry, mem_cons_of_mem _ hentry, hflags⟩

/-- Without both flags, the scan goes on for ever. -/
theorem isCmdQueueReadyFrom_eq_none (h : ∀ x ∈ c.workQueue, c.flags false (some x) = false)
    (fuel i : ℕ) : c.isCmdQueueReadyFrom false fuel i = none := by
  induction fuel generalizing i with
  | zero => rfl
  | succ fuel ih =>
    have hflags : c.flags false c.workQueue[i]? = false := by
      cases hi : c.workQueue[i]? with
      | none => rfl
      | some x => exact h x (mem_of_getElem? hi)
    rw [isCmdQueueReadyFrom, hflags, if_neg Bool.false_ne_true, ih, map_none]

/-- Every group from an item on has an item with both flags in it or behind it. A group begins where
    the one before it has ended, and ends at the first item with the flag of a last one. -/
def Served (c : Context Cmd) : Bool → List ℕ → Prop
  | _, [] => True
  | inGroup, x :: rest =>
    (inGroup = false → c.isCmdQueue x = true → ∃ y ∈ x :: rest, c.flags false (some y) = true) ∧
      c.Served ((inGroup || c.isCmdQueue x) && !c.isLast x) rest

theorem served_congr (h : ∀ x ∈ l, c'.mem x = c.mem x) :
    c'.Served inGroup l ↔ c.Served inGroup l := by
  induction l generalizing inGroup with
  | nil => rfl
  | cons x rest ih =>
    have hflags : ∀ y ∈ x :: rest, c'.flags false (some y) = c.flags false (some y) :=
      fun y hy => by rw [flags, flags, h y hy]
    have hx := h x mem_cons_self
    rw [Served, Served, isCmdQueue, isCmdQueue, isLast, isLast, hx,
      ih fun y hy => h y (mem_cons_of_mem _ hy)]
    refine and_congr_left' (forall₂_congr fun _ _ => exists_congr fun y => ?_)
    exact and_congr_right fun hy => by rw [hflags y hy]

theorem served_false_iff (hx : c.isCmdQueue x = true) : c.Served false (x :: l) ↔
    (∃ y ∈ x :: l, c.flags false (some y) = true) ∧ c.Served true (x :: l) := by
  simp [Served, hx]

/-- In a group, all is said at its beginning. -/
theorem served_group (hpre : ∀ z ∈ pre, c.isLast z = false) (hy : c.isLast y = true) :
    c.Served true (pre ++ y :: l) ↔ c.Served false l := by
  induction pre with
  | nil => simp [Served, hy]
  | cons z pre ih =>
    have hz := hpre z mem_cons_self
    rw [cons_append, Served, hz]
    simpa using ih fun w hw => hpre w (mem_cons_of_mem _ hw)

theorem isLast_of_flags (h : c.flags past (some x) = true) : c.isLast x = true := by
  obtain ⟨it, hit, hflags⟩ := (Option.any_eq_true _ _).1 h
  rw [isLast, hit, Option.any_some]
  exact (Bool.and_eq_true_iff.1 hflags).1

/-- The items are there while the monitor is in `ge2d_process_work_queue`. -/
structure Walks (c : Context Cmd) (v : Stage Cmd) : Prop where
  present : ∀ x ∈ c.workQueue ++ c.freeQueue, (c.mem x).isSome
  nodup : (c.workQueue ++ c.freeQueue).Nodup
  place : v.Place c
  more : ∀ x more, v = .waking x more → more = !c.workQueue.isEmpty

/-- The groups that the monitor has still to come to are served. -/
def Serves (c : Context Cmd) (v : Stage Cmd) : Prop := c.Served false (v.rest c.workQueue)

end Context

/-- What decreases in `ge2d_process_work_queue`. -/
def Stage.toDo (workQueue : List ℕ) : Stage Cmd → ℕ
  | .done _ _ => 4 * workQueue.length + 1
  | .running _ _ _ => 4 * workQueue.length + 2
  | .top => 4 * workQueue.length + 3
  | .waking _ _ => 4 * workQueue.length + 4

/-! ## The monitor in a context -/

namespace Manager

variable [DecidableEq C] {s s' : Manager C Cmd} {wq : C} {c : Context Cmd} {v v' : Stage Cmd}
  {past : Bool}

/-- The monitor goes on in a context: it returns, or it has less to do. -/
def Goes (past : Bool) (s : Manager C Cmd) (wq : C) (v : Stage Cmd) : Prop :=
  ∃ s', s.step (.monitor past) = some s' ∧ (s'.monitor = .picking ∧ (s.contexts wq).Serves v ∨
    ∃ v', s'.monitor = .working wq v' ∧ (s'.contexts wq).Walks v' ∧
      ((s'.contexts wq).Serves v' ↔ (s.contexts wq).Serves v) ∧
      v'.toDo (s'.contexts wq).workQueue < v.toDo (s.contexts wq).workQueue)

theorem goes_setContext
    (hstep : s.stepStage wq past v = some { s.setContext wq c with monitor := .working wq v' })
    (hs : s.monitor = .working wq v) (hwalks : c.Walks v')
    (hserves : c.Serves v' ↔ (s.contexts wq).Serves v)
    (hlt : v'.toDo c.workQueue < v.toDo (s.contexts wq).workQueue) : s.Goes past wq v := by
  refine ⟨{ s.setContext wq c with monitor := .working wq v' }, ?_, .inr ⟨v', rfl, ?_⟩⟩
  · rw [step, stepMonitor, hs]
    exact hstep
  · change ((s.setContext wq c).contexts wq).Walks v' ∧
      (((s.setContext wq c).contexts wq).Serves v' ↔ _) ∧
      v'.toDo ((s.setContext wq c).contexts wq).workQueue < _
    rw [contexts_setContext_self]
    exact ⟨hwalks, hserves, hlt⟩

theorem goes_picking {s' : Manager C Cmd} (hstep : s.stepStage wq past v = some s')
    (hs : s.monitor = .working wq v) (hpicking : s'.monitor = .picking)
    (hserves : (s.contexts wq).Serves v) : s.Goes past wq v := by
  refine ⟨s', ?_, .inl ⟨hpicking, hserves⟩⟩
  rw [step, stepMonitor, hs]
  exact hstep

section

variable (hs : s.monitor = .working wq v) (h : (s.contexts wq).Walks v)
include hs h

/-- A group is taken that has an item with both flags. -/
theorem goes_queue {it : Item Cmd} {x : ℕ} {rest : List ℕ} (hv : v = .top)
    (hwork : (s.contexts wq).workQueue = x :: rest) (hx : (s.contexts wq).mem x = some it)
    (hmode : it.queueMode = true)
    (hready : ∃ y ∈ x :: rest, (s.contexts wq).flags false (some y) = true) :
    s.Goes past wq v := by
  subst hv
  obtain ⟨y, hy, hflags⟩ := hready
  have hisReady : (s.contexts wq).isCmdQueueReady = true :=
    any_eq_true.2 ⟨y, hwork ▸ hy, hflags⟩
  obtain ⟨⟨c, z, cmds⟩, hproc⟩ :=
    exists_processCmdQueue (hwork ▸ hy) (Context.isLast_of_flags hflags)
  obtain ⟨pre, rest', hsplit, hpre, hz, rfl, -⟩ := processCmdQueue_cases hproc
  have hnodup := h.nodup
  rw [hsplit, append_assoc] at hnodup
  have hdisj : ∀ w ∈ z :: rest' ++ (s.contexts wq).freeQueue, w ∉ pre := fun w hw hmem =>
    disjoint_of_nodup_append hnodup hmem hw
  obtain ⟨last, hlast⟩ : ∃ it, (s.contexts wq).mem z = some it := by
    refine isSome_iff_exists.1 (h.present z (mem_append_left _ ?_))
    rw [hsplit]
    exact mem_append_right _ mem_cons_self
  have hmem : ∀ w ∈ z :: rest' ++ (s.contexts wq).freeQueue,
      (if w ∈ pre then none else (s.contexts wq).mem w) = (s.contexts wq).mem w :=
    fun w hw => if_neg (hdisj w hw)
  have hwalks : Context.Walks
      { s.contexts wq with
        mem := fun w => if w ∈ pre then none else (s.contexts wq).mem w
        workQueue := z :: rest' } (.running z last.waitDone (.queue cmds)) := by
    refine ⟨fun w hw => ?_, hnodup.of_append_right, rfl, by simp⟩
    dsimp only
    rw [hmem w hw]
    refine h.present w ?_
    rw [hsplit, append_assoc]
    exact mem_append_right _ hw
  refine goes_setContext ?_ hs hwalks ?_ ?_
  · rw [stepStage, process, hwork]
    dsimp only
    rw [hx, bind_some, if_pos hmode, hisReady, Bool.true_or, if_pos rfl, hproc, bind_some]
    dsimp only
    rw [hmem z (mem_append_left _ mem_cons_self), hlast, map_some]
  · have hhead : (s.contexts wq).isCmdQueue x = true := by
      rw [Context.isCmdQueue, hx, Option.any_some, hmode]
    have hrest : ∀ w ∈ rest', w ∈ z :: rest' ++ (s.contexts wq).freeQueue :=
      fun w hw => mem_append_left _ (mem_cons_of_mem z hw)
    rw [Context.Serves, Context.Serves, Stage.rest, Stage.rest, hwork,
      Context.served_false_iff hhead, and_iff_right ⟨y, hy, hflags⟩, ← hwork, hsplit,
      Context.served_group hpre hz]
    exact Context.served_congr fun w hw => hmem w (hrest w hw)
  · simp only [Stage.toDo, hsplit, length_append]
    omega

/-- The last item of a block goes to the free list. -/
theorem goes_done {x : ℕ} {block : Bool} (hv : v = .done x block) : s.Goes past wq v := by
  subst hv
  obtain ⟨rest, hwork⟩ : ∃ rest, (s.contexts wq).workQueue = x :: rest :=
    head?_eq_some_iff.1 h.place
  have hperm : (rest ++ ((s.contexts wq).freeQueue ++ [x])).Perm
      ((s.contexts wq).workQueue ++ (s.contexts wq).freeQueue) := by
    rw [hwork, ← append_assoc]
    exact perm_append_singleton ..
  have hpresent : ∀ w ∈ rest ++ ((s.contexts wq).freeQueue ++ [x]),
      ((s.contexts wq).mem w).isSome := fun w hw => h.present w (hperm.mem_iff.1 hw)
  have hnodup := hperm.nodup_iff.2 h.nodup
  have hstep : ∀ m, (if block then Monitor.working wq (.waking x !rest.isEmpty)
      else if !rest.isEmpty then .working wq .top else .picking) = m →
      s.stepStage wq past (.done x block) = some { s.setContext wq { s.contexts wq with
        workQueue := rest, freeQueue := (s.contexts wq).freeQueue ++ [x] } with monitor := m } := by
    rintro m rfl
    rw [stepStage, hwork, tail_cons]
  have hserves : Context.Served
      { s.contexts wq with workQueue := rest, freeQueue := (s.contexts wq).freeQueue ++ [x] }
      false rest ↔ (s.contexts wq).Serves (.done x block) := by
    rw [Context.Serves, Stage.rest, hwork, tail_cons]
    exact Context.served_congr fun _ _ => rfl
  cases block with
  | true =>
    refine goes_setContext (hstep _ (if_pos rfl)) hs ⟨hpresent, hnodup, ?_, ?_⟩ hserves ?_
    · exact mem_append_right _ (mem_singleton_self x)
    · rintro _ _ ⟨⟩
      rfl
    · simp only [Stage.toDo, hwork, length_cons]
      omega
  | false =>
    cases rest with
    | nil =>
      refine goes_picking (hstep .picking rfl) hs rfl (hserves.1 ?_)
      rw [Context.Served]
      trivial
    | cons z rest =>
      refine goes_setContext (hstep _ rfl) hs ⟨hpresent, hnodup, trivial, by simp⟩ hserves ?_
      simp only [Stage.toDo, hwork, length_cons]
      omega

/-- The caller of the item is woken up. -/
theorem goes_waking {x : ℕ} {more : Bool} (hv : v = .waking x more) : s.Goes past wq v := by
  subst hv
  obtain ⟨it, hx⟩ := isSome_iff_exists.1 (h.present x (mem_append_right _ h.place))
  have hne : ∀ w ∈ (s.contexts wq).workQueue, w ≠ x := by
    rintro w hw rfl
    exact disjoint_of_nodup_append h.nodup hw h.place
  have hmore := h.more x more rfl
  have hstep : ∀ m, (if more then Monitor.working wq .top else .picking) = m →
      s.stepStage wq past (.waking x more) = some { s.setContext wq { s.contexts wq with
        mem := update (s.contexts wq).mem x (some { it with waitDone := false }) } with
        monitor := m } := by
    rintro m rfl
    rw [stepStage, Context.setWaitDone, hx, map_some, map_some]
  cases more with
  | true =>
    refine goes_setContext (hstep _ (if_pos rfl)) hs
      ⟨fun w hw => ?_, h.nodup, trivial, by simp⟩ ?_ ?_
    · dsimp only
      by_cases heq : w = x
      · rw [heq, update_self, isSome_some]
      · rw [update_of_ne heq]
        exact h.present w hw
    · exact Context.served_congr fun w hw => update_of_ne (hne w hw) ..
    · exact Nat.lt_succ_self _
  | false =>
    refine goes_picking (hstep .picking rfl) hs rfl ?_
    have hnil : (s.contexts wq).workQueue = [] := by simpa using hmore
    rw [Context.Serves, Stage.rest, hnil, Context.Served]
    trivial

/-- The monitor goes on, unless it is at a group that is not posted, where it stays. -/
theorem goes_or_stays (past : Bool) :
    s.Goes past wq v ∨ ¬ (s.contexts wq).Serves v ∧
      (past = false → s.step (.monitor past) = some s) := by
  have hself := setContext_self s wq
  cases v with
  | top =>
    cases hwork : (s.contexts wq).workQueue with
    | nil =>
      have hstep : s.stepStage wq past .top = some { s with monitor := .picking } := by
        rw [stepStage, process, hwork]
      refine .inl (goes_picking hstep hs rfl ?_)
      rw [Context.Serves, Stage.rest, hwork, Context.Served]
      trivial
    | cons x rest =>
      obtain ⟨it, hx⟩ := isSome_iff_exists.1
        (h.present x (mem_append_left _ (hwork ▸ mem_cons_self)))
      have hmode : (s.contexts wq).isCmdQueue x = it.queueMode := by
        rw [Context.isCmdQueue, hx, Option.any_some]
      cases hqueue : it.queueMode with
      | false =>
        -- a single command
        rw [hqueue] at hmode
        have hstep : s.stepStage wq past .top = some { s.setContext wq (s.contexts wq) with
            monitor := .working wq (.running x it.waitDone (.single it.cmd)) } := by
          rw [stepStage, process, hwork, hself]
          dsimp only
          rw [hx, bind_some, hqueue]
          rfl
        refine .inl (goes_setContext hstep hs
          ⟨h.present, h.nodup, by rw [Stage.Place, hwork, head?_cons], by simp⟩ ?_ ?_)
        · rw [Context.Serves, Context.Serves, Stage.rest, Stage.rest, hwork, tail_cons,
            Context.Served, hmode]
          simp
        · simp [Stage.toDo]
      | true =>
        by_cases hready : ∃ y ∈ x :: rest, (s.contexts wq).flags false (some y) = true
        · exact .inl (goes_queue hs h rfl hwork hx hqueue hready)
        refine .inr ⟨fun hserves => hready ?_, ?_⟩
        · rw [Context.Serves, Stage.rest, hwork] at hserves
          exact hserves.1 rfl (hmode.trans hqueue)
        · rintro rfl
          refine step_monitor_eq_self hs hwork hx hqueue (any_eq_false.2 fun y hy hflags => ?_)
          exact hready ⟨y, hwork ▸ hy, hflags⟩
  | running x block given =>
    refine .inl (goes_setContext rfl hs ⟨h.present, h.nodup, h.place, by simp⟩ ?_ ?_)
    · exact Context.served_congr fun _ _ => rfl
    · exact Nat.lt_succ_self _
  | done x block => exact .inl (goes_done hs h rfl)
  | waking x more => exact .inl (goes_waking hs h rfl)

/-- The run of `ge2d_process_work_queue`, if all groups are served. -/
theorem exists_returns (hserves : (s.contexts wq).Serves v) (past : Bool) :
    ∃ n, ∃ s' ∈ s.runMonitor past n, s'.monitor = .picking := by
  induction hn : v.toDo (s.contexts wq).workQueue using Nat.strong_induction_on
    generalizing s v with
  | _ n ih =>
    obtain ⟨s₁, hstep, hgoes⟩ | ⟨hnot, -⟩ := goes_or_stays hs h past
    · obtain ⟨hpicking, -⟩ | ⟨v₁, hs₁, hwalks, hiff, hlt⟩ := hgoes
      · exact ⟨1, s₁, by rw [runMonitor, hstep]; rfl, hpicking⟩
      · obtain ⟨k, s', hrun, hpicking⟩ := ih _ (hn ▸ hlt) hs₁ hwalks (hiff.2 hserves) rfl
        refine ⟨k + 1, s', ?_, hpicking⟩
        rw [runMonitor, hstep]
        exact hrun
    · exact absurd hserves hnot

/-- When it returns, all groups were served. -/
theorem serves_of_returns {n : ℕ} (hrun : s.runMonitor false n = some s')
    (hpicking : s'.monitor = .picking) : (s.contexts wq).Serves v := by
  induction n generalizing s v with
  | zero =>
    cases hrun
    rw [hs] at hpicking
    cases hpicking
  | succ n ih =>
    obtain ⟨s₁, hstep, hgoes⟩ | ⟨-, hstay⟩ := goes_or_stays hs h false
    · rw [runMonitor, hstep] at hrun
      obtain ⟨-, hserves⟩ | ⟨v₁, hs₁, hwalks, hiff, -⟩ := hgoes
      · exact hserves
      · exact hiff.1 (ih hs₁ hwalks hrun)
    · rw [runMonitor_of_step (hstay rfl)] at hrun
      cases hrun
      rw [hs] at hpicking
      cases hpicking

end

end Manager

theorem queue_scan_ends [DecidableEq C] (c : Context Cmd) :
    (∀ past i, (∃ fuel, ∃ looked ∈ c.isCmdQueueReadyFrom past fuel i,
        looked <+: (c.workQueue.drop i).map some) ↔
      ∃ x ∈ c.workQueue.drop i, c.flags past (some x) = true) ∧
    ∀ (s : Manager C Cmd) wq, s.contexts wq = c → s.monitor = .working wq .top →
      (∀ x ∈ c.workQueue ++ c.freeQueue, (c.mem x).isSome) → (c.workQueue ++ c.freeQueue).Nodup →
      ((∀ past, ∃ n, ∃ s' ∈ s.runMonitor past n, s'.monitor = .picking) ↔
        c.Served false c.workQueue) := by
  refine ⟨fun past i => ⟨?_, ?_⟩, ?_⟩
  · rintro ⟨fuel, looked, hscan, hpre⟩
    obtain ⟨entry, hentry, hflags⟩ := Context.exists_flags_of_isCmdQueueReadyFrom hscan
    obtain ⟨x, hx, rfl⟩ := mem_map.1 (hpre.subset hentry)
    exact ⟨x, hx, hflags⟩
  · rintro ⟨x, hx, hflags⟩
    exact Context.exists_isCmdQueueReadyFrom hx hflags
  · rintro s wq rfl hs hpresent hnodup
    have hwalks : (s.contexts wq).Walks .top := ⟨hpresent, hnodup, trivial, by simp⟩
    refine ⟨fun hreturns => ?_, fun hserves past => Manager.exists_returns hs hwalks hserves past⟩
    obtain ⟨n, s', hrun, hpicking⟩ := hreturns false
    exact Manager.serves_of_returns hs hwalks hrun hpicking

/-- Two commands are enqueued, and posted or not. -/
def pair (posted : Bool) : Context ℕ where
  mem x := if x < 2 then some ⟨x, false, true, posted && x == 1, posted && x == 1⟩ else none
  workQueue := [0, 1]
  freeQueue := []
  client := .idle
  calls := [.enqueue 0, .enqueue 1] ++ if posted then [.post] else []
  executed := []

/-- The monitor comes to a context. -/
def comesTo (c : Context ℕ) : Manager Unit ℕ where
  contexts _ := c
  processQueue := [()]
  done := 0
  monitor := .working () .top

theorem queue_scan_ends_posted :
    (∃ fuel, ∃ looked ∈ (pair true).isCmdQueueReadyFrom false fuel 0, looked <+: [some 0, some 1]) ∧
    ∀ past, ∃ n, ∃ s' ∈ (comesTo (pair true)).runMonitor past n, s'.monitor = .picking := by
  have hends := queue_scan_ends (C := Unit) (pair true)
  refine ⟨(hends.1 false 0).2 ⟨1, by decide, rfl⟩, ?_⟩
  refine (hends.2 (comesTo (pair true)) () rfl rfl (by decide) (by decide)).2 ?_
  refine ⟨fun _ _ => ⟨1, by decide, rfl⟩, ⟨fun hgroup => ?_, trivial⟩⟩
  cases hgroup

/-- The scan of a group that is not posted goes on for ever, or looks at the memory behind the
    context, and the monitor stays there. -/
theorem queue_scan_unposted :
    (∀ fuel, (pair false).isCmdQueueReadyFrom false fuel 0 = none) ∧
    (pair false).isCmdQueueReadyFrom true 3 0 = some [some 0, some 1, none] ∧
    ∀ n, (comesTo (pair false)).runMonitor false n = some (comesTo (pair false)) := by
  refine ⟨fun fuel => ?_, by decide, fun n => ?_⟩
  · exact Context.isCmdQueueReadyFrom_eq_none (by decide) fuel 0
  · exact Manager.runMonitor_of_step (Manager.step_monitor_eq_self rfl rfl rfl rfl rfl) n

end CommonDrivers.Media.Ge2d
