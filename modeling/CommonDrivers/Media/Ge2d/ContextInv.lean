import CommonDrivers.Media.Ge2d.Blocks

/-!
# A context and its monitor

The blocks that a client has asked for are those that were executed, the one that the hardware has,
and those that its items stand for (`Context.Inv.called`). The calls of a client and the stages of
the monitor keep this, and what a client that waits may rely on.
-/

namespace CommonDrivers.Media.Ge2d

open List Function Option Stage

variable {Cmd : Type*} {maxCmdCnt : ℕ} {x y n : ℕ} {it it' : Item Cmd} {block more : Bool}
  {b : Block Cmd}

/-- The item and the number of blocks of the call that a client is in. -/
def Client.call : Client → Option (ℕ × ℕ)
  | .idle => none
  | .added x _ n => some (x, n)
  | .posted x _ n => some (x, n)
  | .waiting x n => some (x, n)

/-- The item that a client waits for, and the number of blocks. -/
def Client.waits : Client → Option (ℕ × ℕ)
  | .added x true n => some (x, n)
  | .waiting x n => some (x, n)
  | _ => none

theorem Client.call_of_waits {client : Client} (h : client.waits = some (x, n)) :
    client.call = some (x, n) := by
  cases client with
  | idle | posted => cases h
  | added x' block n' =>
    cases block with
    | true => exact h
    | false => cases h
  | waiting x' n' => exact h

namespace Stage

/-- The block that the hardware has. -/
def pending : Stage Cmd → List (Block Cmd)
  | .top => []
  | .running _ _ b => [b]
  | .done _ _ => []
  | .waking _ _ => []

/-- The items that the monitor has not taken. -/
def rest (workQueue : List ℕ) : Stage Cmd → List ℕ
  | .top => workQueue
  | .running _ _ _ => workQueue.tail
  | .done _ _ => workQueue.tail
  | .waking _ _ => workQueue

/-- The item whose `wait_done_flag` the monitor will clear. -/
def blocking : Stage Cmd → Option ℕ
  | .running x true _ => some x
  | .done x true => some x
  | .waking x _ => some x
  | _ => none

/-- Where the item of the monitor is. -/
def Place (c : Context Cmd) : Stage Cmd → Prop
  | .top => True
  | .running x _ _ => c.workQueue.head? = some x
  | .done x _ => c.workQueue.head? = some x
  | .waking x _ => x ∈ c.freeQueue

end Stage

namespace Context

variable {c c' : Context Cmd} {v v' : Stage Cmd}

/-- The items at some addresses. -/
def items (c : Context Cmd) (l : List ℕ) : List (Item Cmd) := l.filterMap c.mem

theorem items_congr {l : List ℕ} (h : ∀ y ∈ l, c'.mem y = c.mem y) : c'.items l = c.items l :=
  filterMap_congr h

/-- What holds between two steps, with the monitor at a stage. -/
structure Inv (maxCmdCnt : ℕ) (c : Context Cmd) (v : Stage Cmd) : Prop where
  present : ∀ x ∈ c.workQueue ++ c.freeQueue, (c.mem x).isSome
  nodup : (c.workQueue ++ c.freeQueue).Nodup
  called : blocks c.calls = (c.executed ++ v.pending ++ (parse [] (c.items (v.rest c.workQueue))).1,
      (parse [] (c.items (v.rest c.workQueue))).2)
  size : ∀ cmds, .queue cmds ∈ (blocks c.calls).1 → cmds.length ≤ maxCmdCnt
  place : v.Place c
  flagged : ∀ x ∈ c.workQueue, ∀ it ∈ c.mem x, it.waitDone = true →
    ∃ n, c.client.waits = some (x, n)
  blocking : ∀ x ∈ v.blocking, (∀ it ∈ c.mem x, it.waitDone = true) ∧
    ∃ n, c.client.waits = some (x, n)
  tail : ∀ x n, c.client.call = some (x, n) → n = (blocks c.calls).1.length ∧ (c.mem x).isSome ∧
    (c.workQueue = [] ∨ c.workQueue.getLast? = some x)
  awaits : ∀ x n, c.client.waits = some (x, n) → ∀ it ∈ c.mem x, it.waitDone = false →
    n ≤ c.executed.length

theorem inv_new : (new : Context Cmd).Inv maxCmdCnt .top where
  present := nofun
  nodup := .nil
  called := rfl
  size := nofun
  place := trivial
  flagged := nofun
  blocking := nofun
  tail := nofun
  awaits := nofun

theorem rest_subset (v : Stage Cmd) (l : List ℕ) : ∀ y ∈ v.rest l, y ∈ l := by
  cases v with
  | top | waking => exact fun _ h => h
  | running | done => exact fun _ h => mem_of_mem_tail h

theorem isSome_update (hy : (c.mem y).isSome) (it : Item Cmd) :
    (update c.mem x (some it) y).isSome := by
  rw [update_apply]
  split
  · rfl
  · exact hy

theorem place_congr (h : v.Place c) (hwork : c'.workQueue = c.workQueue)
    (hfree : c'.freeQueue = c.freeQueue) : v.Place c' := by
  cases v with
  | top => trivial
  | running | done => rwa [Place, hwork]
  | waking _ _ => rwa [Place, hfree]

/-- The flag of the item that the monitor has taken. -/
theorem blocking_running (hx : c.mem x = some it)
    (hwaits : it.waitDone = true → ∃ n, c.client.waits = some (x, n)) :
    ∀ y ∈ (running x it.waitDone b).blocking, (∀ it ∈ c.mem y, it.waitDone = true) ∧
      ∃ n, c.client.waits = some (y, n) := by
  intro y hy
  cases hwait : it.waitDone with
  | false =>
    rw [hwait] at hy
    cases hy
  | true =>
    rw [hwait] at hy
    cases hy
    refine ⟨fun it' hit' => ?_, hwaits hwait⟩
    cases hx.symm.trans hit'
    exact hwait

/-- What the last address of the work queue is among those the monitor has not taken. -/
theorem rest_concat (v : Stage Cmd) (l : List ℕ) (x : ℕ) :
    v.rest (l ++ [x]) = [] ∨ ∃ l', v.rest (l ++ [x]) = l' ++ [x] ∧ ∀ y ∈ l', y ∈ l := by
  have htail : (l ++ [x]).tail = [] ∨ ∃ l', (l ++ [x]).tail = l' ++ [x] ∧ ∀ y ∈ l', y ∈ l := by
    cases l with
    | nil => exact .inl rfl
    | cons a l => exact .inr ⟨l, rfl, fun y hy => mem_cons_of_mem a hy⟩
  cases v with
  | top | waking => exact .inr ⟨l, rfl, fun _ h => h⟩
  | running | done => exact htail

/-- Writing a `wait_done_flag` leaves the blocks as they are. -/
theorem parse_setWaitDone (hx : c.mem x = some it) (waitDone : Bool) (l : List ℕ)
    (hmem : c'.mem = update c.mem x (some { it with waitDone })) :
    parse [] (c'.items l) = parse [] (c.items l) := by
  rw [← parse_unwaited, ← parse_unwaited [] (c.items l), items, items, map_filterMap, map_filterMap]
  refine congrArg _ (filterMap_congr fun y _ => ?_)
  by_cases hyx : y = x
  · rw [hyx, hmem, update_self, hx]
    rfl
  · rw [hmem, update_of_ne hyx]

section

variable (h : c.Inv maxCmdCnt v)
include h

/-- The monitor's own item is there, so that what is appended is behind it. -/
theorem Inv.rest_append (x : ℕ) : v.rest (c.workQueue ++ [x]) = v.rest c.workQueue ++ [x] := by
  have hplace := h.place
  cases v with
  | top | waking => rfl
  | running | done =>
    refine tail_append_of_ne_nil fun hnil => ?_
    rw [Place, hnil] at hplace
    cases hplace

theorem Inv.not_mem_workQueue (hx : x ∈ c.freeQueue) : x ∉ c.workQueue :=
  fun hmem => disjoint_of_nodup_append h.nodup hmem hx

/-! ## The calls of the client -/

/-- The monitor does not clear a flag while nobody waits. -/
theorem Inv.not_blocking (hwaits : c.client.waits = none) : v.blocking = none := by
  by_contra hne
  obtain ⟨y, hy⟩ := ne_none_iff_exists'.1 hne
  obtain ⟨-, n, hn⟩ := h.blocking y hy
  rw [hwaits] at hn
  cases hn

theorem Inv.place_append (hblocking : v.blocking = none)
    (hwork : c'.workQueue = c.workQueue ++ [x]) : v.Place c' := by
  have hplace := h.place
  cases v with
  | top => trivial
  | waking _ _ => cases hblocking
  | running | done =>
    rw [Place] at hplace ⊢
    rw [hwork, head?_append, hplace]
    rfl

/-- An item with a new command is put behind the others. -/
structure Puts (c c' : Context Cmd) (x : ℕ) (it : Item Cmd) : Prop where
  mem : c'.mem = update c.mem x (some it)
  work : c'.workQueue = c.workQueue ++ [x]
  executed : c'.executed = c.executed
  free : ∀ y ∈ c'.freeQueue, y ∈ c.freeQueue
  nodup : (x :: c'.freeQueue).Nodup
  fresh : x ∉ c.workQueue

namespace Puts

variable (hp : Puts c c' x it)
include hp

omit h in
theorem mem_of_ne (hy : y ≠ x) : c'.mem y = c.mem y := by
  rw [hp.mem, update_of_ne hy]

omit h in
theorem mem_self : c'.mem x = some it := by
  rw [hp.mem, update_self]

theorem items :
    c'.items (v.rest c'.workQueue) = c.items (v.rest c.workQueue) ++ [it] := by
  have hrest : ∀ y ∈ v.rest c.workQueue, c'.mem y = c.mem y := fun y hy =>
    hp.mem_of_ne fun heq => hp.fresh (heq ▸ rest_subset v _ y hy)
  rw [hp.work, h.rest_append, Context.items, filterMap_append, ← Context.items, items_congr hrest]
  simp [hp.mem_self]

theorem present :
    ∀ y ∈ c'.workQueue ++ c'.freeQueue, (c'.mem y).isSome := by
  intro y hy
  by_cases hyx : y = x
  · rw [hyx, hp.mem_self]
    rfl
  rw [hp.mem_of_ne hyx]
  refine h.present y (mem_append.2 ?_)
  obtain hwork | hfree := mem_append.1 hy
  · rw [hp.work] at hwork
    exact .inl ((mem_append.1 hwork).resolve_right fun hx => hyx (mem_singleton.1 hx))
  · exact .inr (hp.free y hfree)

theorem nodup_append : (c'.workQueue ++ c'.freeQueue).Nodup := by
  rw [hp.work, append_assoc, singleton_append]
  refine (nodup_append'.2 ⟨h.nodup.of_append_left, hp.nodup, fun y hy hmem => ?_⟩)
  obtain rfl | hfree := mem_cons.1 hmem
  · exact hp.fresh hy
  · exact h.not_mem_workQueue (hp.free y hfree) hy

/-- Only the new item can have its flag set while nobody waits. -/
theorem flagged (hidle : c.client = .idle) (hy : y ∈ c'.workQueue)
    (hit' : it' ∈ c'.mem y) (hdone : it'.waitDone = true) : y = x ∧ it = it' := by
  by_cases hyx : y = x
  · rw [hyx, hp.mem_self] at hit'
    exact ⟨hyx, some.inj hit'⟩
  rw [hp.mem_of_ne hyx] at hit'
  rw [hp.work] at hy
  obtain hold | hnew := mem_append.1 hy
  · obtain ⟨n, hn⟩ := h.flagged y hold it' hit' hdone
    rw [hidle] at hn
    cases hn
  · exact absurd (mem_singleton.1 hnew) hyx

end Puts

/-- A command is enqueued. -/
theorem Inv.enqueue (hp : Puts c c' x it) (hidle : c.client = .idle) (hclient : c'.client = .idle)
    (hcalls : c'.calls = c.calls ++ [.enqueue it.cmd]) (hmode : it.queueMode = true)
    (hlast : it.last = false) (hwait : it.waitDone = false) : c'.Inv maxCmdCnt v := by
  have hblocking := h.not_blocking (by rw [hidle]; rfl)
  exact
    { present := hp.present h
      nodup := hp.nodup_append h
      called := by
        rw [hcalls, blocks_enqueue, h.called, hp.items h, parse_enqueue _ _ hmode hlast,
          hp.executed]
      size := fun cmds hmem => h.size cmds (by rwa [hcalls, blocks_enqueue] at hmem)
      place := h.place_append hblocking hp.work
      flagged := fun y hy it' hit' hdone => by
        obtain ⟨-, rfl⟩ := hp.flagged h hidle hy hit' hdone
        rw [hwait] at hdone
        cases hdone
      blocking := by
        rw [hblocking]
        exact nofun
      tail := by
        rw [hclient]
        exact nofun
      awaits := by
        rw [hclient]
        exact nofun }

/-- A command is added on its own. -/
theorem Inv.single (hp : Puts c c' x it) (hidle : c.client = .idle)
    (hcalls : c'.calls = c.calls ++ [.single it.cmd])
    (hclient : c'.client = .added x it.waitDone (blocks c'.calls).1.length)
    (hmode : it.queueMode = false) (hopen : (blocks c.calls).2 = []) : c'.Inv maxCmdCnt v := by
  have hblocking := h.not_blocking (by rw [hidle]; rfl)
  have hparse : (parse [] (c.items (v.rest c.workQueue))).2 = [] :=
    (congrArg Prod.snd h.called).symm.trans hopen
  exact
    { present := hp.present h
      nodup := hp.nodup_append h
      called := by
        rw [hcalls, blocks_single, hopen, h.called, hp.items h, parse_single _ _ hmode hparse,
          hp.executed, append_assoc]
      size := fun cmds hmem => by
        rw [hcalls, blocks_single] at hmem
        obtain hold | hnew := mem_append.1 hmem
        · exact h.size cmds hold
        · cases mem_singleton.1 hnew
      place := h.place_append hblocking hp.work
      flagged := fun y hy it' hit' hdone => by
        obtain ⟨rfl, rfl⟩ := hp.flagged h hidle hy hit' hdone
        rw [hclient, hdone]
        exact ⟨_, rfl⟩
      blocking := by
        rw [hblocking]
        exact nofun
      tail := fun y n hcall => by
        rw [hclient] at hcall
        cases hcall
        refine ⟨rfl, ?_, .inr ?_⟩
        · rw [hp.mem_self]
          rfl
        · rw [hp.work, getLast?_concat]
      awaits := fun y n hwaits it' hit' hdone => by
        rw [hclient] at hwaits
        cases hwait : it.waitDone with
        | false =>
          rw [hwait] at hwaits
          cases hwaits
        | true =>
          rw [hwait] at hwaits
          cases hwaits
          rw [hp.mem_self] at hit'
          cases hit'
          rw [hwait] at hdone
          cases hdone }

/-- A group is posted. -/
theorem Inv.post (hidle : c.client = .idle)
    (hopen : (blocks c.calls).2 ≠ []) (hsize : (blocks c.calls).2.length ≤ maxCmdCnt)
    (hlast : c.workQueue.getLast? = some x) (hx : c.mem x = some it)
    (hmem : c'.mem = update c.mem x (some { it with last := true, ready := true }))
    (hwork : c'.workQueue = c.workQueue) (hfree : c'.freeQueue = c.freeQueue)
    (hexecuted : c'.executed = c.executed) (hcalls : c'.calls = c.calls ++ [.post])
    (hclient : c'.client = .posted x block (blocks c'.calls).1.length) : c'.Inv maxCmdCnt v := by
  have hblocking := h.not_blocking (by rw [hidle]; rfl)
  have hself : c'.mem x = some { it with last := true, ready := true } := by
    rw [hmem, update_self]
  have hne : ∀ y ≠ x, c'.mem y = c.mem y := fun y hy => by
    rw [hmem, update_of_ne hy]
  have hcalled := h.called
  -- the last item ends what was open, and nothing else changes
  have hparse : parse [] (c'.items (v.rest c'.workQueue)) =
      ((parse [] (c.items (v.rest c.workQueue))).1 ++
        [.queue (parse [] (c.items (v.rest c.workQueue))).2], []) := by
    obtain ⟨l, hl⟩ := getLast?_eq_some_iff.1 hlast
    have hnot : x ∉ l := fun hmem => by
      have hnodup := h.nodup.of_append_left
      rw [hl] at hnodup
      exact disjoint_of_nodup_append hnodup hmem mem_cons_self
    rw [hl] at hcalled
    rw [hwork, hl]
    obtain hnil | ⟨l', hl', hsub⟩ := rest_concat v l x
    · rw [hnil] at hcalled
      exact absurd (congrArg Prod.snd hcalled) hopen
    have hitems : c.items (l' ++ [x]) = c.items l' ++ [it] := by
      rw [items, filterMap_append, ← items]
      simp [hx]
    have hitems' : c'.items (l' ++ [x]) =
        c.items l' ++ [{ it with last := true, ready := true }] := by
      rw [items, filterMap_append, ← items,
        items_congr fun y hy => hne y fun heq => hnot (heq ▸ hsub y hy)]
      simp [hself]
    rw [hl', hitems] at hcalled
    rw [hl', hitems, hitems']
    refine parse_post _ _ fun hnil => hopen ?_
    rw [hcalled]
    exact hnil
  exact
    { present := fun y hy => by
        rw [hmem]
        exact isSome_update (h.present y (by rwa [hwork, hfree] at hy)) _
      nodup := by
        rw [hwork, hfree]
        exact h.nodup
      called := by
        rw [hcalls, blocks_post, hcalled, hparse, hexecuted, append_assoc]
      size := fun cmds hcmds => by
        rw [hcalls, blocks_post] at hcmds
        obtain hold | hnew := mem_append.1 hcmds
        · exact h.size cmds hold
        · cases mem_singleton.1 hnew
          exact hsize
      place := place_congr h.place hwork hfree
      flagged := fun y hy it' hit' hdone => by
        have hflag : ∃ it' ∈ c.mem y, it'.waitDone = true := by
          by_cases hyx : y = x
          · rw [hyx, hself] at hit'
            cases hit'
            exact ⟨it, hyx ▸ hx, hdone⟩
          · exact ⟨it', hne y hyx ▸ hit', hdone⟩
        obtain ⟨it', hit', hdone⟩ := hflag
        obtain ⟨n, hn⟩ := h.flagged y (hwork ▸ hy) it' hit' hdone
        rw [hidle] at hn
        cases hn
      blocking := by
        rw [hblocking]
        exact nofun
      tail := fun y n hcall => by
        rw [hclient] at hcall
        cases hcall
        refine ⟨rfl, ?_, .inr (hwork ▸ hlast)⟩
        rw [hself]
        rfl
      awaits := by
        rw [hclient]
        exact nofun }

/-- A client goes on in its call. -/
theorem Inv.client_congr {client : Client} (hcall : client.call = c.client.call)
    (hwaits : client.waits = c.client.waits) : ({ c with client } : Context Cmd).Inv maxCmdCnt v :=
  { h with
    place := place_congr h.place rfl rfl
    flagged y hy it hit hdone := by
      obtain ⟨n, hn⟩ := h.flagged y hy it hit hdone
      exact ⟨n, hwaits.trans hn⟩
    blocking y hy := by
      obtain ⟨hdone, n, hn⟩ := h.blocking y hy
      exact ⟨hdone, n, hwaits.trans hn⟩
    tail y n hn := h.tail y n (hcall.symm.trans hn)
    awaits y n hn := h.awaits y n (hwaits.symm.trans hn) }

/-- A client returns when it does not wait, or finds the flag cleared. -/
theorem Inv.client_idle (hdone : ∀ y n, c.client.waits = some (y, n) →
      ∃ it ∈ c.mem y, it.waitDone = false) :
    ({ c with client := .idle } : Context Cmd).Inv maxCmdCnt v :=
  { h with
    place := place_congr h.place rfl rfl
    flagged y hy it hit hwait := by
      obtain ⟨n, hn⟩ := h.flagged y hy it hit hwait
      obtain ⟨it', hit', hclear⟩ := hdone y n hn
      cases hit.symm.trans hit'
      rw [hwait] at hclear
      cases hclear
    blocking y hy := by
      obtain ⟨hwait, n, hn⟩ := h.blocking y hy
      obtain ⟨it', hit', hclear⟩ := hdone y n hn
      rw [hwait it' hit'] at hclear
      cases hclear
    tail := nofun
    awaits := nofun }

/-- `post_queue_to_process` makes its caller wait. -/
theorem Inv.posted (hclient : c.client = .posted x true n) (hx : c.mem x = some it) : ({ c with
        mem := update c.mem x (some { it with waitDone := true })
        client := .waiting x n } : Context Cmd).Inv maxCmdCnt v := by
  have hblocking := h.not_blocking (by rw [hclient]; rfl)
  have hne : ∀ y ≠ x, update c.mem x (some { it with waitDone := true }) y = c.mem y :=
    fun y hy => update_of_ne hy ..
  obtain ⟨hn, hsome, htail⟩ := h.tail x n (by rw [hclient]; rfl)
  exact
    { present := fun y hy => isSome_update (h.present y hy) _
      nodup := h.nodup
      called := by
        rw [parse_setWaitDone (c := c) hx true _ rfl]
        exact h.called
      size := h.size
      place := place_congr h.place rfl rfl
      flagged := fun y hy it' hit' hdone => by
        by_cases hyx : y = x
        · exact ⟨n, hyx ▸ rfl⟩
        · obtain ⟨m, hm⟩ := h.flagged y hy it' ((hne y hyx).symm.trans hit') hdone
          rw [hclient] at hm
          cases hm
      blocking := by
        rw [hblocking]
        exact nofun
      tail := fun y m hcall => by
        cases hcall
        exact ⟨hn, isSome_update hsome _, htail⟩
      awaits := fun y m hwaits it' hit' hdone => by
        cases hwaits
        dsimp only at hit'
        rw [update_self] at hit'
        cases hit'
        cases hdone }

end

/-! ## The stages of the monitor -/

/-- The monitor gives a single command to the hardware. -/
theorem Inv.start_single (h : c.Inv maxCmdCnt .top) {rest : List ℕ}
    (hwork : c.workQueue = x :: rest) (hx : c.mem x = some it) (hmode : it.queueMode = false) :
    c.Inv maxCmdCnt (.running x it.waitDone (.single it.cmd)) :=
  { h with
    called := by
      have hitems : c.items (x :: rest) = it :: c.items rest := by
        rw [items, filterMap_cons_some hx, ← items]
      have hcalled := h.called
      rw [Stage.rest, hwork, hitems, parse_cons_single hmode] at hcalled
      rw [hcalled, hwork]
      simp [pending, Stage.rest]
    place := by
      rw [Place, hwork]
      rfl
    blocking := blocking_running hx (h.flagged x (hwork ▸ mem_cons_self) it hx) }

/-- The monitor gives a group to the hardware, and frees its items but for the last one. -/
theorem Inv.start_queue (h : c.Inv maxCmdCnt .top) {pre rest : List ℕ}
    (hwork : c.workQueue = pre ++ y :: rest) (hpre : ∀ z ∈ pre, c.isLast z = false)
    (hy : c.mem y = some it) (hlast : it.last = true)
    (hmode : ∀ z ∈ c.workQueue.head?, ∀ it ∈ c.mem z, it.queueMode = true) :
    ({ c with mem := fun z => if z ∈ pre then none else c.mem z, workQueue := y :: rest } :
      Context Cmd).Inv maxCmdCnt (.running y it.waitDone
        (.queue ((pre ++ [y]).filterMap fun z => (c.mem z).map (·.cmd)))) := by
  have hnodup : (pre ++ (y :: rest ++ c.freeQueue)).Nodup := by
    rw [← append_assoc, ← hwork]
    exact h.nodup
  -- what is freed is not in what is left
  have hkept : ∀ z ∈ y :: rest ++ c.freeQueue,
      (if z ∈ pre then none else c.mem z) = c.mem z := fun z hz =>
    if_neg fun hmem => disjoint_of_nodup_append hnodup hmem hz
  have hmem : ∀ z it', (if z ∈ pre then none else c.mem z) = some it' → c.mem z = some it' := by
    intro z it' hz
    split at hz
    · cases hz
    · exact hz
  have hsub : ∀ z ∈ y :: rest, z ∈ c.workQueue := fun z hz => by
    rw [hwork]
    exact mem_append_right pre hz
  have hitems : c.items c.workQueue = c.items pre ++ it :: c.items rest := by
    rw [hwork, items, filterMap_append, filterMap_cons_some hy]
    rfl
  have hpre' : ∀ a ∈ c.items pre, a.last = false := fun a ha => by
    obtain ⟨z, hz, ha⟩ := mem_filterMap.1 ha
    have hz' := hpre z hz
    rwa [isLast, ha] at hz'
  have hmode' : ∀ a ∈ (c.items pre ++ [it]).head?, a.queueMode = true := fun a ha => by
    rw [hwork] at hmode
    cases pre with
    | nil =>
      cases ha
      exact hmode y rfl it hy
    | cons z pre =>
      have hz := h.present z (by rw [hwork]; exact mem_cons_self)
      obtain ⟨b, hb⟩ := isSome_iff_exists.1 hz
      rw [items, filterMap_cons_some hb] at ha
      cases ha
      exact hmode z rfl a hb
  exact
    { present := fun z hz => by
        dsimp only
        rw [hkept z hz]
        refine h.present z ?_
        rw [hwork, append_assoc]
        exact mem_append_right pre hz
      nodup := hnodup.of_append_right
      called := by
        have hcalled := h.called
        -- the block that is running was the first of the blocks in the items
        have hrest : ({ c with
            mem := fun z => if z ∈ pre then none else c.mem z
            workQueue := y :: rest } : Context Cmd).items rest = c.items rest :=
          items_congr fun z hz => hkept z (mem_append_left _ (mem_cons_of_mem y hz))
        have hcmds : (pre ++ [y]).filterMap (fun z => (c.mem z).map (·.cmd)) =
            (c.items pre ++ [it]).map (·.cmd) := by
          rw [filterMap_append, map_append, items, map_filterMap]
          simp [hy]
        rw [Stage.rest, hitems, parse_queue _ hpre' hlast hmode'] at hcalled
        rw [Stage.rest, tail_cons, hrest, pending, hcmds]
        rw [hcalled, pending, append_nil, append_assoc]
        rfl
      size := h.size
      place := rfl
      flagged := fun z hz it' hit' hdone => h.flagged z (hsub z hz) it' (hmem z it' hit') hdone
      blocking := blocking_running ((hkept y mem_cons_self).trans hy)
        (h.flagged y (hsub y mem_cons_self) it hy)
      tail := fun z n hcall => by
        obtain ⟨hn, hsome, htail⟩ := h.tail z n hcall
        -- the item of a call is the last one, which is kept
        have hz : (y :: rest).getLast? = some z := by
          rw [hwork] at htail
          obtain hnil | hz := htail
          · cases (append_eq_nil_iff.1 hnil).2
          · rwa [getLast?_append_of_ne_nil _ (cons_ne_nil y rest)] at hz
        refine ⟨hn, ?_, .inr hz⟩
        dsimp only
        rwa [hkept z (mem_append_left _ (mem_of_getLast? hz))]
      awaits := fun z n hwaits it' hit' => h.awaits z n hwaits it' (hmem z it' hit') }

/-- The hardware has executed a block. -/
theorem Inv.finish (h : c.Inv maxCmdCnt (.running x block b)) :
    ({ c with executed := c.executed ++ [b] } : Context Cmd).Inv maxCmdCnt (.done x block) :=
  { h with
    called := by
      rw [h.called, pending, pending, append_nil]
      rfl
    blocking y hy := h.blocking y (by cases block <;> exact hy)
    awaits y n hn it hit hdone := by
      refine (h.awaits y n hn it hit hdone).trans ?_
      rw [length_append]
      exact Nat.le_add_right _ _ }

/-- The item of the monitor becomes free. -/
theorem Inv.retire (h : c.Inv maxCmdCnt (.done x block)) (hv' : v'.blocking =
      (done x block : Stage Cmd).blocking) (hplace : v'.Place
      { c with workQueue := c.workQueue.tail, freeQueue := c.freeQueue ++ [x] })
    (hpending : v'.pending = []) (hrest : ∀ l, v'.rest l = l) :
    ({ c with workQueue := c.workQueue.tail, freeQueue := c.freeQueue ++ [x] } :
      Context Cmd).Inv maxCmdCnt v' := by
  obtain ⟨rest, hwork⟩ : ∃ rest, c.workQueue = x :: rest := by
    have hhead := h.place
    cases hw : c.workQueue with
    | nil =>
      rw [Place, hw] at hhead
      cases hhead
    | cons a rest =>
      rw [Place, hw] at hhead
      cases hhead
      exact ⟨rest, rfl⟩
  have hperm : (rest ++ (c.freeQueue ++ [x])).Perm (c.workQueue ++ c.freeQueue) := by
    rw [hwork, ← append_assoc]
    exact (perm_append_singleton x _)
  exact
    { present := fun y hy => by
        refine h.present y (hperm.mem_iff.1 ?_)
        rwa [hwork] at hy
      nodup := by
        rw [hwork]
        exact hperm.nodup_iff.2 h.nodup
      called := by
        have hcalled := h.called
        rw [hpending, hrest]
        exact hcalled
      size := h.size
      place := hplace
      flagged := fun y hy => h.flagged y (mem_of_mem_tail hy)
      blocking := by
        rw [hv']
        exact h.blocking
      tail := fun y n hcall => by
        obtain ⟨hn, hsome, hlast⟩ := h.tail y n hcall
        refine ⟨hn, hsome, ?_⟩
        rw [hwork] at hlast ⊢
        obtain hnil | hlast := hlast
        · cases hnil
        · cases rest with
          | nil => exact .inl rfl
          | cons a rest => exact .inr (by rwa [getLast?_cons_cons] at hlast)
      awaits := h.awaits }

/-- The monitor clears the flag of its item. -/
theorem Inv.wake (h : c.Inv maxCmdCnt (.waking x more)) (hx : c.mem x = some it) :
    ({ c with mem := update c.mem x (some { it with waitDone := false }) } :
      Context Cmd).Inv maxCmdCnt .top := by
  have hne : ∀ y ≠ x, update c.mem x (some { it with waitDone := false }) y = c.mem y :=
    fun y hy => update_of_ne hy ..
  have hnot := h.not_mem_workQueue h.place
  exact
    { present := fun y hy => isSome_update (h.present y hy) _
      nodup := h.nodup
      called := by
        rw [parse_setWaitDone (c := c) hx false _ rfl]
        exact h.called
      size := h.size
      place := trivial
      flagged := fun y hy it' hit' hdone =>
        h.flagged y hy it' ((hne y fun heq => hnot (heq ▸ hy)).symm.trans hit') hdone
      blocking := nofun
      tail := fun y n hcall => by
        obtain ⟨hn, hsome, hlast⟩ := h.tail y n hcall
        exact ⟨hn, isSome_update hsome _, hlast⟩
      awaits := fun y n hwaits it' hit' hdone => by
        by_cases hyx : y = x
        · -- the item was the last one, so that all blocks are executed
          subst hyx
          obtain ⟨hn, -, hlast⟩ := h.tail y n (Client.call_of_waits hwaits)
          have hnil : c.workQueue = [] :=
            hlast.resolve_right fun hlast => hnot (mem_of_getLast? hlast)
          have hcalled := congrArg Prod.fst h.called
          rw [Stage.rest, hnil] at hcalled
          rw [hn, hcalled]
          simp [pending, items, parse]
        · exact h.awaits y n hwaits it' ((hne y hyx).symm.trans hit') hdone }

end Context

end CommonDrivers.Media.Ge2d
