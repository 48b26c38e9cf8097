import CommonDrivers.Media.Ge2d.WorkQueue

/-!
# What the monitor makes of a work queue

`parse` cuts the items of a work queue into the blocks that the monitor will give to the hardware,
and the commands of a group that is not posted. The calls of a client add to the blocks as `blocks`
does, and the monitor takes the first one:

* `parse_single`, `parse_enqueue` and `parse_post` for the client;
* `parse_cons_single` and `parse_queue` for the monitor.
-/

namespace CommonDrivers.Media.Ge2d

open List

variable {Cmd : Type*} {it : Item Cmd} {its : List (Item Cmd)} {cmds : List Cmd} {cmd : Cmd}
  {calls : List (Request Cmd)}

/-! ## The blocks of the calls -/

theorem blocks_single (calls : List (Request Cmd)) (cmd : Cmd) :
    blocks (calls ++ [.single cmd]) = ((blocks calls).1 ++ [.single cmd], (blocks calls).2) := by
  simp [blocks]

theorem blocks_enqueue (calls : List (Request Cmd)) (cmd : Cmd) :
    blocks (calls ++ [.enqueue cmd]) = ((blocks calls).1, (blocks calls).2 ++ [cmd]) := by
  simp [blocks]

theorem blocks_post (calls : List (Request Cmd)) :
    blocks (calls ++ [.post]) = ((blocks calls).1 ++ [.queue (blocks calls).2], []) := by
  simp [blocks]

/-! ## The blocks of the items -/

/-- An item as nobody waits for it. -/
def Item.unwaited (it : Item Cmd) : Item Cmd := { it with waitDone := false }

/-- The blocks that the items are given to the hardware as, after commands that are in its buffers
    already, and the commands of the last group if it has no last item. -/
def parse : List Cmd → List (Item Cmd) → List (Block Cmd) × List Cmd
  | cmds, [] => ([], cmds)
  | cmds, it :: its =>
    if cmds = [] ∧ it.queueMode = false then
      let r := parse [] its
      (.single it.cmd :: r.1, r.2)
    else if it.last then
      let r := parse [] its
      (.queue (cmds ++ [it.cmd]) :: r.1, r.2)
    else parse (cmds ++ [it.cmd]) its

theorem parse_cons_single (h : it.queueMode = false) :
    parse [] (it :: its) = (.single it.cmd :: (parse [] its).1, (parse [] its).2) := by
  rw [parse, if_pos ⟨rfl, h⟩]

theorem parse_cons_last (h : ¬ (cmds = [] ∧ it.queueMode = false)) (hlast : it.last = true) :
    parse cmds (it :: its) = (.queue (cmds ++ [it.cmd]) :: (parse [] its).1, (parse [] its).2) := by
  rw [parse, if_neg h, if_pos hlast]

theorem parse_cons_more (h : ¬ (cmds = [] ∧ it.queueMode = false)) (hlast : it.last = false) :
    parse cmds (it :: its) = parse (cmds ++ [it.cmd]) its := by
  rw [parse, if_neg h, if_neg (by rw [hlast]; exact Bool.false_ne_true)]

/-- The three ways to go on after an item. -/
theorem parse_cons_cases (cmds : List Cmd) (it : Item Cmd) : (cmds = [] ∧ it.queueMode = false ∧
      ∀ its, parse cmds (it :: its) = (.single it.cmd :: (parse [] its).1, (parse [] its).2)) ∨
    (it.last = true ∧ ∀ its, parse cmds (it :: its) =
      (.queue (cmds ++ [it.cmd]) :: (parse [] its).1, (parse [] its).2)) ∨
    (it.last = false ∧ ∀ its, parse cmds (it :: its) = parse (cmds ++ [it.cmd]) its) := by
  by_cases h : cmds = [] ∧ it.queueMode = false
  · obtain ⟨rfl, hmode⟩ := h
    exact .inl ⟨rfl, hmode, fun its => parse_cons_single hmode⟩
  · cases hlast : it.last with
    | true => exact .inr (.inl ⟨rfl, fun its => parse_cons_last h hlast⟩)
    | false => exact .inr (.inr ⟨rfl, fun its => parse_cons_more h hlast⟩)

/-- Who waits for an item does not count. -/
theorem parse_unwaited (cmds : List Cmd) (its : List (Item Cmd)) :
    parse cmds (its.map Item.unwaited) = parse cmds its := by
  induction its generalizing cmds with
  | nil => rfl
  | cons a its ih =>
    rw [map_cons, parse, parse, ih, ih]
    rfl

/-- The items go on where the ones before them have left the last group. -/
theorem parse_append (cmds : List Cmd) (its its' : List (Item Cmd)) :
    parse cmds (its ++ its') = ((parse cmds its).1 ++ (parse (parse cmds its).2 its').1,
      (parse (parse cmds its).2 its').2) := by
  induction its generalizing cmds with
  | nil => rfl
  | cons a its ih =>
    obtain ⟨-, -, heq⟩ | ⟨-, heq⟩ | ⟨-, heq⟩ := parse_cons_cases cmds a
    · rw [cons_append, heq, heq, ih]
      rfl
    · rw [cons_append, heq, heq, ih]
      rfl
    · rw [cons_append, heq, heq, ih]

/-- A command is added when no group is open. -/
theorem parse_single (cmds : List Cmd) (its : List (Item Cmd)) (hmode : it.queueMode = false)
    (hopen : (parse cmds its).2 = []) :
    parse cmds (its ++ [it]) = ((parse cmds its).1 ++ [.single it.cmd], []) := by
  rw [parse_append, hopen, parse_cons_single hmode]
  rfl

/-- A command is enqueued, in an item without the flag. -/
theorem parse_enqueue (cmds : List Cmd) (its : List (Item Cmd)) (hmode : it.queueMode = true)
    (hlast : it.last = false) :
    parse cmds (its ++ [it]) = ((parse cmds its).1, (parse cmds its).2 ++ [it.cmd]) := by
  rw [parse_append, parse_cons_more (fun h => ?_) hlast]
  · rw [parse, append_nil]
  · rw [hmode] at h
    exact Bool.false_ne_true h.2.symm

/-- The last item gets the flag when its group is open. -/
theorem parse_post (cmds : List Cmd) (its : List (Item Cmd))
    (hopen : (parse cmds (its ++ [it])).2 ≠ []) :
    parse cmds (its ++ [{ it with last := true, ready := true }]) =
      ((parse cmds (its ++ [it])).1 ++ [.queue (parse cmds (its ++ [it])).2], []) := by
  rw [parse_append] at hopen
  rw [parse_append, parse_append]
  generalize (parse cmds its).2 = group at hopen ⊢
  obtain ⟨-, -, heq⟩ | ⟨-, heq⟩ | ⟨hlast, heq⟩ := parse_cons_cases group it
  · rw [heq] at hopen
    exact absurd rfl hopen
  · rw [heq] at hopen
    exact absurd rfl hopen
  have hmode : ¬ (group = [] ∧ it.queueMode = false) := by
    rintro ⟨rfl, hmode⟩
    rw [parse_cons_single hmode] at hopen
    exact hopen rfl
  have hpost : parse group [{ it with last := true, ready := true }] =
      ([.queue (group ++ [it.cmd])], []) := parse_cons_last hmode rfl
  rw [hpost, heq, parse, append_nil]

/-- A queue that has begun goes up to the first item with the flag. -/
theorem parse_queue_of_ne_nil (pre : List (Item Cmd)) (hcmds : cmds ≠ [])
    (hpre : ∀ a ∈ pre, a.last = false) (hlast : it.last = true) : parse cmds (pre ++ it :: its) =
      (.queue (cmds ++ (pre ++ [it]).map (·.cmd)) :: (parse [] its).1, (parse [] its).2) := by
  induction pre generalizing cmds with
  | nil => exact parse_cons_last (fun h => hcmds h.1) hlast
  | cons a pre ih =>
    have hmore : parse cmds (a :: (pre ++ it :: its)) =
        parse (cmds ++ [a.cmd]) (pre ++ it :: its) :=
      parse_cons_more (fun h => hcmds h.1) (hpre a mem_cons_self)
    rw [cons_append, hmore, ih (by simp) fun b hb => hpre b (mem_cons_of_mem a hb)]
    simp

/-- The first item is enqueued: its group goes up to the first item with the flag. -/
theorem parse_queue (pre : List (Item Cmd)) (hpre : ∀ a ∈ pre, a.last = false)
    (hlast : it.last = true) (hmode : ∀ a ∈ (pre ++ [it]).head?, a.queueMode = true) :
    parse [] (pre ++ it :: its) =
      (.queue ((pre ++ [it]).map (·.cmd)) :: (parse [] its).1, (parse [] its).2) := by
  cases pre with
  | nil =>
    refine parse_cons_last (fun h => ?_) hlast
    rw [hmode it rfl] at h
    exact Bool.false_ne_true h.2.symm
  | cons a pre =>
    have hmore : parse [] (a :: (pre ++ it :: its)) = parse [a.cmd] (pre ++ it :: its) := by
      refine parse_cons_more (fun h => ?_) (hpre a mem_cons_self)
      rw [hmode a rfl] at h
      exact Bool.false_ne_true h.2.symm
    rw [cons_append, hmore, parse_queue_of_ne_nil pre (by simp)
      (fun b hb => hpre b (mem_cons_of_mem a hb)) hlast]
    simp

/-- A group that has begun stays open without an item with the flag. -/
theorem parse_of_ne_nil (hcmds : cmds ≠ []) (h : ∀ a ∈ its, a.last = false) :
    (parse cmds its).2 ≠ [] := by
  induction its generalizing cmds with
  | nil => exact hcmds
  | cons a its ih =>
    rw [parse_cons_more (fun h => hcmds h.1) (h a mem_cons_self)]
    exact ih (by simp) fun b hb => h b (mem_cons_of_mem a hb)

/-- The first item is enqueued, and no group is open: there is an item with the flag. -/
theorem exists_last (hmode : it.queueMode = true) (hopen : (parse [] (it :: its)).2 = []) :
    ∃ a ∈ it :: its, a.last = true := by
  by_contra hnot
  push Not at hnot
  have hfalse : ∀ a ∈ it :: its, a.last = false := fun a ha => eq_false_of_ne_true (hnot a ha)
  rw [parse_cons_more (fun h => Bool.false_ne_true (h.2.symm.trans hmode))
    (hfalse it mem_cons_self)] at hopen
  exact parse_of_ne_nil (by simp) (fun a ha => hfalse a (mem_cons_of_mem it ha)) hopen

end CommonDrivers.Media.Ge2d
