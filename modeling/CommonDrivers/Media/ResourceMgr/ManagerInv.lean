import CommonDrivers.Media.ResourceMgr.HolderCount

/-!
# The invariant of the resource manager

Between two steps, the holders of each resource account for its value, a session is once at most
among them, and its own list has the resources that it holds (`Manager.Inv`). Preempting changes the
status of sessions only, so that nothing of this depends on who is preempted.
-/

namespace CommonDrivers.Media.ResourceMgr

open List Function Option

variable {R S : Type*} [DecidableEq R] [DecidableEq S]

/-- The id of a new session is positive, and there is room for what is asked for. -/
def Step.Fits (cfg : Config R) (m : Manager R S) : Step R S → Prop
  | .opens _ id => 0 < id
  | .acquire s r _ _ arg _ =>
    ∀ node ∈ request cfg.kstrtou32 (m.resources r).kind s arg, (m.resources r).Room node
  | .wake s _ => ∀ p ∈ m.waiting s, (m.resources p.resource).Room p.node
  | _ => True

omit [DecidableEq R] [DecidableEq S] in
instance (cfg : Config R) (m : Manager R S) : (op : Step R S) → Decidable (op.Fits cfg m)
  | .opens _ id => inferInstanceAs (Decidable (0 < id))
  | .setAppInfo .. | .release .. | .closes _ => inferInstanceAs (Decidable True)
  | .acquire .. => inferInstanceAs (Decidable (∀ _ ∈ _, _))
  | .wake .. => inferInstanceAs (Decidable (∀ _ ∈ _, _))

namespace Resource

variable {r : Resource S} {id id' : S → ℤ}

omit [DecidableEq S] in
theorem Balanced.congr (h : r.Balanced id) (hid : ∀ n ∈ r.nodes, id' n.session = id n.session) :
    r.Balanced id' := by
  have hmap : (r.nodes.map fun n => id' n.session) = r.nodes.map fun n => id n.session :=
    map_congr_left hid
  rw [Balanced] at h ⊢
  rwa [hmap]

omit [DecidableEq S] in
theorem balanced_new {kind : Kind} (id : S → ℤ)
    (h : ∀ avail, kind = .counter avail → avail < 2 ^ 31) :
    (new kind : Resource S).Balanced id := by
  have hzero : (0 : ℤ) < 2 ^ 31 := by decide
  cases kind with
  | counter avail =>
    refine ⟨h avail rfl, rfl, Nat.zero_le _, length_replicate, ?_⟩
    simp [new, reduceOption_replicate_none]
  | toggle => exact ⟨.inl ⟨rfl, nofun⟩, neg_lt_zero.2 hzero, hzero⟩
  | tvp => exact ⟨rfl, hzero⟩
  | codecMm total uhd fhd limit => exact ⟨rfl, rfl, rfl, hzero, hzero, hzero⟩
  | capacity total => exact ⟨rfl, Int.natCast_nonneg _, fun h => absurd rfl h⟩

end Resource

/-! ## Preempting keeps the ids -/

section Ids

variable {sess : S → Session} {curr : S} {nodes : List (Node S)} {s : S}

theorem id_preemptSession (reach : S → Bool) (selected : Option (Node S)) (s : S) :
    ((preemptSession sess reach selected).sess s).id = (sess s).id := by
  cases selected with
  | none => rfl
  | some node =>
    rw [preemptSession]
    split
    · rfl
    split
    · rfl
    dsimp only
    rw [update_apply]
    split
    · next heq => rw [heq]
    · rfl

theorem id_reclaim {amount : Node S → ℕ} {value : ℤ} {total need : ℕ} {reach : ℕ → S → Bool}
    (turns : ℕ) (lowestprio : ℤ) (acc : Outcome S) :
    ((reclaim curr nodes amount value total need reach turns lowestprio acc).sess s).id =
      (acc.sess s).id := by
  induction turns generalizing lowestprio acc with
  | zero => rfl
  | succ turns ih =>
    rw [reclaim]
    dsimp only
    split
    · rfl
    split
    · rfl
    next node _ =>
    split
    · split
      · rw [ih]
        exact id_preemptSession _ _ s
      · exact id_preemptSession _ _ s
    · exact ih _ acc

theorem id_reclaimSecure {reach : S → Bool} {limit : ℕ} (nodes : List (Node S)) (secureCount : ℤ)
    (acc : Outcome S) :
    ((reclaimSecure reach limit nodes secureCount acc).sess s).id = (acc.sess s).id := by
  induction nodes generalizing secureCount acc with
  | nil => rfl
  | cons node nodes ih =>
    rw [reclaimSecure]
    split
    · rfl
    split
    · rw [ih]
      exact id_preemptSession _ _ s
    · exact ih _ acc

omit [DecidableEq R] in
theorem id_preempt (cfg : Config R) (m : Manager R S) (curr : S) (r : R) (node : Node S)
    (o : Outside S) (s : S) : ((m.preempt cfg curr r node o).sess s).id = (m.sessions s).id := by
  rw [Manager.preempt]
  split
  · exact id_preemptSession _ _ s
  · rfl
  · split
    · exact id_preemptSession _ _ s
    · rfl
  · rw [codecMmPreempt, id_reclaim]
    split
    · exact id_reclaimSecure _ _ _
    · rfl
  · exact id_reclaim _ _ _

end Ids

/-! ## The invariant -/

namespace Manager

variable {cfg : Config R} {m m' : Manager R S} {s : S} {r : R} {node : Node S} {mem : Memory}
  {o : Outside S} {op : Step R S}

/-- The accounts, and the lists that are behind them. -/
structure Inv (m : Manager R S) : Prop where
  balanced r : (m.resources r).Balanced fun s => (m.sessions s).id
  nodup r : ((m.resources r).nodes.map (·.session)).Nodup
  opened : ∀ {r}, ∀ n ∈ (m.resources r).nodes, m.isOpen n.session = true
  pos : ∀ {s}, m.isOpen s = true → 0 < (m.sessions s).id
  held : ∀ {s r}, m.isOpen s = true → (r ∈ m.held s ↔ ∃ n ∈ (m.resources r).nodes, n.session = s)
  once : ∀ {s}, m.isOpen s = true → (m.held s).Nodup
  pending : ∀ {s p}, m.isOpen s = true → m.waiting s = some p →
    p.resource ∉ m.held s ∧ p.node.session = s

omit [DecidableEq R] in
theorem id_update {x : Session} (hx : x.id = (m.sessions s).id) :
    ∀ s', (update m.sessions s x s').id = (m.sessions s').id :=
  (forall_update_iff m.sessions fun s' y => y.id = (m.sessions s').id).2 ⟨hx, fun _ _ => rfl⟩

variable (h : m.Inv)
include h

section

omit [DecidableEq R]

omit [DecidableEq S] in
theorem Inv.setSessions {sess : S → Session}
    (hid : ∀ s, (sess s).id = (m.sessions s).id) : ({ m with sessions := sess }).Inv :=
  { h with
    balanced r := (h.balanced r).congr fun n _ => hid n.session
    pos hs := (hid _).symm ▸ h.pos hs }

theorem Inv.setWaiting {w : Option (Pending R S)}
    (hw : ∀ p, w = some p → p.resource ∉ m.held s ∧ p.node.session = s) :
    ({ m with waiting := update m.waiting s w } : Manager R S).Inv :=
  { h with
    pending {s' p} hopen hp := by
      change update m.waiting s w s' = some p at hp
      by_cases heq : s' = s
      · subst heq
        rw [update_self] at hp
        exact hw p hp
      · rw [update_of_ne heq] at hp
        exact h.pending hopen hp }

theorem Inv.fail (s : S) : (m.fail s).Inv := h.setWaiting nofun

theorem Inv.wait (hr : r ∉ m.held s) (hs : node.session = s) : (m.wait s r node).Inv :=
  h.setWaiting fun p hp => by
    cases hp
    exact ⟨hr, hs⟩

/-- A session is opened. It holds nothing yet, so that its id is not in any of the lists. -/
theorem Inv.opens {sess : Session} (hclosed : m.isOpen s = false) (hid : 0 < sess.id) :
    ({ m with
        sessions := update m.sessions s sess
        isOpen := update m.isOpen s true
        held := update m.held s []
        waiting := update m.waiting s none }).Inv := by
  -- a session that is closed holds nothing
  have hnode : ∀ {r}, ∀ n ∈ (m.resources r).nodes, n.session ≠ s := fun n hn heq => by
    have hopen := h.opened n hn
    rw [heq, hclosed] at hopen
    cases hopen
  have hother : ∀ {s'}, s' ≠ s → update m.isOpen s true s' = true → m.isOpen s' = true :=
    fun hne hs' => by rwa [update_of_ne hne] at hs'
  refine
    { balanced := fun r => (h.balanced r).congr fun n hn => ?_, nodup := h.nodup,
      opened := fun n hn => ?_, pos := fun {s'} hs' => ?_, held := fun {s' r} hs' => ?_,
      once := fun {s'} hs' => ?_, pending := fun {s' p} hs' hp => ?_ }
  · dsimp only
    rw [update_of_ne (hnode n hn)]
  · dsimp only
    rw [update_of_ne (hnode n hn)]
    exact h.opened n hn
  · dsimp only at hs' ⊢
    by_cases heq : s' = s
    · rw [heq, update_self]
      exact hid
    · rw [update_of_ne heq]
      exact h.pos (hother heq hs')
  · dsimp only at hs' ⊢
    by_cases heq : s' = s
    · rw [heq, update_self]
      refine ⟨fun hmem => absurd hmem not_mem_nil, ?_⟩
      rintro ⟨n, hn, hn'⟩
      exact absurd hn' (hnode n hn)
    · rw [update_of_ne heq]
      exact h.held (hother heq hs')
  · dsimp only at hs' ⊢
    by_cases heq : s' = s
    · rw [heq, update_self]
      exact nodup_nil
    · rw [update_of_ne heq]
      exact h.once (hother heq hs')
  · dsimp only at hs' hp ⊢
    by_cases heq : s' = s
    · rw [heq, update_self] at hp
      cases hp
    · rw [update_of_ne heq] at hp ⊢
      exact h.pending (hother heq hs') hp

/-- A session that holds nothing is closed. -/
theorem Inv.closes (hopen : m.isOpen s = true) (hheld : m.held s = []) :
    ({ m with isOpen := update m.isOpen s false }).Inv := by
  have hother : ∀ {s'}, update m.isOpen s false s' = true → m.isOpen s' = true := by
    intro s' hs'
    by_cases heq : s' = s
    · rw [heq, update_self] at hs'
      cases hs'
    · rwa [update_of_ne heq] at hs'
  refine
    { balanced := h.balanced, nodup := h.nodup, opened := fun {r} n hn => ?_,
      pos := fun hs' => h.pos (hother hs'), held := fun hs' => h.held (hother hs'),
      once := fun hs' => h.once (hother hs'),
      pending := fun hs' hp => h.pending (hother hs') hp }
  have hne : n.session ≠ s := fun heq => by
    have hmem := (h.held hopen).2 ⟨n, hn, heq⟩
    rw [hheld] at hmem
    exact not_mem_nil hmem
  dsimp only
  rw [update_of_ne hne]
  exact h.opened n hn

end

/-- The holders of one resource change, and with them the list of one session. -/
theorem Inv.setHolders {x : Resource S} {l : List R}
    (hbal : x.Balanced fun s => (m.sessions s).id) (hnodup : (x.nodes.map (·.session)).Nodup)
    (hopened : ∀ n ∈ x.nodes, m.isOpen n.session = true)
    (hself : r ∈ l ↔ ∃ n ∈ x.nodes, n.session = s)
    (hothers : ∀ s' ≠ s, (∃ n ∈ x.nodes, n.session = s') ↔
      ∃ n ∈ (m.resources r).nodes, n.session = s')
    (hrest : ∀ r' ≠ r, r' ∈ l ↔ r' ∈ m.held s) (honce : l.Nodup) (hwait : m.waiting s = none) :
    ({ m with resources := update m.resources r x, held := update m.held s l }).Inv where
  balanced := (forall_update_iff m.resources fun _ y => y.Balanced fun s => (m.sessions s).id).2
    ⟨hbal, fun r' _ => h.balanced r'⟩
  nodup := (forall_update_iff m.resources fun _ y => (y.nodes.map (·.session)).Nodup).2
    ⟨hnodup, fun r' _ => h.nodup r'⟩
  opened {r'} :=
    (forall_update_iff m.resources fun _ y => ∀ n ∈ y.nodes, m.isOpen n.session = true).2
      ⟨hopened, fun r' _ => h.opened⟩ r'
  pos := h.pos
  held {s' r'} hs' := by
    dsimp only
    rcases eq_or_ne s' s with rfl | hs
    · rw [update_self]
      rcases eq_or_ne r' r with rfl | hr
      · rwa [update_self]
      · rw [update_of_ne hr, hrest r' hr]
        exact h.held hs'
    · rw [update_of_ne hs, h.held hs']
      rcases eq_or_ne r' r with rfl | hr
      · rw [update_self, hothers s' hs]
      · rw [update_of_ne hr]
  once {s'} := (forall_update_iff m.held fun s' l => m.isOpen s' = true → l.Nodup).2
    ⟨fun _ => honce, fun s' _ => h.once⟩ s'
  pending {s' p} hs' hp := by
    have hne : s' ≠ s := by
      rintro rfl
      rw [hwait] at hp
      cases hp
    dsimp only
    rw [update_of_ne hne]
    exact h.pending hs' hp

variable (hopen : m.isOpen s = true)
include hopen

section

variable (hr : r ∉ m.held s) (hs : node.session = s) (hroom : (m.resources r).Room node)
include hr hs hroom

theorem Inv.take (henough : (m.resources r).enough mem node = true) : (m.take s r node).Inv := by
  have hnot : ∀ n ∈ (m.resources r).nodes, n.session ≠ s := fun n hn heq =>
    hr ((h.held hopen).2 ⟨n, hn, heq⟩)
  have hbal := (h.balanced r).take henough hroom
  rw [hs] at hbal
  have hnodes := (m.resources r).nodes_take (m.sessions s).id node
  refine ((h.fail s).setHolders (r := r) (l := m.held s ++ [r]) hbal ?_ ?_ ?_ (fun s' hne => ?_)
    (fun r' hne => ?_) ?_ (update_self ..)).setSessions (id_update rfl)
  · rw [hnodes, map_append, map_singleton, hs]
    refine nodup_append'.2 ⟨h.nodup r, nodup_singleton s, fun x hx hmem => ?_⟩
    obtain ⟨n, hn, rfl⟩ := mem_map.1 hx
    exact hnot n hn (mem_singleton.1 hmem)
  · rw [hnodes, forall_mem_append, forall_mem_singleton, hs]
    exact ⟨h.opened, hopen⟩
  · rw [hnodes]
    exact iff_of_true (by simp) ⟨node, by simp, hs⟩
  · rw [hnodes]
    simp [or_and_right, exists_or, hs, hne.symm]
    rfl
  · rw [mem_append, mem_singleton, or_iff_left hne]
    rfl
  · exact nodup_append'.2 ⟨h.once hopen, nodup_singleton r, disjoint_singleton.2 hr⟩

theorem Inv.finish (mem : Memory) : (m.finish s r node mem).Inv := by
  rw [Manager.finish]
  split
  · next henough => exact h.take hopen hr hs hroom henough
  · exact h.fail s

theorem Inv.tryTvp (preempt : Bool) (o : Outside S) : (m.tryTvp cfg s r preempt node o).Inv := by
  have hsess := h.setSessions (id_preempt cfg m s r node o)
  rw [Manager.tryTvp]
  split
  · next henough => exact h.take hopen hr hs hroom henough
  split
  · exact h.fail s
  dsimp only
  split
  · exact hsess.wait hr hs
  · exact hsess.fail s

theorem Inv.tryAcquire (preempt : Bool) (timeout : ℕ)
    (o : Outside S) : (m.tryAcquire cfg s r preempt timeout node o).Inv := by
  have hsess := h.setSessions (id_preempt cfg m s r node o)
  rw [Manager.tryAcquire]
  split
  · exact h.finish hopen hr hs hroom _
  · exact h.tryTvp hopen hr hs hroom preempt o
  split
  · exact h.finish hopen hr hs hroom _
  split
  · dsimp only
    generalize (if timeout = 0 then cfg.preemptTimeoutMs else timeout) = t
    split
    · exact hsess.wait hr hs
    · exact hsess.finish hopen hr hs hroom _
  · split
    · exact h.wait hr hs
    · exact h.finish hopen hr hs hroom _

end

theorem Inv.wake {p : Pending R S} (hp : m.waiting s = some p)
    (hroom : (m.resources p.resource).Room p.node) (o : Outside S) : (m.wake cfg s p o).Inv := by
  obtain ⟨hr, hs⟩ := h.pending hopen hp
  rw [Manager.wake]
  split
  · exact h.tryTvp hopen hr hs hroom true o
  · exact h.finish hopen hr hs hroom _

/-- A node is taken out of the lists. -/
theorem Inv.remove (hwait : m.waiting s = none) {pre post : List (Node S)}
    (hnodes : (m.resources r).nodes = pre ++ node :: post) (hs : node.session = s) :
    ({ m with
        resources := update m.resources r
          { (m.resources r).release (m.sessions s).id node with nodes := pre ++ post }
        held := update m.held s ((m.held s).erase r) }).Inv := by
  have hperm : (m.resources r).nodes.Perm (node :: (pre ++ post)) := hnodes ▸ perm_middle
  obtain ⟨hgone, hnodup⟩ := nodup_cons.1 ((hperm.map (·.session)).nodup_iff.1 (h.nodup r))
  have hbal := (h.balanced r).release hnodes (hs ▸ h.pos hopen)
  rw [hs] at hbal
  refine h.setHolders hbal hnodup (fun n hn => ?_) ?_ (fun s' hne => ?_)
    (fun r' hne => mem_erase_of_ne hne) ((h.once hopen).erase r) hwait
  · exact h.opened n (hperm.mem_iff.2 (mem_cons_of_mem node hn))
  · refine iff_of_false (h.once hopen).not_mem_erase ?_
    rintro ⟨n, hn, heq⟩
    exact hgone (mem_map.2 ⟨n, hn, heq.trans hs.symm⟩)
  · simp [hperm.mem_iff, hs, hne.symm]

theorem Inv.release (hwait : m.waiting s = none) : (m.release s r).Inv := by
  rw [Manager.release]
  split
  · next node hfind =>
    obtain ⟨hs, pre, post, hnodes, hpre⟩ := find?_eq_some_iff_append.1 hfind
    replace hs : node.session = s := by simpa using hs
    have herase : (m.resources r).nodes.eraseP (fun n => n.session = s) = pre ++ post := by
      rw [hnodes, eraseP_append_right _ (by simpa using hpre), eraseP_cons_of_pos]
      simpa using hs
    rw [herase]
    exact h.remove hopen hwait hnodes hs
  · exact h

end Manager

omit [DecidableEq S] in
theorem session_request {kstrtou32 : List Char → Option UInt32} {kind : Kind} {s : S}
    {arg : Option (List Char)} {node : Node S}
    (h : request kstrtou32 kind s arg = some node) : node.session = s := by
  cases kind with
  | counter | tvp | codecMm =>
    cases h
    rfl
  | toggle =>
    obtain ⟨type, -, rfl⟩ := map_eq_some_iff.1 h
    rfl
  | capacity total =>
    obtain ⟨use, -, rfl⟩ := map_eq_some_iff.1 h
    rfl

theorem Manager.Inv.step {cfg : Config R} {m m' : Manager R S} {op : Step R S} (h : m.Inv)
    (hfits : op.Fits cfg m) (hstep : m.step cfg op = some m') : m'.Inv := by
  cases op with
  | opens s id =>
    rw [Manager.step] at hstep
    split at hstep
    · cases hstep
    · next hclosed =>
      cases hstep
      exact h.opens (Bool.eq_false_iff.2 hclosed) hfits
  | setAppInfo s prio =>
    rw [Manager.step] at hstep
    split at hstep
    · cases hstep
      exact h.setSessions (Manager.id_update rfl)
    · cases hstep
  | acquire s r preempt timeout arg o =>
    rw [Manager.step] at hstep
    split at hstep
    · next hready =>
      split at hstep
      · cases hstep
        exact h
      next hr =>
      split at hstep
      · next node hreq =>
        cases hstep
        exact h.tryAcquire hready.1 hr (session_request hreq) (hfits node hreq) _ _ _
      · cases hstep
        exact h
    · cases hstep
  | wake s o =>
    rw [Manager.step] at hstep
    split at hstep
    · next hopen =>
      obtain ⟨p, hp, rfl⟩ := map_eq_some_iff.1 hstep
      exact h.wake hopen hp (hfits p hp) o
    · cases hstep
  | release s r =>
    rw [Manager.step] at hstep
    split at hstep
    · next hready =>
      split at hstep
      · cases hstep
        exact h.release hready.1 (isNone_iff_eq_none.1 hready.2)
      · cases hstep
        exact h
    · cases hstep
  | closes s =>
    rw [Manager.step] at hstep
    split at hstep
    · next hready =>
      cases hstep
      exact h.closes hready.1 hready.2.2
    · cases hstep

end CommonDrivers.Media.ResourceMgr
