import CommonDrivers.Media.ResourceMgr.Accounting
import CommonDrivers.Media.ResourceMgr.Selection

/-!
# Preemption

`preemption_policy` is about every acquire that may preempt, in any state of the sessions and the
holders: it marks holders of the resource that is reclaimed, of no higher priority than the
requester, the lowest priority and the oldest first, and no more than it has to. The request then
waits for them. The condition for it (`Heeds`) is exact.

The request does not wait for holders that were preempted before, even if it fits without them:
`resman_preempt_session` gives false for those, and the loops end without having preempted anyone.
It fails at once (`preemption_no_wait`). It does not wait without a timeout either. A secure request
of the codec memory, when there are too many secure instances, also reclaims these without looking
at their priority; the result leaves these requests out.
-/

namespace CommonDrivers.Media.ResourceMgr

variable {R S : Type*} [DecidableEq R] [DecidableEq S]

namespace Manager

variable {cfg : Config R} {m : Manager R S} {s : S} {r : R} {node : Node S} {o : Outside S}

/-- The holders that are preempted for a resource: for TVP they are the instances of the codec
    memory that are not secure. -/
def reclaimed (cfg : Config R) (m : Manager R S) (r : R) : List (Node S) :=
  match (m.resources r).kind with
  | .tvp => ((cfg.codecMm.map fun c => (m.resources c).nodes).getD []).filter fun n => !n.secure
  | _ => (m.resources r).nodes

/-- The request fits once the sessions that are preempted have released the resource. Whether it
    does is not known for TVP: the next try is after the release of an instance. -/
def FitsWithout (cfg : Config R) (m : Manager R S) (r : R) (node : Node S) (sess : S → Session) :
    Prop :=
  let res := m.resources r
  let gone := res.nodes.filter fun n => (sess n.session).status = .preempted
  match res.kind with
  | .counter avail => res.value - gone.length < avail
  | .toggle => False
  | .tvp => ∃ n ∈ m.reclaimed cfg r, (sess n.session).status = .preempted
  | .codecMm total _ _ _ => res.value - (gone.map (·.score)).sum + node.score ≤ total
  | .capacity total => res.value - (gone.map (·.use)).sum + node.use ≤ total

omit [DecidableEq R] [DecidableEq S] in
/-- The request fits all the more if more sessions are preempted. -/
theorem FitsWithout.mono {sess sess' : S → Session} (h : m.FitsWithout cfg r node sess)
    (hle : ∀ t, (sess t).status = .preempted → (sess' t).status = .preempted) :
    m.FitsWithout cfg r node sess' := by
  have hsub : ((m.resources r).nodes.filter fun n => (sess n.session).status = .preempted).Sublist
      ((m.resources r).nodes.filter fun n => (sess' n.session).status = .preempted) :=
    List.monotone_filter_right _ fun n hn => by simpa using hle _ (by simpa using hn)
  have hsum : ∀ amount : Node S → ℕ,
      (((m.resources r).nodes.filter fun n =>
        (sess n.session).status = .preempted).map amount).sum ≤
      (((m.resources r).nodes.filter fun n =>
        (sess' n.session).status = .preempted).map amount).sum :=
    fun amount => (hsub.map amount).sum_le_sum fun _ _ => Nat.zero_le _
  have hlen := hsub.length_le
  have hscore := hsum (·.score)
  have huse := hsum (·.use)
  rw [FitsWithout] at h ⊢
  split at h
  · omega
  · exact h
  · obtain ⟨n, hn, hstatus⟩ := h
    exact ⟨n, hn, hle _ hstatus⟩
  · omega
  · omega

/-- The value of the codec memory or of a capacity is what its holders have. -/
def Adds (res : Resource S) : Prop :=
  match res.kind with
  | .codecMm _ _ _ _ => res.value = (res.nodes.map (·.score)).sum
  | .capacity _ => res.value = (res.nodes.map (·.use)).sum
  | _ => True

/-- The first loop of `resman_codec_mm_preempt` reclaims nothing: the request is not secure, or the
    limit is not reached, or none of the secure instances can be preempted. -/
def SecureKept (m : Manager R S) (r : R) (node : Node S) (reach : S → Bool) : Prop :=
  match (m.resources r).kind with
  | .codecMm _ _ _ limit => node.secure = true → u32 (m.resources r).counterSecure < limit ∨
      ∀ n ∈ (m.resources r).nodes, n.secure = true → (m.sessions n.session).status = .acquired →
        reach n.session = false
  | _ => True

omit [DecidableEq S] in
theorem usedWithout_le {nodes : List (Node S)} {amount : Node S → ℕ} {value : ℤ} {total need : ℕ}
    (hvalue : value = (nodes.map amount).sum) (sess : S → Session)
    (h : value - ((nodes.filter fun n => (sess n.session).status = .preempted).map amount).sum +
      need ≤ total) : u32 (usedWithout sess nodes amount value + need) ≤ total := by
  have hsub : ((nodes.filter fun n => (sess n.session).status = .preempted).map amount).sum ≤
      (nodes.map amount).sum := (List.filter_sublist.map amount).sum_le_sum fun _ _ => Nat.zero_le _
  rw [usedWithout, u32, u32]
  omega

theorem reclaimSecure_of_lt {reach : S → Bool} {limit : ℕ} {count : ℤ} (h : u32 count < limit)
    (nodes : List (Node S)) (acc : Outcome S) :
    reclaimSecure reach limit nodes count acc = acc := by
  cases nodes with
  | nil => rfl
  | cons node nodes => rw [reclaimSecure, if_pos h]

theorem reclaimSecure_of_unreached {reach : S → Bool} {sess : S → Session} (limit : ℕ)
    {nodes : List (Node S)} (h : ∀ n ∈ nodes, n.secure = true →
      (sess n.session).status = .acquired → reach n.session = false) (count : ℤ) :
    reclaimSecure reach limit nodes count { sess, sent := [], ret := false } =
      { sess, sent := [], ret := false } := by
  induction nodes generalizing count with
  | nil => rfl
  | cons n nodes ih =>
    obtain ⟨hn, hnodes⟩ := List.forall_mem_cons.1 h
    rw [reclaimSecure]
    split_ifs with hlt hsecure
    · rfl
    · obtain ⟨-, heq⟩ | ⟨hstatus, heq⟩ := preemptSession_cases sess reach n
      · rw [heq]
        exact ih hnodes _
      · rw [preemptSession, if_neg (not_not.2 hstatus), hn hsecure hstatus] at heq
        cases congrArg Outcome.ret heq
    · exact ih hnodes count

section

variable (hadds : Adds (m.resources r)) (hsecure : m.SecureKept r node (o.reach o.turns))

omit [DecidableEq R] in
include hsecure in
theorem codecMmPreempt_eq {total uhd fhd limit : ℕ}
    (hk : (m.resources r).kind = .codecMm total uhd fhd limit) :
    m.preempt cfg s r node o = reclaim s (m.resources r).nodes (·.score) (m.resources r).value total
      node.score o.reach o.turns (m.sessions s).prio
        { sess := m.sessions, sent := [], ret := false } := by
  rw [SecureKept, hk] at hsecure
  rw [preempt, hk]
  dsimp only
  rw [codecMmPreempt]
  split
  · next hs =>
    rcases hsecure hs with hlt | hunreached
    · rw [reclaimSecure_of_lt hlt]
    · rw [reclaimSecure_of_unreached limit hunreached]
  · rfl

omit [DecidableEq R] in
include hadds hsecure in
/-- A preemption keeps to the policy, if the request does not fit before it. -/
theorem preempt_policy {enough : (S → Session) → Prop} (hneeded : ¬ enough m.sessions)
    (henough : ∀ sess, enough sess → m.FitsWithout cfg r node sess) :
    Policy m.sessions s (m.reclaimed cfg r) enough (m.preempt cfg s r node o) := by
  rw [reclaimed]
  rw [Adds] at hadds
  cases hk : (m.resources r).kind with
  | counter avail =>
    rw [preempt, hk]
    exact counterPreempt_policy hneeded
  | toggle =>
    rw [preempt, hk]
    exact .none
  | tvp =>
    rw [preempt, hk]
    dsimp only
    cases hc : cfg.codecMm with
    | none => exact .none
    | some c => exact tvpPreempt_policy hneeded
  | codecMm total uhd fhd limit =>
    rw [hk] at hadds
    rw [codecMmPreempt_eq hsecure hk]
    refine reclaim_policy (fun sess h => ?_) o.turns .none le_rfl
    have hfits := henough sess h
    simp only [FitsWithout, hk] at hfits
    exact usedWithout_le hadds sess hfits
  | capacity total =>
    rw [hk] at hadds
    rw [preempt, hk]
    refine reclaim_policy (fun sess h => ?_) o.turns .none le_rfl
    have hfits := henough sess h
    simp only [FitsWithout, hk] at hfits
    exact usedWithout_le hadds sess hfits

omit [DecidableEq R] in
include hadds hsecure in
/-- The loop of the codec memory preempts nobody, if the request fits without those that are. -/
theorem preempt_of_fits {total uhd fhd limit : ℕ}
    (hk : (m.resources r).kind = .codecMm total uhd fhd limit)
    (hfits : m.FitsWithout cfg r node m.sessions) :
    m.preempt cfg s r node o = { sess := m.sessions, sent := [], ret := false } := by
  rw [codecMmPreempt_eq hsecure hk]
  rw [Adds, hk] at hadds
  simp only [FitsWithout, hk] at hfits
  cases o.turns with
  | zero => rfl
  | succ turns => rw [reclaim, if_pos (usedWithout_le hadds m.sessions hfits)]

end

/-- What an acquire that may preempt does to the other sessions, and whether it waits. -/
structure Preempts (cfg : Config R) (m : Manager R S) (s : S) (r : R) (node : Node S)
    (m' : Manager R S) (sent : List S) : Prop where
  /-- These sessions are marked, and no other. -/
  marked : ∀ t, (m.sessions t).status ≠ .preempted ∧ (m'.sessions t).status = .preempted ↔ t ∈ sent
  /-- They hold what is reclaimed, and have no higher priority. -/
  holds : ∀ t ∈ sent, (m.sessions s).prio ≤ (m.sessions t).prio ∧
    ∃ n ∈ m.reclaimed cfg r, n.session = t
  /-- The lowest priority, and the oldest one, is first. -/
  order : ∀ pre t post, sent = pre ++ t :: post →
    ∃ n, n.session = t ∧ Foremost (fun n => (m.sessions n.session).prio)
      (Eligible m.sessions s pre) (m.reclaimed cfg r) n
  /-- The request does not fit without those before. -/
  needed : ∀ pre t post, sent = pre ++ t :: post → ¬ m.FitsWithout cfg r node (mark m.sessions pre)
  /-- If the request fits without those that are preempted, it has the resource or waits for
      them. -/
  waits : m.FitsWithout cfg r node m'.sessions →
    m'.held s = m.held s ++ [r] ∨ m'.waiting s = some { resource := r, node }

omit [DecidableEq R] in
/-- The sessions that a preemption in keeping with the policy has sent the event are marked. -/
theorem Preempts.of_policy {out : Outcome S} {m' : Manager R S}
    (h : Policy m.sessions s (m.reclaimed cfg r) (m.FitsWithout cfg r node) out)
    (hmarked : ∀ t, (m.sessions t).status ≠ .preempted →
      ((m'.sessions t).status = .preempted ↔ t ∈ out.sent))
    (hwaits : m.FitsWithout cfg r node m'.sessions →
      m'.held s = m.held s ++ [r] ∨ m'.waiting s = some { resource := r, node }) :
    Preempts cfg m s r node m' out.sent := by
  have hmem : ∀ t ∈ out.sent, ∃ n ∈ m.reclaimed cfg r, n.session = t ∧
      (m.sessions t).status = .acquired ∧ (m.sessions s).prio ≤ (m.sessions t).prio := by
    intro t ht
    obtain ⟨pre, post, heq⟩ := List.append_of_mem ht
    obtain ⟨n, rfl, hn⟩ := h.order pre t post heq
    exact ⟨n, hn.mem, rfl, hn.counts.1, hn.counts.2.2⟩
  refine
    { marked := fun t => ⟨fun ht => (hmarked t ht.1).1 ht.2, fun ht => ?_⟩
      holds := fun t ht => ?_, order := h.order, needed := h.needed, waits := hwaits }
  · obtain ⟨-, -, -, hacquired, -⟩ := hmem t ht
    have hne : (m.sessions t).status ≠ .preempted := by
      rw [hacquired]
      decide
    exact ⟨hne, (hmarked t hne).2 ht⟩
  · obtain ⟨n, hn, hs, -, hprio⟩ := hmem t ht
    exact ⟨hprio, n, hn, hs⟩

omit [DecidableEq R] in
/-- The statuses are those of the outcome. -/
theorem Preempts.of_outcome {out : Outcome S} {m' : Manager R S}
    (h : Policy m.sessions s (m.reclaimed cfg r) (m.FitsWithout cfg r node) out)
    (hsess : m'.sessions = out.sess) (hwaits : m.FitsWithout cfg r node out.sess →
      m'.held s = m.held s ++ [r] ∨ m'.waiting s = some { resource := r, node }) :
    Preempts cfg m s r node m' out.sent := by
  refine .of_policy h (fun t ht => ?_) fun hfits => hwaits (hsess ▸ hfits)
  rw [hsess, h.marked, status_mark_eq_preempted]
  exact or_iff_right ht

/-- The request has the resource, after it has preempted sessions that are not its own. -/
theorem Preempts.take {out : Outcome S}
    (h : Policy m.sessions s (m.reclaimed cfg r) (m.FitsWithout cfg r node) out)
    (hs : s ∉ out.sent) :
    Preempts cfg m s r node ({ m with sessions := out.sess }.take s r node) out.sent := by
  refine .of_policy h (fun t ht => ?_) fun _ => .inl (Function.update_self ..)
  change (Function.update out.sess s { out.sess s with status := .acquired } t).status = _ ↔ _
  rw [Function.update_apply]
  split
  · next heq => exact iff_of_false (by simp) (heq ▸ hs)
  · rw [h.marked, status_mark_eq_preempted]
    exact or_iff_right ht

theorem Preempts.take_nobody : Preempts cfg m s r node (m.take s r node) [] :=
  .take .none List.not_mem_nil

omit [DecidableEq R] in
theorem Preempts.fail (h : ¬ m.FitsWithout cfg r node m.sessions) :
    Preempts cfg m s r node (m.fail s) [] :=
  .of_outcome .none rfl fun hfits => absurd hfits h

omit [DecidableEq R] in
/-- Who is marked is needed. -/
theorem Preempts.not_fits {m' : Manager R S} {sent : List S} (h : Preempts cfg m s r node m' sent)
    {out : Outcome S} (hpolicy : Policy m.sessions s (m.reclaimed cfg r) (fun _ => False) out)
    (hret : out.ret = true) (hsess : m'.sessions = out.sess) :
    ¬ m.FitsWithout cfg r node m.sessions := by
  obtain ⟨t, post, heq⟩ := List.exists_cons_of_ne_nil (hpolicy.ret.1 hret)
  obtain ⟨n, rfl, hn⟩ := hpolicy.order [] t post heq
  have hmem : n.session ∈ sent := by
    refine (h.marked n.session).1 ⟨?_, ?_⟩
    · rw [hn.counts.1]
      decide
    · rw [hsess, hpolicy.marked, status_mark_eq_preempted, heq]
      exact .inr List.mem_cons_self
  obtain ⟨t, post, rfl⟩ := List.exists_cons_of_ne_nil (List.ne_nil_of_mem hmem)
  exact h.needed [] t post rfl

omit [DecidableEq R] in
/-- A request that fails does not fit without those that are preempted. -/
theorem Preempts.not_fits_of_fail {sess : S → Session} {sent : List S}
    (h : Preempts cfg m s r node ({ m with sessions := sess }.fail s) sent) :
    ¬ m.FitsWithout cfg r node sess := by
  intro hfits
  rcases h.waits hfits with hheld | hwaiting
  · exact absurd (congrArg List.length hheld) (by simp [Manager.fail])
  · rw [Manager.fail] at hwaiting
    dsimp only at hwaiting
    rw [Function.update_self] at hwaiting
    cases hwaiting

/-- The request passes its last check; or it does not fit without the holders that are preempted
    already, and it passes its first check, or has a timeout, or does not fit without those that it
    preempts itself either. TVP is checked once and waits in any case. -/
def Heeds (cfg : Config R) (m : Manager R S) (s : S) (r : R) (node : Node S) (timeout : ℕ)
    (o : Outside S) : Prop :=
  let res := m.resources r
  if res.kind = .tvp then
    res.enough o.first node = true ∨ ¬ m.FitsWithout cfg r node m.sessions
  else
    res.enough o.last node = true ∨ ¬ m.FitsWithout cfg r node m.sessions ∧
      (res.enough o.first node = true ∨ timeout ≠ 0 ∨ cfg.preemptTimeoutMs ≠ 0 ∨
        ¬ m.FitsWithout cfg r node (m.preempt cfg s r node o).sess)

section

variable (hadds : Adds (m.resources r)) (hsecure : m.SecureKept r node (o.reach o.turns))
include hadds hsecure

theorem tryTvp_preempts_iff :
    (∃ sent, Preempts cfg m s r node (m.tryTvp cfg s r true node o) sent) ↔
      (m.resources r).enough o.first node = true ∨ ¬ m.FitsWithout cfg r node m.sessions := by
  rw [tryTvp]
  by_cases henough : (m.resources r).enough o.first node = true
  · rw [if_pos henough]
    exact iff_of_true ⟨[], .take_nobody⟩ (.inl henough)
  rw [if_neg henough, or_iff_right henough]
  split
  · refine ⟨?_, fun h => ⟨[], .fail h⟩⟩
    rintro ⟨_, h⟩
    exact h.not_fits_of_fail
  dsimp only
  have hmarks : Policy m.sessions s (m.reclaimed cfg r) (fun _ => False)
      (m.preempt cfg s r node o) := preempt_policy hadds hsecure id fun _ => False.elim
  split
  · next hret =>
    refine ⟨?_, fun h => ⟨_, .of_outcome
      (preempt_policy hadds hsecure h fun _ => id) rfl fun _ => .inr (Function.update_self ..)⟩⟩
    rintro ⟨_, h⟩
    exact h.not_fits hmarks hret rfl
  · next hret =>
    rw [hmarks.unchanged hret]
    refine ⟨?_, fun h => ⟨[], .fail h⟩⟩
    rintro ⟨_, h⟩
    exact h.not_fits_of_fail

omit hadds hsecure in
omit [DecidableEq R] [DecidableEq S] in
/-- The checks of the other resources do not depend on the codec memory. -/
theorem exists_codecMm (hne : (m.resources r).kind ≠ .tvp)
    (h : (m.resources r).enough o.first node ≠ (m.resources r).enough o.last node) :
    ∃ total uhd fhd limit, (m.resources r).kind = .codecMm total uhd fhd limit := by
  rw [Resource.enough, Resource.enough] at h
  cases hk : (m.resources r).kind with
  | counter avail => simp [hk] at h
  | toggle => simp [hk] at h
  | tvp => exact absurd hk hne
  | codecMm total uhd fhd limit => exact ⟨total, uhd, fhd, limit, rfl⟩
  | capacity total => simp [hk] at h

theorem tryAcquire_preempts_iff (hne : (m.resources r).kind ≠ .tvp)
    (hnode : ∀ n ∈ (m.resources r).nodes, n.session ≠ s) (timeout : ℕ) :
    (∃ sent, Preempts cfg m s r node (m.tryAcquire cfg s r true timeout node o) sent) ↔
      Heeds cfg m s r node timeout o := by
  have hreclaimed : m.reclaimed cfg r = (m.resources r).nodes := by
    rw [reclaimed]
    split
    · next hk => exact absurd hk hne
    · rfl
  have hmarks : Policy m.sessions s (m.reclaimed cfg r) (fun _ => False)
      (m.preempt cfg s r node o) := preempt_policy hadds hsecure id fun _ => False.elim
  have hmono : m.FitsWithout cfg r node m.sessions →
      m.FitsWithout cfg r node (m.preempt cfg s r node o).sess := by
    refine fun h => h.mono fun t ht => ?_
    rw [hmarks.marked, status_mark_eq_preempted]
    exact .inl ht
  have hself : s ∉ (m.preempt cfg s r node o).sent := by
    intro hmem
    obtain ⟨pre, post, heq⟩ := List.append_of_mem hmem
    obtain ⟨n, hn, hmost⟩ := hmarks.order pre s post heq
    exact hnode n (hreclaimed ▸ hmost.mem) hn
  rw [Heeds, if_neg hne, tryAcquire]
  split
  · next hk =>
    have hno : ∀ sess, ¬ m.FitsWithout cfg r node sess := by simp [FitsWithout, hk]
    refine iff_of_true ?_ (.inr ⟨hno _, .inr (.inr (.inr (hno _)))⟩)
    rw [finish]
    split
    · exact ⟨[], .take_nobody⟩
    · exact ⟨[], .fail (hno _)⟩
  · next hk => exact absurd hk hne
  by_cases hfirst : (m.resources r).enough o.first node = true
  · rw [if_pos hfirst, finish]
    split
    · next hlast => exact iff_of_true ⟨[], .take_nobody⟩ (.inl hlast)
    · next hlast =>
      refine ⟨?_, fun h => ⟨[], .fail (h.resolve_left hlast).1⟩⟩
      rintro ⟨_, h⟩
      exact .inr ⟨h.not_fits_of_fail, .inl hfirst⟩
  rw [if_neg hfirst, if_pos rfl]
  dsimp only
  have htime : (if timeout = 0 then cfg.preemptTimeoutMs else timeout) ≠ 0 ↔
      timeout ≠ 0 ∨ cfg.preemptTimeoutMs ≠ 0 := by
    split <;> simp [*]
  generalize (if timeout = 0 then cfg.preemptTimeoutMs else timeout) = time at htime ⊢
  by_cases hfits : m.FitsWithout cfg r node m.sessions
  · by_cases hlast : (m.resources r).enough o.last node = true
    · obtain ⟨total, uhd, fhd, limit, hk⟩ := exists_codecMm hne fun h => hfirst (h.trans hlast)
      rw [preempt_of_fits hadds hsecure hk hfits, if_neg (by simp), finish, if_pos hlast]
      exact iff_of_true ⟨[], .take_nobody⟩ (.inl hlast)
    · refine iff_of_false ?_ fun h => (h.resolve_left hlast).1 hfits
      rintro ⟨sent, h⟩
      split at h
      · next hwait => exact h.not_fits hmarks hwait.1 rfl hfits
      · rw [finish, if_neg hlast] at h
        exact h.not_fits_of_fail (hmono hfits)
  have hpolicy : Policy m.sessions s (m.reclaimed cfg r) (m.FitsWithout cfg r node)
      (m.preempt cfg s r node o) := preempt_policy hadds hsecure hfits fun _ => id
  split
  · next hwait =>
    refine iff_of_true ⟨_, .of_outcome hpolicy rfl fun _ => .inr (Function.update_self ..)⟩ ?_
    exact .inr ⟨hfits, .inr ((htime.1 hwait.2).imp_right .inl)⟩
  next hwait =>
  rw [finish]
  split
  · next hlast => exact iff_of_true ⟨_, .take hpolicy hself⟩ (.inl hlast)
  · next hlast =>
    refine ⟨?_, fun h => ⟨_, .of_outcome hpolicy rfl fun hafter => ?_⟩⟩
    · rintro ⟨_, h⟩
      exact .inr ⟨hfits, .inr (.inr (.inr h.not_fits_of_fail))⟩
    -- if there is a timeout, nobody was preempted
    have hnone : ¬ (timeout ≠ 0 ∨ cfg.preemptTimeoutMs ≠ 0) := by
      intro h
      rw [hpolicy.unchanged fun hret => hwait ⟨hret, htime.2 h⟩] at hafter
      exact hfits hafter
    rcases (h.resolve_left hlast).2 with h | h | h | h
    · exact absurd h hfirst
    · exact absurd (.inl h) hnone
    · exact absurd (.inr h) hnone
    · exact absurd hafter h

end

end Manager

/-- A capacity of 10 that one session has. -/
def occupied : Manager Unit (Fin 3) where
  resources _ :=
    { kind := .capacity 10, value := 10
      nodes := [{ session := 0, type := '\x00', score := 0, secure := false, use := 10 }]
      items := [], counterSecure := 0, counterNonsecure := 0 }
  sessions s :=
    { id := s + 1, status := if s = 0 then .acquired else .inited, prio := if s = 0 then 1 else 0 }
  isOpen _ := true
  held s := if s = 0 then [()] else []
  waiting _ := none

/-- A session asks for 5 of it. -/
def asked : Node (Fin 3) where
  session := 1
  type := '\x00'
  score := 0
  secure := false
  use := 5

/-- One session has the only item of a counter and is preempted for another one. -/
def preempted : List (Step Unit (Fin 3)) :=
  [.opens 0 1, .opens 1 2, .opens 2 3, .acquire 0 () false 0 none nothing,
    .acquire 1 () true 0 none nothing]

/-- One session has a secure instance, and another one has a lower priority. -/
def secured : List (Step Unit (Fin 3)) :=
  [.opens 0 1, .opens 1 2, .setAppInfo 1 5,
    .acquire 0 () false 0 (some "secure".toList) { nothing with
      first := { freeSize := 2 ^ 28, tvpFreeSize := 0, tvpEnabled := false }
      last := { freeSize := 2 ^ 28, tvpFreeSize := 0, tvpEnabled := false } }]

end CommonDrivers.Media.ResourceMgr
