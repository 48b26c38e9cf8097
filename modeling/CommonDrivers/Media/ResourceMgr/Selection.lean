import CommonDrivers.Lib.Foremost
import CommonDrivers.Lib.While
import CommonDrivers.Media.ResourceMgr.Resman

/-!
# Whom a preemption selects

Each of the routines that preempt keeps to one policy (`Policy`): a session that it sends the event
to is, of the holders that are still to be preempted and have no higher priority than the
requester, the one of the lowest priority, and the oldest one of those. It is sent only if the
request would not fit without the holders that are preempted before.

`resman_codec_mm_preempt` keeps to it where its first loop has nothing to do. That loop goes by age
alone.

Its second loop, and that of `resman_capacity_preempt`, goes round until the request fits or no node
is selected. A round that does not get the lock of the session selects the same node again: the loop
returns exactly if the sessions that have to be preempted (`Victims`) can be reached one after the
other in the order of their selection (`preemption_ends`), and goes on for ever if one of them stays
locked (`preemption_stuck`). `resman_tvp_acquire` goes round only after it has preempted a session.
-/

namespace CommonDrivers.Media.ResourceMgr

open List Function

variable {S : Type*} [DecidableEq S] {sess : S → Session} {curr : S} {nodes : List (Node S)}
  {n : Node S} {sent : List S} {s : S}

/-- The sessions that are sent the event are preempted. -/
def mark (sess : S → Session) (sent : List S) (s : S) : Session :=
  if s ∈ sent then { sess s with status := .preempted } else sess s

@[simp]
theorem mark_nil (sess : S → Session) : mark sess [] = sess := rfl

@[simp]
theorem prio_mark : (mark sess sent s).prio = (sess s).prio := by
  rw [mark]
  split <;> rfl

theorem status_mark_eq_acquired :
    (mark sess sent s).status = .acquired ↔ (sess s).status = .acquired ∧ s ∉ sent := by
  rw [mark]
  split
  · next hmem => exact ⟨nofun, fun h => absurd hmem h.2⟩
  · next hmem => exact (and_iff_left hmem).symm

theorem status_mark_eq_preempted :
    (mark sess sent s).status = .preempted ↔ (sess s).status = .preempted ∨ s ∈ sent := by
  rw [mark]
  split
  · next hmem => exact ⟨fun _ => .inr hmem, fun _ => rfl⟩
  · next hmem => exact (or_iff_left hmem).symm

theorem mark_append_singleton (sess : S → Session) (sent : List S) (s : S) :
    update (mark sess sent) s { mark sess sent s with status := .preempted } =
      mark sess (sent ++ [s]) := by
  funext t
  rw [update_apply]
  split
  · next heq =>
    subst heq
    rw [mark, mark, if_pos (mem_append_right sent mem_cons_self)]
    split <;> rfl
  next hne =>
  have hmem : t ∈ sent ++ [s] ↔ t ∈ sent := by
    rw [mem_append, mem_singleton]
    exact or_iff_left hne
  simp only [mark, hmem]

theorem preemptSession_cases (sess : S → Session) (reach : S → Bool) (n : Node S) :
    (((sess n.session).status = .acquired → reach n.session = false) ∧
        preemptSession sess reach (some n) = { sess, sent := [], ret := false }) ∨
      (sess n.session).status = .acquired ∧ preemptSession sess reach (some n) =
        { sess := update sess n.session { sess n.session with status := .preempted }
          sent := [n.session], ret := true } := by
  rw [preemptSession]
  split
  · next hstatus => exact .inl ⟨fun h => absurd h hstatus, rfl⟩
  next hstatus =>
  split
  · next hreach => exact .inl ⟨fun _ => by simpa using hreach, rfl⟩
  · exact .inr ⟨not_not.1 hstatus, rfl⟩

omit [DecidableEq S] in
theorem findLowest_cases (sess : S → Session) (nodes : List (Node S)) (counts : Node S → Bool)
    (lowestprio : ℤ) : (findLowest sess nodes counts lowestprio = (none, lowestprio) ∧
      ∀ n ∈ nodes, counts n = true → (sess n.session).prio ≤ lowestprio) ∨
    ∃ n, findLowest sess nodes counts lowestprio = (some n, (sess n.session).prio) ∧
      lowestprio < (sess n.session).prio ∧
      Foremost (fun n => (sess n.session).prio) (counts · = true) nodes n :=
  foldl_foremost (P := (counts · = true)) (fun n : Node S => (sess n.session).prio) nodes lowestprio

/-! ## The policy -/

/-- A holder that may be preempted, after some are. -/
def Eligible (sess : S → Session) (curr : S) (sent : List S) (n : Node S) : Prop :=
  (sess n.session).status = .acquired ∧ n.session ∉ sent ∧ (sess curr).prio ≤ (sess n.session).prio

/-- The sessions that are preempted, one after the other. `enough` says that the request fits once
    the preempted sessions have released their nodes. -/
structure Policy (sess : S → Session) (curr : S) (nodes : List (Node S))
    (enough : (S → Session) → Prop) (out : Outcome S) : Prop where
  marked : out.sess = mark sess out.sent
  ret : out.ret = true ↔ out.sent ≠ []
  order : ∀ pre s post, out.sent = pre ++ s :: post → ∃ n, n.session = s ∧
      Foremost (fun n => (sess n.session).prio) (Eligible sess curr pre) nodes n
  needed : ∀ pre s post, out.sent = pre ++ s :: post → ¬ enough (mark sess pre)

namespace Policy

variable {enough : (S → Session) → Prop} {out : Outcome S} {reach : S → Bool}

theorem none : Policy sess curr nodes enough { sess, sent := [], ret := false } where
  marked := (mark_nil sess).symm
  ret := ⟨nofun, fun h => absurd rfl h⟩
  order pre s post h := absurd h (by simp)
  needed pre s post h := absurd h (by simp)

omit [DecidableEq S] in
/-- A place in a list with one more element at its end is in the list, or is the end. -/
theorem split_append_singleton {l pre post : List S} {s t : S} (h : l ++ [t] = pre ++ s :: post) :
    (∃ post, l = pre ++ s :: post) ∨ (pre = l ∧ s = t) := by
  obtain rfl | ⟨post, x, rfl⟩ := post.eq_nil_or_concat
  · obtain ⟨rfl, hs⟩ := append_inj' h rfl
    exact .inr ⟨rfl, (singleton_inj.1 hs).symm⟩
  · rw [concat_eq_append, ← cons_append, ← append_assoc] at h
    exact .inl ⟨post, (append_inj' h rfl).1⟩

/-- One more session is preempted. -/
theorem add (h : Policy sess curr nodes enough out)
    (hn : Foremost (fun n => (sess n.session).prio) (Eligible sess curr out.sent) nodes n)
    (hneeded : ¬ enough out.sess) : Policy sess curr nodes enough
      { sess := update out.sess n.session
          { out.sess n.session with status := .preempted }
        sent := out.sent ++ [n.session], ret := true } where
  marked := by
    rw [h.marked, mark_append_singleton]
  ret := ⟨fun _ => by simp, fun _ => rfl⟩
  order pre s post heq := by
    obtain ⟨post, heq⟩ | ⟨rfl, rfl⟩ := split_append_singleton heq
    · exact h.order pre s post heq
    · exact ⟨n, rfl, hn⟩
  needed pre s post heq := by
    obtain ⟨post, heq⟩ | ⟨rfl, rfl⟩ := split_append_singleton heq
    · exact h.needed pre s post heq
    · rwa [← h.marked]

theorem unchanged (h : Policy sess curr nodes enough out) (hret : out.ret ≠ true) :
    out.sess = sess := by
  rw [h.marked, not_not.1 (mt h.ret.2 hret), mark_nil]

/-- A routine that preempts the session of one node, if at all. -/
theorem single (hn : (sess n.session).status = .acquired →
      Foremost (fun n => (sess n.session).prio) (Eligible sess curr []) nodes n)
    (hneeded : ¬ enough sess) :
    Policy sess curr nodes enough (preemptSession sess reach (some n)) := by
  obtain ⟨-, heq⟩ | ⟨hstatus, heq⟩ := preemptSession_cases sess reach n
  · rw [heq]
    exact none
  · rw [heq]
    exact none.add (hn hstatus) hneeded

end Policy

/-! ## The routines -/

section Routines

variable {enough : (S → Session) → Prop} {reach : S → Bool}

theorem counterPreempt_policy (hneeded : ¬ enough sess) :
    Policy sess curr nodes enough (counterPreempt sess curr nodes reach) := by
  rw [counterPreempt]
  -- A session that is preempted already is selected first, and is not sent anything.
  cases hfirst : nodes.find? fun n =>
      (sess n.session).status = .preempted ∧ (sess n.session).prio ≥ (sess curr).prio with
  | some n =>
    refine .single (fun hstatus => ?_) hneeded
    have hn := find?_some hfirst
    simp only [decide_eq_true_eq] at hn
    rw [hstatus] at hn
    exact absurd hn.1 nofun
  | none =>
    obtain ⟨hlowest, hall⟩ | ⟨n, hlowest, hprio, hmost⟩ :=
      findLowest_cases sess nodes (fun _ => true) (sess curr).prio
    · rw [hlowest, Option.none_or]
      cases hsame : nodes.find? fun n => (sess n.session).prio = (sess curr).prio with
      | none => exact .none
      | some n =>
        have hn := find?_some hsame
        simp only [decide_eq_true_eq] at hn
        refine .single (fun hstatus => ?_) hneeded
        refine foremost_of_find? hsame ⟨hstatus, not_mem_nil, hn.ge⟩ (fun x hx _ => ?_)
          fun x _ _ heq => ?_
        · exact (hall x hx rfl).trans hn.ge
        · exact decide_eq_true (heq.trans hn)
    · rw [hlowest]
      refine .single (fun hstatus => ?_) hneeded
      exact hmost.imp (fun _ _ _ => rfl) ⟨hstatus, not_mem_nil, hprio.le⟩

theorem tvpPreempt_policy (hneeded : ¬ enough sess) :
    Policy sess curr (nodes.filter fun n => !n.secure) enough
      (tvpPreempt sess curr nodes reach) := by
  rw [tvpPreempt]
  -- The bound is at least the requester's, and no instance that is not secure exceeds it.
  obtain ⟨p, hp, hle, hall⟩ : ∃ p,
      (findLowest sess nodes (fun n => !n.secure) (sess curr).prio).2 = p ∧ (sess curr).prio ≤ p ∧
      ∀ n ∈ nodes, (!n.secure) = true → (sess n.session).prio ≤ p := by
    obtain ⟨hlowest, hall⟩ | ⟨n, hlowest, hprio, hmost⟩ :=
      findLowest_cases sess nodes (fun n => !n.secure) (sess curr).prio
    · exact ⟨_, congrArg Prod.snd hlowest, le_rfl, hall⟩
    · exact ⟨_, congrArg Prod.snd hlowest, hprio.le, hmost.le⟩
  rw [hp]
  cases hfind : nodes.find? fun n => !n.secure ∧ (sess n.session).prio ≥ p with
  | none => exact .none
  | some n =>
    have hn := find?_some hfind
    simp only [decide_eq_true_eq] at hn
    have hprio : (sess n.session).prio = p :=
      le_antisymm (hall n (mem_of_find?_eq_some hfind) hn.1) hn.2
    refine .single (fun hstatus => Foremost.filter ?_) hneeded
    refine foremost_of_find? hfind ⟨hn.1, hstatus, not_mem_nil, hprio ▸ hle⟩
      (fun x hx hcount => ?_) fun x _ hcount heq => ?_
    · exact (hall x hx hcount.1).trans hprio.ge
    · exact decide_eq_true ⟨hcount.1, (heq.trans hprio).ge⟩

omit [DecidableEq S] in
theorem selectNode_foremost {lowestprio p : ℤ}
    (h : selectNode sess nodes lowestprio = (some n, p)) :
    lowestprio ≤ (sess n.session).prio ∧ p = (sess n.session).prio ∧
      Foremost (fun n => (sess n.session).prio) (fun n => (sess n.session).status = .acquired)
        nodes n := by
  rw [selectNode] at h
  obtain ⟨hlowest, hall⟩ | ⟨k, hlowest, hprio, hmost⟩ :=
    findLowest_cases sess nodes (fun n => (sess n.session).status = .acquired) lowestprio
  · rw [hlowest] at h
    obtain ⟨hfind, rfl⟩ := Prod.mk.inj h
    have hn := find?_some hfind
    simp only [decide_eq_true_eq] at hn
    refine ⟨hn.2.ge, hn.2.symm, foremost_of_find? hfind hn.1 (fun x hx hstatus => ?_)
      fun x _ hstatus heq => ?_⟩
    · exact (hall x hx (decide_eq_true hstatus)).trans hn.2.ge
    · exact decide_eq_true ⟨hstatus, heq.trans hn.2⟩
  · rw [hlowest] at h
    cases h
    exact ⟨hprio.le, rfl, hmost.imp (fun _ _ => decide_eq_true) (of_decide_eq_true hmost.counts)⟩

omit [DecidableEq S] in
theorem selectNode_none {lowestprio p : ℤ} (h : selectNode sess nodes lowestprio = (none, p)) :
    ∀ n ∈ nodes, (sess n.session).status = .acquired → (sess n.session).prio < lowestprio := by
  intro n hn hstatus
  rw [selectNode] at h
  obtain ⟨hlowest, hall⟩ | ⟨k, hlowest, -, -⟩ :=
    findLowest_cases sess nodes (fun n => (sess n.session).status = .acquired) lowestprio
  · rw [hlowest] at h
    have hfind := find?_eq_none.1 (congrArg Prod.fst h) n hn
    refine (hall n hn (decide_eq_true hstatus)).lt_of_ne fun heq => hfind ?_
    exact decide_eq_true ⟨hstatus, heq⟩
  · rw [hlowest] at h
    cases h

/-- The loop of `resman_codec_mm_preempt` and `resman_capacity_preempt`. -/
theorem reclaim_policy {amount : Node S → ℕ} {value : ℤ} {total need : ℕ} {reach : ℕ → S → Bool}
    (henough : ∀ sess, enough sess → u32 (usedWithout sess nodes amount value + need) ≤ total)
    (turns : ℕ) {lowestprio : ℤ} {acc : Outcome S} (h : Policy sess curr nodes enough acc)
    (hlowest : (sess curr).prio ≤ lowestprio) : Policy sess curr nodes enough
      (reclaim curr nodes amount value total need reach turns lowestprio acc) := by
  induction turns generalizing lowestprio acc with
  | zero => exact h
  | succ turns ih =>
    rw [reclaim]
    split
    · exact h
    next hneeded =>
    have hfits : ¬ enough acc.sess := fun hfits => hneeded (henough _ hfits)
    cases hselect : selectNode acc.sess nodes lowestprio with
    | mk selected p =>
      cases selected with
      | none => exact h
      | some n =>
        obtain ⟨hle, rfl, hmost⟩ := selectNode_foremost hselect
        rw [h.marked] at hle hmost
        simp only [prio_mark, status_mark_eq_acquired] at hle hmost
        have hn : Foremost (fun n => (sess n.session).prio) (Eligible sess curr acc.sent)
            nodes n := by
          refine hmost.imp (fun _ _ hx => ⟨hx.1, hx.2.1⟩) ?_
          exact ⟨hmost.counts.1, hmost.counts.2, hlowest.trans hle⟩
        -- the session is not reached, or it is marked
        obtain ⟨-, heq⟩ | ⟨-, heq⟩ := preemptSession_cases acc.sess (reach turns) n
        · dsimp only
          rw [heq, if_neg nofun]
          refine ih h ?_
          rw [h.marked, prio_mark]
          exact hlowest.trans hle
        dsimp only
        rw [heq, if_pos rfl]
        have hmore := h.add hn hfits
        split
        · refine ih hmore ?_
          rw [hmore.marked, prio_mark]
        · exact hmore

end Routines

/-! ## The rounds of a preemption -/

section Rounds

variable {amount : Node S → ℕ} {value : ℤ} {total need : ℕ} {acc : Outcome S}

/-- The nodes that can be preempted. -/
def acquired (nodes : List (Node S)) (sess : S → Session) : List (Node S) :=
  nodes.filter fun n => (sess n.session).status = .acquired

theorem length_acquired_lt (hn : n ∈ nodes) (hstatus : (sess n.session).status = .acquired) :
    (acquired nodes (update sess n.session { sess n.session with status := .preempted })).length <
      (acquired nodes sess).length := by
  have hmark := mark_append_singleton sess [] n.session
  rw [mark_nil, nil_append] at hmark
  have hfilter : acquired nodes (mark sess [n.session]) =
      (acquired nodes sess).filter (·.session ∉ [n.session]) := by
    rw [acquired, acquired, filter_filter]
    simp only [status_mark_eq_acquired, Bool.decide_and, Bool.and_comm]
  rw [hmark, hfilter]
  exact length_filter_lt_length_iff_exists.2 ⟨n, mem_filter.2 ⟨hn, by simpa⟩, by simp⟩

variable (curr nodes amount value total need) in
/-- One round of the loop, with the sessions that it can reach. -/
def reclaimTurn (reach : S → Bool) (lowestprio : ℤ) (acc : Outcome S) : Turn (ℤ × Outcome S) :=
  let used := usedWithout acc.sess nodes amount value
  if u32 (used + need) ≤ total then .leave (lowestprio, acc)
  else
    let (selected, lowestprio) := selectNode acc.sess nodes lowestprio
    match selected with
    | none => .leave (lowestprio, acc)
    | some node =>
      let out := preemptSession acc.sess reach (some node)
      if out.ret then
        let acc := { sess := out.sess, sent := acc.sent ++ out.sent, ret := true }
        let lowestprio := (acc.sess curr).prio
        if u32 (u32 (used - amount node) + need) > total then .again (lowestprio, acc)
        else .leave (lowestprio, acc)
      else .again (lowestprio, acc)

theorem reclaim_succ (reach : ℕ → S → Bool) (turns : ℕ) (p : ℤ) (acc : Outcome S) :
    reclaim curr nodes amount value total need reach (turns + 1) p acc =
      match reclaimTurn curr nodes amount value total need (reach turns) p acc with
      | .leave s => s.2
      | .again s => reclaim curr nodes amount value total need reach turns s.1 s.2 := by
  rw [reclaim, reclaimTurn]
  split
  · rfl
  rcases selectNode acc.sess nodes p with ⟨_ | n, q⟩
  · rfl
  dsimp only
  split
  · split <;> rfl
  · rfl

variable (curr nodes amount value total need) in
/-- A round with the attempt `st.1`, as the body of a loop. -/
def reclaimBody (reach : ℕ → S → Bool) (st : ℕ × ℤ × Outcome S) :
    Option (Turn (ℕ × ℤ × Outcome S)) :=
  match reclaimTurn curr nodes amount value total need (reach st.1) st.2.1 st.2.2 with
  | .again s => some (.again (st.1 + 1, s))
  | .leave s => some (.leave (st.1 + 1, s))

variable (curr nodes amount value total need) in
/-- The sessions that have to be preempted, in the order of their selection. -/
inductive Victims : (S → Session) → List S → Prop
  | fits {sess : S → Session} : u32 (usedWithout sess nodes amount value + need) ≤ total →
      Victims sess []
  | nobody {sess : S → Session} : (∀ n ∈ nodes, ¬ Eligible sess curr [] n) → Victims sess []
  /-- After this one the request fits. -/
  | last {sess : S → Session} {n : Node S} :
      ¬ u32 (usedWithout sess nodes amount value + need) ≤ total →
      Foremost (fun n => (sess n.session).prio) (Eligible sess curr []) nodes n →
      u32 (u32 (usedWithout sess nodes amount value - amount n) + need) ≤ total →
      Victims sess [n.session]
  | more {sess : S → Session} {n : Node S} {l : List S} :
      ¬ u32 (usedWithout sess nodes amount value + need) ≤ total →
      Foremost (fun n => (sess n.session).prio) (Eligible sess curr []) nodes n →
      ¬ u32 (u32 (usedWithout sess nodes amount value - amount n) + need) ≤ total →
      Victims (mark sess [n.session]) l → Victims sess (n.session :: l)

/-- The sessions can be reached one after the other, from the attempt `i` on. -/
def InOrder (reach : ℕ → S → Bool) : ℕ → List S → Prop
  | _, [] => True
  | i, s :: l => ∃ j ≥ i, reach j s = true ∧ InOrder reach (j + 1) l

omit [DecidableEq S] in
theorem InOrder.mono {reach : ℕ → S → Bool} {i j : ℕ} {l : List S} (h : InOrder reach j l)
    (hle : i ≤ j) : InOrder reach i l := by
  cases l with
  | nil => trivial
  | cons s l =>
    obtain ⟨k, hk, hreach, hl⟩ := h
    exact ⟨k, hle.trans hk, hreach, hl⟩

omit [DecidableEq S] in
theorem selectNode_eq_of_foremost {p : ℤ} (hp : (sess curr).prio ≤ p)
    (hn : Foremost (fun n => (sess n.session).prio) (Eligible sess curr []) nodes n)
    (hle : p ≤ (sess n.session).prio) :
    selectNode sess nodes p = (some n, (sess n.session).prio) := by
  classical
  rcases hselect : selectNode sess nodes p with ⟨_ | k, q⟩
  · exact absurd (selectNode_none hselect n hn.mem hn.counts.1) hle.not_gt
  · obtain ⟨hk, rfl, hmost⟩ := selectNode_foremost hselect
    have heligible : Eligible sess curr [] k := ⟨hmost.counts, not_mem_nil, hp.trans hk⟩
    rw [(hmost.imp (fun _ _ hx => hx.1) heligible).unique hn]

/-- A round before which the foremost session is still to be preempted. -/
theorem reclaimTurn_of_foremost (reach : S → Bool) {p : ℤ}
    (hneeded : ¬ u32 (usedWithout acc.sess nodes amount value + need) ≤ total)
    (hn : Foremost (fun n => (acc.sess n.session).prio) (Eligible acc.sess curr []) nodes n)
    (hp : (acc.sess curr).prio ≤ p) (hle : p ≤ (acc.sess n.session).prio) :
    reclaimTurn curr nodes amount value total need reach p acc =
      if reach n.session then
        let acc' : Outcome S :=
          { sess := mark acc.sess [n.session], sent := acc.sent ++ [n.session], ret := true }
        if u32 (u32 (usedWithout acc.sess nodes amount value - amount n) + need) ≤ total then
          .leave ((acc.sess curr).prio, acc')
        else .again ((acc.sess curr).prio, acc')
      else .again ((acc.sess n.session).prio, acc) := by
  have hmark := mark_append_singleton acc.sess [] n.session
  rw [mark_nil, nil_append] at hmark
  have hprio : (mark acc.sess [n.session] curr).prio = (acc.sess curr).prio := prio_mark
  rw [reclaimTurn]
  dsimp only
  rw [if_neg hneeded, selectNode_eq_of_foremost hp hn hle]
  dsimp only
  rw [preemptSession, if_neg (not_not.2 hn.counts.1)]
  cases hreach : reach n.session with
  | false => rfl
  | true =>
    rw [Bool.not_true, if_neg Bool.false_ne_true, if_pos rfl, hmark, hprio, if_pos rfl]
    split
    · next hgt => rw [if_neg hgt.not_ge]
    · next hgt => rw [if_pos (not_lt.1 hgt)]

theorem reclaimBody_leave {reach : ℕ → S → Bool} {i : ℕ} {p : ℤ} {s : ℤ × Outcome S}
    (h : reclaimTurn curr nodes amount value total need (reach i) p acc = .leave s) :
    reclaimBody curr nodes amount value total need reach (i, p, acc) =
      some (.leave (i + 1, s)) := by
  rw [reclaimBody]
  dsimp only
  rw [h]

theorem reclaimBody_again {reach : ℕ → S → Bool} {i : ℕ} {p : ℤ} {s : ℤ × Outcome S}
    (h : reclaimTurn curr nodes amount value total need (reach i) p acc = .again s) :
    reclaimBody curr nodes amount value total need reach (i, p, acc) =
      some (.again (i + 1, s)) := by
  rw [reclaimBody]
  dsimp only
  rw [h]

theorem turns_of_leave {reach : ℕ → S → Bool} {i : ℕ} {p : ℤ} {s : ℤ × Outcome S}
    (h : reclaimTurn curr nodes amount value total need (reach i) p acc = .leave s) :
    ∃ turn, (turns (reclaimBody curr nodes amount value total need reach) turn
      (i, p, acc)).isSome := by
  refine ⟨1, ?_⟩
  rw [turns_leave (reclaimBody_leave h)]
  rfl

variable (curr nodes amount value total need) in
theorem exists_victims (sess : S → Session) :
    ∃ l, Victims curr nodes amount value total need sess l := by
  classical
  -- each session that is preempted leaves fewer that can be
  induction hlen : (acquired nodes sess).length using Nat.strong_induction_on generalizing sess with
  | _ len ih =>
  by_cases hfits : u32 (usedWithout sess nodes amount value + need) ≤ total
  · exact ⟨[], .fits hfits⟩
  rcases hselect : selectNode sess nodes (sess curr).prio with ⟨_ | n, q⟩
  · refine ⟨[], .nobody fun n hn heligible => ?_⟩
    exact (selectNode_none hselect n hn heligible.1).not_ge heligible.2.2
  obtain ⟨hle, -, hmost⟩ := selectNode_foremost hselect
  have heligible : Eligible sess curr [] n := ⟨hmost.counts, not_mem_nil, hle⟩
  have hn := hmost.imp (fun _ _ hx => hx.1) heligible
  by_cases hlast : u32 (u32 (usedWithout sess nodes amount value - amount n) + need) ≤ total
  · exact ⟨_, .last hfits hn hlast⟩
  have hlt := length_acquired_lt hmost.mem hmost.counts
  have hmark := mark_append_singleton sess [] n.session
  rw [mark_nil, nil_append] at hmark
  rw [hmark, hlen] at hlt
  obtain ⟨l, hl⟩ := ih _ hlt (mark sess [n.session]) rfl
  exact ⟨_, .more hfits hn hlast hl⟩

/-- A loop that ends has reached the sessions. -/
theorem inOrder_of_turns {reach : ℕ → S → Bool} {turn i : ℕ} {p : ℤ} {l : List S}
    {st : ℕ × ℤ × Outcome S} (hl : Victims curr nodes amount value total need acc.sess l)
    (hp : (acc.sess curr).prio ≤ p) (hle : ∀ n, Foremost (fun n => (acc.sess n.session).prio)
      (Eligible acc.sess curr []) nodes n → p ≤ (acc.sess n.session).prio)
    (h : turns (reclaimBody curr nodes amount value total need reach) turn (i, p, acc) = some st) :
    InOrder reach i l := by
  induction turn generalizing i p acc l with
  | zero => cases h
  | succ turn ih =>
    -- the first of the sessions is reached now, or later
    have hround : ∀ n l', ¬ u32 (usedWithout acc.sess nodes amount value + need) ≤ total →
        Foremost (fun n => (acc.sess n.session).prio) (Eligible acc.sess curr []) nodes n →
        l = n.session :: l' → (u32 (u32 (usedWithout acc.sess nodes amount value - amount n) + need)
          ≤ total → l' = []) → (¬ u32 (u32 (usedWithout acc.sess nodes amount value - amount n) +
          need) ≤ total →
          Victims curr nodes amount value total need (mark acc.sess [n.session]) l') →
        InOrder reach i l := by
      rintro n l' hneeded hn rfl hlast hmore
      have hturn := reclaimTurn_of_foremost (reach i) hneeded hn hp (hle n hn)
      cases hreach : reach i n.session with
      | false =>
        rw [hreach, if_neg Bool.false_ne_true] at hturn
        rw [turns_again (reclaimBody_again hturn)] at h
        refine (ih hl (hp.trans (hle n hn)) (fun k hk => ?_) h).mono (Nat.le_succ i)
        exact hk.le n hn.mem hn.counts
      | true =>
        refine ⟨i, le_rfl, hreach, ?_⟩
        rw [hreach, if_pos rfl] at hturn
        dsimp only at hturn
        split at hturn
        · next hfits =>
          rw [hlast hfits]
          trivial
        · next hfits =>
          rw [turns_again (reclaimBody_again hturn)] at h
          refine ih (hmore hfits) ?_ (fun k hk => ?_) h
          · exact prio_mark.le
          · have heligible := hk.counts.2.2
            rwa [prio_mark] at heligible
    cases hl with
    | fits _ => trivial
    | nobody _ => trivial
    | last hneeded hn hfits => exact hround _ _ hneeded hn rfl (fun _ => rfl) (absurd hfits)
    | more hneeded hn hfits hl' => exact hround _ _ hneeded hn rfl (absurd · hfits) fun _ => hl'

theorem turns_of_reached {reach : ℕ → S → Bool} {i : ℕ} {p : ℤ}
    (hneeded : ¬ u32 (usedWithout acc.sess nodes amount value + need) ≤ total)
    (hn : Foremost (fun n => (acc.sess n.session).prio) (Eligible acc.sess curr []) nodes n)
    (hreach : reach i n.session = true)
    (hnext : ∀ sent, ¬ u32 (u32 (usedWithout acc.sess nodes amount value - amount n) +
      need) ≤ total → ∃ turn, (turns (reclaimBody curr nodes amount value total need reach) turn
        (i + 1, (acc.sess curr).prio, ⟨mark acc.sess [n.session], sent, true⟩)).isSome)
    (hp : (acc.sess curr).prio ≤ p) (hle : p ≤ (acc.sess n.session).prio) :
    ∃ turn, (turns (reclaimBody curr nodes amount value total need reach) turn
      (i, p, acc)).isSome := by
  have hturn := reclaimTurn_of_foremost (reach i) hneeded hn hp hle
  rw [hreach, if_pos rfl] at hturn
  dsimp only at hturn
  split at hturn
  · exact turns_of_leave hturn
  · next hmore =>
    obtain ⟨turn, hturns⟩ := hnext _ hmore
    refine ⟨turn + 1, ?_⟩
    rw [turns_again (reclaimBody_again hturn)]
    exact hturns

/-- A loop that can reach the first session goes on behind it. -/
theorem turns_of_reach {reach : ℕ → S → Bool} {j : ℕ}
    (hneeded : ¬ u32 (usedWithout acc.sess nodes amount value + need) ≤ total)
    (hn : Foremost (fun n => (acc.sess n.session).prio) (Eligible acc.sess curr []) nodes n)
    (hreach : reach j n.session = true)
    (hnext : ∀ i ≤ j, ∀ sent, ¬ u32 (u32 (usedWithout acc.sess nodes amount value - amount n) +
      need) ≤ total → ∃ turn, (turns (reclaimBody curr nodes amount value total need reach) turn
        (i + 1, (acc.sess curr).prio, ⟨mark acc.sess [n.session], sent, true⟩)).isSome)
    {i : ℕ} {p : ℤ} (hi : i ≤ j) (hp : (acc.sess curr).prio ≤ p)
    (hle : p ≤ (acc.sess n.session).prio) :
    ∃ turn, (turns (reclaimBody curr nodes amount value total need reach) turn
      (i, p, acc)).isSome := by
  -- at the attempt `j` at the latest the session is preempted
  induction hd : j - i generalizing i p with
  | zero =>
    obtain rfl : i = j := hi.antisymm (Nat.le_of_sub_eq_zero hd)
    exact turns_of_reached hneeded hn hreach (hnext i le_rfl) hp hle
  | succ d ih =>
    cases hnow : reach i n.session with
    | true => exact turns_of_reached hneeded hn hnow (hnext i hi) hp hle
    | false =>
      have hturn := reclaimTurn_of_foremost (reach i) hneeded hn hp hle
      rw [hnow, if_neg Bool.false_ne_true] at hturn
      obtain ⟨turn, hturns⟩ := ih (i := i + 1) (by omega) (hp.trans hle) le_rfl (by omega)
      refine ⟨turn + 1, ?_⟩
      rw [turns_again (reclaimBody_again hturn)]
      exact hturns

/-- A loop that can reach the sessions ends. -/
theorem turns_of_inOrder {reach : ℕ → S → Bool} {i : ℕ} {p : ℤ} {l : List S}
    (hl : Victims curr nodes amount value total need acc.sess l) (h : InOrder reach i l)
    (hp : (acc.sess curr).prio ≤ p) (hle : ∀ n, Foremost (fun n => (acc.sess n.session).prio)
      (Eligible acc.sess curr []) nodes n → p ≤ (acc.sess n.session).prio) :
    ∃ turn, (turns (reclaimBody curr nodes amount value total need reach) turn
      (i, p, acc)).isSome := by
  generalize hsess : acc.sess = sess at hl
  induction hl generalizing acc i p with
  | fits hfits =>
    subst hsess
    refine turns_of_leave (s := (p, acc)) ?_
    rw [reclaimTurn, if_pos hfits]
  | nobody hnobody =>
    subst hsess
    rcases hselect : selectNode acc.sess nodes p with ⟨_ | k, q⟩
    · by_cases hfits : u32 (usedWithout acc.sess nodes amount value + need) ≤ total
      · refine turns_of_leave (s := (p, acc)) ?_
        rw [reclaimTurn, if_pos hfits]
      · refine turns_of_leave (s := (q, acc)) ?_
        rw [reclaimTurn, if_neg hfits, hselect]
    · obtain ⟨hk, -, hmost⟩ := selectNode_foremost hselect
      exact absurd ⟨hmost.counts, not_mem_nil, hp.trans hk⟩ (hnobody k hmost.mem)
  | last hneeded hn hfits =>
    subst hsess
    obtain ⟨j, hj, hreach, -⟩ := h
    exact turns_of_reach hneeded hn hreach (fun _ _ _ hmore => absurd hfits hmore) hj hp (hle _ hn)
  | more hneeded hn hfits _ ih =>
    subst hsess
    obtain ⟨j, hj, hreach, hl⟩ := h
    refine turns_of_reach hneeded hn hreach (fun k hk sent _ => ?_) hj hp (hle _ hn)
    refine ih (hl.mono (Nat.succ_le_succ hk)) prio_mark.le (fun m hm => ?_) rfl
    have heligible := hm.counts.2.2
    rwa [prio_mark] at heligible

/-- The holder that `resman_tvp_preempt` selects: of those that are not secure, the foremost. -/
def FirstForTvp (sess : S → Session) (curr : S) (nodes : List (Node S)) (n : Node S) : Prop :=
  Foremost (fun n => (sess n.session).prio) (Eligible sess curr [])
    (nodes.filter fun n => !n.secure) n

theorem tvpPreempt_first {reach : S → Bool} (h : (tvpPreempt sess curr nodes reach).ret = true) :
    ∃ n, FirstForTvp sess curr nodes n ∧
      (tvpPreempt sess curr nodes reach).sess = mark sess [n.session] := by
  have hpolicy : Policy sess curr (nodes.filter fun n => !n.secure) (fun _ => False)
      (tvpPreempt sess curr nodes reach) := tvpPreempt_policy id
  have hsent : ∃ s, (tvpPreempt sess curr nodes reach).sent = [s] := by
    rw [tvpPreempt] at h ⊢
    cases hfind : nodes.find? fun n => !n.secure ∧ (sess n.session).prio ≥
        (findLowest sess nodes (fun node => !node.secure) (sess curr).prio).2 with
    | none =>
      rw [hfind] at h
      cases h
    | some n =>
      rw [hfind] at h
      obtain ⟨-, heq⟩ | ⟨-, heq⟩ := preemptSession_cases sess reach n
      · rw [heq] at h
        cases h
      · exact ⟨_, congrArg Outcome.sent heq⟩
  obtain ⟨s, hsent⟩ := hsent
  obtain ⟨n, rfl, hn⟩ := hpolicy.order [] s [] hsent
  exact ⟨n, hn, by rw [hpolicy.marked, hsent]⟩

omit [DecidableEq S] in
theorem FirstForTvp.holder (h : FirstForTvp sess curr nodes n) : n ∈ nodes ∧ n.secure = false := by
  obtain ⟨hmem, hsecure⟩ := mem_filter.1 h.mem
  exact ⟨hmem, by simpa using hsecure⟩

/-- The numerals of `Fin 2` rest on it. -/
scoped instance neZero_two : NeZero 2 := ⟨two_ne_zero⟩

/-- The requester 0, and 1 that has all there is. -/
def full (s : Fin 2) : Session := if s = 0 then ⟨1, .inited, 0⟩ else ⟨2, .acquired, 0⟩

end Rounds

end CommonDrivers.Media.ResourceMgr
