import CommonDrivers.Media.Vfm.ProviderUse

/-!
# No callback of a provider that is gone

In every run in which the registrations of a provider find it at rest, `use_count` says that no
callback of the provider runs when `vf_unreg_provider` returns, none starts before the provider is
registered again, and that the counter of a provider that is registered and not in use is 0.

`vf_reg_provider` sets the counter to 0 whoever counts in it. A caller of `vf_notify_provider` is
not in `provider_used`, so that it may still hold the provider when `vf_unreg_provider` has
returned. If the registration comes between its increment and its decrement, the counter stays at
-1, and no caller is accepted any more (`use_count_lost`). The other condition is that the callers
of a provider are fewer than the 100000 which close it.
-/

namespace CommonDrivers.Media.Vfm

open List Option

variable {P : Type*} [DecidableEq P]

/-- Registrations and unregistrations of a provider take turns. -/
def Step.Paired (s : Providers P) : Step P → Prop
  | .reg _ p => ¬ s.Registered p ∧ ¬ s.Busy p
  | .unreg _ p => s.Registered p ∧ ¬ s.Busy p
  | _ => True

/-- The provider whose counter the thread increments next. -/
def Thread.wanted : Thread P → Option P
  | .chosen _ vfp => vfp
  | _ => none

/-- A registration finds no caller between its increment and its decrement, and a caller finds
    fewer than the 100000 that close the provider. -/
def Step.Quiet (s : Providers P) : Step P → Prop
  | .reg _ p => s.out p = 0
  | .go n _ => ∀ t ∈ s.threads[n]?, ∀ p ∈ t.wanted, s.out p + 1 < 100000
  | _ => True

instance (s : Providers P) : DecidablePred (Step.Paired s)
  | .reg _ _ => inferInstanceAs (Decidable (_ ∧ _))
  | .unreg _ _ => inferInstanceAs (Decidable (_ ∧ _))
  | .call _ _ => .isTrue trivial
  | .getStates _ _ => .isTrue trivial
  | .getStatesByName _ _ => .isTrue trivial
  | .go _ _ => .isTrue trivial

instance (s : Providers P) : DecidablePred (Step.Quiet s)
  | .reg _ _ => inferInstanceAs (Decidable (_ = _))
  | .unreg _ _ => .isTrue trivial
  | .call _ _ => .isTrue trivial
  | .getStates _ _ => .isTrue trivial
  | .getStatesByName _ _ => .isTrue trivial
  | .go _ _ => inferInstanceAs (Decidable (∀ _ ∈ _, ∀ _ ∈ _, _))

namespace Providers

variable {env : Env P} {s s' : Providers P} {n : ℕ} {p : P} {t : Thread P} {op : Step P}
  {name : Option Name}

/-- The states of the runs whose steps are all as `Q` says. -/
inductive Reachable (env : Env P) (Q : Providers P → Step P → Prop) : Providers P → Prop
  | init (n : ℕ) : Reachable env Q (init P n)
  | step {s s' : Providers P} (op : Step P) : Reachable env Q s → Q s op →
    s.step env op = some s' → Reachable env Q s'

/-- A run goes on to the second state without a registration of the provider. -/
inductive Until (env : Env P) (Q : Providers P → Step P → Prop) (p : P) (s : Providers P) :
    Providers P → Prop
  | refl : Until env Q p s s
  | step {s' s'' : Providers P} (op : Step P) : Until env Q p s s' → Q s' op →
    (∀ n, op ≠ .reg n p) → s'.step env op = some s'' → Until env Q p s s''

/-! ## One step -/

theorem inv_init (env : Env P) (n : ℕ) : (init P n).Inv env := by
  have hout : ∀ p, (init P n).out p = 0 := fun p =>
    tally_eq_zero fun t ht => by rw [eq_of_mem_replicate ht]; rfl
  have howners : ∀ p, (init P n).owners p = 0 := fun p =>
    tally_eq_zero fun t ht => by rw [eq_of_mem_replicate ht]; rfl
  have hbase : ∀ p, (init P n).base p = 0 := fun p => by
    rw [Providers.base, hout]
    rfl
  exact
    { base := fun p => .inl (hbase p)
      lt := fun p => by rw [hout]; decide
      opened := fun _ => hbase _
      used := by simp [init]
      unique := by simp [init]
      once := fun p => by rw [howners]; decide
      here := fun t ht => by rw [eq_of_mem_replicate ht]; trivial }

theorem Inv.go (h : s.Inv env) (ht : s.threads[n]? = some t) (hquiet : (Step.go n name).Quiet s)
    (hgo : s.go env n name t = some s') : s.After env t.owner s' := by
  have hself : s.After env t.owner s := ⟨h, fun _ hgone _ => hgone⟩
  cases t with
  | idle => cases hgo
  | looking | given | unlocking =>
    cases hgo
    exact h.caller_same ht rfl rfl rfl rfl rfl rfl trivial
  | chosen c vfp =>
    cases hgo
    cases vfp with
    | none => exact h.leave ht rfl rfl c
    | some p => exact h.useProvider ht (hquiet _ ht p rfl)
  | refused c | leaving c =>
    cases hgo
    exact h.unuse ht rfl rfl c
  | inUse c p =>
    cases hgo
    have hat := h.at_get ht
    cases env.hasOp p c with
    | true | false => exact h.caller_same ht rfl rfl rfl rfl rfl rfl hat
  | running c p =>
    cases hgo
    have hat := h.at_get ht
    exact h.caller_same ht rfl rfl rfl rfl rfl rfl hat
  | registering p =>
    rw [Providers.go] at hgo
    split at hgo
    · next name hname =>
      cases hgo
      exact h.regTable ht hname
    · cases hgo
  | scanning p i =>
    cases hgo
    exact h.scan ht
  | closing p =>
    cases hgo
    exact h.close ht
  | waiting p =>
    rw [Providers.go] at hgo
    split at hgo
    · cases hgo
      exact hself
    · next hcnt =>
      cases hgo
      exact h.waited ht hcnt
  | draining p =>
    rw [Providers.go] at hgo
    split at hgo
    · cases hgo
      exact hself
    · cases hgo
      exact h.drained ht

theorem Inv.start (h : s.Inv env) (ht : s.threads[op.thread]? = some .idle) (hpaired : op.Paired s)
    (hquiet : op.Quiet s) : ∃ owner, s.After env owner (s.start env op) ∧
      ∀ p, owner = some p → s.Gone p → ∃ n, op = .reg n p := by
  have hself : s.After env none s := ⟨h, fun _ hgone _ => hgone⟩
  cases op with
  | call n c =>
    cases c with
    | getStates => exact ⟨_, hself, nofun⟩
    | _ => exact ⟨_, h.caller_same ht rfl rfl rfl rfl rfl rfl trivial, nofun⟩
  | getStates | getStatesByName =>
    exact ⟨_, h.caller_same ht rfl rfl rfl rfl rfl rfl trivial, nofun⟩
  | reg n p =>
    rw [Providers.start]
    split
    · next hname =>
      refine ⟨_, h.reg ht hpaired.1 hpaired.2 hquiet hname, fun q hq _ => ⟨n, ?_⟩⟩
      rw [some.inj hq]
    · exact ⟨_, hself, nofun⟩
  | unreg n p =>
    refine ⟨_, h.unreg ht hpaired.1 hpaired.2, fun q hq hgone => ?_⟩
    cases hq
    obtain ⟨⟨i, hi⟩, -⟩ := hpaired
    exact absurd (hgone.1.symm.trans (h.opened hi)) (by decide)
  | go n name => exact ⟨_, hself, nofun⟩

/-- A step is a call by an idle thread, or a thread that goes on. -/
theorem step_cases (hstep : s.step env op = some s') : ∃ t, s.threads[op.thread]? = some t ∧
      ((∃ n name, op = .go n name ∧ s.go env n name t = some s') ∨
        (t = .idle ∧ s' = s.start env op)) := by
  obtain ⟨t, ht, hnext⟩ := bind_eq_some_iff.1 hstep
  refine ⟨t, ht, ?_⟩
  cases op with
  | go n name => exact .inl ⟨n, name, rfl, hnext⟩
  | _ =>
    cases t with
    | idle =>
      cases hnext
      exact .inr ⟨rfl, rfl⟩
    | _ => cases hnext

/-- A provider that is gone stays so until it is registered. -/
theorem Inv.step (h : s.Inv env) (hpaired : op.Paired s) (hquiet : op.Quiet s)
    (hstep : s.step env op = some s') :
    s'.Inv env ∧ ∀ p, s.Gone p → (∀ n, op ≠ .reg n p) → s'.Gone p := by
  obtain ⟨t, ht, ⟨n, name, rfl, hgo⟩ | ⟨rfl, rfl⟩⟩ := step_cases hstep
  · have hafter := h.go ht hquiet hgo
    refine ⟨hafter.inv, fun p hgone _ => hafter.gone p hgone fun howner => ?_⟩
    exact hgone.2 ⟨t, mem_of_getElem? ht, howner⟩
  · obtain ⟨owner, hafter, howner⟩ := h.start ht hpaired hquiet
    refine ⟨hafter.inv, fun p hgone hreg => hafter.gone p hgone fun heq => ?_⟩
    obtain ⟨n, hn⟩ := howner p heq hgone
    exact hreg n hn

theorem Reachable.inv (h : Reachable env (fun s op => op.Paired s ∧ op.Quiet s) s) : s.Inv env := by
  induction h with
  | init n => exact inv_init env n
  | step op _ hop hstep ih => exact (ih.step hop.1 hop.2 hstep).1

/-! ## A provider that is gone -/

theorem Gone.not_accepted (h : s.Gone p) (hinv : s.Inv env) (ht : t ∈ s.threads) :
    t.accepted ≠ some p := hinv.not_accepted h.1 (fun hwait => h.2 ⟨_, hwait, rfl⟩) ht

/-- What a provider's owner may rely on. -/
structure Counted (env : Env P) (Q : Providers P → Step P → Prop) (s : Providers P) : Prop where
  /-- No callback runs when `vf_unreg_provider` returns, or from then on until the provider is
      registered. -/
  gone : ∀ n name p s' s'', s.threads[n]? = some (.draining p) →
    s.step env (.go n name) = some s' → s'.threads[n]? = some .idle → Until env Q p s' s'' →
    ∀ c, .running c p ∉ s''.threads
  /-- The counter of a provider that is not in use is 0. -/
  unused : ∀ p, s.Registered p → (∀ t ∈ s.threads, t.accepted ≠ some p) → s.useCnt p = 0
  /-- The next caller is accepted. -/
  next : ∀ p n c name, s.Registered p → (∀ t ∈ s.threads, t.accepted ≠ some p) →
    s.threads[n]? = some (.chosen c (some p)) →
    ∃ s', s.step env (.go n name) = some s' ∧ s'.threads[n]? = some (.inUse c p)

theorem gone_of_drained (h : s.Inv env) (ht : s.threads[n]? = some (.draining p))
    (hstep : s.step env (.go n name) = some s') (ht' : s'.threads[n]? = some .idle) :
    s'.Gone p := by
  obtain ⟨t, hget, ⟨_, _, heq, hgo⟩ | ⟨hidle, -⟩⟩ := step_cases hstep
  · cases heq
    cases hget.symm.trans ht
    rw [Providers.go] at hgo
    split at hgo
    · cases hgo
      cases ht.symm.trans ht'
    cases hgo
    refine ⟨?_, ?_⟩
    · exact (base_setThread ht .idle rfl s.useCnt p).trans (h.at_get ht).1
    rintro ⟨u, hu, howner⟩
    obtain rfl | ⟨m, hm, hget⟩ := exists_of_mem_set hu
    · cases howner
    · exact h.others ht rfl m hm u hget howner
  · subst hidle
    cases hget.symm.trans ht

theorem Until.gone {Q : Providers P → Step P → Prop} {s'' : Providers P}
    (hQ : ∀ s op, Q s op → op.Paired s ∧ op.Quiet s) (h : Until env Q p s' s'')
    (hinv : s'.Inv env) (hgone : s'.Gone p) : s''.Inv env ∧ s''.Gone p := by
  induction h with
  | refl => exact ⟨hinv, hgone⟩
  | step op _ hop hreg hstep ih =>
    obtain ⟨hpaired, hquiet⟩ := hQ _ _ hop
    obtain ⟨hinv, hkept⟩ := ih.1.step hpaired hquiet hstep
    exact ⟨hinv, hkept _ ih.2 hreg⟩

theorem Inv.useCnt_eq_zero (h : s.Inv env) (hreg : s.Registered p)
    (hacc : ∀ t ∈ s.threads, t.accepted ≠ some p) : s.useCnt p = 0 := by
  obtain ⟨i, hi⟩ := hreg
  have hbase := h.opened hi
  have hout := h.out_eq_zero hbase hacc
  rw [Providers.base, hout] at hbase
  omega

end Providers

open Providers

theorem use_count {env : Env P} {s : Providers P}
    (hs : Reachable env (fun s op => op.Paired s ∧ op.Quiet s) s) :
    s.Counted env (fun s op => op.Paired s ∧ op.Quiet s) where
  gone n name p s' s'' ht hstep ht' huntil c hrun := by
    have hquiet : (Step.go n name).Quiet s := fun t hget q hq => by
      cases ht.symm.trans hget
      cases hq
    have hpaired : (Step.go n name).Paired s := trivial
    obtain ⟨hinv, hgone⟩ := huntil.gone (fun _ _ h => h) (hs.inv.step hpaired hquiet hstep).1
      (gone_of_drained hs.inv ht hstep ht')
    exact hgone.not_accepted hinv hrun rfl
  unused p hreg hacc := hs.inv.useCnt_eq_zero hreg hacc
  next p n c name hreg hacc ht := by
    have hzero := hs.inv.useCnt_eq_zero hreg hacc
    have hstep : s.step env (.go n name) = some (s.useProvider n c (some p)) := by
      rw [Providers.step, Step.thread, ht]
      rfl
    refine ⟨_, hstep, ?_⟩
    obtain ⟨hn, -⟩ := List.getElem?_eq_some_iff.1 ht
    rw [useProvider, hzero]
    exact getElem?_set_self hn

/-- A run of steps that are as `Q` says. -/
def Providers.run (env : Env P) (Q : Providers P → Step P → Prop) [∀ s, DecidablePred (Q s)] :
    List (Step P) → Providers P → Option (Providers P)
  | [], s => some s
  | op :: ops, s => if Q s op then (s.step env op).bind (run env Q ops) else none

theorem Providers.Reachable.run {env : Env P} {Q : Providers P → Step P → Prop}
    [∀ s, DecidablePred (Q s)] {ops : List (Step P)} {s s' : Providers P} (hs : Reachable env Q s)
    (hrun : s.run env Q ops = some s') : Reachable env Q s' := by
  induction ops generalizing s with
  | nil =>
    cases hrun
    exact hs
  | cons op ops ih =>
    rw [Providers.run] at hrun
    split at hrun
    · next hop =>
      obtain ⟨t, hstep, hrun⟩ := bind_eq_some_iff.1 hrun
      exact ih (.step op hs hop hstep) hrun
    · cases hrun

/-- One provider, with all its callbacks. -/
def oneProvider : Env Unit := { name := fun _ => some ['p'], hasOp := fun _ _ => true }

/-- The first thread registers the provider, the second one calls its callback, and the first one
    waits for it. -/
def usedRun : List (Step Unit) :=
  [.reg 0 (), .go 0 none, .call 1 .peek, .go 1 (some ['p']), .go 1 none, .go 1 none, .unreg 0 (),
    .go 0 none, .go 0 none, .go 1 none, .go 1 none, .go 1 none, .go 0 none]

theorem use_count_drained : ∃ s : Providers Unit,
    Reachable oneProvider (fun s op => op.Paired s ∧ op.Quiet s) s ∧
      s.threads = [.draining (), .idle] ∧
      s.Counted oneProvider (fun s op => op.Paired s ∧ op.Quiet s) := by
  have hrun : ∃ s ∈ (init Unit 2).run oneProvider (fun s op => op.Paired s ∧ op.Quiet s) usedRun,
      s.threads = [.draining (), .idle] := by
    decide +kernel
  obtain ⟨s, hs, hthreads⟩ := hrun
  have hreach := (Reachable.init 2).run hs
  exact ⟨s, hreach, hthreads, use_count hreach⟩

/-- A caller of `vf_notify_provider` has found the provider before it is unregistered, and counts
    in it while it is registered again. -/
def lateRun : List (Step Unit) :=
  [.reg 0 (), .go 0 none, .call 1 .notify, .go 1 (some ['p']), .unreg 0 (), .go 0 none, .go 0 none,
    .go 0 none, .go 1 none, .reg 0 (), .go 1 none, .go 0 none]

/-- The provider is registered and nobody uses it, but its counter is -1, and the next caller is
    refused. -/
theorem use_count_lost : ∃ s s' : Providers Unit,
    Reachable oneProvider (fun s op => op.Paired s) s ∧ s.Registered () ∧
      s.threads = [.idle, .idle] ∧ s.useCnt () = -1 ∧ s.run oneProvider (fun s op => op.Paired s)
        [.call 1 .peek, .go 1 (some ['p']), .go 1 none] = some s' ∧
      s'.threads = [.idle, .refused .peek ()] := by
  have hrun : ∃ s ∈ (init Unit 2).run oneProvider (fun s op => op.Paired s) lateRun,
      s.Registered () ∧ s.threads = [.idle, .idle] ∧ s.useCnt () = -1 ∧
        ∃ s' ∈ s.run oneProvider (fun s op => op.Paired s)
          [.call 1 .peek, .go 1 (some ['p']), .go 1 none],
          s'.threads = [.idle, .refused .peek ()] := by
    decide +kernel
  obtain ⟨s, hs, hreg, hthreads, hcnt, s', hs', hrefused⟩ := hrun
  exact ⟨s, s', (Reachable.init 2).run hs, hreg, hthreads, hcnt, hs', hrefused⟩

end CommonDrivers.Media.Vfm
