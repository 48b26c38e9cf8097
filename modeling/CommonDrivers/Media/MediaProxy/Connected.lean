import CommonDrivers.Media.MediaProxy.Queues

/-!
# Sessions that stay connected

Where no session leaves, all FIFOs are in use and the thread has nothing to tidy up. The calls that
move messages do not change the sessions (`Kept`).
-/

namespace CommonDrivers.Media.MediaProxy

open Option

variable {S : Type*} {d d' : Dev S} {s : S} {role : Role} {i k : Idx} {f : Fifo} {op : Op S}

namespace Dev

/-- All FIFOs are in use. -/
def AllUsed (d : Dev S) : Prop := ∀ role k f, d.fifos role k = some f → f.state = .used

/-- The sessions, and what is counted of them, stay the same. -/
structure Kept (d d' : Dev S) : Prop where
  used : d.AllUsed → d'.AllUsed
  sessions : d'.sessions = d.sessions
  isOpen : d'.isOpen = d.isOpen
  hasConsumer : d'.hasConsumer = d.hasConsumer

theorem AllUsed.setFifo (h : d.AllUsed) (hf : f.state = .used) : (d.setFifo role k f).AllUsed := by
  intro r i g hg
  by_cases hrk : r = role ∧ i = k
  · obtain ⟨rfl, rfl⟩ := hrk
    rw [fifos_setFifo_self] at hg
    cases hg
    exact hf
  · rw [fifos_setFifo_of_ne hrk] at hg
    exact h r i g hg

theorem AllUsed.tidied (h : d.AllUsed) (ht : Tidied d role i d') : d' = d := by
  cases ht with
  | stay => rfl
  | free hf hgone =>
    rw [h _ _ _ hf] at hgone
    cases hgone

theorem Moved.keeps (h : Moved d d') : Kept d d' := by
  refine ⟨fun hused r i g hg => ?_, h.sessions, h.isOpen, h.hasConsumer⟩
  rcases h.fifos r i with heq | ⟨f, f', hf, hf', hstate, -⟩
  · exact hused r i g (heq ▸ hg)
  · cases hf'.symm.trans hg
    exact hstate.trans (hused r i f hf)

theorem Kept.turn (h : d.AllUsed) (hturn : Turn d d') : Kept d d' := by
  obtain ⟨hmoved, -⟩ | ⟨i, e, e', rest, hproducer, hconsumer, rfl⟩ := hturn.moved
  · exact hmoved.keeps
  · cases h.tidied hproducer
    cases h.tidied hconsumer
    exact ⟨id, rfl, rfl, rfl⟩

/-- A consumer that is connected is counted. -/
def Served (d : Dev S) : Prop :=
  ∀ s, d.isOpen s = true → (d.sessions s).role = some .consumer → 0 < d.hasConsumer

theorem Served.keeps (h : d.Served) (hkept : Kept d d') : d'.Served := by
  intro s hs hrole
  rw [hkept.isOpen] at hs
  rw [hkept.sessions] at hrole
  rw [hkept.hasConsumer]
  exact h s hs hrole

variable [DecidableEq S]

/-- A session changes, but not its role. -/
theorem Served.setSession {session : Session} (h : d.Served)
    (hrole : session.role = (d.sessions s).role) : (d.setSession s session).Served := by
  intro t ht hconsumer
  refine h t ht ?_
  change (Function.update d.sessions s session t).role = _ at hconsumer
  rw [Function.update_apply] at hconsumer
  split at hconsumer
  · next hts => rwa [hts, ← hrole]
  · exact hconsumer

/-- A call that sets up a session, and does not let it leave. -/
theorem SetUp.keeps (hset : SetUp d op d') (hstays : ∀ s, op ≠ .disconnect s ∧ op ≠ .closes s)
    (hused : d.AllUsed) (hserved : d.Served) : d'.AllUsed ∧ d'.Served := by
  -- A session that is connected is counted.
  have henter : ∀ {s role i}, (d.enter s role i).Served := by
    intro s role i t ht hconsumer
    change (Function.update d.sessions s _ t).role = _ at hconsumer
    change 0 < if role = .consumer then d.hasConsumer + 1 else d.hasConsumer
    split
    · exact Nat.succ_pos _
    next hrole =>
    refine hserved t ht ?_
    rw [Function.update_apply] at hconsumer
    split at hconsumer
    · exact absurd (some.inj hconsumer) hrole
    · exact hconsumer
  cases hset with
  | stay => exact ⟨hused, hserved⟩
  | @opens s =>
    refine ⟨hused, fun t ht hrole => ?_⟩
    change Function.update d.isOpen s true t = true at ht
    change (Function.update d.sessions s .creat t).role = _ at hrole
    by_cases hts : t = s
    · rw [hts, Function.update_self] at hrole
      cases hrole
    · rw [Function.update_of_ne hts] at ht hrole
      exact hserved t ht hrole
  | change hmoved _ hrole =>
    exact ⟨hmoved.keeps.used hused, (hserved.setSession hrole).keeps hmoved.keeps⟩
  | stuck => exact ⟨hused, henter⟩
  | connect => exact ⟨AllUsed.setFifo (d := d.enter _ _ _) hused rfl, henter⟩
  | leave hop =>
    rcases hop with rfl | rfl
    · exact absurd rfl (hstays _).1
    · exact absurd rfl (hstays _).2
  | closes => exact absurd rfl (hstays _).2

end Dev

end CommonDrivers.Media.MediaProxy
