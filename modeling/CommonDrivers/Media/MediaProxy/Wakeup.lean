import CommonDrivers.Media.MediaProxy.Connected
import CommonDrivers.Media.MediaProxy.Transfers

/-!
# The flag of the producers

`all_producer_fifo_empty` is written from the one FIFO that a call or the thread has looked at. It
is right about all of them as long as a FIFO is only found empty when the others are empty as well
(`Op.Sole`).
-/

namespace CommonDrivers.Media.MediaProxy

open List Option

variable {S : Type*} {d d' : Dev S} {k : Idx} {f : Fifo} {msgs : List Msg}

namespace Dev

/-- If a producer has a message, the flag says so. -/
def Flagged (d : Dev S) : Prop := ∀ i, d.queue .producer i ≠ [] → d.allProducerFifoEmpty = false

theorem Flagged.congr (h : d.Flagged) (hqueue : d'.queue .producer = d.queue .producer)
    (hflag : d'.allProducerFifoEmpty = d.allProducerFifoEmpty) : d'.Flagged := by
  intro i hi
  rw [hqueue] at hi
  rw [hflag]
  exact h i hi

section

variable (h : d.Flagged)
include h

/-- A consumer takes messages. -/
theorem Flagged.setConsumer (k : Idx) (f : Fifo) : (d.setFifo .consumer k f).Flagged := by
  refine h.congr ?_ rfl
  funext i
  exact queue_setFifo_producer d i k f

/-- The flag is written from a FIFO that is not empty, or all are empty. -/
theorem Flagged.call (hroom : op.NotFull d) (hsole : op.Sole d) (hcall : d.Call op d') :
    d'.Flagged := by
  cases hcall with
  | quiet => exact h.congr rfl rfl
  | @fetch k f n => exact Flagged.congr (h.setConsumer k { f with msgs := f.msgs.drop n }) rfl rfl
  | @put i f msgs hputs hf =>
    have hput : (f.put msgs).msgs = d.queue .producer i ++ msgs := by
      have hlen := hroom.puts hputs
      rw [queue_of_fifo hf] at hlen ⊢
      rw [Fifo.put, take_of_length_le (by omega)]
    intro k hk
    change (d.setFifo .producer i (f.put msgs)).queue .producer k ≠ [] at hk
    change (f.put msgs).msgs.isEmpty = false
    rw [hput, isEmpty_eq_false_iff]
    intro hempty
    by_cases hki : k = i
    · subst hki
      rw [queue_setFifo_self, hput] at hk
      exact hk hempty
    · rw [queue_setFifo_of_ne fun heq => hki heq.2] at hk
      exact hk (hsole.puts hputs hempty k)

theorem Flagged.turn (hused : d.AllUsed) (hsole : d.pc.Sole d) (hturn : Turn d d') :
    d'.Flagged := by
  cases hturn with
  | wake | sleep | skip | pass | drop => exact h.congr rfl rfl
  | @take i rest f msg msgs hpc hf hmsgs =>
    rw [hpc] at hsole
    intro k hk
    change (d.setFifo .producer i { f with msgs }).queue .producer k ≠ [] at hk
    change msgs.isEmpty = false
    rw [isEmpty_eq_false_iff]
    rintro rfl
    by_cases hki : k = i
    · subst hki
      exact hk (queue_setFifo_self ..)
    · rw [queue_setFifo_of_ne fun heq => hki heq.2] at hk
      exact hk (hsole (by rw [queue_of_fifo hf, hmsgs]; rfl) k hki)
  | @give i j msg _ _ _ c => exact (h.setConsumer j (c.put [msg])).congr rfl rfl
  | tidy _ hproducer hconsumer =>
    cases hused.tidied hproducer
    cases hused.tidied hconsumer
    exact h.congr rfl rfl

end

end Dev

end CommonDrivers.Media.MediaProxy
