import Mathlib

/-!
# Runs

The runs of a system that takes one step at a time, each of them as a condition says. A step may
fail, and the run then goes no further.

* `Reached.inv`: what holds at the start and is kept by each step, holds in every state reached;
* `Reached.exec`: a list of steps that can be taken leads to a state that is reached.
-/

namespace CommonDrivers

variable {S Op : Type*} {init : S → Prop} {step : S → Op → Option S} {Q : S → Op → Prop}
  {s s' : S} {ops : List Op}

/-- The states of the runs from an initial state whose steps are all as `Q` says. -/
inductive Reached (init : S → Prop) (step : S → Op → Option S) (Q : S → Op → Prop) : S → Prop
  | start {s : S} : init s → Reached init step Q s
  | more {s s' : S} (op : Op) : Reached init step Q s → Q s op → step s op = some s' →
    Reached init step Q s'

theorem Reached.inv {I : S → Prop} (hinit : ∀ s, init s → I s)
    (hstep : ∀ s op s', I s → Q s op → step s op = some s' → I s')
    (h : Reached init step Q s) : I s := by
  induction h with
  | start h => exact hinit _ h
  | more op _ hop hs ih => exact hstep _ op _ ih hop hs

theorem Reached.imp {Q' : S → Op → Prop} (hQ : ∀ s op, Q s op → Q' s op)
    (h : Reached init step Q s) : Reached init step Q' s := by
  induction h with
  | start h => exact .start h
  | more op _ hop hs ih => exact .more op ih (hQ _ op hop) hs

/-- The steps one after the other, if each of them is as `Q` says. -/
def exec (step : S → Op → Option S) (Q : S → Op → Prop) [∀ s, DecidablePred (Q s)] :
    List Op → S → Option S
  | [], s => some s
  | op :: ops, s => if Q s op then (step s op).bind (exec step Q ops) else none

theorem Reached.exec [∀ s, DecidablePred (Q s)] (h : Reached init step Q s)
    (hexec : exec step Q ops s = some s') : Reached init step Q s' := by
  induction ops generalizing s with
  | nil =>
    cases hexec
    exact h
  | cons op ops ih =>
    rw [CommonDrivers.exec] at hexec
    split at hexec
    · next hop =>
      obtain ⟨t, hs, hexec⟩ := Option.bind_eq_some_iff.1 hexec
      exact ih (.more op h hop hs) hexec
    · cases hexec

end CommonDrivers
