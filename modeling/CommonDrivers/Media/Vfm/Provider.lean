import CommonDrivers.Lib.Tally

/-!
# Frame providers

A *provider* hands out video frames (`vframe_provider.c`). It is found by its name in a table of
64 entries, and whoever calls one of its callbacks counts in its `use_cnt` meanwhile. The
unregistration takes the provider out of the table, takes 100000 from the counter, and waits for
the callers to go: first for those of the provider, then for those of any provider that are in
`provider_used`. A caller whose increment does not make the counter positive is refused, and
takes the increment back.

A thread is a call that is under way. What it does with one atomic operation, or under the lock of
the table, is one step. The search for a provider takes no lock, and is one step. A thread that
waits does not give up.
-/

namespace CommonDrivers.Media.Vfm

open Function

/-- `MAX_PROVIDER_NUM`. -/
def maxProviderNum : ℕ := 64

/-- `PROVIDER_TABLE_NAME_SIZE`. -/
def providerTableNameSize : ℕ := 64

/-- `CLOSED_CNT`. -/
def closedCnt : ℤ := -100000

abbrev Name := List Char

/-- `struct provider_table_s`. -/
structure Entry (P : Type*) where
  used : Bool
  name : Name
  vframeProvider : Option P
  deriving DecidableEq

abbrev Table (P : Type*) := Fin maxProviderNum → Entry P

/-- The callers of a provider. `vf_notify_provider_by_name` is `notify` with another name. -/
inductive Call where
  | peek
  | get
  | put
  | getStates
  | notify
  deriving DecidableEq

/-- The callers that count in `provider_used`. -/
def Call.locks : Call → Bool
  | .notify => false
  | _ => true

/-- What the providers are: `prov->name`, and whether `prov->ops` has the callback. -/
structure Env (P : Type*) where
  name : P → Option Name
  hasOp : P → Call → Bool

variable {P : Type*}

/-- Where a thread is, between two steps. -/
inductive Thread (P : Type*) where
  | idle
  /-- The provider is to be found. -/
  | looking (c : Call)
  /-- `vf_get_states`, before `providers_lock`. -/
  | given (vfp : Option P)
  /-- The provider is found, and `use_provider` is next. -/
  | chosen (c : Call) (vfp : Option P)
  /-- `use_provider` has to take its increment back. -/
  | refused (c : Call) (vfp : P)
  /-- `use_provider` has accepted the caller. -/
  | inUse (c : Call) (vfp : P)
  /-- In the callback. -/
  | running (c : Call) (vfp : P)
  /-- `unuse_provider` is next. -/
  | leaving (c : Call) (vfp : P)
  /-- `providers_unlock` is next. -/
  | unlocking
  /-- `vf_reg_provider`, before it locks the table. -/
  | registering (prov : P)
  /-- `vf_unreg_provider` is to look at an entry. -/
  | scanning (prov : P) (i : Fin maxProviderNum)
  /-- `vf_provider_close` is next. -/
  | closing (prov : P)
  /-- `vf_provider_close` waits for the callers of the provider. -/
  | waiting (prov : P)
  /-- `vf_unreg_provider` waits for the callers in `provider_used`. -/
  | draining (prov : P)
  deriving DecidableEq

/-- The providers of a system, and the threads. -/
structure Providers (P : Type*) where
  table : Table P
  providerUsed : ℤ
  useCnt : P → ℤ
  threads : List (Thread P)

/-- No provider is registered. -/
def init (P : Type*) (n : ℕ) : Providers P where
  table _ := { used := false, name := [], vframeProvider := none }
  providerUsed := 0
  useCnt _ := 0
  threads := List.replicate n .idle

/-! ## The table -/

/-- The name of an entry is the name that is asked for, up to its end or a dot. -/
def nameMatches (name providerName : Name) : Bool := providerName.isPrefixOf name &&
    (name.length == providerName.length || name[providerName.length]? == some '.')

/-- `vf_get_provider_by_name`. -/
def vfGetProviderByName (table : Table P) (providerName : Option Name) : Option P :=
  providerName.bind fun providerName =>
    ((List.finRange maxProviderNum).find? fun i =>
      (table i).vframeProvider.isSome && (table i).used &&
        nameMatches (table i).name providerName).bind fun i => (table i).vframeProvider

/-- The entry is of a provider with that name. -/
def Env.Named (env : Env P) (e : Entry P) (name : Option Name) : Prop :=
  ∃ p ∈ e.vframeProvider, env.name p = name

instance (env : Env P) (e : Entry P) (name : Option Name) : Decidable (env.Named e name) :=
  inferInstanceAs (Decidable (∃ p ∈ e.vframeProvider, _))

/-- What `vf_reg_provider` does under the lock. An entry whose name is too long stays used. -/
def regTable (env : Env P) (table : Table P) (prov : P) (name : Name) : Table P :=
  if ∃ i, env.Named (table i) (some name) then table
  else
    match (List.finRange maxProviderNum).find? fun i => !(table i).used with
    | some i =>
      if name.length + 1 > providerTableNameSize then
        update table i { table i with used := true }
      else update table i { used := true, name, vframeProvider := some prov }
    | none => table

/-! ## The steps -/

/-- What a thread may do next. -/
inductive Step (P : Type*) where
  /-- `vf_peek`, `vf_get`, `vf_put` or `vf_notify_provider` is called. -/
  | call (n : ℕ) (c : Call)
  /-- `vf_get_states` is called. -/
  | getStates (n : ℕ) (vfp : Option P)
  /-- `vf_get_states_by_name` is called, with the name that its receiver's provider has. -/
  | getStatesByName (n : ℕ) (providerName : Option Name)
  /-- `vf_reg_provider` is called. -/
  | reg (n : ℕ) (prov : P)
  /-- `vf_unreg_provider` is called. -/
  | unreg (n : ℕ) (prov : P)
  /-- The thread goes on. The name is what `vf_get_provider_name` returns, if it is asked. -/
  | go (n : ℕ) (providerName : Option Name)

namespace Providers

/-- A thread goes on. -/
def setThread (s : Providers P) (n : ℕ) (t : Thread P) : Providers P :=
  { s with threads := s.threads.set n t }

/-- A caller that has no provider any more. -/
def leave (s : Providers P) (n : ℕ) (c : Call) : Providers P :=
  s.setThread n (if c.locks then .unlocking else .idle)

variable [DecidableEq P]

/-- `atomic_add` of the counter of a provider. -/
def addUse (s : Providers P) (p : P) (v : ℤ) : Providers P :=
  { s with useCnt := update s.useCnt p (s.useCnt p + v) }

/-- `atomic_inc_return` in `use_provider`, and what follows from its result. -/
def useProvider (s : Providers P) (n : ℕ) (c : Call) : Option P → Providers P
  | none => s.leave n c
  | some p =>
    let ret := s.useCnt p + 1
    (s.addUse p 1).setThread n (if ret ≤ 0 then .refused c p else .inUse c p)

/-- An entry in the loop of `vf_unreg_provider`. -/
def scan (env : Env P) (s : Providers P) (n : ℕ) (prov : P) (i : Fin maxProviderNum) :
    Providers P :=
  if env.Named (s.table i) (env.name prov) then
    { s with
      table := update s.table i
        { s.table i with used := false, vframeProvider := none } }.setThread n (.closing prov)
  else if h : i + 1 < maxProviderNum then s.setThread n (.scanning prov ⟨i + 1, h⟩)
  else s.setThread n (.draining prov)

/-- `atomic_add_return` in `vf_provider_close`. -/
def close (s : Providers P) (n : ℕ) (prov : P) : Providers P :=
  let ret := s.useCnt prov + closedCnt
  (s.addUse prov closedCnt).setThread n (if ret > closedCnt then .waiting prov else .draining prov)

/-- A thread that is under way goes on. -/
def go (env : Env P) (s : Providers P) (n : ℕ) (providerName : Option Name) :
    Thread P → Option (Providers P)
  | .idle => none
  | .looking c => some (s.setThread n (.chosen c (vfGetProviderByName s.table providerName)))
  | .given vfp =>
    some ({ s with providerUsed := s.providerUsed + 1 }.setThread n (.chosen .getStates vfp))
  | .chosen c vfp => some (s.useProvider n c vfp)
  | .refused c vfp => some ((s.addUse vfp (-1)).leave n c)
  | .inUse c vfp =>
    some (s.setThread n (if env.hasOp vfp c then .running c vfp else .leaving c vfp))
  | .running c vfp => some (s.setThread n (.leaving c vfp))
  | .leaving c vfp => some ((s.addUse vfp (-1)).leave n c)
  | .unlocking => some ({ s with providerUsed := s.providerUsed - 1 }.setThread n .idle)
  | .registering prov =>
    match env.name prov with
    | some name => some ({ s with table := regTable env s.table prov name }.setThread n .idle)
    | none => none
  | .scanning prov i => some (s.scan env n prov i)
  | .closing prov => some (s.close n prov)
  | .waiting prov =>
    some (if s.useCnt prov > closedCnt then s else s.setThread n (.draining prov))
  | .draining _ => some (if s.providerUsed ≠ 0 then s else s.setThread n .idle)

/-- A thread that is idle calls a function. -/
def start (env : Env P) (s : Providers P) : Step P → Providers P
  | .call n .notify => s.setThread n (.looking .notify)
  -- its callers give the provider, and are the next step
  | .call _ .getStates => s
  | .call n c => { s with providerUsed := s.providerUsed + 1 }.setThread n (.looking c)
  | .getStates n vfp => s.setThread n (.given vfp)
  | .getStatesByName n providerName =>
    s.setThread n (.given (vfGetProviderByName s.table providerName))
  | .reg n prov =>
    if (env.name prov).isSome then
      { s with useCnt := update s.useCnt prov 0 }.setThread n (.registering prov)
    else s
  | .unreg n prov => s.setThread n (.scanning prov ⟨0, by decide⟩)
  | .go _ _ => s

end Providers

/-- The thread of a step. -/
def Step.thread : Step P → ℕ
  | .call n _ => n
  | .getStates n _ => n
  | .getStatesByName n _ => n
  | .reg n _ => n
  | .unreg n _ => n
  | .go n _ => n

/-- One step. It is `none` if the thread is not where the step begins. -/
def Providers.step [DecidableEq P] (env : Env P) (s : Providers P) (op : Step P) :
    Option (Providers P) := do
  let t ← s.threads[op.thread]?
  match op with
  | .go n providerName => s.go env n providerName t
  | op => if t matches .idle then some (s.start env op) else none

end CommonDrivers.Media.Vfm
