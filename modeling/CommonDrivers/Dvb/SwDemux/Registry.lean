import CommonDrivers.Dvb.SwDemux.Delivery

/-!
# The registry of the software demux

A demux (`struct swdmx_demux`) keeps the filters it has allocated, TS filters and
section filters, and a PID filter for each PID some filter is running on
(`swdmx_demux.c`). A running filter points at the PID filter of its PID, and is in
one of its two lists. The PID filter is allocated when a first filter is enabled on
the PID, and freed when the last one leaves it, be it disabled, freed or moved to
another PID.

Objects are addressed by pointers. The lists of the demux say which ones are
allocated, and an operation that follows a pointer to another one is a `Fault`.
The operations on the two kinds of filters are the same ones, and are written once
for both.

A run executes operations on allocated filters, in any order (`Demux.Reachable`).
-/

namespace CommonDrivers.Dvb.SwDemux

open Function

/-- A PID filter (`struct swdmx_pid_filter`). -/
structure PidFilter where
  pid : UInt16
  /-- `ts_filter_list` and `sec_filter_list`. -/
  filterList : Kind → List Ptr
  /-- `sec_data` and `sec_recv`. -/
  sec : SecState

/-- A demux, with the objects its lists point at. -/
structure Demux where
  pidFilterList : List Ptr
  /-- `ts_filter_list` and `sec_filter_list`. -/
  filterList : Kind → List Ptr
  /-- The PID filters in memory. -/
  pidFilter : Ptr → PidFilter
  /-- The filters in memory. -/
  filter : (k : Kind) → Ptr → Filter k
  /-- The objects freed so far, in order. -/
  freed : List Ptr

/-- `swdmx_is_valid_pid`. -/
def swdmxIsValidPid (pid : UInt16) : Bool := pid ≤ 0x1fff

/-- The filter `f` with new parameters, and the PID filter `pf` it is then in. -/
def Filter.withParams {k : Kind} (f : Filter k) (params : Params k) (pf : Option Ptr) : Filter k :=
  { f with
    pidFilter := pf
    params := params
    arrays := params.arrays
    state := if f.state = .init then .set else f.state }

namespace Demux

/-- As `swdmx_demux_new` makes it: nothing is allocated. -/
def IsNew (d : Demux) : Prop := d.pidFilterList = [] ∧ (∀ k, d.filterList k = []) ∧ d.freed = []

variable (d : Demux) (k : Kind) (q : Ptr)

/-- Write the filter `q`. -/
def setFilter (f : Filter k) : Demux :=
  { d with filter := update d.filter k (update (d.filter k) q f) }

/-- Append the filter `q` to its list in the PID filter `e`. -/
def link (e : Ptr) : Demux :=
  let p := d.pidFilter e
  let p' := { p with filterList := update p.filterList k (p.filterList k ++ [q]) }
  { d with pidFilter := update d.pidFilter e p' }

/-- Remove the filter `q` from the list of PID filters it is in. -/
def unlink : Demux :=
  { d with pidFilter := fun e =>
      let p := d.pidFilter e
      { p with filterList := update p.filterList k ((p.filterList k).erase q) } }

/-- Add a PID filter, at the address `malloc`. -/
def addPidFilter (pid : UInt16) (malloc : Ptr) : Demux :=
  { d with
    pidFilterList := d.pidFilterList ++ [malloc]
    pidFilter := update d.pidFilter malloc ⟨pid, fun _ => [], .fresh⟩ }

/-- `pid_filter_get`. If there is no PID filter for the PID, one is allocated, at
    the address `malloc`. -/
def pidFilterGet (pid : UInt16) (malloc : Ptr) : Ptr × Demux :=
  match d.pidFilterList.find? fun e => (d.pidFilter e).pid = pid with
  | some e => (e, d)
  | none => (malloc, d.addPidFilter pid malloc)

/-- Free the PID filter `e`. -/
def freePidFilter (e : Ptr) : Demux :=
  { d with pidFilterList := d.pidFilterList.erase e, freed := d.freed ++ [e] }

/-- `pid_filter_remove`: a PID filter in which no filter is left is freed. -/
def pidFilterRemove (e : Ptr) : Except Fault Demux :=
  if e ∉ d.pidFilterList then .error .dangling
  else if (d.pidFilter e).filterList .ts ≠ [] ∨ (d.pidFilter e).filterList .sec ≠ [] then .ok d
  else .ok (d.freePidFilter e)

/-- The filter `q` leaves the PID filter `e`. Its node has to be in a list. -/
def detach (e : Ptr) : Except Fault Demux :=
  if ∃ e ∈ d.pidFilterList, q ∈ (d.pidFilter e).filterList k then
    (d.unlink k q).pidFilterRemove e
  else .error .dangling

/-- The filter `q`, which becomes `f`, enters the PID filter of its PID. -/
def attach (f : Filter k) (malloc : Ptr) : Demux :=
  let (e, d₁) := d.pidFilterGet f.params.pid malloc
  (d₁.setFilter k q { f with pidFilter := some e }).link k q e

/-- Allocate a filter at `q`, where the memory holds `mem`. -/
def allocFilter (mem : Filter k) : Demux :=
  { d.setFilter k q { mem with state := .init, pidFilter := none, cbList := [] } with
    filterList := update d.filterList k (d.filterList k ++ [q]) }

/-- A running filter that is given the PID `pid`, if it is another one, leaves its
    PID filter. -/
def leave (pid : UInt16) : Except Fault (Demux × Option Ptr) :=
  let f := d.filter k q
  match f.pidFilter with
  | none => .ok (d, none)
  | some e =>
    if f.state = .run ∧ f.params.pid ≠ pid then (d.detach k q e).map (·, none) else .ok (d, some e)

/-- Set the parameters of a filter. A running filter whose PID changes is moved to
    the PID filter of the new one. The result is `false` on an error. -/
def filterSetParams (params : Params k) (malloc : Ptr) : Except Fault (Demux × Bool) :=
  let f := d.filter k q
  if ¬swdmxIsValidPid params.pid ∨ params.pid = 0x1fff then .ok (d, false)
  else if f.state = .run ∧ f.pidFilter = none then .ok (d, false)
  else
    (d.leave k q params.pid).map fun (d₁, pf) =>
      let f₁ := f.withParams params pf
      if f₁.state = .run ∧ f₁.pidFilter = none then (d₁.attach k q f₁ malloc, true)
      else (d₁.setFilter k q f₁, true)

/-- Enable a filter: it enters the PID filter of its PID. -/
def filterEnable (malloc : Ptr) : Demux × Bool :=
  let f := d.filter k q
  if f.state = .init then (d, false)
  else if f.state = .set then (d.attach k q { f with state := .run } malloc, true)
  else (d, true)

/-- Disable a filter: it leaves its PID filter. -/
def filterDisable : Except Fault (Demux × Bool) :=
  let f := d.filter k q
  if f.state = .run then
    match f.pidFilter with
    | none => .ok (d, false)
    | some e => (d.detach k q e).map fun d₁ =>
        (d₁.setFilter k q { f with pidFilter := none, state := .set }, true)
  else .ok (d, true)

/-- Free the filter `q`. -/
def eraseFilter : Demux :=
  { d with
    filterList := update d.filterList k ((d.filterList k).erase q)
    freed := d.freed ++ [q] }

/-- Free a filter, which is disabled first. -/
def filterFree : Except Fault Demux := (d.filterDisable k q).map fun (d₁, _) => d₁.eraseFilter k q

/-- Add a callback to a filter. -/
def filterAddCb (cb data : ℕ) : Demux :=
  d.setFilter k q { d.filter k q with cbList := cbListAdd (d.filter k q).cbList cb data }

/-- Remove a callback of a filter. -/
def filterRemoveCb (cb data : ℕ) : Demux :=
  d.setFilter k q { d.filter k q with cbList := cbListRemove (d.filter k q).cbList cb data }

/-! The operations, by kind. -/

/-- `swdmx_demux_alloc_ts_filter`. -/
def swdmxDemuxAllocTsFilter := d.allocFilter .ts
/-- `swdmx_demux_alloc_sec_filter`. -/
def swdmxDemuxAllocSecFilter := d.allocFilter .sec
/-- `swdmx_ts_filter_set_params`. -/
def swdmxTsFilterSetParams := d.filterSetParams .ts
/-- `swdmx_sec_filter_set_params`. -/
def swdmxSecFilterSetParams := d.filterSetParams .sec
/-- `swdmx_ts_filter_enable`. -/
def swdmxTsFilterEnable := d.filterEnable .ts
/-- `swdmx_sec_filter_enable`. -/
def swdmxSecFilterEnable := d.filterEnable .sec
/-- `swdmx_ts_filter_disable`. -/
def swdmxTsFilterDisable := d.filterDisable .ts
/-- `swdmx_sec_filter_disable`. -/
def swdmxSecFilterDisable := d.filterDisable .sec
/-- `swdmx_ts_filter_free`. -/
def swdmxTsFilterFree := d.filterFree .ts
/-- `swdmx_sec_filter_free`. -/
def swdmxSecFilterFree := d.filterFree .sec
/-- `swdmx_ts_filter_add_ts_packet_cb`. -/
def swdmxTsFilterAddTsPacketCb := d.filterAddCb .ts
/-- `swdmx_sec_filter_add_section_cb`. -/
def swdmxSecFilterAddSectionCb := d.filterAddCb .sec
/-- `swdmx_ts_filter_remove_ts_packet_cb`. -/
def swdmxTsFilterRemoveTsPacketCb := d.filterRemoveCb .ts
/-- `swdmx_sec_filter_remove_section_cb`. -/
def swdmxSecFilterRemoveSectionCb := d.filterRemoveCb .sec

/-! Freeing the demux. -/

/-- The loop of `swdmx_demux_free` over a list of filters. -/
def freeFilters : ℕ → Demux → Except Fault Demux
  | 0, _ => .error .diverges
  | fuel + 1, d =>
    match d.filterList k with
    | [] => .ok d
    | q :: _ => (d.filterFree k q).bind (freeFilters fuel)

/-- The loop of `swdmx_demux_free` over the list of PID filters. It would not end
    on a PID filter in which a filter is left. -/
def freePidFilters : ℕ → Demux → Except Fault Demux
  | 0, _ => .error .diverges
  | fuel + 1, d =>
    match d.pidFilterList with
    | [] => .ok d
    | e :: _ => (d.pidFilterRemove e).bind (freePidFilters fuel)

/-- `swdmx_demux_free`, where each loop may take `fuel` turns. -/
def swdmxDemuxFree (fuel : ℕ) : Except Fault Demux :=
  ((freeFilters .ts fuel d).bind (freeFilters .sec fuel)).bind (freePidFilters fuel)

/-- The objects that are allocated. -/
def ptrs (d : Demux) : List Ptr := d.filterList .ts ++ d.filterList .sec ++ d.pidFilterList

/-! ## Runs -/

/-- An operation on a filter, with the addresses of the objects it may allocate. -/
inductive Op
  | alloc (k : Kind) (q : Ptr) (mem : Filter k)
  | setParams (k : Kind) (q : Ptr) (params : Params k) (malloc : Ptr)
  | enable (k : Kind) (q : Ptr) (malloc : Ptr)
  | disable (k : Kind) (q : Ptr)
  | free (k : Kind) (q : Ptr)
  | addCb (k : Kind) (q : Ptr) (cb data : ℕ)
  | removeCb (k : Kind) (q : Ptr) (cb data : ℕ)

/-- The operation is on an allocated filter, and what it allocates is fresh. -/
def Op.Valid (d : Demux) : Op → Prop
  | .alloc _ q _ => q ∉ d.ptrs
  | .setParams k q _ malloc => q ∈ d.filterList k ∧ malloc ∉ d.ptrs
  | .enable k q malloc => q ∈ d.filterList k ∧ malloc ∉ d.ptrs
  | .disable k q | .free k q | .addCb k q _ _ | .removeCb k q _ _ => q ∈ d.filterList k

instance (d : Demux) : (op : Op) → Decidable (op.Valid d)
  | .alloc _ q _ => inferInstanceAs (Decidable (q ∉ d.ptrs))
  | .setParams k q _ malloc | .enable k q malloc =>
    inferInstanceAs (Decidable (q ∈ d.filterList k ∧ malloc ∉ d.ptrs))
  | .disable k q | .free k q | .addCb k q _ _ | .removeCb k q _ _ =>
    inferInstanceAs (Decidable (q ∈ d.filterList k))

/-- What an operation does. -/
def exec (d : Demux) : Op → Except Fault Demux
  | .alloc k q mem => .ok (d.allocFilter k q mem)
  | .setParams k q params malloc => (d.filterSetParams k q params malloc).map Prod.fst
  | .enable k q malloc => .ok (d.filterEnable k q malloc).1
  | .disable k q => (d.filterDisable k q).map Prod.fst
  | .free k q => d.filterFree k q
  | .addCb k q cb data => .ok (d.filterAddCb k q cb data)
  | .removeCb k q cb data => .ok (d.filterRemoveCb k q cb data)

/-- The demux is reached from a new one by operations. -/
inductive Reachable : Demux → Prop
  | new {d : Demux} (h : d.IsNew) : Reachable d
  | exec {d d' : Demux} {op : Op} (h : Reachable d) (hop : op.Valid d)
      (hd' : d.exec op = .ok d') : Reachable d'

end Demux

end CommonDrivers.Dvb.SwDemux
