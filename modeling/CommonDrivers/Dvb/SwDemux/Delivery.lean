import CommonDrivers.Dvb.SwDemux.Reception

/-!
# Delivery of a section to the filters

`sec_data` goes through the section filters of the PID when a section is complete
(`deliver`). The CRC of the section is computed for the first filter that asks for
it. When it is wrong, the loop is left there: the filters before it, which did not
ask, are served, and *all* filters after it are not (`deliver_eq`).

So what a filter gets does not depend on itself and the section alone.
`independent_iff` says exactly when it does: when the filter gets nothing anyway,
or when the CRC is right and the section decides the match test by itself.
-/

namespace CommonDrivers.Dvb.SwDemux

open List

/-- A section: it does not start as stuffing does, and has the length its header
    says. -/
structure IsSection (sec : List UInt8) : Prop where
  tableId_ne : sec.getD 0 0 ≠ 0xff
  length_eq : sec.length = totalLen sec

/-! ## What the loop does -/

/-- The calls for a filter that is reached. -/
def filterCalls (data : SecBlock) (recv : ℕ) (x : Ptr × SecFilter) : List SecCall :=
  if secFilterMatch data x.2.arrays then x.2.cbList.map (⟨x.1, ·, data.take recv⟩) else []

/-- The filters that are reached for the section `sec`: all of them, or, if its CRC
    is wrong, those before the first that asks for it. -/
def reached (sec : List UInt8) (filters : List (Ptr × SecFilter)) : List (Ptr × SecFilter) :=
  if swdmxCrc32 sec = 0 then filters else filters.takeWhile fun x => x.2.params.crc32 = 0

variable {data : SecBlock} {recv : ℕ} {filters : List (Ptr × SecFilter)} {f : SecFilter} {q : Ptr}

/-- The loop once the CRC is known to be right. -/
theorem deliver_of_crc (h : swdmxCrc32 (data.take recv) = 0) (crc : Bool) :
    deliver data recv crc filters = filters.flatMap (filterCalls data recv) := by
  induction filters generalizing crc with
  | nil => rfl
  | cons x fs ih =>
    rw [deliver, if_neg (by simp [h]), ih, flatMap_cons, filterCalls]

theorem deliver_eq : deliver data recv false filters =
      (reached (data.take recv) filters).flatMap (filterCalls data recv) := by
  by_cases h : swdmxCrc32 (data.take recv) = 0
  · rw [reached, if_pos h, deliver_of_crc h]
  rw [reached, if_neg h]
  induction filters with
  | nil => rfl
  | cons x fs ih =>
    by_cases hx : x.2.params.crc32 = 0
    · -- The flag that remembers the CRC stays clear.
      have hcrc : (false || x.2.params.crc32 != 0) = false := by simp [hx]
      rw [deliver, if_neg (by simp [hx]), hcrc, ih, takeWhile_cons_of_pos (by simp [hx]),
        flatMap_cons, filterCalls]
    · rw [deliver, if_pos ⟨hx, rfl, h⟩, takeWhile_cons_of_neg (by simp [hx])]
      rfl

/-! ## A filter that asks for everything -/

/-- The match test of the filter passes on anything, and it does not ask for the CRC. -/
structure MatchesAll (f : SecFilter) : Prop where
  secFilterMatch : ∀ data, secFilterMatch data f.arrays = true
  crc32 : f.params.crc32 = 0

/-- A filter whose mask is clear asks for everything. -/
theorem matchesAll_of_mask (harrays : f.arrays = f.params.arrays)
    (hmask : ∀ i, SecFilterParams.mask f.params i = 0) (hcrc : f.params.crc32 = 0) :
    MatchesAll f := by
  have hmam (j : Fin 18) : SecArrays.mam f.arrays j = 0 := by
    simp [harrays, Params.arrays, SecFilterParams.arrays, spread, hmask]
  have hmanm (j : Fin 18) : SecArrays.manm f.arrays j = 0 := by
    simp [harrays, Params.arrays, SecFilterParams.arrays, spread, hmask]
  refine ⟨fun data => secFilterMatch_iff.2 ⟨fun i => ?_, .inl fun i => hmanm _⟩, hcrc⟩
  show diff (SecArrays.mam f.arrays _) _ _ = 0
  rw [hmam, diff_zero]

theorem Delivers.eq_of_matchesAll (hf : MatchesAll f) {calls : List SecCall}
    {secs : List (List UInt8)} (h : Delivers [(q, f)] calls secs) :
    calls = secs.flatMap fun sec => f.cbList.map (⟨q, ·, sec⟩) := by
  induction h with
  | nil => rfl
  | @cons data sec calls secs hd _ ih =>
    congr 1
    simp [deliver, hf.crc32, hf.secFilterMatch, hd]

/-- A running filter on the PID 16, with a clear mask. -/
def clearMask : SecFilter :=
  let params : SecFilterParams := ⟨16, 0, 0, 0, 0⟩
  ⟨some 1, .run, params, params.arrays, [⟨5, 6⟩]⟩

/-- As `clearMask`, but the CRC is asked for. -/
def clearMaskCrc : SecFilter := { clearMask with params := ⟨16, 1, 0, 0, 0⟩ }

theorem matchesAll_clearMask : MatchesAll clearMask := matchesAll_of_mask rfl (fun _ => rfl) rfl

/-! ## Interference -/

/-- The calls to the callbacks of the filter `q`. -/
def callsTo (q : Ptr) (calls : List SecCall) : List SecCall := calls.filter (·.filter = q)

/-- Filters as they are registered on a PID: distinct objects, with the arrays
    computed from their parameters. -/
structure Registered (filters : List (Ptr × SecFilter)) : Prop where
  nodup : (filters.map Prod.fst).Nodup
  arrays_eq : ∀ x ∈ filters, x.2.arrays = x.2.params.arrays

/-- What the filter `f` gets of the section `sec` depends on them alone: neither on
    the other filters registered on the PID nor on what the buffer holds after the
    section. -/
def Independent (f : SecFilter) (sec : List UInt8) : Prop :=
  ∀ (q : Ptr) (fs fs' : List (Ptr × SecFilter)) (data data' : SecBlock),
    Registered fs → Registered fs' → (q, f) ∈ fs → (q, f) ∈ fs' →
    data.take sec.length = sec → data'.take sec.length = sec →
    callsTo q (deliver data sec.length false fs) = callsTo q (deliver data' sec.length false fs')

theorem callsTo_filterCalls (q : Ptr) (x : Ptr × SecFilter) :
    callsTo q (filterCalls data recv x) = if x.1 = q then filterCalls data recv x else [] := by
  rw [callsTo, filterCalls]
  split
  · rw [filter_map]
    split <;> simp_all [Function.comp_def]
  · simp

theorem callsTo_flatMap (q : Ptr) : callsTo q (filters.flatMap (filterCalls data recv)) =
    filters.flatMap fun x => if x.1 = q then filterCalls data recv x else [] := by
  simp only [callsTo, filter_flatMap, ← callsTo_filterCalls]

theorem callsTo_flatMap_of_notMem (h : q ∉ filters.map Prod.fst) :
    callsTo q (filters.flatMap (filterCalls data recv)) = [] := by
  rw [callsTo_flatMap, flatMap_eq_nil_iff]
  intro x hx
  refine if_neg ?_
  rintro rfl
  exact h (mem_map_of_mem hx)

/-- The calls to a filter, among those to filters that are distinct. -/
theorem callsTo_flatMap_of_mem (h : (filters.map Prod.fst).Nodup) (hmem : (q, f) ∈ filters) :
    callsTo q (filters.flatMap (filterCalls data recv)) = filterCalls data recv (q, f) := by
  induction filters with
  | nil => cases hmem
  | cons x fs ih =>
    rw [map_cons, nodup_cons] at h
    rw [callsTo_flatMap, flatMap_cons, ← callsTo_flatMap]
    rcases mem_cons.1 hmem with rfl | hmem
    · rw [if_pos rfl, callsTo_flatMap_of_notMem h.1, append_nil]
    have hne : x.1 ≠ q := by
      rintro rfl
      exact h.1 (mem_map.2 ⟨_, hmem, rfl⟩)
    rw [if_neg hne, nil_append, ih h.2 hmem]

variable {sec : List UInt8} {q : Ptr} {f : SecFilter}

theorem reached_sublist : (reached sec filters).Sublist filters := by
  rw [reached]
  split
  · exact .refl _
  · exact takeWhile_sublist _

/-- What a filter gets if it is reached. -/
theorem callsTo_deliver_of_mem (hreg : Registered filters) (hdata : data.take sec.length = sec)
    (h : (q, f) ∈ reached sec filters) : callsTo q (deliver data sec.length false filters) =
      if secFilterMatch data f.arrays then f.cbList.map (⟨q, ·, sec⟩) else [] := by
  rw [deliver_eq, hdata,
    callsTo_flatMap_of_mem (hreg.nodup.sublist (reached_sublist.map _)) h, filterCalls, hdata]

/-- A filter that is not reached gets nothing. -/
theorem callsTo_deliver_of_notMem (hreg : Registered filters) (hdata : data.take sec.length = sec)
    (hmem : (q, f) ∈ filters) (h : (q, f) ∉ reached sec filters) :
    callsTo q (deliver data sec.length false filters) = [] := by
  rw [deliver_eq, hdata]
  refine callsTo_flatMap_of_notMem fun hq => ?_
  obtain ⟨x, hx, rfl⟩ := mem_map.1 hq
  -- Another filter at the same address would be the same one.
  have : x = (x.1, f) := inj_on_of_nodup_map hreg.nodup (reached_sublist.subset hx) hmem rfl
  exact h (this ▸ hx)

/-- A filter that does not ask for the CRC and gets the section on its own loses it
    to a filter before it that asks for it, when it is wrong. -/
theorem not_independent_of_crc (hf : f.arrays = f.params.arrays) (hcb : f.cbList ≠ [])
    (hf0 : f.params.crc32 = 0) (hcrc : swdmxCrc32 sec ≠ 0) (hdata : data.take sec.length = sec)
    (hmatch : secFilterMatch data f.arrays = true) : ¬Independent f sec := by
  intro h
  let g : SecFilter := { f with params := { f.params with crc32 := 1 } }
  have hg : g.arrays = g.params.arrays := hf
  have h1 : Registered [(0, f)] := ⟨by simp, by simp [hf]⟩
  have h2 : Registered [(1, g), (0, f)] := ⟨by simp, by simp [hf, hg]⟩
  have hr1 : (0, f) ∈ reached sec [(0, f)] := by simp [reached, hcrc, hf0]
  have hr2 : (0, f) ∉ reached sec [(1, g), (0, f)] := by simp [reached, hcrc, g]
  have := h 0 _ _ data data h1 h2 (by simp) (by simp) hdata hdata
  rw [callsTo_deliver_of_mem h1 hdata hr1, callsTo_deliver_of_notMem h2 hdata (by simp) hr2,
    if_pos hmatch, map_eq_nil_iff] at this
  exact hcb this

/-- The bytes after a section that does not decide the match test decide it. -/
theorem not_independent_of_match {data' : SecBlock} (hf : f.arrays = f.params.arrays)
    (hcb : f.cbList ≠ []) (hcrc : swdmxCrc32 sec = 0) (hdata : data.take sec.length = sec)
    (hmatch : secFilterMatch data f.arrays = true) (hdata' : data'.take sec.length = sec)
    (hmatch' : secFilterMatch data' f.arrays = false) : ¬Independent f sec := by
  intro h
  have hreg : Registered [(0, f)] := ⟨by simp, by simp [hf]⟩
  have hr : (0, f) ∈ reached sec [(0, f)] := by simp [reached, hcrc]
  have := h 0 _ _ data data' hreg hreg (by simp) (by simp) hdata hdata'
  rw [callsTo_deliver_of_mem hreg hdata hr, callsTo_deliver_of_mem hreg hdata' hr, if_pos hmatch,
    if_neg (by simp [hmatch']), map_eq_nil_iff] at this
  exact hcb this

/-- A filter that gets the same, whatever the other filters and the buffer are. -/
theorem independent_of_eq (calls : Ptr → List SecCall)
    (h : ∀ (q : Ptr) (filters : List (Ptr × SecFilter)) (data : SecBlock), Registered filters →
      (q, f) ∈ filters → data.take sec.length = sec →
      callsTo q (deliver data sec.length false filters) = calls q) : Independent f sec :=
  fun q _ _ _ _ hr hr' hm hm' hd hd' => (h q _ _ hr hm hd).trans (h q _ _ hr' hm' hd').symm

/-- What a filter gets of a section depends on them alone exactly when it gets
    nothing anyway (it has no callback, or the section makes the match test fail,
    or the filter asks for a CRC that is wrong), or when the CRC is right and the
    section makes the match test pass. -/
theorem independent_iff (f : SecFilter) (hf : f.arrays = f.params.arrays) (sec : List UInt8)
    (hsec : IsSection sec) : Independent f sec ↔ f.cbList = [] ∨ Rejects f.arrays sec ∨
      (f.params.crc32 ≠ 0 ∧ swdmxCrc32 sec ≠ 0) ∨ (Accepts f.arrays sec ∧ swdmxCrc32 sec = 0) := by
  constructor
  · intro h
    by_contra hne
    push Not at hne
    obtain ⟨hcb, hrej, hask, hacc⟩ := hne
    have hlen : sec.length ≤ 4099 := by
      have := totalLen_le sec
      have := hsec.length_eq
      omega
    have hdisj : ∀ j, SecArrays.mam f.arrays j &&& SecArrays.manm f.arrays j = 0 := by
      rw [hf]
      exact SecFilterParams.arrays_disjoint f.params
    obtain ⟨data, hdata, hmatch⟩ := exists_match_of_not_rejects hdisj hlen hrej
    by_cases hcrc : swdmxCrc32 sec = 0
    · obtain ⟨data', hdata', hmatch'⟩ := exists_not_match_of_not_accepts hlen fun ha => hacc ha hcrc
      exact not_independent_of_match hf hcb hcrc hdata hmatch hdata' hmatch' h
    · refine not_independent_of_crc hf hcb ?_ hcrc hdata hmatch h
      by_contra h0
      exact hcrc (hask h0)
  · intro h
    have hcalls {q filters data} (hr : Registered filters) (hm : (q, f) ∈ filters)
        (hd : data.take sec.length = sec)
        (hnil : (if secFilterMatch data f.arrays then f.cbList.map (SecCall.mk q · sec)
          else []) = []) :
        callsTo q (deliver data sec.length false filters) = [] := by
      by_cases hreach : (q, f) ∈ reached sec filters
      · rw [callsTo_deliver_of_mem hr hd hreach, hnil]
      · exact callsTo_deliver_of_notMem hr hd hm hreach
    rcases h with hcb | hrej | ⟨hask, hcrc⟩ | ⟨hacc, hcrc⟩
    · exact independent_of_eq (fun _ => []) fun q _ data hr hm hd =>
        hcalls hr hm hd (by simp [hcb])
    · exact independent_of_eq (fun _ => []) fun q _ data hr hm hd =>
        hcalls hr hm hd (by simp [hrej.secFilterMatch hd])
    · refine independent_of_eq (fun _ => []) fun q _ data hr hm hd =>
        callsTo_deliver_of_notMem hr hd hm fun hreach => ?_
      rw [reached, if_neg hcrc] at hreach
      exact hask (by simpa using mem_takeWhile_imp hreach)
    · refine independent_of_eq (fun q => f.cbList.map (⟨q, ·, sec⟩)) fun q _ data hr hm hd => ?_
      rw [callsTo_deliver_of_mem hr hd (by rwa [reached, if_pos hcrc]),
        if_pos (hacc.secFilterMatch hd)]

theorem independent_clearMaskCrc : Independent clearMaskCrc [0, 0, 0] :=
  (independent_iff clearMaskCrc rfl [0, 0, 0] ⟨by decide, by decide⟩).2
    (.inr (.inr (.inl ⟨by decide, by decide +kernel⟩)))

/-- `clearMask` gets the section `00 00 00`, whose CRC is wrong, on its own, but not
    after a filter that asks for the CRC. -/
theorem not_independent_clearMask :
    clearMask.arrays = clearMask.params.arrays ∧ IsSection [0, 0, 0] ∧
      ¬Independent clearMask [0, 0, 0] := by
  refine ⟨rfl, ⟨by decide, by decide⟩, ?_⟩
  refine not_independent_of_crc rfl (by decide) rfl (by decide +kernel)
    (take_afterSec 0 (by decide)) ?_
  exact matchesAll_clearMask.secFilterMatch _

end CommonDrivers.Dvb.SwDemux
