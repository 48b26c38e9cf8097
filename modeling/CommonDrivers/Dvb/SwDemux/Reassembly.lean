import CommonDrivers.Dvb.SwDemux.Delivery

/-!
# Sections are reassembled

Sections are carried one after the other by the payloads of the packets of a PID.
A packet in which a section starts says so, and its payload starts with a pointer
field: how many bytes come before that section, which end the one in progress. A
section may be cut anywhere, and several ones may start in a packet. If no other
section follows the end of one in a payload, the rest of it is stuffing, and the
next section starts at the start of another packet (`Packets`).

* `pidFilterRun_packets`: over the packets, exactly the sections carried are
  completed and passed to the filters, in order;
* `reassembly`: so a filter that asks for everything gets all of them.
-/

namespace CommonDrivers.Dvb.SwDemux

variable {secs : List (List UInt8)}

open List

/-! ## Legal packets -/

/-- Stuffing bytes. -/
def Stuffing (p : List UInt8) : Prop := ∀ b ∈ p, b = 0xff

/-- The packet carries, in the clear, the payload `p`; `start` says if a section
    starts in it. -/
def Carries (pkt : TsPacket) (start : Bool) (p : List UInt8) : Prop :=
  pkt.payload = some p ∧ pkt.payloadStart = start ∧ pkt.scramble = 0

/-- The packets carry the end `rest` of the section in progress (empty if there is
    none) and then the sections `secs`. -/
inductive Packets : List UInt8 → List (List UInt8) → List TsPacket → Prop
  /-- All sections are carried. -/
  | done : Packets [] [] []
  /-- A packet that carries nothing. -/
  | skip {rest : List UInt8} {secs : List (List UInt8)} {pkt : TsPacket} {pkts : List TsPacket}
      (hp : pkt.payload = none ∨ Carries pkt false []) (h : Packets rest secs pkts) :
      Packets rest secs (pkt :: pkts)
  /-- A part of the section in progress, which goes on. -/
  | cont {part rest : List UInt8} {secs : List (List UInt8)} {pkt : TsPacket}
      {pkts : List TsPacket} (hp : Carries pkt false part) (hrest : rest ≠ [])
      (h : Packets rest secs pkts) : Packets (part ++ rest) secs (pkt :: pkts)
  /-- The end of the section in progress, and stuffing. -/
  | finish {rest stuff : List UInt8} {secs : List (List UInt8)} {pkt : TsPacket}
      {pkts : List TsPacket} (hp : Carries pkt false (rest ++ stuff)) (hrest : rest ≠ [])
      (hstuff : Stuffing stuff) (h : Packets [] secs pkts) : Packets rest secs (pkt :: pkts)
  /-- The end of the section in progress, if any, sections `done`, and the start of
      another section. -/
  | start {rest part rest' : List UInt8} {ptr : UInt8} {done secs : List (List UInt8)}
      {pkt : TsPacket} {pkts : List TsPacket}
      (hp : Carries pkt true (ptr :: (rest ++ (done.flatten ++ part))))
      (hptr : ptr.toNat = rest.length) (hpart : part ≠ []) (hrest : rest' ≠ [])
      (h : Packets rest' secs pkts) :
      Packets rest (done ++ (part ++ rest') :: secs) (pkt :: pkts)
  /-- The end of the section in progress, if any, sections `done`, and stuffing. -/
  | startFinish {rest stuff : List UInt8} {ptr : UInt8} {done secs : List (List UInt8)}
      {pkt : TsPacket} {pkts : List TsPacket}
      (hp : Carries pkt true (ptr :: (rest ++ (done.flatten ++ stuff))))
      (hptr : ptr.toNat = rest.length) (hdone : done ≠ []) (hstuff : Stuffing stuff)
      (h : Packets [] secs pkts) : Packets rest (done ++ secs) (pkt :: pkts)

/-! ## Their reception -/

section

variable {sec sent p rest : List UInt8}

theorem IsSection.three_le_length (h : IsSection sec) : 3 ≤ sec.length :=
  h.length_eq ▸ three_le_totalLen sec

/-- The header of a section is at the start of its bytes. -/
theorem getD_append_of_lt (x : List UInt8) {i : ℕ} (h : i < sec.length) :
    (sec ++ x).getD i 0 = sec.getD i 0 := by
  rw [← getD_take (k := sec.length) h, take_left]

theorem totalLen_append (x : List UInt8) (h : 3 ≤ sec.length) :
    totalLen (sec ++ x) = totalLen sec := by
  rw [← totalLen_take (k := sec.length) h, take_left]

/-- The bytes that complete a section. -/
theorem absorb_section {tail : List UInt8} (h : IsSection sec) (hx : sent ++ p = sec ++ tail) :
    absorb sent p = ⟨[], [sec], tail⟩ := by
  have h3 := h.three_le_length
  have htot : totalLen (sent ++ p) = sec.length := by rw [hx, totalLen_append _ h3, h.length_eq]
  have hlen : sec.length ≤ (sent ++ p).length := by
    rw [hx, length_append]
    omega
  have h0 : (sent ++ p).getD 0 0 ≠ 0xff := by
    rw [hx, getD_append_of_lt _ (by omega)]
    exact h.tableId_ne
  rw [absorb_done (h3.trans hlen) h0 (htot ▸ hlen), htot, hx, take_left, drop_left]

/-- Bytes that do not complete a section, even its header. -/
theorem absorb_proper (h : IsSection (sent ++ p ++ rest)) (hrest : rest ≠ []) :
    absorb sent p = ⟨sent ++ p, [], []⟩ := by
  by_cases h3 : (sent ++ p).length < 3
  · exact absorb_short h3
  rw [not_lt] at h3
  have h0 := h.tableId_ne
  have hlen := h.length_eq
  rw [getD_append_of_lt _ (by omega)] at h0
  rw [totalLen_append _ h3, length_append] at hlen
  have := length_pos_of_ne_nil hrest
  exact absorb_part h3 h0 (by omega)

theorem absorbs_stuffing (h : Stuffing p) : ∃ sent', Absorbs [] p sent' [] := by
  by_cases hp : p = []
  · subst hp
    exact ⟨[], .nil⟩
  suffices (absorb [] p).done = [] ∧ (absorb [] p).rest = [] by
    refine ⟨(absorb [] p).sent, ?_⟩
    have hstep : Absorbs [] p (absorb [] p).sent _ := .step hp (by rw [this.2]; exact .nil)
    rwa [this.1] at hstep
  by_cases h3 : ([] ++ p).length < 3
  · rw [absorb_short h3]
    exact ⟨rfl, rfl⟩
  have h0 : p.getD 0 0 = 0xff := by
    obtain ⟨b, p, rfl⟩ := exists_cons_of_ne_nil hp
    exact h b mem_cons_self
  rw [absorb_stuffing (not_lt.1 h3) h0]
  exact ⟨rfl, rfl⟩

theorem absorbs_proper (h : IsSection (sent ++ p ++ rest)) (hrest : rest ≠ []) :
    Absorbs sent p (sent ++ p) [] := by
  by_cases hp : p = []
  · subst hp
    rw [append_nil]
    exact .nil
  · have habs := absorb_proper h hrest
    have hstep : Absorbs sent p (sent ++ p) _ := .step hp (by rw [habs]; exact .nil)
    rwa [habs] at hstep

theorem absorbs_section {tail sent' : List UInt8} {secs : List (List UInt8)}
    (h : IsSection (sent ++ p)) (hp : p ≠ []) (ht : Absorbs [] tail sent' secs) :
    Absorbs sent (p ++ tail) sent' ((sent ++ p) :: secs) := by
  have habs := absorb_section h (append_assoc sent p tail).symm
  have hstep : Absorbs sent (p ++ tail) sent' _ := .step (by simp [hp]) (by rw [habs]; exact ht)
  rwa [habs] at hstep

theorem absorbs_sections {tail sent' : List UInt8} {done secs : List (List UInt8)}
    (h : ∀ sec ∈ done, IsSection sec) (ht : Absorbs [] tail sent' secs) :
    Absorbs [] (done.flatten ++ tail) sent' (done ++ secs) := by
  induction done with
  | nil => exact ht
  | cons sec done ih =>
    have hsec := h sec mem_cons_self
    have hne : sec ≠ [] := ne_nil_of_length_pos (by have := hsec.three_le_length; omega)
    rw [flatten_cons, append_assoc]
    exact absorbs_section hsec hne (ih fun s hs => h s (mem_cons_of_mem _ hs))

end

/-- The section in progress, of which `sent` is received and `rest` is not. -/
def inProgress (sent rest : List UInt8) : List (List UInt8) :=
  if rest = [] then [] else [sent ++ rest]

@[simp]
theorem inProgress_nil (sent : List UInt8) : inProgress sent [] = [] := rfl

theorem inProgress_of_ne {sent rest : List UInt8} (h : rest ≠ []) :
    inProgress sent rest = [sent ++ rest] := if_neg h

/-- If some of a section is not received, some of it is, and both make a section. -/
def InProgress (sent rest : List UInt8) : Prop := rest ≠ [] → sent ≠ [] ∧ IsSection (sent ++ rest)

theorem inProgress_done (sent : List UInt8) : InProgress sent [] := fun h => absurd rfl h

/-- A packet in which a section starts. -/
theorem receives_start {sent rest tail sent' : List UInt8} {ptr : UInt8}
    (h : InProgress sent rest) (hptr : ptr.toNat = rest.length) (ht : Absorbs [] tail sent' secs) :
    Receives sent true (ptr :: (rest ++ tail)) sent' (inProgress sent rest ++ secs) := by
  have hle : ptr.toNat ≤ (rest ++ tail).length := by
    rw [length_append]
    omega
  have htail : Absorbs [] ((rest ++ tail).drop ptr.toNat) sent' secs := by
    rwa [hptr, drop_left]
  by_cases hrest : rest = []
  · subst hrest
    exact .start hle (.inl (UInt8.toNat.inj hptr)) htail
  obtain ⟨hsent, hsec⟩ := h hrest
  have h0 : ptr ≠ 0 := by
    rintro rfl
    exact hrest (length_eq_zero_iff.1 hptr.symm)
  have := Receives.endStart hle h0 hsent htail
  rwa [hptr, take_left, absorb_section hsec (append_nil _).symm, ← inProgress_of_ne hrest] at this

variable {filters : List (Ptr × SecFilter)} {st : SecState} {i : Input}

/-- `pid_filter_data` on a packet, when what is received is known. -/
theorem pidFilterData_receives {start : Bool} {p sent' : List UInt8} (hinv : st.Inv)
    (hp : Carries i.pkt start p) (hf : i.secFilters ≠ [])
    (hr : Receives st.sent start p sent' secs) :
    ∃ st' calls, pidFilterData st i = .ok (st', calls) ∧ st'.Inv ∧ st'.sent = sent' ∧
      Delivers i.secFilters calls secs := by
  obtain ⟨hp, rfl, hs⟩ := hp
  obtain ⟨st', calls, secs', hst', hinv', hr', hdel⟩ := pidFilterData_spec hinv hp hf hs
  obtain ⟨rfl, rfl⟩ := hr'.unique hr
  exact ⟨st', calls, hst', hinv', rfl, hdel⟩

/-- A packet, and the packets after it. -/
theorem pidFilterRun_cons {is : List Input} {st' : SecState} {calls : List SecCall}
    {secs₁ secs₂ secs : List (List UInt8)} (h : pidFilterData st i = .ok (st', calls))
    (hdel : Delivers filters calls secs₁)
    (hrun : ∃ st'' calls', pidFilterRun st' is = .ok (st'', calls') ∧ Delivers filters calls' secs₂)
    (hsecs : secs₁ ++ secs₂ = secs) :
    ∃ st'' calls', pidFilterRun st (i :: is) = .ok (st'', calls') ∧
      Delivers filters calls' secs := by
  obtain ⟨st'', calls', hst'', hdel'⟩ := hrun
  refine ⟨st'', calls ++ calls', ?_, hsecs ▸ hdel.append hdel'⟩
  rw [pidFilterRun, h]
  show (pidFilterRun st' is).map _ = _
  rw [hst'']
  rfl

/-- Over the packets, the filters get exactly the sections they carry, in order. -/
theorem pidFilterRun_packets (hf : filters ≠ []) {rest : List UInt8} {pkts : List TsPacket}
    (h : Packets rest secs pkts) (hinv : st.Inv) (hrest : InProgress st.sent rest)
    (hsecs : ∀ sec ∈ secs, IsSection sec) {is : List Input}
    (his : ∀ i ∈ is, i.secFilters = filters) (hpkts : is.map Input.pkt = pkts) :
    ∃ st' calls, pidFilterRun st is = .ok (st', calls) ∧
      Delivers filters calls (inProgress st.sent rest ++ secs) := by
  induction h generalizing st is with
  | done =>
    obtain rfl := map_eq_nil_iff.1 hpkts
    exact ⟨st, [], rfl, .nil⟩
  | skip hp h ih =>
    obtain ⟨i, is, rfl, rfl, rfl⟩ := map_eq_cons_iff.1 hpkts
    rw [forall_mem_cons] at his
    -- no payload, or an empty one
    rcases hp with hp | hp
    · exact pidFilterRun_cons (pidFilterData_skip (.inl hp)) .nil
        (ih hinv hrest hsecs his.2 rfl) rfl
    obtain ⟨st', calls, hst', hinv', hsent, hdel⟩ :=
      pidFilterData_receives hinv hp (his.1 ▸ hf) (.cont .nil)
    have := ih hinv' (hsent ▸ hrest) hsecs his.2 rfl
    rw [hsent] at this
    exact pidFilterRun_cons hst' (his.1 ▸ hdel) this rfl
  | @cont part rest secs pkt pkts hp hne h ih =>
    obtain ⟨i, is, rfl, rfl, rfl⟩ := map_eq_cons_iff.1 hpkts
    rw [forall_mem_cons] at his
    -- the section goes on in the next packet
    have hne' : part ++ rest ≠ [] := by simp [hne]
    obtain ⟨hsent₀, hsec⟩ := hrest hne'
    rw [← append_assoc] at hsec
    obtain ⟨st', calls, hst', hinv', hsent, hdel⟩ :=
      pidFilterData_receives hinv hp (his.1 ▸ hf) (.cont (absorbs_proper hsec hne))
    have := ih hinv' (hsent ▸ fun _ => ⟨by simp [hsent₀], hsec⟩) hsecs his.2 rfl
    rw [hsent, inProgress_of_ne hne, append_assoc, ← inProgress_of_ne hne'] at this
    exact pidFilterRun_cons hst' (his.1 ▸ hdel) this rfl
  | @finish rest stuff secs pkt pkts hp hne hstuff h ih =>
    obtain ⟨i, is, rfl, rfl, rfl⟩ := map_eq_cons_iff.1 hpkts
    rw [forall_mem_cons] at his
    -- the section ends here, and stuffing follows
    obtain ⟨sent', habs⟩ := absorbs_stuffing hstuff
    obtain ⟨st', calls, hst', hinv', -, hdel⟩ := pidFilterData_receives hinv hp (his.1 ▸ hf)
      (.cont (absorbs_section (hrest hne).2 hne habs))
    rw [inProgress_of_ne hne]
    exact pidFilterRun_cons hst' (his.1 ▸ hdel) (ih hinv' (inProgress_done _) hsecs his.2 rfl) rfl
  | @start rest part rest' ptr done secs pkt pkts hp hptr hpart hne h ih =>
    obtain ⟨i, is, rfl, rfl, rfl⟩ := map_eq_cons_iff.1 hpkts
    rw [forall_mem_cons] at his
    rw [forall_mem_append, forall_mem_cons] at hsecs
    obtain ⟨hdone, hsec, hsecs⟩ := hsecs
    -- the old section ends, whole ones follow, and one begins that goes on
    have habs := absorbs_sections hdone (@absorbs_proper [] part rest' hsec hne)
    obtain ⟨st', calls, hst', hinv', hsent, hdel⟩ := pidFilterData_receives hinv hp (his.1 ▸ hf)
      (receives_start hrest hptr habs)
    have := ih hinv' (hsent ▸ fun _ => ⟨hpart, hsec⟩) hsecs his.2 rfl
    rw [hsent, inProgress_of_ne hne] at this
    exact pidFilterRun_cons hst' (his.1 ▸ hdel) this (by simp)
  | @startFinish rest stuff ptr done secs pkt pkts hp hptr _ hstuff h ih =>
    obtain ⟨i, is, rfl, rfl, rfl⟩ := map_eq_cons_iff.1 hpkts
    rw [forall_mem_cons] at his
    rw [forall_mem_append] at hsecs
    obtain ⟨sent', habs⟩ := absorbs_stuffing hstuff
    obtain ⟨st', calls, hst', hinv', -, hdel⟩ := pidFilterData_receives hinv hp (his.1 ▸ hf)
      (receives_start hrest hptr (absorbs_sections hsecs.1 habs))
    exact pidFilterRun_cons hst' (his.1 ▸ hdel)
      (ih hinv' (inProgress_done _) hsecs.2 his.2 rfl) (by simp)

/-- A fresh PID filter with one section filter, which asks for everything, calls
    the callbacks of the filter with exactly the sections the packets carry, in
    order. -/
theorem reassembly (q : Ptr) (f : SecFilter) (hf : MatchesAll f) (secs : List (List UInt8))
    (hsecs : ∀ sec ∈ secs, IsSection sec) (is : List Input)
    (his : ∀ i ∈ is, i.secFilters = [(q, f)]) (hp : Packets [] secs (is.map Input.pkt)) :
    ∃ st, pidFilterRun .fresh is =
      .ok (st, secs.flatMap fun sec => f.cbList.map (⟨q, ·, sec⟩)) := by
  obtain ⟨st, calls, hst, hdel⟩ := pidFilterRun_packets (cons_ne_nil _ _) hp
    SecState.inv_fresh (inProgress_done _) hsecs his rfl
  exact ⟨st, hdel.eq_of_matchesAll hf ▸ hst⟩

/-- A packet of the PID 16 in which a section starts, for the filter `clearMask`. -/
def startPacket (p : List UInt8) : Input :=
  ⟨[], [(2, clearMask)], ⟨16, true, false, false, 0, 0, [], none, some p⟩, .replicate 4099 0⟩

/-- The section `42 00 02 07 08`, cut in its header. -/
theorem packets_two : Packets [] [[0x42, 0, 2, 7, 8], [0x43, 0, 0]]
      ([startPacket [0, 0x42, 0], startPacket [3, 2, 7, 8, 0x43, 0, 0, 0xff]].map Input.pkt) := by
  refine @Packets.start [] [0x42, 0] [2, 7, 8] 0 [] [[0x43, 0, 0]] _ _ ⟨rfl, rfl, rfl⟩ rfl (by simp)
    (by simp) ?_
  exact @Packets.startFinish [2, 7, 8] [0xff] 3 [[0x43, 0, 0]] [] _ _ ⟨rfl, rfl, rfl⟩ rfl (by simp)
    (by simp [Stuffing]) .done

theorem reassembly_two_packets : ∃ st, pidFilterRun .fresh [startPacket [0, 0x42, 0],
        startPacket [3, 2, 7, 8, 0x43, 0, 0, 0xff]] =
      .ok (st, [⟨2, ⟨5, 6⟩, [0x42, 0, 2, 7, 8]⟩, ⟨2, ⟨5, 6⟩, [0x43, 0, 0]⟩]) := by
  refine reassembly 2 clearMask matchesAll_clearMask _ ?_ _ ?_ packets_two
  · simp only [forall_mem_cons]
    exact ⟨⟨by decide, by decide⟩, ⟨by decide, by decide⟩, by simp⟩
  · simp [startPacket]

end CommonDrivers.Dvb.SwDemux
