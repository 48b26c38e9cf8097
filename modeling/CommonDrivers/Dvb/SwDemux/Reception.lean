import CommonDrivers.Dvb.SwDemux.Section

/-!
# Sections are received without a fault

What a PID filter receives can be told from the bytes alone (`absorb`): the bytes
received so far, followed by new ones, are a header to be completed, stuffing to
be skipped, a part of a section, or a section and what follows it. `Absorbs` and
`Receives` say what becomes of all bytes, and of a payload.

The program, over its buffer, follows it, and delivers the sections completed to
the filters (`Delivers`), as long as a section is in progress in the sense of
`SecBuf.Inv`: the bytes received fit in the buffer and, once their header is
there, are less than the section. Each function has its simulation:
`secData_spec`, `secLoop_spec`, `payloadData_spec`, `pidFilterData_spec`. As the
invariant is kept, it holds in any run, on any packets (`run_bounds`).
-/

namespace CommonDrivers.Dvb.SwDemux

open List

/-! ## What is received -/

/-- The total length of the section that starts with `x`. -/
def totalLen (x : List UInt8) : ℕ := sectionLength (x.getD 1 0) (x.getD 2 0) + 3

/-- What bytes make of the section in progress. -/
structure Absorbed where
  /-- The bytes received of the section in progress. -/
  sent : List UInt8
  /-- The section that is complete, if any. -/
  done : List (List UInt8)
  /-- The bytes not used. -/
  rest : List UInt8

/-- The bytes `p` come after the bytes `sent` of the section in progress. -/
def absorb (sent p : List UInt8) : Absorbed :=
  let x := sent ++ p
  if x.length < 3 then ⟨x, [], []⟩
  else if x.getD 0 0 = 0xff then ⟨x.take (max sent.length 3), [], []⟩
  else if x.length < totalLen x then ⟨x, [], []⟩
  else ⟨[], [x.take (totalLen x)], x.drop (totalLen x)⟩

section

variable {sent p : List UInt8}

theorem absorb_short (h : (sent ++ p).length < 3) : absorb sent p = ⟨sent ++ p, [], []⟩ := if_pos h

theorem absorb_stuffing (h3 : 3 ≤ (sent ++ p).length) (h : (sent ++ p).getD 0 0 = 0xff) :
    absorb sent p = ⟨(sent ++ p).take (max sent.length 3), [], []⟩ :=
  (if_neg (not_lt.2 h3)).trans (if_pos h)

theorem absorb_part (h3 : 3 ≤ (sent ++ p).length) (h0 : (sent ++ p).getD 0 0 ≠ 0xff)
    (h : (sent ++ p).length < totalLen (sent ++ p)) : absorb sent p = ⟨sent ++ p, [], []⟩ :=
  (if_neg (not_lt.2 h3)).trans ((if_neg h0).trans (if_pos h))

theorem absorb_done (h3 : 3 ≤ (sent ++ p).length) (h0 : (sent ++ p).getD 0 0 ≠ 0xff)
    (h : totalLen (sent ++ p) ≤ (sent ++ p).length) :
    absorb sent p = ⟨[], [(sent ++ p).take (totalLen (sent ++ p))],
      (sent ++ p).drop (totalLen (sent ++ p))⟩ :=
  (if_neg (not_lt.2 h3)).trans ((if_neg h0).trans (if_neg (not_lt.2 h)))

end

theorem totalLen_le (x : List UInt8) : totalLen x ≤ 4098 := by
  have := sectionLength_lt (x.getD 1 0) (x.getD 2 0)
  rw [totalLen]
  omega

theorem three_le_totalLen (x : List UInt8) : 3 ≤ totalLen x := Nat.le_add_left 3 _

theorem getD_take {x : List UInt8} {i k : ℕ} (h : i < k) : (x.take k).getD i 0 = x.getD i 0 := by
  simp only [getD_eq_getElem?_getD, getElem?_take_of_lt h]

/-- The length of a section is in its header. -/
theorem totalLen_take {x : List UInt8} {k : ℕ} (h : 3 ≤ k) : totalLen (x.take k) = totalLen x := by
  rw [totalLen, totalLen, getD_take (by omega), getD_take (by omega)]

/-! ## The simulation -/

namespace SecBuf

/-- The bytes received of the section in progress. -/
def sent (s : SecBuf) : List UInt8 := s.data.take s.recv.toNat

/-- The invariant of the reception: the bytes received fit in the buffer, and
    once the header is there they are less than the whole section. -/
structure Inv (s : SecBuf) : Prop where
  nonneg : 0 ≤ s.recv
  le : s.recv ≤ 4098
  lt_secLen : 3 ≤ s.recv → s.data.get 0 ≠ 0xff → s.recv < s.secLen

variable {s : SecBuf}

theorem Inv.length_sent (h : s.Inv) : (s.sent.length : ℤ) = s.recv := by
  have := h.nonneg
  have := h.le
  rw [sent, Block.length_take]
  omega

theorem inv_of_recv_zero (data : SecBlock) : Inv ⟨data, 0⟩ :=
  ⟨le_rfl, by norm_num, fun h => absurd h (by norm_num)⟩

theorem getD_sent {i : Fin 4099} (h : (i : ℤ) < s.recv) : s.sent.getD i 0 = s.data.get i := by
  rw [s.data.get_eq_getElem_take i (show i < s.recv.toNat by omega), sent, getD_eq_getElem]
  rfl

theorem secLen_eq (h : 3 ≤ s.recv) : s.secLen = totalLen s.sent := by
  have h1 : s.sent.getD 1 0 = s.data.get 1 := getD_sent (i := 1) (by norm_num; omega)
  have h2 : s.sent.getD 2 0 = s.data.get 2 := getD_sent (i := 2) (by norm_num; omega)
  rw [secLen, totalLen, h1, h2]
  rfl

/-- A copy that fits appends bytes to those received. -/
theorem copy_spec {p : List UInt8} {k : ℕ} (h0 : 0 ≤ s.recv) (hk : k ≤ p.length)
    (hfit : s.recv + k ≤ 4099) :
    ∃ s', s.copy p k = .ok (s', p.drop k) ∧ s'.recv = s.recv + k ∧
      s'.sent = s.sent ++ p.take k := by
  obtain ⟨r, hr⟩ := Int.eq_ofNat_of_zero_le h0
  obtain ⟨d, hd, htake⟩ := s.data.memcpy_ok r hk (by omega)
  by_cases hz : (k : ℤ) = 0
  · obtain rfl : k = 0 := by omega
    exact ⟨s, by simp [copy], by simp, by simp⟩
  refine ⟨⟨d, s.recv + k⟩, ?_, rfl, ?_⟩
  · rw [copy, if_neg hz, hr, hd]
    rfl
  · simp only [sent, hr]
    rw [show ((r : ℤ) + k).toNat = r + k by omega, htake, Int.toNat_natCast]

end SecBuf

variable {filters : List (Ptr × SecFilter)} {s : SecBuf}

theorem secHeader_spec (h : s.Inv) (p : List UInt8) :
    ∃ s' : SecBuf, secHeader s p = .ok (s', p.drop (3 - s.sent.length)) ∧
      s'.sent = s.sent ++ p.take (3 - s.sent.length) ∧ s'.recv = s'.sent.length ∧
      (3 ≤ s.recv → s' = s) := by
  have hlen := h.length_sent
  by_cases hr : s.recv < 3
  · obtain ⟨s', hs', hrecv, hsent⟩ := SecBuf.copy_spec (p := p)
      (k := min (3 - s.sent.length) p.length) h.nonneg (min_le_right _ _) (by omega)
    have hmin : (min (p.length : ℤ) (3 - s.recv)) = ↑(min (3 - s.sent.length) p.length) := by omega
    refine ⟨s', ?_, ?_, ?_, fun h3 => absurd hr (not_lt.2 h3)⟩
    · rw [secHeader, if_pos hr, hmin, hs', ← drop_eq_drop_min]
    · rw [hsent, ← take_eq_take_min]
    · rw [hsent, hrecv, length_append, length_take, ← hlen]
      omega
  · have h0 : 3 - s.sent.length = 0 := by omega
    exact ⟨s, by rw [secHeader, if_neg hr, h0, drop_zero], by simp [h0], hlen.symm, fun _ => rfl⟩

/-- The second part of `sec_data`, when the header is there and the section is
    not complete. -/
theorem secBody_spec (h3 : 3 ≤ s.recv) (hle : s.recv ≤ s.secLen) (p : List UInt8) :
    ∃ s' calls, secBody filters s p = .ok (s', calls, p.drop (totalLen s.sent - s.sent.length)) ∧
      if (s.sent ++ p).length < totalLen s.sent then
        s'.sent = s.sent ++ p ∧ s'.recv = s'.sent.length ∧ calls = []
      else
        s'.recv = 0 ∧ ∃ data : SecBlock,
          data.take (totalLen s.sent) = (s.sent ++ p).take (totalLen s.sent) ∧
          calls = deliver data (totalLen s.sent) false filters := by
  have hL := SecBuf.secLen_eq h3
  have htot := totalLen_le s.sent
  have hlen : (s.sent.length : ℤ) = s.recv := by
    rw [SecBuf.sent, Block.length_take]
    omega
  obtain ⟨s', hs', hrecv, hsent⟩ := SecBuf.copy_spec (s := s) (p := p)
    (k := min (totalLen s.sent - s.sent.length) p.length) (by omega) (min_le_right _ _) (by omega)
  have hmin : min (s.secLen - s.recv) (p.length : ℤ) =
      ↑(min (totalLen s.sent - s.sent.length) p.length) := by omega
  have hbody : secBody filters s p = .ok (if s'.recv = s.secLen then
      (⟨s'.data, 0⟩, deliver s'.data s'.recv.toNat false filters,
        p.drop (totalLen s.sent - s.sent.length))
      else (s', [], p.drop (totalLen s.sent - s.sent.length))) := by
    rw [secBody, hmin, hs', ← drop_eq_drop_min]
    rfl
  rw [← take_eq_take_min] at hsent
  rw [hbody, length_append]
  by_cases hdone : s.sent.length + p.length < totalLen s.sent
  · refine ⟨s', [], by rw [if_neg (by omega)], ?_⟩
    rw [if_pos hdone, hsent, take_of_length_le (by omega)]
    refine ⟨rfl, ?_, rfl⟩
    rw [hrecv, length_append]
    omega
  have hr' : s'.recv = totalLen s.sent := by omega
  refine ⟨_, _, by rw [if_pos (by omega)], ?_⟩
  rw [if_neg hdone]
  refine ⟨rfl, s'.data, ?_, by rw [hr', Int.toNat_natCast]⟩
  have htake : s'.sent = s'.data.take (totalLen s.sent) := by
    rw [SecBuf.sent, hr', Int.toNat_natCast]
  have hall : s.sent.length ≤ totalLen s.sent := by omega
  rw [← htake, hsent, take_append, take_of_length_le hall]

section

variable {p p₁ p₂ : List UInt8} {s₁ s₂ : SecBuf} {calls : List SecCall}

theorem secData_stop (hs : secHeader s p = .ok (s₁, p₁)) (h : s₁.recv < 3 ∨ s₁.data.get 0 = 0xff) :
    secData filters s p = .ok (s₁, [], p.length) := by
  rw [secData, hs]
  exact if_pos h

theorem secData_body (hs : secHeader s p = .ok (s₁, p₁)) (h3 : 3 ≤ s₁.recv)
    (h0 : s₁.data.get 0 ≠ 0xff) (hb : secBody filters s₁ p₁ = .ok (s₂, calls, p₂)) :
    secData filters s p = .ok (s₂, calls, p.length - p₂.length) := by
  rw [secData, hs]
  refine (if_neg (not_or.2 ⟨not_lt.2 h3, h0⟩)).trans ?_
  rw [hb]
  rfl

end

/-- The calls made for complete sections: those of the filters for each of them,
    which is at the start of the buffer. -/
inductive Delivers (filters : List (Ptr × SecFilter)) : List SecCall → List (List UInt8) → Prop
  | nil : Delivers filters [] []
  | cons {data : SecBlock} {sec : List UInt8} {calls : List SecCall} {secs : List (List UInt8)}
      (h : data.take sec.length = sec) (hs : Delivers filters calls secs) :
      Delivers filters (deliver data sec.length false filters ++ calls) (sec :: secs)

theorem Delivers.append {calls calls' : List SecCall} {secs secs' : List (List UInt8)}
    (h : Delivers filters calls secs) (h' : Delivers filters calls' secs') :
    Delivers filters (calls ++ calls') (secs ++ secs') := by
  induction h with
  | nil => exact h'
  | cons hd _ ih =>
    rw [append_assoc]
    exact .cons hd ih

theorem Delivers.singleton {data : SecBlock} {sec : List UInt8} (h : data.take sec.length = sec) :
    Delivers filters (deliver data sec.length false filters) [sec] := by
  simpa using Delivers.cons h .nil

/-- `sec_data` follows `absorb`: it does not fault, what it has received, used and
    completed is what `absorb` says, and it keeps the invariant. -/
theorem secData_spec (filters : List (Ptr × SecFilter)) (h : s.Inv) (p : List UInt8) :
    ∃ s' calls, secData filters s p = .ok (s', calls, p.length - (absorb s.sent p).rest.length) ∧
      s'.Inv ∧ s'.sent = (absorb s.sent p).sent ∧
      Delivers filters calls (absorb s.sent p).done := by
  obtain ⟨s₁, hs₁, hsent₁, hrecv₁, hsame⟩ := secHeader_spec h p
  have hle := h.le
  have hlen := h.length_sent
  have hlen₁ : s₁.sent.length = s.sent.length + min (3 - s.sent.length) p.length := by
    rw [hsent₁, length_append, length_take]
  have hxlen : (s.sent ++ p).length = s.sent.length + p.length := length_append
  -- What is received after the header is the start of all there is, `s.sent ++ p`.
  have hx : s₁.sent ++ p.drop (3 - s.sent.length) = s.sent ++ p := by
    rw [hsent₁, append_assoc, take_append_drop]
  have hsent : s₁.sent = (s.sent ++ p).take s₁.sent.length := by rw [← hx, take_left]
  by_cases hshort : (s.sent ++ p).length < 3
  · -- The header is still not complete.
    rw [absorb_short hshort]
    refine ⟨s₁, [], ?_, ⟨by omega, by omega, fun h3 => by omega⟩, ?_, .nil⟩
    · rw [secData_stop hs₁ (.inl (by omega))]
      simp
    · rw [hsent, take_of_length_le (by omega)]
  have h3 : 3 ≤ s₁.recv := by omega
  have hget : s₁.data.get 0 = (s.sent ++ p).getD 0 0 := by
    rw [← getD_take (show 0 < s₁.sent.length by omega), ← hsent]
    exact (SecBuf.getD_sent (i := 0) (by norm_num; omega)).symm
  have htot : totalLen s₁.sent = totalLen (s.sent ++ p) := by
    rw [hsent, totalLen_take (by omega)]
  by_cases h0 : (s.sent ++ p).getD 0 0 = 0xff
  · -- Stuffing: the rest of the bytes is skipped.
    rw [absorb_stuffing (not_lt.1 hshort) h0]
    refine ⟨s₁, [], ?_, ⟨by omega, by omega, fun _ hne => absurd (hget.trans h0) hne⟩, ?_, .nil⟩
    · rw [secData_stop hs₁ (.inr (hget.trans h0))]
      simp
    · rw [hsent]
      congr 1
      omega
  have h0' : s₁.data.get 0 ≠ 0xff := hget ▸ h0
  have hL := SecBuf.secLen_eq h3
  have h3L := three_le_totalLen s₁.sent
  have hrecv : s₁.recv ≤ s₁.secLen := by
    by_cases hr : s.recv < 3
    · omega
    · have := hsame (not_lt.1 hr)
      subst this
      exact (h.lt_secLen h3 h0').le
  obtain ⟨s₂, calls, hs₂, hcase⟩ := @secBody_spec filters s₁ h3 hrecv (p.drop (3 - s.sent.length))
  rw [hx, htot] at hcase
  have hdata := secData_body hs₁ h3 h0' hs₂
  rw [drop_drop, htot] at hdata
  refine ⟨s₂, calls, ?_⟩
  by_cases hdone : (s.sent ++ p).length < totalLen (s.sent ++ p)
  · -- A part of the section.
    rw [if_pos hdone] at hcase
    obtain ⟨hsent₂, hrecv₂, rfl⟩ := hcase
    rw [absorb_part (not_lt.1 hshort) h0 hdone]
    have := totalLen_le (s.sent ++ p)
    have hsent₂' : s₂.sent.length = (s.sent ++ p).length := by rw [hsent₂]
    refine ⟨?_, ⟨by omega, by omega, fun h3 _ => ?_⟩, hsent₂, .nil⟩
    · rw [hdata, drop_eq_nil_of_le (by omega)]
    · rw [SecBuf.secLen_eq h3, hsent₂]
      omega
  · -- The section is complete.
    rw [if_neg hdone] at hcase
    obtain ⟨hrecv₂, data, htake, rfl⟩ := hcase
    rw [absorb_done (not_lt.1 hshort) h0 (not_lt.1 hdone)]
    have hlen₂ : ((s.sent ++ p).take (totalLen (s.sent ++ p))).length = totalLen (s.sent ++ p) :=
      length_take_of_le (not_lt.1 hdone)
    refine ⟨?_, ⟨by omega, by omega, fun h3 => by omega⟩, ?_, ?_⟩
    · rw [hdata]
      simp only [length_drop]
      congr 3
      omega
    · rw [SecBuf.sent, hrecv₂]
      rfl
    · have := @Delivers.singleton filters _ _ (htake ▸ congrArg data.take hlen₂)
      rwa [hlen₂] at this

/-! ## The loop -/

/-- What is not used is the end of the bytes, and, from a state in which a section
    is in progress, not all of them. -/
theorem absorb_rest (h : s.Inv) {p : List UInt8} (hp : p ≠ []) :
    (absorb s.sent p).rest.length < p.length ∧
      p.drop (p.length - (absorb s.sent p).rest.length) = (absorb s.sent p).rest := by
  have hpos := length_pos_of_ne_nil hp
  have hlen := h.length_sent
  have hnil : ([] : List UInt8).length < p.length ∧
      p.drop (p.length - ([] : List UInt8).length) = [] := ⟨hpos, by simp⟩
  by_cases h3 : (s.sent ++ p).length < 3
  · rwa [absorb_short h3]
  by_cases h0 : (s.sent ++ p).getD 0 0 = 0xff
  · rwa [absorb_stuffing (not_lt.1 h3) h0]
  by_cases hpart : (s.sent ++ p).length < totalLen (s.sent ++ p)
  · rwa [absorb_part (not_lt.1 h3) h0 hpart]
  rw [absorb_done (not_lt.1 h3) h0 (not_lt.1 hpart)]
  -- Less than the whole section was received before.
  have hlt : s.sent.length < totalLen (s.sent ++ p) := by
    by_cases hr : 3 ≤ s.recv
    · have hhead : s.sent = (s.sent ++ p).take s.sent.length := by rw [take_left]
      have hget : s.data.get 0 ≠ 0xff := by
        rw [← SecBuf.getD_sent (i := 0) (by norm_num; omega), hhead]
        rwa [getD_take (show ((0 : Fin 4099) : ℕ) < _ by norm_num; omega)]
      have := h.lt_secLen hr hget
      rw [SecBuf.secLen_eq hr, hhead, totalLen_take (by omega)] at this
      omega
    · have := three_le_totalLen (s.sent ++ p)
      omega
  rw [length_append, not_lt] at hpart
  simp only [length_drop, length_append, drop_append]
  refine ⟨by omega, ?_⟩
  rw [show s.sent.drop (totalLen (s.sent ++ p)) = [] from drop_eq_nil_of_le hlt.le, nil_append]
  congr 1
  omega

/-- Bytes received one `absorb` after the other, until none is left: the
    sections completed, and what is received of the next one. -/
inductive Absorbs : List UInt8 → List UInt8 → List UInt8 → List (List UInt8) → Prop
  | nil {sent : List UInt8} : Absorbs sent [] sent []
  | step {sent p sent' : List UInt8} {secs : List (List UInt8)} (hp : p ≠ [])
      (h : Absorbs (absorb sent p).sent (absorb sent p).rest sent' secs) :
      Absorbs sent p sent' ((absorb sent p).done ++ secs)

theorem Absorbs.unique {sent p sent₁ sent₂ : List UInt8} {secs₁ secs₂ : List (List UInt8)}
    (h₁ : Absorbs sent p sent₁ secs₁) (h₂ : Absorbs sent p sent₂ secs₂) :
    sent₁ = sent₂ ∧ secs₁ = secs₂ := by
  induction h₁ generalizing sent₂ secs₂ with
  | nil =>
    cases h₂ with
    | nil => exact ⟨rfl, rfl⟩
    | step hp _ => exact absurd rfl hp
  | step hp _ ih =>
    cases h₂ with
    | nil => exact absurd rfl hp
    | step _ h =>
      obtain ⟨rfl, rfl⟩ := ih h
      exact ⟨rfl, rfl⟩

/-- One turn of the loop of `pid_filter_data`. -/
theorem secLoop_succ (fuel : ℕ) (h : s.Inv) {p : List UInt8} (hp : p ≠ []) :
    ∃ s' calls, s'.Inv ∧ s'.sent = (absorb s.sent p).sent ∧
      Delivers filters calls (absorb s.sent p).done ∧ secLoop filters (fuel + 1) s p =
        (secLoop filters fuel s' (absorb s.sent p).rest).map fun r => (r.1, calls ++ r.2) := by
  obtain ⟨s', calls, hs', hinv, hsent, hdel⟩ := secData_spec filters h p
  obtain ⟨hlt, hdrop⟩ := absorb_rest h hp
  refine ⟨s', calls, hinv, hsent, hdel, ?_⟩
  obtain ⟨b, p, rfl⟩ := exists_cons_of_ne_nil hp
  rw [secLoop, hs']
  refine (if_neg (by omega)).trans ?_
  rw [show ((b :: p).length - (absorb s.sent (b :: p)).rest.length : ℤ).toNat =
    (b :: p).length - (absorb s.sent (b :: p)).rest.length by omega, hdrop]

/-- The loop ends, without a fault, when all bytes are received. -/
theorem secLoop_spec {fuel : ℕ} (h : s.Inv) {p : List UInt8} (hfuel : p.length ≤ fuel) :
    ∃ s' calls secs, secLoop filters fuel s p = .ok (s', calls) ∧ s'.Inv ∧
      Absorbs s.sent p s'.sent secs ∧ Delivers filters calls secs := by
  induction fuel generalizing s p with
  | zero =>
    obtain rfl := length_eq_zero_iff.1 (Nat.le_zero.1 hfuel)
    exact ⟨s, [], [], rfl, h, .nil, .nil⟩
  | succ fuel ih =>
    by_cases hp : p = []
    · subst hp
      exact ⟨s, [], [], rfl, h, .nil, .nil⟩
    obtain ⟨s₁, calls₁, hinv₁, hsent₁, hdel₁, heq⟩ := @secLoop_succ filters s fuel h p hp
    have hlt := (absorb_rest h hp).1
    obtain ⟨s', calls, secs, hs', hinv, habs, hdel⟩ :=
      ih hinv₁ (p := (absorb s.sent p).rest) (by omega)
    refine ⟨s', calls₁ ++ calls, (absorb s.sent p).done ++ secs, ?_, hinv, ?_, hdel₁.append hdel⟩
    · rw [heq, hs']
      rfl
    · exact .step hp (hsent₁ ▸ habs)

/-! ## Packets -/

/-- A payload received while `sent` is the start of the section in progress. The
    pointer field at the start of a payload says how many bytes end the section in
    progress, which is then forgotten, complete or not. -/
inductive Receives : List UInt8 → Bool → List UInt8 → List UInt8 → List (List UInt8) → Prop
  | cont {sent p sent' : List UInt8} {secs : List (List UInt8)} (h : Absorbs sent p sent' secs) :
      Receives sent false p sent' secs
  | empty {sent : List UInt8} : Receives sent true [] [] []
  | illegal {sent p : List UInt8} {ptr : UInt8} (hptr : p.length < ptr.toNat) :
      Receives sent true (ptr :: p) sent []
  | start {sent p sent' : List UInt8} {ptr : UInt8} {secs : List (List UInt8)}
      (hptr : ptr.toNat ≤ p.length) (h : ptr = 0 ∨ sent = [])
      (h' : Absorbs [] (p.drop ptr.toNat) sent' secs) : Receives sent true (ptr :: p) sent' secs
  | endStart {sent p sent' : List UInt8} {ptr : UInt8} {secs : List (List UInt8)}
      (hptr : ptr.toNat ≤ p.length) (h0 : ptr ≠ 0) (hs : sent ≠ [])
      (h' : Absorbs [] (p.drop ptr.toNat) sent' secs) :
      Receives sent true (ptr :: p) sent' ((absorb sent (p.take ptr.toNat)).done ++ secs)

theorem Receives.unique {sent p sent₁ sent₂ : List UInt8} {start : Bool}
    {secs₁ secs₂ : List (List UInt8)} (h₁ : Receives sent start p sent₁ secs₁)
    (h₂ : Receives sent start p sent₂ secs₂) : sent₁ = sent₂ ∧ secs₁ = secs₂ := by
  cases h₁ with
  | cont h =>
    cases h₂ with
    | cont h' => exact h.unique h'
  | empty =>
    cases h₂ with
    | empty => exact ⟨rfl, rfl⟩
  | illegal hptr =>
    cases h₂ with
    | illegal => exact ⟨rfl, rfl⟩
    | start | endStart => omega
  | start hptr h h' =>
    cases h₂ with
    | illegal hptr' => omega
    | start _ _ h'' => exact h'.unique h''
    | endStart _ h0 hs _ => exact absurd h (not_or.2 ⟨h0, hs⟩)
  | endStart hptr h0 hs h' =>
    cases h₂ with
    | illegal hptr' => omega
    | start _ h _ => exact absurd h (not_or.2 ⟨h0, hs⟩)
    | endStart _ _ _ h'' =>
      obtain ⟨rfl, rfl⟩ := h'.unique h''
      exact ⟨rfl, rfl⟩

namespace SecBuf

theorem Inv.sent_eq_nil (h : s.Inv) : s.sent = [] ↔ s.recv = 0 := by
  have := h.length_sent
  rw [← length_eq_zero_iff]
  omega

end SecBuf

/-- The loop from a state in which no section is in progress, after `calls`. -/
theorem secLoop_start (data : SecBlock) (p : List UInt8) (calls : List SecCall) :
    ∃ s' calls' secs, ((secLoop filters p.length ⟨data, 0⟩ p).map fun r => (r.1, calls ++ r.2)) =
        .ok (s', calls ++ calls') ∧ s'.Inv ∧ Absorbs [] p s'.sent secs ∧
      Delivers filters calls' secs := by
  obtain ⟨s', calls', secs, hs', hinv, habs, hdel⟩ :=
    @secLoop_spec filters _ _ (SecBuf.inv_of_recv_zero data) p le_rfl
  refine ⟨s', calls', secs, ?_, hinv, habs, hdel⟩
  rw [hs']
  rfl

/-- The payload part of `pid_filter_data` does not fault, and receives the payload. -/
theorem payloadData_spec (h : s.Inv) (start : Bool) (p : List UInt8) :
    ∃ s' calls secs, payloadData filters s start p = .ok (s', calls) ∧ s'.Inv ∧
      Receives s.sent start p s'.sent secs ∧ Delivers filters calls secs := by
  cases start with
  | false =>
    obtain ⟨s', calls, secs, hs', hinv, habs, hdel⟩ := @secLoop_spec filters s _ h p le_rfl
    exact ⟨s', calls, secs, hs', hinv, .cont habs, hdel⟩
  | true =>
    cases p with
    | nil => exact ⟨⟨s.data, 0⟩, [], [], rfl, SecBuf.inv_of_recv_zero _, .empty, .nil⟩
    | cons ptr p =>
      by_cases h0 : ptr = 0
      · subst h0
        obtain ⟨s', calls, secs, hs', hinv, habs, hdel⟩ := @secLoop_start filters s.data p []
        exact ⟨s', calls, secs, hs', hinv, .start (Nat.zero_le _) (.inl rfl) habs, hdel⟩
      have h0' : ptr.toNat ≠ 0 := fun h => h0 (UInt8.toNat.inj h)
      by_cases hptr : p.length < ptr.toNat
      · refine ⟨s, [], [], ?_, h, .illegal hptr, .nil⟩
        rw [payloadData, if_pos rfl, pointerField, if_neg h0', if_pos hptr]
        rfl
      by_cases hr : s.recv = 0
      · obtain ⟨s', calls, secs, hs', hinv, habs, hdel⟩ :=
          @secLoop_start filters s.data (p.drop ptr.toNat) []
        refine ⟨s', calls, secs, ?_, hinv, .start (not_lt.1 hptr) (.inr (h.sent_eq_nil.2 hr)) habs,
          hdel⟩
        rw [payloadData, if_pos rfl, pointerField, if_neg h0', if_neg hptr, if_pos hr]
        exact hs'
      obtain ⟨s₁, calls₁, hs₁, -, -, hdel₁⟩ := secData_spec filters h (p.take ptr.toNat)
      obtain ⟨s', calls, secs, hs', hinv, habs, hdel⟩ :=
        @secLoop_start filters s₁.data (p.drop ptr.toNat) calls₁
      refine ⟨s', calls₁ ++ calls, _, ?_, hinv,
        .endStart (not_lt.1 hptr) h0 (mt h.sent_eq_nil.1 hr) habs, hdel₁.append hdel⟩
      rw [payloadData, if_pos rfl, pointerField, if_neg h0', if_neg hptr, if_neg hr, hs₁]
      exact hs'

namespace SecState

/-- The bytes received of the section in progress. -/
def sent (st : SecState) : List UInt8 :=
  match st.secData with
  | none => []
  | some data => data.take st.secRecv.toNat

/-- The invariant of a PID filter between packets. -/
structure Inv (st : SecState) : Prop where
  /-- Nothing is received before the buffer is allocated. -/
  recv_eq_zero : st.secData = none → st.secRecv = 0
  nonneg : 0 ≤ st.secRecv
  le : st.secRecv ≤ 4098
  /-- Once the header is there, and it is not stuffing, less than the whole
      section is received. -/
  lt_section : ∀ data, st.secData = some data → 3 ≤ st.secRecv → data.get 0 ≠ 0xff →
    st.secRecv < 3 + sectionLength (data.get 1) (data.get 2)

theorem inv_fresh : fresh.Inv := ⟨fun _ => rfl, le_rfl, by decide, fun _ h => by cases h⟩

variable {st : SecState}

theorem Inv.buf (h : st.Inv) (malloc : SecBlock) : (st.buf malloc).Inv := by
  refine ⟨h.nonneg, h.le, fun h3 h0 => ?_⟩
  obtain ⟨data, recv⟩ := st
  cases data with
  | none =>
    have : recv = 0 := h.recv_eq_zero rfl
    subst this
    exact absurd (show (3 : ℤ) ≤ 0 from h3) (by decide)
  | some data =>
    have := h.lt_section data rfl h3 h0
    simp only [SecBuf.secLen, SecState.buf, Option.getD_some] at this ⊢
    omega

theorem Inv.sent_buf (h : st.Inv) (malloc : SecBlock) : (st.buf malloc).sent = st.sent := by
  obtain ⟨data, recv⟩ := st
  cases data with
  | none =>
    have : recv = 0 := h.recv_eq_zero rfl
    subst this
    rfl
  | some data => rfl

theorem inv_some (h : s.Inv) : Inv ⟨some s.data, s.recv⟩ := by
  refine ⟨fun h => (by cases h), h.nonneg, h.le, fun data hd h3 h0 => ?_⟩
  cases hd
  have := h.lt_secLen h3 h0
  rw [SecBuf.secLen] at this
  show s.recv < _
  omega

end SecState

variable {st : SecState} {i : Input}

theorem pidFilterData_skip (h : i.pkt.payload = none ∨ i.secFilters = [] ∨ i.pkt.scramble ≠ 0) :
    pidFilterData st i = .ok (st, []) := by
  rw [pidFilterData]
  split
  · rfl
  · next p hp => exact if_pos (h.resolve_left (by simp [hp]))

/-- `pid_filter_data` does not fault, and receives the payload of the packet. -/
theorem pidFilterData_spec (h : st.Inv) {p : List UInt8} (hp : i.pkt.payload = some p)
    (hf : i.secFilters ≠ []) (hs : i.pkt.scramble = 0) :
    ∃ st' calls secs, pidFilterData st i = .ok (st', calls) ∧ st'.Inv ∧
      Receives st.sent i.pkt.payloadStart p st'.sent secs ∧ Delivers i.secFilters calls secs := by
  obtain ⟨s', calls, secs, hs', hinv, hrec, hdel⟩ :=
    @payloadData_spec i.secFilters _ (h.buf i.malloc) i.pkt.payloadStart p
  rw [h.sent_buf] at hrec
  refine ⟨⟨some s'.data, s'.recv⟩, calls, secs, ?_, SecState.inv_some hinv, hrec, hdel⟩
  rw [pidFilterData, hp]
  refine (if_neg (not_or.2 ⟨hf, not_not.2 hs⟩)).trans ?_
  rw [hs']
  rfl

/-- `pid_filter_data` keeps the invariant. -/
theorem pidFilterData_inv (h : st.Inv) (i : Input) :
    ∃ st' calls, pidFilterData st i = .ok (st', calls) ∧ st'.Inv := by
  by_cases hskip : i.pkt.payload = none ∨ i.secFilters = [] ∨ i.pkt.scramble ≠ 0
  · exact ⟨st, [], pidFilterData_skip hskip, h⟩
  push Not at hskip
  obtain ⟨hp, hf, hs⟩ := hskip
  obtain ⟨p, hp⟩ := Option.ne_none_iff_exists'.1 hp
  obtain ⟨st', calls, -, hst', hinv, -⟩ := pidFilterData_spec h hp hf hs
  exact ⟨st', calls, hst', hinv⟩

theorem pidFilterRun_inv (h : st.Inv) (is : List Input) :
    ∃ st' calls, pidFilterRun st is = .ok (st', calls) ∧ st'.Inv := by
  induction is generalizing st with
  | nil => exact ⟨st, [], rfl, h⟩
  | cons i is ih =>
    obtain ⟨st₁, calls₁, hst₁, hinv₁⟩ := pidFilterData_inv h i
    obtain ⟨st', calls, hst', hinv⟩ := ih hinv₁
    refine ⟨st', calls₁ ++ calls, ?_, hinv⟩
    rw [pidFilterRun, hst₁]
    show (pidFilterRun st₁ is).map _ = _
    rw [hst']
    rfl

/-! ## The calls of `sec_data` -/

/-- The loop of `pid_filter_data`, entered in `s` with the bytes `p`, calls
    `sec_data` in `s'` on the bytes `p'`. -/
inductive LoopCall (filters : List (Ptr × SecFilter)) :
    SecBuf → List UInt8 → SecBuf → List UInt8 → Prop
  | here {s : SecBuf} {p : List UInt8} (hp : p ≠ []) : LoopCall filters s p s p
  | next {s s₁ s' : SecBuf} {p p' : List UInt8} {calls : List SecCall} {n : ℤ} (hp : p ≠ [])
      (h : secData filters s p = .ok (s₁, calls, n))
      (h' : LoopCall filters s₁ (p.drop n.toNat) s' p') : LoopCall filters s p s' p'

/-- `pid_filter_data`, in `st`, calls `sec_data` in `s` on the bytes `p`. -/
inductive SecDataCall (st : SecState) (i : Input) : SecBuf → List UInt8 → Prop
  | pointer {b : UInt8} {p : List UInt8} (hp : i.pkt.payload = some (b :: p))
      (hstart : i.pkt.payloadStart = true) (h0 : b.toNat ≠ 0) (hle : b.toNat ≤ p.length)
      (hr : st.secRecv ≠ 0) : SecDataCall st i (st.buf i.malloc) (p.take b.toNat)
  | start {p p₁ p' : List UInt8} {s₁ s' : SecBuf} {calls : List SecCall}
      (hp : i.pkt.payload = some p) (hstart : i.pkt.payloadStart = true)
      (h : pointerField i.secFilters (st.buf i.malloc) p = .ok (some (s₁, calls, p₁)))
      (h' : LoopCall i.secFilters s₁ p₁ s' p') : SecDataCall st i s' p'
  | loop {p p' : List UInt8} {s' : SecBuf} (hp : i.pkt.payload = some p)
      (hstart : i.pkt.payloadStart = false)
      (h : LoopCall i.secFilters (st.buf i.malloc) p s' p') : SecDataCall st i s' p'

/-- A call of `sec_data` on at least one byte uses at least one byte, and no more
    than there are. -/
def Progress (filters : List (Ptr × SecFilter)) (s : SecBuf) (p : List UInt8) : Prop :=
  ∃ s' calls n, secData filters s p = .ok (s', calls, n) ∧ 1 ≤ n ∧ n ≤ p.length

theorem SecBuf.Inv.progress (h : s.Inv) {p : List UInt8} (hp : p ≠ []) : Progress filters s p := by
  obtain ⟨s', calls, hs', -⟩ := secData_spec filters h p
  have := (absorb_rest h hp).1
  exact ⟨s', calls, _, hs', by omega, by omega⟩

theorem LoopCall.progress {s' : SecBuf} {p p' : List UInt8} (h : LoopCall filters s p s' p')
    (hinv : s.Inv) : Progress filters s' p' := by
  induction h with
  | here hp => exact hinv.progress hp
  | @next s s₁ s' p p' calls n hp h _ ih =>
    obtain ⟨s₂, calls₂, hs₂, hinv₂, -⟩ := secData_spec filters hinv p
    rw [hs₂, Except.ok.injEq, Prod.mk.injEq] at h
    exact ih (h.1 ▸ hinv₂)

/-- The pointer field leaves no section in progress. -/
theorem pointerField_recv {s₁ : SecBuf} {calls : List SecCall} {p p₁ : List UInt8}
    (h : pointerField filters s p = .ok (some (s₁, calls, p₁))) : s₁.recv = 0 := by
  cases p with
  | nil => cases h; rfl
  | cons b p =>
    simp only [pointerField] at h
    split_ifs at h
    · cases h; rfl
    · cases h
    · cases h; rfl
    · cases hd : secData filters s (p.take b.toNat) with
      | error e => rw [hd] at h; cases h
      | ok r => rw [hd] at h; cases h; rfl

theorem SecDataCall.progress {p : List UInt8} (h : SecDataCall st i s p) (hinv : st.Inv) :
    Progress i.secFilters s p := by
  cases h with
  | @pointer b p hp hstart h0 hle hr =>
    refine (hinv.buf i.malloc).progress (ne_nil_of_length_pos ?_)
    rw [length_take]
    omega
  | @start p p₁ p' s₁ s' calls hp hstart h h' =>
    refine h'.progress ?_
    obtain ⟨data, recv⟩ := s₁
    obtain rfl : recv = 0 := pointerField_recv h
    exact SecBuf.inv_of_recv_zero data
  | loop hp hstart h => exact h.progress (hinv.buf i.malloc)

/-- Whatever packets are fed to a fresh PID filter, it does not fault: every copy
    is inside the buffer, with a length that is not negative, and every loop
    ends. The invariant holds after them, and every call of `sec_data` by the next
    packet makes progress. -/
theorem run_bounds (is : List Input) :
    ∃ st calls, pidFilterRun .fresh is = .ok (st, calls) ∧ st.Inv ∧
      ∀ i s p, SecDataCall st i s p → Progress i.secFilters s p := by
  obtain ⟨st, calls, hst, hinv⟩ := pidFilterRun_inv SecState.inv_fresh is
  exact ⟨st, calls, hst, hinv, fun i s p h => h.progress hinv⟩

end CommonDrivers.Dvb.SwDemux
