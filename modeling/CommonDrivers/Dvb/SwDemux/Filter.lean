import CommonDrivers.Dvb.SwDemux.TsParser

/-!
# Filters

A filter is registered on a PID, as a *TS filter*, which gets the packets of the
PID, or as a *section filter*, which gets the sections carried by them
(`swdemux_internal.h`). Both have the same life: allocated, then given
parameters, then running.

A section filter also has a match test, on the first bytes of a section, and may
ask for the CRC of the section to be checked. The 16 bytes of its parameters are
spread over the 18 first bytes of a section, skipping the two length bytes, but
the test (`sec_filter_match`) only looks at the first 16 of them.

* `secFilterMatch_iff`: what the test means, bit masks and accumulators aside;
* `Accepts`, `Rejects`: the bytes of a section alone decide the test. A section
  shorter than the window of the test decides it only if the masks are clear on
  what is missing, as the test then looks at what the buffer held before.
-/

namespace CommonDrivers.Dvb.SwDemux

/-! ## CRC -/

/-- The inner loop of `crc32_table_init`, while `j ≠ 0x80000000`. -/
def crc32Entry : ℕ → UInt32 → UInt32 → UInt32
  | 0, _, k => k
  | fuel + 1, j, k =>
    if j = 0x80000000 then k
    else crc32Entry fuel (j <<< 1)
      ((k <<< 1) ^^^ (if (k ^^^ j) &&& 0x80000000 ≠ 0 then 0x04c11db7 else 0))

/-- `crc32_table_init`: the table of the CRC. The marker bit `0x800000` is shifted
    out after eight steps, which bounds the inner loop. -/
def crc32Table : List UInt32 :=
  (List.range 256).map fun i => crc32Entry 9 ((UInt32.ofNat i <<< 24) ||| 0x800000) 0

/-- `swdmx_crc32`. -/
def swdmxCrc32 (p : List UInt8) : UInt32 :=
  p.foldl (fun crc b => (crc <<< 8) ^^^ crc32Table.getD ((crc >>> 24) ^^^ b.toUInt32).toNat 0)
    0xffffffff

/-! ## Filters -/

/-- The address of an object. -/
abbrev Ptr := ℕ

/-- The two kinds of filters. -/
inductive Kind
  | ts
  | sec
  deriving DecidableEq, Repr

/-- `enum swdmx_filter_state`. -/
inductive FilterState
  | init
  | set
  | run
  deriving DecidableEq, Repr

/-- `struct swdmx_tsfilter_params`. -/
structure TsFilterParams where
  pid : UInt16
  deriving DecidableEq

/-- `struct swdmx_secfilter_params`. -/
structure SecFilterParams where
  pid : UInt16
  crc32 : UInt8
  value : Fin 16 → UInt8
  mask : Fin 16 → UInt8
  mode : Fin 16 → UInt8
  deriving DecidableEq

/-- The arrays `value`, `mam` (mask and mode) and `manm` (mask and not mode) of a
    section filter. -/
structure SecArrays where
  value : Fin 18 → UInt8
  mam : Fin 18 → UInt8
  manm : Fin 18 → UInt8
  deriving DecidableEq

/-- The parameters of a kind of filter. -/
abbrev Params : Kind → Type
  | .ts => TsFilterParams
  | .sec => SecFilterParams

/-- The PID a filter is given in its parameters. -/
def Params.pid : {k : Kind} → Params k → UInt16
  | .ts => TsFilterParams.pid
  | .sec => SecFilterParams.pid

/-- The arrays a kind of filter computes from its parameters. -/
abbrev Arrays : Kind → Type
  | .ts => Unit
  | .sec => SecArrays

/-- Spread 16 bytes over 18, as the loop of `swdmx_sec_filter_set_params`: the
    byte `i` goes to `i ? i + 2 : i`, and the length bytes 1 and 2 are cleared. -/
def spread (a : Fin 16 → UInt8) (j : Fin 18) : UInt8 :=
  if j.val = 0 then a 0 else if h : j.val < 3 then 0 else a ⟨j - 2, by omega⟩

/-- The arrays `swdmx_sec_filter_set_params` computes; its `mode` is the
    complement of the parameter. -/
def SecFilterParams.arrays (p : SecFilterParams) : SecArrays where
  value := spread p.value
  mam := spread fun i => p.mask i &&& ~~~p.mode i
  manm := spread fun i => p.mask i &&& ~~~(~~~p.mode i)

/-- The arrays computed when the parameters are set. -/
def Params.arrays : {k : Kind} → Params k → Arrays k
  | .ts => fun _ => ()
  | .sec => SecFilterParams.arrays

/-- A filter (`struct swdmx_tsfilter`, `struct swdmx_secfilter`). -/
structure Filter (k : Kind) where
  /-- The PID filter it is registered in, when it runs. -/
  pidFilter : Option Ptr
  state : FilterState
  params : Params k
  arrays : Arrays k
  cbList : List CbEntry

/-- `struct swdmx_tsfilter`. -/
abbrev TsFilter := Filter .ts

/-- `struct swdmx_secfilter`. -/
abbrev SecFilter := Filter .sec

/-! ## The match test -/

/-- The buffer a section is received in: `4096 + 3` bytes. -/
abbrev SecBlock := Block UInt8 4099

/-- The bits under `mask` on which a byte differs from `value`. -/
def diff (mask value d : UInt8) : UInt8 := (d &&& mask) ^^^ (value &&& mask)

@[simp]
theorem diff_zero (v d : UInt8) : diff 0 v d = 0 := by simp [diff]

@[simp]
theorem diff_self (m v : UInt8) : diff m v v = 0 := by simp [diff]

/-- Flipping the bits of the mask in the value makes all of them differ. -/
theorem diff_flip (m v : UInt8) : diff m v (v ^^^ m) = m := by
  apply UInt8.eq_of_toBitVec_eq
  ext i
  simp only [diff, UInt8.toBitVec_xor, UInt8.toBitVec_and, BitVec.getElem_xor, BitVec.getElem_and]
  cases v.toBitVec[i] <;> cases m.toBitVec[i] <;> rfl

/-- Flipping bits outside the mask makes none differ. -/
theorem diff_flip_of_disjoint {m m' : UInt8} (v : UInt8) (h : m &&& m' = 0) :
    diff m v (v ^^^ m') = 0 := by
  apply UInt8.eq_of_toBitVec_eq
  ext i hi
  have hi' := congrArg (fun x : UInt8 => x.toBitVec[i]) h
  simp only [UInt8.toBitVec_and, BitVec.getElem_and] at hi'
  simp only [diff, UInt8.toBitVec_xor, UInt8.toBitVec_and, BitVec.getElem_xor, BitVec.getElem_and]
  cases hv : v.toBitVec[i] <;> cases hm : m.toBitVec[i] <;> cases hm' : m'.toBitVec[i] <;> simp_all

/-- A bit is tested for being equal or for being different, not both. -/
theorem SecFilterParams.arrays_disjoint (p : SecFilterParams) (j : Fin 18) :
    p.arrays.mam j &&& p.arrays.manm j = 0 := by
  have h (a b : UInt8) : (a &&& ~~~b) &&& (a &&& ~~~(~~~b)) = 0 := by
    rw [UInt8.not_not, UInt8.and_comm a b, UInt8.and_assoc, ← UInt8.and_assoc (~~~b),
      UInt8.not_and_self, UInt8.zero_and, UInt8.and_zero]
  simp only [SecFilterParams.arrays, spread]
  split
  · exact h _ _
  · split
    · rfl
    · exact h _ _

/-- The entry of an 18-entry array that is tested against the byte `i`. -/
def entry (i : Fin 16) : Fin 18 := i.castLE (by omega)

/-- The bits under `mam` on which the byte `d` at `i` differs from the value. -/
def SecArrays.mamDiff (a : SecArrays) (i : Fin 16) (d : UInt8) : UInt8 :=
  diff (a.mam (entry i)) (a.value (entry i)) d

/-- The bits under `manm` on which the byte `d` at `i` differs from the value. -/
def SecArrays.manmDiff (a : SecArrays) (i : Fin 16) (d : UInt8) : UInt8 :=
  diff (a.manm (entry i)) (a.value (entry i)) d

/-- The accumulators of `sec_filter_match`. -/
structure MatchAcc where
  m : UInt8
  n : UInt8
  hasN : UInt8

/-- The body of the loop of `sec_filter_match`. -/
def matchStep (data : SecBlock) (a : SecArrays) (acc : MatchAcc) (i : Fin 16) : MatchAcc :=
  let d := data.get (i.castLE (by omega))
  { m := acc.m ||| a.mamDiff i d
    n := acc.n ||| a.manmDiff i d
    hasN := acc.hasN ||| a.manm (entry i) }

/-- `sec_filter_match`, on the first 16 bytes of the buffer. -/
def secFilterMatch (data : SecBlock) (a : SecArrays) : Bool :=
  let acc := (List.finRange 16).foldl (matchStep data a) ⟨0, 0, 0⟩
  if acc.m ≠ 0 then false
  else if acc.hasN ≠ 0 ∧ acc.n = 0 then false
  else true

/-- The byte of the buffer that is tested at `i`. -/
def window (data : SecBlock) (i : Fin 16) : UInt8 := data.get (i.castLE (by omega))

/-- The accumulators are clear exactly when every byte adds nothing to them. -/
theorem foldl_matchStep {data : SecBlock} {a : SecArrays} (l : List (Fin 16)) (acc : MatchAcc) :
    ((l.foldl (matchStep data a) acc).m = 0 ↔
        acc.m = 0 ∧ ∀ i ∈ l, a.mamDiff i (window data i) = 0) ∧
      ((l.foldl (matchStep data a) acc).n = 0 ↔
        acc.n = 0 ∧ ∀ i ∈ l, a.manmDiff i (window data i) = 0) ∧
      ((l.foldl (matchStep data a) acc).hasN = 0 ↔
        acc.hasN = 0 ∧ ∀ i ∈ l, a.manm (entry i) = 0) := by
  induction l generalizing acc with
  | nil => simp
  | cons i l ih =>
    simp only [List.foldl_cons, ih, matchStep, window, UInt8.or_eq_zero_iff, List.forall_mem_cons,
      and_assoc, and_self]

/-- The test passes when no byte differs from the value under `mam`, and, if
    `manm` is not clear, some byte differs under `manm`. -/
theorem secFilterMatch_iff {data : SecBlock} {a : SecArrays} :
    secFilterMatch data a = true ↔ (∀ i, a.mamDiff i (window data i) = 0) ∧
      ((∀ i, a.manm (entry i) = 0) ∨ ∃ i, a.manmDiff i (window data i) ≠ 0) := by
  obtain ⟨hm, hn, hh⟩ := @foldl_matchStep data a (List.finRange 16) ⟨0, 0, 0⟩
  simp only [List.mem_finRange, true_implies, true_and] at hm hn hh
  rw [secFilterMatch, ← hm, ← hh, ← not_forall, ← hn]
  split <;> simp_all [or_iff_not_imp_left]

/-! ### Sections that decide the test -/

/-- The bytes of the section `sec` alone make the test pass, whatever the buffer
    holds after them. -/
def Accepts (a : SecArrays) (sec : List UInt8) : Prop :=
  (∀ i : Fin 16, ∀ h : i < sec.length, a.mamDiff i (sec.get ⟨i, h⟩) = 0) ∧
    (∀ i : Fin 16, sec.length ≤ i → a.mam (entry i) = 0) ∧ ((∀ i, a.manm (entry i) = 0) ∨
      ∃ i : Fin 16, ∃ h : i < sec.length, a.manmDiff i (sec.get ⟨i, h⟩) ≠ 0)

/-- The bytes of the section `sec` alone make the test fail, whatever the buffer
    holds after them. -/
def Rejects (a : SecArrays) (sec : List UInt8) : Prop :=
  (∃ i : Fin 16, ∃ h : i < sec.length, a.mamDiff i (sec.get ⟨i, h⟩) ≠ 0) ∨
    ((∃ i, a.manm (entry i) ≠ 0) ∧
      (∀ i : Fin 16, ∀ h : i < sec.length, a.manmDiff i (sec.get ⟨i, h⟩) = 0) ∧
      ∀ i : Fin 16, sec.length ≤ i → a.manm (entry i) = 0)

variable {a : SecArrays} {sec : List UInt8} {data : SecBlock}

theorem window_eq (h : data.take sec.length = sec) {i : Fin 16} (hi : i < sec.length) :
    window data i = sec.get ⟨i, hi⟩ := by
  rw [window, data.get_eq_getElem_take _ (by simpa using hi)]
  simp [h]

theorem Accepts.secFilterMatch (ha : Accepts a sec) (h : data.take sec.length = sec) :
    secFilterMatch data a = true := by
  obtain ⟨hin, hout, hneg⟩ := ha
  refine secFilterMatch_iff.2 ⟨fun i => ?_, hneg.imp id fun ⟨i, hi, hd⟩ => ⟨i, ?_⟩⟩
  · by_cases hi : i < sec.length
    · rw [window_eq h hi]
      exact hin i hi
    · rw [SecArrays.mamDiff, hout i (by omega), diff_zero]
  · rwa [window_eq h hi]

theorem Rejects.secFilterMatch (hr : Rejects a sec) (h : data.take sec.length = sec) :
    secFilterMatch data a = false := by
  rw [← Bool.not_eq_true, secFilterMatch_iff]
  rintro ⟨hm, hn⟩
  obtain ⟨i, hi, hd⟩ | ⟨⟨j, hj⟩, hin, hout⟩ := hr
  · exact hd (window_eq h hi ▸ hm i)
  obtain hz | ⟨i, hd⟩ := hn
  · exact hj (hz j)
  · by_cases hi : i < sec.length
    · exact hd (window_eq h hi ▸ hin i hi)
    · exact hd (by rw [SecArrays.manmDiff, hout i (by omega), diff_zero])

/-- The buffer holding the section `sec` and then, up to the end of the window, `t`. -/
def afterSec (sec : List UInt8) (t : Fin 16 → UInt8) : SecBlock := .ofFn fun j =>
    if h : j < sec.length then sec.get ⟨j, h⟩ else if h : j.val < 16 then t ⟨j, h⟩ else 0

theorem take_afterSec (t : Fin 16 → UInt8) (h : sec.length ≤ 4099) :
    (afterSec sec t).take sec.length = sec := Block.take_ofFn h fun i => by simp

theorem window_afterSec (t : Fin 16 → UInt8) {i : Fin 16} (hi : sec.length ≤ i) :
    window (afterSec sec t) i = t i := by
  simp [window, afterSec, not_lt.2 hi]

/-- A section that does not make the test fail by itself passes it after some
    contents of the buffer: those equal to the value under `mam` and different
    from it under `manm`. -/
theorem exists_match_of_not_rejects (hd : ∀ j, a.mam j &&& a.manm j = 0)
    (hlen : sec.length ≤ 4099) (hr : ¬Rejects a sec) :
    ∃ data : SecBlock, data.take sec.length = sec ∧ SwDemux.secFilterMatch data a = true := by
  have h := take_afterSec (fun i => a.value (entry i) ^^^ a.manm (entry i)) hlen
  refine ⟨_, h, secFilterMatch_iff.2 ⟨fun i => ?_, ?_⟩⟩
  · by_cases hi : i < sec.length
    · rw [window_eq h hi]
      by_contra hne
      exact hr (.inl ⟨i, hi, hne⟩)
    · rw [window_afterSec _ (not_lt.1 hi)]
      exact diff_flip_of_disjoint _ (hd _)
  by_contra hne
  push Not at hne
  obtain ⟨hj, hn⟩ := hne
  refine hr (.inr ⟨hj, fun i hi => ?_, fun i hi => ?_⟩)
  · rw [← window_eq h hi]
    exact hn i
  · have := hn i
    rwa [window_afterSec _ hi, SecArrays.manmDiff, diff_flip] at this

/-- A section that does not make the test pass by itself fails it after some
    contents of the buffer: those that differ from the value under `mam`, or, if
    `mam` is clear there, those equal to it. -/
theorem exists_not_match_of_not_accepts (hlen : sec.length ≤ 4099) (ha : ¬Accepts a sec) :
    ∃ data : SecBlock, data.take sec.length = sec ∧ SwDemux.secFilterMatch data a = false := by
  by_cases hm : ∀ i : Fin 16, sec.length ≤ i → a.mam (entry i) = 0
  · have h := take_afterSec (fun i => a.value (entry i)) hlen
    refine ⟨_, h, ?_⟩
    rw [← Bool.not_eq_true, secFilterMatch_iff]
    rintro ⟨hmam, hn⟩
    refine ha ⟨fun i hi => window_eq h hi ▸ hmam i, hm, hn.imp id fun ⟨i, hd⟩ => ?_⟩
    by_cases hi : i < sec.length
    · exact ⟨i, hi, window_eq h hi ▸ hd⟩
    · rw [window_afterSec _ (not_lt.1 hi), SecArrays.manmDiff, diff_self] at hd
      exact absurd rfl hd
  · push Not at hm
    obtain ⟨i, hi, hne⟩ := hm
    have h := take_afterSec (fun i => a.value (entry i) ^^^ a.mam (entry i)) hlen
    refine ⟨_, h, ?_⟩
    rw [← Bool.not_eq_true, secFilterMatch_iff]
    rintro ⟨hmam, -⟩
    have := hmam i
    rw [window_afterSec _ hi, SecArrays.mamDiff, diff_flip] at this
    exact hne this

end CommonDrivers.Dvb.SwDemux
