import CommonDrivers.Media.FrameSync.PtsServ

/-!
# The lists of the PTS server

In every run in which each start of a table finds a number of records that fills at least one page
(`tables_sound`):

* the valid and the free records are the allocated ones, each of them in one list and once;
* a check-in finds a record;
* while the table is started, the cursor is at the head of the valid records or at one of them.

The number of pages is rounded down: with fewer than 102 records (`pageNums_pos`) a table is started
without any, and the next check-in takes the head of the list for a record (`no_records`).
-/

namespace CommonDrivers.FrameSync

open List Option

variable {type : PtsType} {t t' : PtsTable} {r p p2 : ℕ} {next : List ℕ}

/-- The table takes calls. -/
def PtsTable.Started (t : PtsTable) : Prop := t.status = .running ∨ t.status = .loading

/-- The cursor can be followed. -/
def PtsTable.CursorValid (t : PtsTable) : Prop :=
  t.ptsSearch = .head ∨ ∃ r ∈ t.validList, t.ptsSearch = .node r

/-- The invariant of a table. The cursor of the audio table stays at the head, since a lookup frees
    all records before the one it finds. -/
structure PtsTable.Inv (type : PtsType) (t : PtsTable) : Prop where
  perm : (t.validList ++ t.freeList).Perm (List.range t.recCount)
  pos : t.Started → 0 < t.recCount
  cursor : t.Started → t.CursorValid
  audio : type = .audio → t.Started → t.ptsSearch = .head
  int : t.recNum < 2 ^ 31

namespace PtsTable

variable {l : List ℕ} {n : ℤ}

/-! ## Moving a record -/

theorem perm_erase_append {l₁ l₂ : List ℕ} (hl : (l₁ ++ l₂).Nodup) (hr : r ∈ l₁ ++ l₂) :
    (l₁.erase r ++ l₂.erase r ++ [r]).Perm (l₁ ++ l₂) := by
  have herase : l₁.erase r ++ l₂.erase r = (l₁ ++ l₂).erase r := by
    rw [erase_append]
    split_ifs with hmem
    · rw [erase_of_not_mem fun h => (disjoint_of_nodup_append hl) hmem h]
    · rw [erase_of_not_mem hmem]
  rw [herase]
  exact (perm_append_singleton r _).trans (perm_cons_erase hr).symm

section

variable (h : (t.validList ++ t.freeList).Perm (List.range t.recCount))
include h

theorem nodup_lists : (t.validList ++ t.freeList).Nodup := h.nodup_iff.2 nodup_range

theorem perm_moveTailFree (hr : r ∈ t.validList ++ t.freeList) :
    ((t.moveTailFree r).validList ++ (t.moveTailFree r).freeList).Perm
      (range (t.moveTailFree r).recCount) := by
  rw [moveTailFree, ← append_assoc]
  exact (perm_erase_append (nodup_lists h) hr).trans h

theorem perm_moveTailValid (hr : r ∈ t.validList ++ t.freeList) :
    ((t.moveTailValid r).validList ++ (t.moveTailValid r).freeList).Perm
      (range (t.moveTailValid r).recCount) := by
  have hswap : (t.validList.erase r ++ [r] ++ t.freeList.erase r).Perm
      (t.validList.erase r ++ t.freeList.erase r ++ [r]) := by
    rw [append_assoc, append_assoc]
    exact perm_append_comm.append_left _
  exact (hswap.trans (perm_erase_append (nodup_lists h) hr)).trans h

end

theorem Inv.lt_iff (h : t.Inv type) : r < t.recCount ↔ r ∈ t.validList ++ t.freeList := by
  rw [h.perm.mem_iff, mem_range]

/-- What a record holds has no part in the invariant. -/
theorem Inv.setRec (h : t.Inv type) (r : ℕ) (x : PtsRec) : (t.setRec r x).Inv type :=
  { h with }

/-! ## Freeing old records -/

theorem status_prune (offset : UInt32) (l : List ℕ) : (prune offset t l).status = t.status := by
  induction l generalizing t with
  | nil => rfl
  | cons r next ih =>
    rw [prune]
    split
    · rw [ih]
      split <;> rfl
    · rfl

theorem Inv.prune (h : t.Inv type) (htype : type ≠ .audio) (offset : UInt32) (l : List ℕ)
    (hl : t.validList = l) : (prune offset t l).Inv type := by
  induction l generalizing t with
  | nil => exact h
  | cons r next ih =>
    rw [FrameSync.prune]
    split
    case isFalse => exact h
    case isTrue =>
      have hr : r ∈ t.validList ++ t.freeList := by
        rw [hl]
        exact mem_append_left _ mem_cons_self
      have hvalid : t.validList.erase r = next := by
        rw [hl, erase_cons_head]
      -- the cursor goes on if it is at the record that is freed
      by_cases hsearch : t.ptsSearch = .node r
      · rw [if_pos hsearch]
        refine ih ⟨perm_moveTailFree h.perm hr, h.pos, fun _ => ?_, fun ha => absurd ha htype,
          h.int⟩ hvalid
        cases next with
        | nil => exact .inl rfl
        | cons q next =>
          refine .inr ⟨q, ?_, rfl⟩
          change q ∈ t.validList.erase r
          rw [hvalid]
          exact mem_cons_self
      · rw [if_neg hsearch]
        refine ih ⟨perm_moveTailFree h.perm hr, h.pos, fun hs => ?_, fun ha => absurd ha htype,
          h.int⟩ hvalid
        refine (h.cursor hs).imp id fun ⟨q, hq, hcursor⟩ => ⟨q, ?_, hcursor⟩
        have hne : q ≠ r := by
          rintro rfl
          exact hsearch hcursor
        exact (mem_erase_of_ne hne).2 hq

/-! ## Searching -/

theorem searchStart_isSome (h : t.CursorValid) (hne : t.validList ≠ []) :
    ∃ p, searchStart t = some p := by
  rw [searchStart]
  rcases h with h | ⟨r, hr, h⟩
  · rw [h]
    exact ⟨_, head?_eq_some_head hne⟩
  · rw [h]
    exact ⟨r, if_pos hr⟩

theorem mem_of_searchStart (h : searchStart t = some p) : p ∈ t.validList := by
  rw [searchStart] at h
  split at h
  · cases h
  · exact mem_of_head? h
  · split at h
    case isTrue hr => exact some.inj h ▸ hr
    case isFalse => cases h

theorem behind_subset : ∀ q ∈ t.behind p, q ∈ t.validList := fun _ hq =>
  (dropWhile_sublist _).subset (mem_of_mem_tail hq)

theorem before_subset : ∀ q ∈ t.before p, q ∈ t.validList := fun _ hq =>
  (takeWhile_sublist _).subset (mem_reverse.1 hq)

/-- Without audio, a search forwards changes nothing. -/
theorem searchForward_of_ne (offset : UInt32) (htype : type ≠ .audio) (hp2 : p2 ∈ t.validList)
    (hnext : ∀ q ∈ next, q ∈ t.validList) :
    ∃ c q, searchForward type offset t p2 next = (t, c, q) ∧ c ∈ t.validList ∧
      ∀ x, q = some x → x ∈ t.validList := by
  induction next generalizing p2 with
  | nil => exact ⟨p2, none, rfl, hp2, fun _ h => by cases h⟩
  | cons p next ih =>
    obtain ⟨hp, hnext⟩ := forall_mem_cons.1 hnext
    rw [searchForward]
    split
    case isTrue => exact ⟨p2, some p, rfl, hp2, fun x hx => some.inj hx ▸ hp⟩
    case isFalse => exact ih hp hnext

/-- The records without those that have another one behind them that is not later than the
    offset. -/
def dropPassed (offsets : ℕ → UInt32) (offset : UInt32) : List ℕ → List ℕ
  | p :: q :: l =>
    if offsetLater (offsets q) offset then p :: q :: l else dropPassed offsets offset (q :: l)
  | l => l

/-- The valid records from the one in front of the offset on. -/
def front (t : PtsTable) (offset : UInt32) : List ℕ :=
  if t.validList.head?.any fun p => offsetLater offset (t.offset p) then
    dropPassed t.offset offset t.validList
  else t.validList

/-- With audio, the candidate stays the first of the valid records, and the search stops at a later
    one. -/
theorem searchForward_audio (offset : UInt32) (h : t.Inv .audio)
    (hvalid : t.validList = p2 :: next) :
    ∃ t' c q rest, searchForward .audio offset t p2 next = (t', c, q) ∧ t'.Inv .audio ∧
      t'.ptsRecs = t.ptsRecs ∧ t'.validList = c :: rest ∧
      dropPassed t.offset offset (p2 :: next) = c :: rest ∧
      ∀ x ∈ rest.head?, offsetLater (t.offset x) offset := by
  induction next generalizing t p2 with
  | nil => exact ⟨t, p2, none, [], rfl, h, rfl, hvalid, rfl, nofun⟩
  | cons p next ih =>
    rw [searchForward, dropPassed]
    split
    case isTrue hlater =>
      exact ⟨t, p2, some p, p :: next, rfl, h, rfl, hvalid, rfl, fun x hx => some.inj hx ▸ hlater⟩
    case isFalse =>
      rw [if_pos rfl]
      have hr : p2 ∈ t.validList ++ t.freeList := by
        rw [hvalid]
        exact mem_append_left _ mem_cons_self
      refine ih ⟨perm_moveTailFree h.perm hr, h.pos, fun hs => .inl (h.audio rfl hs), h.audio,
        h.int⟩ ?_
      rw [moveTailFree, hvalid, erase_cons_head]

theorem behind_head (h : t.validList = p :: l) : t.behind p = l := by
  rw [behind, h, dropWhile_cons_of_neg (by simp), tail_cons]

theorem before_head (h : t.validList = p :: l) : t.before p = [] := by
  rw [before, h, takeWhile_cons_of_neg (by simp), reverse_nil]

theorem offsetDiff_neg_of_later {x y : UInt32} (h : offsetLater x y) : offsetDiff y x < 0 := by
  have hpos : 0 < offsetDiff x y := of_decide_eq_true h
  have hx := x.toNat_lt
  have hy := y.toNat_lt
  rw [offsetDiff, i32, UInt32.toNat_sub] at hpos ⊢
  split at hpos <;> split <;> omega

/-- What a search leaves: a sound table, and a candidate that is in its list. With audio, the
    candidate is the first of the list, which goes on from there; and if it is before the offset,
    the next one is ahead. -/
structure Searched (type : PtsType) (offset : UInt32) (t t' : PtsTable) (p2 : Option ℕ) : Prop where
  inv : t'.Inv type
  mem : ∀ c, p2 = some c → c ∈ t'.validList
  recs : type = .audio → t'.ptsRecs = t.ptsRecs
  first : type = .audio → ∀ c, p2 = some c → ∃ rest, t'.validList = c :: rest ∧
    t.front offset = c :: rest ∧ (0 < offsetDiff offset (t.offset c) →
      ∀ x ∈ rest.head?, offsetDiff offset (t.offset x) < 0)

theorem Inv.search_of_ne (h : t.Inv type) (htype : type ≠ .audio) (hp : p ∈ t.validList)
    (offset : UInt32) (thr : ℤ) :
    Searched type offset t (search type offset thr t p).1 (search type offset thr t p).2.1 := by
  rw [search]
  split_ifs
  · obtain ⟨c, q, hforward, hc, hq⟩ := searchForward_of_ne offset htype hp (behind_subset (p := p))
    rw [hforward]
    refine ⟨h, fun x hx => ?_, fun ha => absurd ha htype, fun ha => absurd ha htype⟩
    cases hx
    dsimp only
    cases q with
    | none => exact hc
    | some q =>
      rw [nearer]
      split
      · exact hq q rfl
      · exact hc
  · exact ⟨h, fun x hx => before_subset x (mem_of_find?_eq_some hx),
      fun ha => absurd ha htype, fun ha => absurd ha htype⟩
  · exact ⟨h, fun x hx => some.inj hx ▸ hp, fun ha => absurd ha htype, fun ha => absurd ha htype⟩

theorem Inv.search_audio (h : t.Inv .audio) (hvalid : t.validList = p :: l) (offset : UInt32)
    (thr : ℤ) : Searched .audio offset t (search .audio offset thr t p).1
      (search .audio offset thr t p).2.1 := by
  rw [search]
  split_ifs with hforward
  · rw [behind_head hvalid]
    obtain ⟨t', c, q, rest, heq, hinv, hrecs, hrest, hdrop, hlater⟩ :=
      searchForward_audio offset h hvalid
    rw [heq]
    dsimp only
    have hnear : nearer .audio offset thr t' c q = c := by
      cases q with
      | none => rfl
      | some q => simp [nearer]
    rw [hnear]
    refine ⟨hinv, fun x hx => some.inj hx ▸ hrest ▸ mem_cons_self, fun _ => hrecs, fun _ x hx => ?_⟩
    obtain rfl := some.inj hx
    refine ⟨rest, hrest, ?_, fun _ y hy => offsetDiff_neg_of_later (hlater y hy)⟩
    rw [front, hvalid, head?_cons, Option.any_some, if_pos hforward, hdrop]
  · rw [before_head hvalid]
    exact ⟨h, nofun, fun _ => rfl, fun _ => nofun⟩
  · refine ⟨h, fun x hx => some.inj hx ▸ hvalid ▸ mem_cons_self, fun _ => rfl, fun _ x hx => ?_⟩
    cases hx
    refine ⟨l, hvalid, ?_, fun hpos => absurd (decide_eq_true hpos) hforward⟩
    rw [front, hvalid, head?_cons, Option.any_some, if_neg hforward]

theorem Inv.search (h : t.Inv type) (hs : t.Started) (hp : searchStart t = some p)
    (offset : UInt32) (thr : ℤ) :
    Searched type offset t (search type offset thr t p).1 (search type offset thr t p).2.1 := by
  by_cases htype : type = .audio
  · subst htype
    rw [searchStart, h.audio rfl hs] at hp
    obtain ⟨l, hl⟩ := head?_eq_some_iff.1 hp
    exact h.search_audio hl offset thr
  · exact h.search_of_ne htype (mem_of_searchStart hp) offset thr

/-! ## Looking up -/

/-- The entry before a record is the head, or another record of the list. -/
theorem prev_spec (r : ℕ) : t.prev r = .head ∨ ∃ q ∈ t.validList, q ≠ r ∧ t.prev r = .node q := by
  rw [prev]
  split
  case h_1 => exact .inl rfl
  case h_2 q hq =>
    have hmem := mem_of_getLast? hq
    refine .inr ⟨q, (takeWhile_sublist _).subset hmem, ?_, rfl⟩
    simpa using mem_takeWhile_imp hmem

theorem prev_head (h : t.validList = r :: l) : t.prev r = .head := by
  rw [prev, h, takeWhile_cons_of_neg (by simp)]
  rfl

/-- What a check-in notes down about the first one and the one before. -/
theorem noted_eq (type : PtsType) (t : PtsTable) (offset val : UInt32) (us64 : UInt64) :
    ∃ a b recs, sizePrev (setFirstCheckin type t val us64) offset =
      { t with firstCheckinPts := a, firstCheckinPtsUs64 := b, ptsRecs := recs } := by
  have hfirst : ∃ a b, setFirstCheckin type t val us64 =
      { t with firstCheckinPts := a, firstCheckinPtsUs64 := b } := by
    rw [setFirstCheckin]
    split <;> exact ⟨_, _, rfl⟩
  obtain ⟨a, b, hfirst⟩ := hfirst
  rw [hfirst, sizePrev]
  split
  · exact ⟨a, b, _, rfl⟩
  dsimp only
  split <;> exact ⟨a, b, _, rfl⟩

section

variable (h : t.Inv type)
include h

theorem Inv.checkout (hp2 : p2 ∈ t.validList)
    (hfirst : type = .audio → ∃ rest, t.validList = p2 :: rest) (offset val : UInt32)
    (us64 : Option UInt64) : (checkout t offset p2 val us64).Inv type where
  perm := perm_moveTailFree h.perm (mem_append_left _ hp2)
  pos := h.pos
  cursor _ := by
    refine (prev_spec p2).imp id fun ⟨q, hq, hne, hprev⟩ => ⟨q, ?_, hprev⟩
    exact (mem_erase_of_ne hne).2 hq
  audio ha _ := by
    obtain ⟨rest, hrest⟩ := hfirst ha
    exact prev_head hrest
  int := h.int

theorem Inv.lookupFailed (frameSize : Option UInt32) : (lookupFailed t frameSize).1.Inv type := by
  rw [FrameSync.lookupFailed]
  split
  · exact h
  · exact { h with }

theorem Inv.lookupCandidate (hp2 : p2 ∈ t.validList)
    (hfirst : type = .audio → ∃ rest, t.validList = p2 :: rest) (offset : UInt32) (thr : ℤ)
    (frameSize : Option UInt32) : (lookupCandidate type t offset thr frameSize p2).1.Inv type := by
  rw [FrameSync.lookupCandidate]
  split
  case isTrue =>
    exact (h.setRec p2 _).checkout hp2 hfirst offset _ _
  case isFalse =>
    split
    · exact h.lookupFailed frameSize
    dsimp only
    split_ifs
    · exact h.lookupFailed frameSize
    · exact h.checkout hp2 hfirst offset _ _
    · exact h

/-- Freeing the old records of video, before the search. -/
theorem Inv.pruned (hs : t.Started) (offset : UInt32) :
    (if type = .video then FrameSync.prune offset t t.validList else t).Inv type ∧
      (if type = .video then FrameSync.prune offset t t.validList else t).Started := by
  split
  case isTrue hv =>
    rw [Started, status_prune]
    exact ⟨h.prune (by rw [hv]; decide) offset _ rfl, hs⟩
  case isFalse => exact ⟨h, hs⟩

theorem Inv.ptsLookup (offset ptsMargin : UInt32) :
    ∃ r, ptsLookupOffsetInlineLocked type t offset ptsMargin = some r ∧ r.1.Inv type := by
  rw [ptsLookupOffsetInlineLocked]
  dsimp only
  split
  case isTrue => exact ⟨_, rfl, h⟩
  rename_i hrunning
  split
  case isTrue => exact ⟨_, rfl, h⟩
  have hpruned := h.pruned (.inl (not_not.1 hrunning)) offset
  generalize (if type = .video then FrameSync.prune offset t t.validList else t) = t₁ at hpruned ⊢
  obtain ⟨h₁, hs₁⟩ := hpruned
  split
  case isTrue => exact ⟨_, rfl, h₁⟩
  case isFalse hne =>
    obtain ⟨p, hstart⟩ := searchStart_isSome (h₁.cursor hs₁) hne
    rw [hstart]
    dsimp only
    have hsearched := h₁.search hs₁ hstart offset (threshold t ptsMargin)
    split
    case h_1 => exact ⟨_, rfl, hsearched.inv.lookupFailed _⟩
    case h_2 p2 hp2 =>
      exact ⟨_, rfl, hsearched.inv.lookupCandidate (hsearched.mem p2 hp2)
        (fun ha => (hsearched.first ha p2 hp2).imp fun _ => And.left) offset _ _⟩

theorem Inv.ptsPick (offset ptsMargin : UInt32) :
    ∃ r, ptsPickByOffsetInlineLocked type t offset ptsMargin = some r ∧ r.1.Inv type := by
  rw [ptsPickByOffsetInlineLocked]
  dsimp only
  split
  case isTrue => exact ⟨_, rfl, h⟩
  rename_i hrunning
  split
  case isTrue => exact ⟨_, rfl, h⟩
  have hpruned := h.pruned (.inl (not_not.1 hrunning)) offset
  generalize (if type = .video then FrameSync.prune offset t t.validList else t) = t₁ at hpruned ⊢
  obtain ⟨h₁, hs₁⟩ := hpruned
  split
  case isTrue => exact ⟨_, rfl, h₁⟩
  case isFalse hne =>
    obtain ⟨p, hstart⟩ := searchStart_isSome (h₁.cursor hs₁) hne
    rw [hstart]
    dsimp only
    split
    · exact ⟨_, rfl, h₁⟩
    · split <;> exact ⟨_, rfl, h₁⟩

/-! ## Checking in -/

/-- A started table has a record for a check-in. -/
theorem Inv.checkinRec (hs : t.Started) : ∃ r < t.recCount, checkinRec t = some r := by
  rw [FrameSync.checkinRec]
  split
  case h_1 r rest hfree =>
    refine ⟨r, h.lt_iff.2 ?_, rfl⟩
    rw [hfree]
    exact mem_append_right _ mem_cons_self
  case h_2 hfree =>
    have hne : t.validList ≠ [] := by
      intro hvalid
      have hlen := h.perm.length_eq
      rw [hvalid, hfree, length_range] at hlen
      exact (h.pos hs).ne hlen
    refine ⟨t.validList.head hne, h.lt_iff.2 ?_, head?_eq_some_head hne⟩
    exact mem_append_left _ (head_mem hne)

/-- The record of a check-in becomes the last of the valid ones; the cursor stays where it is. -/
theorem Inv.moveTailValid (hr : r < t.recCount) : (t.moveTailValid r).Inv type :=
  { h with
    perm := perm_moveTailValid h.perm (h.lt_iff.1 hr)
    cursor hs := by
      refine (h.cursor hs).imp id fun ⟨q, hq, hcursor⟩ => ⟨q, ?_, hcursor⟩
      by_cases hqr : q = r
      · rw [hqr]
        exact mem_append_right _ (mem_singleton_self r)
      · exact mem_append_left _ ((mem_erase_of_ne hqr).2 hq) }

theorem Inv.ptsCheckin (offset val : UInt32) :
    ∃ r, ptsCheckinOffset type t offset val = some r ∧ r.1.Inv type := by
  rw [ptsCheckinOffset, ptsCheckinOffsetInline]
  split
  case isFalse => exact ⟨_, rfl, h⟩
  case isTrue hs =>
    obtain ⟨r, hr, hrec⟩ := h.checkinRec hs
    rw [hrec]
    obtain ⟨a, b, recs, hnoted⟩ := noted_eq type t offset val (val.toUInt64 * 100 / 9)
    rw [hnoted]
    have h₁ := h.moveTailValid hr
    exact ⟨_, rfl, h₁.perm, fun _ => h₁.pos hs, fun _ => h₁.cursor hs, fun ha _ => h₁.audio ha hs,
      h₁.int⟩

end

/-! ## Starting and stopping -/

theorem pagesOf_of_nonneg (hn : 0 ≤ n) (hlt : n < 2 ^ 31) : pagesOf n = n * 40 / 4096 := by
  rw [pagesOf, Int.emod_eq_of_lt (by omega) (by omega), u32, i32]
  split <;> omega

theorem pagesOf_of_neg (hn : -2 ^ 31 ≤ n) (hlt : n < -204) : pagesOf n < -1 := by
  have hmod : n * 40 % 2 ^ 64 = n * 40 + 2 ^ 64 := by
    rw [← Int.add_emod_right, Int.emod_eq_of_lt (by omega) (by omega)]
  have hdiv : (n * 40 + 2 ^ 64) / 4096 = n * 40 / 4096 + 2 ^ 52 := by omega
  have hlow : -2 ^ 30 ≤ n * 40 / 4096 := by omega
  have hhigh : n * 40 / 4096 < -1 := by omega
  rw [pagesOf, hmod, hdiv]
  generalize n * 40 / 4096 = k at hlow hhigh
  rw [u32, i32]
  split <;> omega

/-- A number of records that fills a page gives at least one page, or a number of pages that no
    memory has. -/
theorem pageNums_pos (hn : 102 ≤ n) (hlt : n < 2 ^ 31) : 1 ≤ pageNums n ∨ pageNums n < -1 := by
  rw [pageNums, pagesOf_of_nonneg (by omega) hlt]
  by_cases hsum : n + n * 40 / 4096 + 1 < 2 ^ 31
  · left
    have hk : i32 (u32 (n + n * 40 / 4096 + 1)) = n + n * 40 / 4096 + 1 := by
      rw [u32, i32]
      split <;> omega
    rw [hk, pagesOf_of_nonneg (by omega) hsum]
    omega
  -- the sum is a negative `int`, and so is the number of pages
  right
  have hk : i32 (u32 (n + n * 40 / 4096 + 1)) = n + n * 40 / 4096 + 1 - 2 ^ 32 := by
    rw [u32, i32]
    split <;> omega
  exact pagesOf_of_neg (by omega) (by omega)

/-- A table that is started with enough records has some of them, and all of them are free. -/
theorem Inv.ptsStart (h : t.Inv type) (type' : PtsType) (hevc : Bool) (mem : Memory)
    (hnum : t.status = .idle → 102 ≤ t.recNum) :
    ∃ r, ptsStart type' hevc mem t = some r ∧ r.1.Inv type := by
  rw [FrameSync.ptsStart]
  split
  case isFalse => exact ⟨_, rfl, h⟩
  case isTrue hidle =>
    have hempty : ({ t with status := .init }.initLists).Inv type := by
      refine ⟨List.Perm.refl [], ?_, ?_, ?_, h.int⟩
      · rintro (hs | hs) <;> cases hs
      · rintro (hs | hs) <;> cases hs
      · rintro - (hs | hs) <;> cases hs
    have hpos := pageNums_pos (hnum hidle) h.int
    have hpages : pageNums ({ t with status := .init }.initLists).recNum = pageNums t.recNum := rfl
    rw [allocPtsList]
    split_ifs with hmem hneg hfew
    · exact ⟨_, rfl, hempty⟩
    · omega
    · exact ⟨_, rfl, hempty⟩
    · have hcount : 0 < (pageNums t.recNum).toNat * recsPerPage := by
        have hrecs : recsPerPage = 102 := rfl
        rw [hrecs]
        omega
      refine ⟨_, rfl, ?_⟩
      rw [startValues]
      split_ifs <;>
        exact ⟨List.Perm.refl _, fun _ => hcount, fun _ => .inl rfl, fun _ _ => rfl, h.int⟩

theorem Inv.ptsStop (h : t.Inv type) : (ptsStop t).1.Inv type := by
  rw [FrameSync.ptsStop]
  split
  · refine ⟨List.Perm.refl [], ?_, ?_, ?_, h.int⟩
    · rintro (hs | hs) <;> cases hs
    · rintro (hs | hs) <;> cases hs
    · rintro - (hs | hs) <;> cases hs
  · exact h

theorem Inv.ptsSetRecSize (h : t.Inv type) (val : UInt32) : (ptsSetRecSize t val).1.Inv type := by
  rw [FrameSync.ptsSetRecSize]
  split
  · refine ⟨h.perm, h.pos, h.cursor, h.audio, ?_⟩
    have hval := val.toNat_lt
    change i32 val.toNat < 2 ^ 31
    rw [i32]
    split <;> omega
  · exact h

end PtsTable

/-! ## Runs -/

variable {hevc : Bool} {s : Tables} {c : Call} {cs : List (PtsType × Call)}

/-- The condition on a call: a table that is started has been set to a number of records that fills
    a page. -/
def CallOk (hevc : Bool) (s : Tables) (type : PtsType) : Call → Prop
  | .start _ => (s (startType hevc type)).status = .idle → 102 ≤ (s (startType hevc type)).recNum
  | _ => True

/-- Each call of the run meets the condition, in the state that it finds. -/
def Admissible (hevc : Bool) : Tables → List (PtsType × Call) → Prop
  | _, [] => True
  | s, (type, c) :: cs =>
    CallOk hevc s type c ∧ ∀ s', step hevc s type c = some s' → Admissible hevc s' cs

theorem inv_update (h : ∀ type, (s type).Inv type) (ht : t.Inv type) :
    ∀ type', (Function.update s type t type').Inv type' := by
  intro type'
  by_cases htype : type' = type
  · subst htype
    rwa [Function.update_self]
  · rw [Function.update_of_ne htype]
    exact h type'

theorem inv_step (h : ∀ type, (s type).Inv type) (hc : CallOk hevc s type c) :
    ∃ s', step hevc s type c = some s' ∧ ∀ type, (s' type).Inv type := by
  cases c with
  | setRecSize val => exact ⟨_, rfl, inv_update h ((h type).ptsSetRecSize val)⟩
  | start mem =>
    obtain ⟨r, hr, hinv⟩ := (h (startType hevc type)).ptsStart type hevc mem hc
    exact ⟨_, by rw [step, hr]; rfl, inv_update h hinv⟩
  | checkinOffset offset val =>
    obtain ⟨r, hr, hinv⟩ := (h type).ptsCheckin offset val
    exact ⟨_, by rw [step, hr]; rfl, inv_update h hinv⟩
  | lookupOffset offset ptsMargin =>
    obtain ⟨r, hr, hinv⟩ := (h type).ptsLookup offset ptsMargin
    exact ⟨_, by rw [step, hr]; rfl, inv_update h hinv⟩
  | pickoutOffset offset ptsMargin =>
    obtain ⟨r, hr, hinv⟩ := (h type).ptsPick offset ptsMargin
    exact ⟨_, by rw [step, hr]; rfl, inv_update h hinv⟩
  | stop => exact ⟨_, rfl, inv_update h (h _).ptsStop⟩

theorem inv_run (h : ∀ type, (s type).Inv type) (hcs : Admissible hevc s cs) :
    ∃ s', run hevc s cs = some s' ∧ ∀ type, (s' type).Inv type := by
  induction cs generalizing s with
  | nil => exact ⟨s, rfl, h⟩
  | cons c cs ih =>
    obtain ⟨s', hs', hinv⟩ := inv_step h hcs.1
    rw [run, hs']
    exact ih hinv (hcs.2 s' hs')

theorem inv_ptsTable (type : PtsType) : (ptsTable type).Inv type := by
  have hidle : ¬ (ptsTable type).Started := by
    cases type <;> rintro (hs | hs) <;> cases hs
  refine ⟨?_, fun hs => absurd hs hidle, fun hs => absurd hs hidle, fun _ hs => absurd hs hidle, ?_⟩
  · cases type <;> exact List.Perm.refl []
  · cases type <;> decide

/-- The lists of a table: they are a partition of its records; and while it is started, a check-in
    finds one of them, and the cursor can be followed. -/
structure PtsTable.Sound (t : PtsTable) : Prop where
  perm : (t.validList ++ t.freeList).Perm (List.range t.recCount)
  checkin : t.Started → ∃ r < t.recCount, checkinRec t = some r
  cursor : t.Started → t.CursorValid

/-- In every run in which each table is started with enough records, no call takes something else
    for a record, and the tables are sound. -/
theorem tables_sound (hcs : Admissible hevc ptsTable cs) :
    ∃ s, run hevc ptsTable cs = some s ∧ ∀ type, (s type).Sound := by
  obtain ⟨s, hs, hinv⟩ := inv_run inv_ptsTable hcs
  exact ⟨s, hs, fun type => ⟨(hinv type).perm, (hinv type).checkinRec, (hinv type).cursor⟩⟩

/-- A table with one page: the lookup of the second record leaves the cursor at the first. -/
def onePage : List (PtsType × Call) :=
  [(.video, .setRecSize 102), (.video, .start ⟨true, 1⟩), (.video, .checkinOffset 0 5),
    (.video, .checkinOffset 100 6), (.video, .lookupOffset 100 0)]

theorem tables_sound_onePage : ∃ s, run true ptsTable onePage = some s ∧
    ∀ type, (s type).Sound := by
  refine tables_sound ⟨trivial, fun s hs => ⟨fun _ => ?_, fun _ _ => ⟨trivial, fun _ _ =>
    ⟨trivial, fun _ _ => ⟨trivial, fun _ _ => trivial⟩⟩⟩⟩⟩
  cases hs
  decide

/-- With 100 records no page is allocated, and the table is started without any record: the next
    check-in takes the head of the list for one. And when a table is stopped, the cursor keeps
    pointing to a record that has been freed. -/
theorem no_records :
    ((run true ptsTable [(.video, .setRecSize 100), (.video, .start ⟨true, 1⟩)]).map fun s =>
      ((s .video).status, (s .video).recCount, checkinRec (s .video))) = some (.loading, 0, none) ∧
    (run true ptsTable [(.video, .setRecSize 100), (.video, .start ⟨true, 1⟩),
      (.video, .checkinOffset 0 5)]).isNone ∧
    ((run true ptsTable (onePage ++ [(.video, .stop)])).map fun s =>
      ((s .video).ptsSearch, (s .video).validList)) = some (.node 0, []) := by
  refine ⟨?_, ?_, ?_⟩ <;> decide +kernel

end CommonDrivers.FrameSync
