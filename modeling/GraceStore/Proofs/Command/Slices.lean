import GraceStore.Proofs.Command.Counting
import GraceStore.Proofs.Command.Replies
import GraceStore.Proofs.Number.Decimal96

/-!
# Slices of strings

GETRANGE and SUBSTR answer the bytes from one index to another, both included. An index may be any integer of 64 bits;
a negative one counts from the end, and what lies outside of the string is cut off. Worked out on 64 bits, step by
step, no sum leaves them, and no index the string.
-/

namespace GraceStore

namespace Bytes

variable {w : Bytes} {first last i j : Int}

/-! ## What a slice is -/

/-- An index, counted from the start. -/
def fromStart (w : Bytes) (i : Int) : Int := if i < 0 then i + w.length else i

/-- The index of the first byte from `i` on, or beyond the end. -/
def lowest (w : Bytes) (i : Int) : Int := max (w.fromStart i) 0

/-- The index of the last byte up to `i`, or before the start. -/
def highest (w : Bytes) (i : Int) : Int := min (max (w.fromStart i) 0) (w.length - 1)

/-- The bytes from one index to another, both included, by integers of any size. -/
def between (w : Bytes) (first last : Int) : Bytes :=
  if (first < 0 ∧ last < 0 ∧ last < first) ∨ w.highest last < w.lowest first then []
  else (w.drop (w.lowest first).toNat).take (w.highest last - w.lowest first + 1).toNat

/-- Two indexes between which nothing lies. -/
def Misses (w : Bytes) (first last : Int) : Prop :=
  w = [] ∨ w.highest last < w.lowest first ∨ first < 0 ∧ last < 0 ∧ last < first

/-- The bytes `r` are those of `w` from one index to another, both included. -/
structure IsSlice (w : Bytes) (first last : Int) (r : Bytes) : Prop where
  empty : w.Misses first last → r = []
  length : ¬ w.Misses first last → (r.length : Int) = w.highest last - w.lowest first + 1
  bytes : ∀ j : Nat, j < r.length →
    w.lowest first + j < w.length ∧ r[j]? = w[(w.lowest first + j).toNat]?

theorem zero_le_lowest (w : Bytes) (i : Int) : 0 ≤ w.lowest i := by
  unfold lowest
  omega

theorem highest_lt (w : Bytes) (i : Int) : w.highest i < w.length := by
  unfold highest
  omega

theorem between_of_misses (h : w.Misses first last) : w.between first last = [] := by
  unfold between
  split
  · rfl
  · rename_i hnot
    rcases h with rfl | hless | horder
    · rw [List.drop_nil, List.take_nil]
    · exact absurd (.inr hless) hnot
    · exact absurd (.inl horder) hnot

theorem between_of_not_misses (h : ¬ w.Misses first last) : w.between first last =
    (w.drop (w.lowest first).toNat).take (w.highest last - w.lowest first + 1).toNat := by
  rw [between, if_neg fun hor => h (hor.elim (fun horder => .inr (.inr horder)) fun hless => .inr (.inl hless))]

theorem length_between (h : ¬ w.Misses first last) :
    ((w.between first last).length : Int) = w.highest last - w.lowest first + 1 := by
  rw [between_of_not_misses h, List.length_take, List.length_drop]
  simp only [Misses, not_or] at h
  simp only [lowest, highest] at *
  omega

theorem isSlice_between (w : Bytes) (first last : Int) : w.IsSlice first last (w.between first last) where
  empty := between_of_misses
  length := length_between
  bytes j hj := by
    by_cases h : w.Misses first last
    · rw [between_of_misses h] at hj
      cases hj
    · have hlength := length_between h
      have hlow := w.zero_le_lowest first
      have hhigh := w.highest_lt last
      refine ⟨by omega, ?_⟩
      rw [between_of_not_misses h, List.getElem?_take_of_lt (by omega), List.getElem?_drop]
      congr 1
      omega

/-! ## Counting from the start and from the end -/

/-- Neither index leaves the string. -/
def Holds (w : Bytes) (i : Int) : Prop := -(w.length : Int) ≤ i ∧ i < w.length

theorem Holds.fromStart (h : w.Holds i) : 0 ≤ w.fromStart i ∧ w.fromStart i < w.length := by
  obtain ⟨hlow, hhigh⟩ := h
  unfold Bytes.fromStart
  split <;> omega

theorem fromStart_of_nonneg (h : 0 ≤ i) : w.fromStart i = i := if_neg (by omega)

theorem between_of_holds (hf : w.Holds first) (hl : w.Holds last) : w.between first last =
    (w.drop (w.fromStart first).toNat).take (w.fromStart last - w.fromStart first + 1).toNat := by
  obtain ⟨hf0, hfn⟩ := hf.fromStart
  obtain ⟨hl0, hln⟩ := hl.fromStart
  have hlow : w.lowest first = w.fromStart first := by unfold lowest; omega
  have hhigh : w.highest last = w.fromStart last := by unfold highest; omega
  by_cases h : w.Misses first last
  · rw [between_of_misses h]
    have hnone : w.fromStart last - w.fromStart first + 1 ≤ 0 := by
      rw [Misses, hlow, hhigh] at h
      rcases h with rfl | hless | ⟨hneg, hneg', horder⟩
      · simp at hfn
        omega
      · omega
      · simp only [fromStart, if_pos hneg, if_pos hneg']
        omega
    rw [Int.toNat_of_nonpos hnone, List.take_zero]
  · rw [between_of_not_misses h, hlow, hhigh]

/-- Within the string it makes no difference from which end an index counts. -/
theorem between_fromStart (hf : w.Holds first) (hl : w.Holds last) (hf' : i = first ∨ i = w.fromStart first)
    (hl' : j = last ∨ j = w.fromStart last) : w.between i j = w.between first last := by
  have hsame {x y : Int} (hx : w.Holds x) (hy : y = x ∨ y = w.fromStart x) :
      w.Holds y ∧ w.fromStart y = w.fromStart x := by
    rcases hy with rfl | rfl
    · exact ⟨hx, rfl⟩
    · obtain ⟨h0, hn⟩ := hx.fromStart
      exact ⟨⟨by omega, hn⟩, fromStart_of_nonneg h0⟩
  obtain ⟨hi, hsi⟩ := hsame hf hf'
  obtain ⟨hj, hsj⟩ := hsame hl hl'
  rw [between_of_holds hi hj, between_of_holds hf hl, hsi, hsj]

/-- What lies up to an index and what lies beyond it make up the string. -/
theorem between_append_between (h0 : 0 ≤ i) (hi : i < w.length) : w.between 0 i ++ w.between (i + 1) (-1) = w := by
  have hzero : w.Holds 0 := ⟨by omega, by omega⟩
  have hlast : w.Holds (-1) := ⟨by omega, by omega⟩
  have hleft : w.between 0 i = w.take (i + 1).toNat := by
    rw [between_of_holds hzero ⟨by omega, hi⟩, fromStart_of_nonneg (Int.le_refl 0), fromStart_of_nonneg h0,
      Int.sub_zero]
    rfl
  have hright : w.between (i + 1) (-1) = w.drop (i + 1).toNat := by
    by_cases hend : i + 1 < w.length
    · have hfirst : w.fromStart (i + 1) = i + 1 := fromStart_of_nonneg (by omega)
      have hend' : w.fromStart (-1) = -1 + w.length := if_pos (by omega)
      rw [between_of_holds ⟨by omega, hend⟩ hlast, hfirst, hend', List.take_of_length_le]
      rw [List.length_drop]
      omega
    · -- the index after the last one is outside of the string, so the piece after it is empty
      rw [between_of_misses (.inr (.inl ?_)), List.drop_eq_nil_of_le (by omega)]
      simp only [lowest, highest, fromStart]
      split <;> split <;> omega
  rw [hleft, hright, List.take_append_drop]

theorem between_whole (w : Bytes) : w.between 0 (-1) = w := by
  cases w with
  | nil => rfl
  | cons b w =>
      have hpos : 0 < (b :: w).length := Nat.zero_lt_succ _
      have hend : fromStart (b :: w) (-1) = -1 + (b :: w).length := if_pos (by omega)
      rw [between_of_holds ⟨by omega, by omega⟩ ⟨by omega, by omega⟩, hend, fromStart_of_nonneg (Int.le_refl 0)]
      exact List.take_of_length_le (by rw [List.length_drop]; omega)

/-! ## On 64 bits -/

/-- An index, counted from the start of `n` bytes. -/
def fromStart64? (n i : Int64) : Option Int64 := if i < 0 then Integer.add? i n else some i

/-- The index of the last byte up to an index that counts from the start of `n` bytes. -/
def highest64? (n i : Int64) : Option Int64 := if n ≤ max i 0 then Integer.add? n (-1) else some (max i 0)

/-- The piece from one index to another, both included, if it lies in the string. -/
def piece? (w : Bytes) (first last : Int64) : Option Bytes :=
  if 0 ≤ first ∧ 0 ≤ last ∧ first.toInt ≤ last.toInt + 1 ∧ last.toInt < w.length then
    some ((w.drop first.toInt.toNat).take (last.toInt - first.toInt + 1).toNat)
  else none

/-- A slice, worked out on integers of 64 bits: there is none if one of them overflows, or if an index that is used
lies outside of the string. -/
def slice64? (w : Bytes) (first last : Int64) : Option Bytes := do
  let n ← Integer.ofInt? w.length
  if first < 0 ∧ last < 0 ∧ last < first then some []
  else
    let first ← fromStart64? n first
    let last ← fromStart64? n last
    let last ← highest64? n last
    if last < max first 0 ∨ n = 0 then some [] else w.piece? (max first 0) last

theorem toInt_max_zero (i : Int64) : (max i 0).toInt = max i.toInt 0 := by
  have hmax : max i 0 = if i ≤ 0 then 0 else i := rfl
  have hzero : Int64.toInt 0 = 0 := rfl
  rw [hmax]
  split
  · rename_i hle
    rw [Int64.le_iff_toInt_le, hzero] at hle
    omega
  · rename_i hlt
    rw [Int64.le_iff_toInt_le, hzero] at hlt
    omega

theorem fromStart64?_eq {n : Int64} (hn : n.toInt = w.length) (i : Int64) :
    ∃ j, fromStart64? n i = some j ∧ j.toInt = w.fromStart i.toInt := by
  unfold fromStart64? fromStart
  by_cases hneg : i < 0
  · have hneg' : i.toInt < 0 := (Integer.lt_zero_iff i).mp hneg
    rw [if_pos hneg, if_pos hneg', ← hn, Integer.add?_eq]
    refine Integer.ofInt?_of_inRange ?_
    have := i.le_toInt
    have := n.toInt_lt
    simp only [Integer.InRange, Integer.bound]
    omega
  · exact ⟨i, if_neg hneg, (if_neg fun h => hneg ((Integer.lt_zero_iff i).mpr h)).symm⟩

theorem highest64?_eq {n l : Int64} (hn : n.toInt = w.length) (hl : l.toInt = w.fromStart last) :
    ∃ b, highest64? n l = some b ∧ b.toInt = w.highest last := by
  have hmax : (max l 0).toInt = max (w.fromStart last) 0 := by rw [toInt_max_zero, hl]
  unfold highest64? highest
  split
  · rename_i hle
    rw [Int64.le_iff_toInt_le, hn, hmax] at hle
    have hbelow : n.toInt + Int64.toInt (-1) = min (max (w.fromStart last) 0) (w.length - 1) := by
      have hminus : Int64.toInt (-1) = -1 := rfl
      omega
    rw [← hbelow, Integer.add?_eq]
    refine Integer.ofInt?_of_inRange ?_
    have := n.toInt_lt
    simp only [Integer.InRange, Integer.bound]
    omega
  · rename_i hlt
    rw [Int64.le_iff_toInt_le, hn, hmax] at hlt
    exact ⟨_, rfl, by omega⟩

theorem piece?_eq {a b : Int64} (ha : a.toInt = w.lowest first) (hb : b.toInt = w.highest last)
    (h : ¬ w.Misses first last) : w.piece? a b = some (w.between first last) := by
  have hlow := w.zero_le_lowest first
  have hhigh := w.highest_lt last
  have hle : w.lowest first ≤ w.highest last := Int.not_lt.mp fun hless => h (.inr (.inl hless))
  have hin : 0 ≤ a ∧ 0 ≤ b ∧ a.toInt ≤ b.toInt + 1 ∧ b.toInt < w.length := by
    have hzero : Int64.toInt 0 = 0 := rfl
    rw [Int64.le_iff_toInt_le, Int64.le_iff_toInt_le, hzero, ha, hb]
    omega
  rw [piece?, if_pos hin, ha, hb, between_of_not_misses h]

/-- Nothing overflows, and no index leaves the string. -/
theorem slice64?_eq (hw : w.length < 2 ^ 63) (first last : Int64) :
    w.slice64? first last = some (w.between first.toInt last.toInt) := by
  obtain ⟨n, hn, hlength⟩ := Integer.ofInt?_of_inRange (show Integer.InRange w.length by
    simp only [Integer.InRange, Integer.bound]
    omega)
  obtain ⟨a, ha, hstart⟩ := fromStart64?_eq hlength first
  obtain ⟨b, hb, hstop⟩ := fromStart64?_eq hlength last
  obtain ⟨c, hc, hhigh⟩ := highest64?_eq hlength hstop
  have hlow : (max a 0).toInt = w.lowest first.toInt := by rw [toInt_max_zero, hstart]; rfl
  have hnone : c < max a 0 ∨ n = 0 ↔ w.highest last.toInt < w.lowest first.toInt ∨ w = [] := by
    rw [Int64.lt_iff_toInt_lt, hhigh, hlow, ← Int64.toInt_inj, hlength, ← List.length_eq_zero_iff]
    simp
  have horder : first < 0 ∧ last < 0 ∧ last < first ↔
      first.toInt < 0 ∧ last.toInt < 0 ∧ last.toInt < first.toInt := by
    rw [Integer.lt_zero_iff, Integer.lt_zero_iff, Int64.lt_iff_toInt_lt]
  simp only [slice64?, hn, ha, hb, hc, Option.bind_eq_bind, Option.bind_some, hnone, horder]
  split
  · rename_i hneg
    rw [between_of_misses (.inr (.inr hneg))]
  · split
    · rename_i hempty
      rw [between_of_misses (hempty.elim (fun hless => .inr (.inl hless)) .inl)]
    · rename_i hneg hfull
      exact piece?_eq hlow hhigh fun h =>
        h.elim (fun h => hfull (.inr h)) fun h => h.elim (fun h => hfull (.inl h)) hneg

theorem eq_of_fromStart64? {n a : Int64} {i : Int64} (h : fromStart64? n i = some a) :
    a = if i < 0 then i + n else i := by
  unfold fromStart64? at h
  split at h
  · rw [if_pos ‹_›, Integer.eq_add_of_add? h]
  · rw [if_neg ‹_›, Option.some.inj h]

theorem eq_of_highest64? {n l b : Int64} (h : highest64? n l = some b) :
    b = if n ≤ max l 0 then n - 1 else max l 0 := by
  unfold highest64? at h
  split at h
  · rw [if_pos ‹_›, Integer.eq_add_of_add? h, Int64.sub_eq_add_neg]
  · rw [if_neg ‹_›, Option.some.inj h]

theorem eq_of_piece? {a b : Int64} {r : Bytes} (h : w.piece? a b = some r) :
    r = (w.take (b.toNatClampNeg + 1)).drop a.toNatClampNeg := by
  unfold piece? at h
  split at h
  · rename_i hin
    have hzero : Int64.toInt 0 = 0 := rfl
    rw [Int64.le_iff_toInt_le, Int64.le_iff_toInt_le, hzero] at hin
    rw [← Option.some.inj h, List.drop_take]
    congr 1
    show _ = b.toInt.toNat + 1 - a.toInt.toNat
    omega
  · cases h

/-- Where nothing overflows, nothing wraps around. -/
theorem eq_slice_of_slice64? {first last : Int64} {r : Bytes} (h : w.slice64? first last = some r) :
    r = w.slice first last := by
  simp only [slice64?, Option.bind_eq_bind] at h
  obtain ⟨n, hn, h⟩ := Option.bind_eq_some_iff.mp h
  have hrange : Integer.InRange w.length := by
    by_contra hnot
    rw [Integer.ofInt?_of_not_inRange hnot] at hn
    cases hn
  have hlength : ¬ Nat.pow 2 63 ≤ w.length := by
    simp only [Integer.InRange, Integer.bound] at hrange
    show ¬ 2 ^ 63 ≤ w.length
    omega
  have hn' : n = Int64.ofNat w.length := by
    have hsome : Integer.ofInt? w.length = some (Int64.ofInt w.length) := if_pos hrange
    rw [← Int64.ofInt_eq_ofNat, Option.some.inj (hn.symm.trans hsome)]
  unfold slice
  simp only [if_neg hlength, ← hn']
  split at h
  · rename_i hneg
    rw [if_pos (.inl hneg), Option.some.inj h]
  · rename_i hneg
    obtain ⟨a, ha, h⟩ := Option.bind_eq_some_iff.mp h
    obtain ⟨b, hb, h⟩ := Option.bind_eq_some_iff.mp h
    obtain ⟨c, hc, h⟩ := Option.bind_eq_some_iff.mp h
    rw [← eq_of_fromStart64? ha, ← eq_of_fromStart64? hb, ← eq_of_highest64? hc]
    split at h
    · rename_i hnone
      rw [if_pos (.inr hnone), Option.some.inj h]
    · rename_i hsome
      rw [if_neg (not_or.mpr ⟨hneg, hsome⟩), eq_of_piece? h]

/-- The 64 bits are enough for every string whose length they hold. -/
theorem slice_eq_between (hw : w.length < 2 ^ 63) (first last : Int64) :
    w.slice first last = w.between first.toInt last.toInt :=
  (eq_slice_of_slice64? (slice64?_eq hw first last)).symm

theorem slice_whole (w : Bytes) : w.slice 0 (-1) = w := by
  by_cases hw : w.length < 2 ^ 63
  · rw [slice_eq_between hw]
    exact w.between_whole
  · exact if_pos (Nat.not_lt.mp hw)

end Bytes

/-! ## In reachable states -/

namespace Multistore

variable {m : Multistore} {i : DomainId} {s : Store} {now : UInt64} {key w : Bytes}

/-- The reply to GETRANGE and to SUBSTR, however they and the indexes are spelled. -/
def RepliesRange [Decimals] (m : Multistore) (i : DomainId) (now : UInt64) (key : Bytes) (first last : Int64)
    (r : Reply) : Prop :=
  ∀ c start stop, c = .getRange ∨ c = .substr → Integer.parse? start = some first → Integer.parse? stop = some last →
    m.Replies i now c [key, start, stop] r

theorem Reachable.repliesRange [Decimals] (h : m.Reachable) (hs : m.store? i = some s) (hopens : s.OpensAt now key)
    (first last : Int64) : m.RepliesRange i now key first last (.ofExcept do
      let data ← (s.ledger.live now).string? key
      return .bulk (data.elim [] fun data => data.slice first last)) := by
  intro c start stop hc hfirst hlast
  have hparsed : (s.ledger.live now).getRange key start stop = do
      let data ← (s.ledger.live now).string? key
      return .bulk (data.elim [] fun data => data.slice first last) := by
    simp only [Contents.getRange, integerOf, hfirst, hlast]
    rfl
  rw [← hparsed]
  have hviewed : ∀ other ∈ [key], s.OpensAt now other := List.forall_mem_singleton.mpr hopens
  rcases hc with rfl | rfl
  · exact h.replies hs rfl hviewed
  · exact h.replies hs rfl hviewed

/-- GETRANGE and SUBSTR of a string that may be read answer its slice between any two indexes of 64 bits, worked out
without leaving them or the string. Within the string it makes no difference from which end an index counts, and what
lies up to an index and what lies beyond it make up the string. -/
theorem Reachable.getRange_slices [Decimals] (h : m.Reachable) (hs : m.store? i = some s) (hopens : s.OpensAt now key)
    (hw : (s.ledger.live now).string? key = .ok (some w)) (hlength : w.length < 2 ^ 63) :
    (∀ first last : Int64, ∃ r, w.slice64? first last = some r ∧ w.IsSlice first.toInt last.toInt r ∧
      m.RepliesRange i now key first last (.bulk r)) ∧
    (∀ first last first' last' : Int64, w.Holds first.toInt → w.Holds last.toInt →
      first' = first ∨ first'.toInt = w.fromStart first.toInt → last' = last ∨ last'.toInt = w.fromStart last.toInt →
      ∃ r, m.RepliesRange i now key first last (.bulk r) ∧ m.RepliesRange i now key first' last' (.bulk r)) ∧
    ∀ j : Int64, 0 ≤ j.toInt → j.toInt < w.length → ∃ a b, m.RepliesRange i now key 0 j (.bulk a) ∧
      m.RepliesRange i now key (j + 1) (-1) (.bulk b) ∧ a ++ b = w := by
  have hreplies (first last : Int64) :
      m.RepliesRange i now key first last (.bulk (w.between first.toInt last.toInt)) := by
    have hrange := h.repliesRange hs hopens first last
    rw [hw] at hrange
    rw [← Bytes.slice_eq_between hlength]
    exact hrange
  refine ⟨fun first last => ⟨_, Bytes.slice64?_eq hlength first last, w.isSlice_between _ _, hreplies first last⟩,
    fun first last first' last' hf hl hf' hl' => ⟨_, hreplies first last, ?_⟩, fun j h0 hj => ?_⟩
  · rw [← Bytes.between_fromStart hf hl (hf'.imp_left (congrArg _)) (hl'.imp_left (congrArg _))]
    exact hreplies first' last'
  · have hnext : (j + 1).toInt = j.toInt + 1 := by
      rw [Int64.toInt_add, show Int64.toInt 1 = 1 from rfl]
      exact Int.bmod_eq_of_le (by omega) (by omega)
    refine ⟨_, _, hreplies 0 j, hreplies (j + 1) (-1), ?_⟩
    rw [hnext]
    exact Bytes.between_append_between h0 hj

open scoped Decimal96

/-- Of five digits that are kept as a number, those from the second to the last but one. -/
theorem getRange_slices_digits :
    let m := (create List.length [0]).after 0 0 [Bytes.ofString "SET", [0x6b], Bytes.ofString "12345"]
    (m.step 0 7 (.read [Bytes.ofString "GETRANGE", [0x6b], Bytes.ofString "1", Bytes.ofString "-2"])).1 =
        .reply (.bulk (Bytes.ofString "234")) ∧
      ∃ r, m.RepliesRange 0 7 [0x6b] (-4) (-2) (.bulk r) ∧ m.RepliesRange 0 7 [0x6b] 1 3 (.bulk r) := by
  obtain ⟨h, s, hs, hr, hl⟩ :=
    exists_store?_first List.length 0 0 [Bytes.ofString "SET", [0x6b], Bytes.ofString "12345"]
  have hw : (s.ledger.live 7).string? [0x6b] = .ok (some (Bytes.ofString "12345")) := by
    rw [hl]
    rfl
  obtain ⟨hslices, hends, -⟩ := h.getRange_slices hs ((hr [0x6b]).opensAt 7) hw (by decide)
  refine ⟨?_, hends (-4) (-2) 1 3 ⟨by decide, by decide⟩ ⟨by decide, by decide⟩ (.inr (by decide)) (.inr (by decide))⟩
  obtain ⟨r, hsome, -, hreplies⟩ := hslices 1 (-2)
  cases hsome.symm.trans (show _ = some (Bytes.ofString "234") by decide +kernel)
  exact (hreplies .getRange _ _ (.inl rfl) rfl rfl _ rfl).1

end Multistore

end GraceStore
