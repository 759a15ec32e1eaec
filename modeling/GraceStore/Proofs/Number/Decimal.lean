import GraceStore.Proofs.Number.Lengths
import GraceStore.Proofs.Number.Numeral

/-!
# The decimal text of an integer

An integer has one decimal text, which is what is printed for it and all that is read as it. Reading stays in one
word of 64 bits, digit by digit: what does not fit in one is no integer's text, and only the least integer has a
magnitude that no positive one has. The length of the text is counted in one word as well.
-/

namespace GraceStore

/-- The decimal text of a number: zero, or digits without a leading zero, after a minus sign if it is negative. -/
inductive Decimal : Bytes → Int → Prop
  | zero : Decimal [0x30] 0
  | positive {d : UInt8} {ds : Bytes} (h0 : d ≠ 0x30) (h : Digits.Run (d :: ds)) :
      Decimal (d :: ds) (Digits.toNat (d :: ds))
  | negative {d : UInt8} {ds : Bytes} (h0 : d ≠ 0x30) (h : Digits.Run (d :: ds)) :
      Decimal (0x2d :: d :: ds) (-(Digits.toNat (d :: ds) : Int))

namespace Decimal

variable {w : Bytes} {n : Int} {v : Int64}

/-- A number has one decimal text. -/
theorem eq (h : Decimal w n) : w = if n < 0 then 0x2d :: Digits.ofNat n.natAbs else Digits.ofNat n.natAbs := by
  cases h with
  | zero =>
      rw [if_neg (by decide), Int.natAbs_zero, Digits.ofNat, if_pos (by decide)]
      rfl
  | positive h0 h =>
      rw [if_neg (by omega), Int.natAbs_natCast, Digits.ofNat_toNat h0 (List.all_eq_true.mpr h.digits)]
  | negative h0 h =>
      have hall := List.all_eq_true.mpr h.digits
      have hpos := Digits.toNat_pos h0 hall
      rw [if_pos (by omega), Int.natAbs_neg, Int.natAbs_natCast, Digits.ofNat_toNat h0 hall]

theorem render (v : Int64) : Decimal (Integer.render v) v.toInt := by
  obtain ⟨d, ds, hds, -, h0⟩ := Digits.ofNat_cons v.toInt.natAbs
  have hrun : Digits.Run (d :: ds) := hds ▸ Digits.run_ofNat _
  have hvalue : Digits.toNat (d :: ds) = v.toInt.natAbs := by rw [← hds, Digits.toNat_ofNat]
  by_cases hneg : v < 0
  · have hlt := (Integer.lt_zero_iff v).mp hneg
    have hint : v.toInt = -(Digits.toNat (d :: ds) : Int) := by omega
    rw [Integer.render, if_pos hneg, hds, hint]
    exact .negative (h0 (by omega)) hrun
  · have hge : 0 ≤ v.toInt := Int.not_lt.mp (mt (Integer.lt_zero_iff v).mpr hneg)
    rw [Integer.render, if_neg hneg]
    by_cases hzero : v.toInt = 0
    · rw [hzero, Int.natAbs_zero, Digits.ofNat, if_pos (by decide)]
      exact .zero
    · have hint : v.toInt = Digits.toNat (d :: ds) := by omega
      rw [hds, hint]
      exact .positive (h0 (by omega)) hrun

theorem eq_render_iff : w = Integer.render v ↔ Decimal w v.toInt := by
  refine ⟨?_, fun h => ?_⟩
  · rintro rfl
    exact render v
  · rw [h.eq, Integer.render]
    simp only [Integer.lt_zero_iff]

end Decimal

/-! ## Reading in one word -/

namespace Word

variable {α : Type} {n : UInt64} {a b : Nat} {d : UInt8} {ds : Bytes}

/-- A number as one word, if it fits. -/
def ofNat? (n : Nat) : Option UInt64 := if n < 2 ^ 64 then some (UInt64.ofNat n) else none

theorem ofNat?_cases (n : Nat) : (2 ^ 64 ≤ n ∧ ofNat? n = none) ∨ ∃ x : UInt64, x.toNat = n ∧ ofNat? n = some x := by
  unfold ofNat?
  split
  · rename_i hlt
    exact .inr ⟨_, UInt64.toNat_ofNat'.trans (Nat.mod_eq_of_lt hlt), rfl⟩
  · exact .inl ⟨by omega, rfl⟩

theorem ofNat?_toNat (n : UInt64) : ofNat? n.toNat = some n := by
  rw [ofNat?, if_pos n.toNat_lt, UInt64.ofNat_toNat]

theorem ofNat?_eq_none (h : 2 ^ 64 ≤ a) : ofNat? a = none := if_neg (by omega)

/-- The number that digits write after a word, unless a byte is no digit or a step leaves the word. -/
def readOn? (n : UInt64) : Bytes → Option UInt64
  | [] => some n
  | d :: ds =>
    if Digits.isDigit d then do
      let scaled ← ofNat? (n.toNat * 10)
      let next ← ofNat? (scaled.toNat + (d - 0x30).toNat)
      readOn? next ds
    else none

theorem toNat_sub_of_isDigit (h : Digits.isDigit d = true) : (d - 0x30).toNat = Digits.value d :=
  UInt8.toNat_sub_of_le d 0x30 (UInt8.le_iff_toNat_le.mpr (Digits.toNat_of_isDigit h).1)

/-- A sum fits in a word only if what it begins with does. -/
theorem ofNat?_bind_add (f : UInt64 → Option α) :
    ((ofNat? a).bind fun x => (ofNat? (x.toNat + b)).bind f) = (ofNat? (a + b)).bind f := by
  rcases ofNat?_cases a with ⟨hle, ha⟩ | ⟨x, rfl, ha⟩
  · rw [ha, ofNat?_eq_none (show 2 ^ 64 ≤ a + b by omega)]
    rfl
  · rw [ha, Option.bind_some]

/-- The number that digits write fits in a word only if all numbers on the way to it do. -/
theorem readOn?_eq : readOn? n ds =
    if ds.all Digits.isDigit = true then ofNat? (Digits.readOn n.toNat ds) else none := by
  induction ds generalizing n with
  | nil => exact (ofNat?_toNat n).symm
  | cons d ds ih =>
      rw [readOn?, List.all_cons]
      cases hd : Digits.isDigit d with
      | false => rfl
      | true =>
          have hstep : Digits.readOn n.toNat (d :: ds) = Digits.readOn (n.toNat * 10 + Digits.value d) ds := by
            rw [Nat.mul_comm]
            rfl
          simp only [if_true, Bool.true_and, toNat_sub_of_isDigit hd, Option.bind_eq_bind, hstep]
          rw [ofNat?_bind_add]
          rcases ofNat?_cases (n.toNat * 10 + Digits.value d) with ⟨hle, hnone⟩ | ⟨x, hx, hsome⟩
          · rw [hnone, ofNat?_eq_none (hle.trans (Digits.le_readOn _ ds)), ite_self, Option.bind_none]
          · rw [hsome, Option.bind_some, ih, hx]

/-- The magnitude of digits without a leading zero. -/
def magnitude? : Bytes → Option UInt64
  | [] => none
  | d :: ds => if 0x31 ≤ d ∧ d ≤ 0x39 then readOn? 0 (d :: ds) else none

theorem magnitude?_eq : Integer.magnitude? ds = (magnitude? ds).bind fun n =>
    if n.toNat < Integer.bound + 1 then some n.toNat else none := by
  cases ds with
  | nil => rfl
  | cons d ds =>
      simp only [Integer.magnitude?, magnitude?, Bool.and_eq_true, bne_iff_ne, ne_eq, Digits.toNatBelow?_eq]
      by_cases hd : 0x31 ≤ d ∧ d ≤ 0x39
      · have h0 : d ≠ 0x30 := by
          rintro rfl
          exact absurd hd.1 (by decide)
        rw [if_pos hd, readOn?_eq]
        simp only [h0, not_false_iff, true_and]
        split
        · show (if Digits.toNat (d :: ds) < _ then _ else _) = (ofNat? (Digits.toNat (d :: ds))).bind _
          rcases ofNat?_cases (Digits.toNat (d :: ds)) with ⟨hle, hnone⟩ | ⟨x, hx, hsome⟩
          · rw [hnone, if_neg (by simp only [Integer.bound]; omega)]
            rfl
          · rw [hsome, Option.bind_some, hx]
        · rfl
      · rw [if_neg hd, if_neg fun hcanonical => hd ?_]
        · rfl
        · have hdigit := Digits.toNat_of_isDigit (List.all_eq_true.mp hcanonical.2 d List.mem_cons_self)
          have hne : d.toNat ≠ 0x30 := fun heq => hcanonical.1 (UInt8.toNat_inj.mp heq)
          simp only [UInt8.le_iff_toNat_le]
          exact ⟨show 49 ≤ d.toNat by omega, hdigit.2⟩

end Word

namespace Integer

variable {w : Bytes} {v : Int64}

/-- An integer, read from its text in one word. -/
def parse64? (w : Bytes) : Option Int64 :=
  if w = [] ∨ 20 < w.length then none
  else if w = [0x30] then some 0
  else if w.head? = some 0x2d then do
    let n ← Word.magnitude? w.tail
    if 0x8000000000000000 < n then none else some (-n.toInt64)
  else do
    let n ← Word.magnitude? w
    if n < 0x8000000000000000 then some n.toInt64 else none

theorem parse?_eq_some_iff : parse? w = some v ↔ w = render v :=
  ⟨fun h => (render_of_parse? h).symm, fun h => h ▸ parse?_render v⟩

theorem ofInt_toNat (n : UInt64) : Int64.ofInt n.toNat = n.toInt64 := by
  rw [Int64.ofInt_eq_ofNat, ← UInt64.toInt64_ofNat', UInt64.ofNat_toNat]

/-- The one word that is the magnitude of a negative integer and of no positive one is negated to itself. -/
theorem ofMagnitude?_word (n : UInt64) :
    ((if n.toNat < bound + 1 then some n.toNat else none).bind (ofMagnitude? true) =
        if 0x8000000000000000 < n then none else some (-n.toInt64)) ∧
      (if n.toNat < bound + 1 then some n.toNat else none).bind (ofMagnitude? false) =
        if n < 0x8000000000000000 then some n.toInt64 else none := by
  have hbound : UInt64.toNat 0x8000000000000000 = bound := rfl
  simp only [UInt64.lt_iff_toNat_lt, hbound, Nat.lt_succ_iff]
  by_cases hle : n.toNat ≤ bound
  · rw [if_pos hle, if_neg (Nat.not_lt.mpr hle), Option.bind_some, Option.bind_some]
    refine ⟨?_, ?_⟩
    · rw [ofMagnitude?, if_pos rfl, if_pos hle, Int64.ofInt_neg, ofInt_toNat]
    · rw [ofMagnitude?, if_neg Bool.false_ne_true, ofInt_toNat]
  · rw [if_neg hle, if_pos (Nat.not_le.mp hle), if_neg (by omega)]
    exact ⟨rfl, rfl⟩

/-- What is longer than any integer's text is none. -/
theorem parse?_of_length (h : w = [] ∨ 20 < w.length) : parse? w = none := by
  rcases h with rfl | h
  · rfl
  · refine Option.eq_none_iff_forall_ne_some.mpr fun v hv => ?_
    rw [← render_of_parse? hv] at h
    exact absurd (length_render_le v) (Nat.not_le.mpr h)

theorem parse?_of_ne_zero (h : w ≠ [0x30]) : parse? w =
    if w.head? = some 0x2d then (magnitude? w.tail).bind (ofMagnitude? true)
    else (magnitude? w).bind (ofMagnitude? false) := by
  unfold parse?
  by_cases hhead : w.head? = some 0x2d
  · obtain ⟨ds, rfl⟩ := List.head?_eq_some_iff.mp hhead
    rw [if_neg h, if_pos hhead]
    rfl
  · rw [if_neg h, if_neg hhead]
    split
    · exact absurd rfl hhead
    · rfl

theorem parse64?_eq (w : Bytes) : parse64? w = parse? w := by
  unfold parse64?
  split
  · rename_i h
    exact (parse?_of_length h).symm
  · split
    · rename_i h
      subst h
      rfl
    · rename_i h
      rw [parse?_of_ne_zero h, Word.magnitude?_eq, Word.magnitude?_eq, Option.bind_assoc, Option.bind_assoc]
      simp only [ofMagnitude?_word]
      rfl

/-! ## Counting in one word -/

/-- The magnitude of an integer as a word. -/
def unsignedAbs (v : Int64) : UInt64 := if v < 0 then (-v).toUInt64 else v.toUInt64

/-- The digits of a word, counted after `len` others. -/
def countOn (n : UInt64) (len : Nat) : Nat := if 10 ≤ n then countOn (n / 10) (len + 1) else len
termination_by n.toNat
decreasing_by
  rename_i h
  have hten : 10 ≤ n.toNat := UInt64.le_iff_toNat_le.mp h
  rw [UInt64.toNat_div]
  exact Nat.div_lt_self (by omega) (by decide)

/-- The length of the text of an integer, counted in one word. -/
def width64 (v : Int64) : Nat := countOn (unsignedAbs v) (if v < 0 then 2 else 1)

theorem toNat_toUInt64 (v : Int64) : (v.toUInt64.toNat : Int) = v.toInt % 2 ^ 64 := by
  have hword : v.toInt = Int.bmod v.toUInt64.toNat (2 ^ 64) := v.toBitVec.toInt_eq_toNat_bmod
  have hlt := v.toUInt64.toNat_lt
  rw [hword]
  exact (Int.bmod_emod.trans (Int.emod_eq_of_lt (by omega) (by omega))).symm

theorem toNat_unsignedAbs (v : Int64) : (unsignedAbs v).toNat = v.toInt.natAbs := by
  have hle := v.le_toInt
  have hlt := v.toInt_lt
  unfold unsignedAbs
  split
  · rename_i hneg
    have hneg := (lt_zero_iff v).mp hneg
    have hword : ((-v).toUInt64.toNat : Int) = -v.toInt := by
      rw [toNat_toUInt64, Int64.toInt_neg]
      exact Int.bmod_emod.trans (Int.emod_eq_of_lt (by omega) (by omega))
    omega
  · rename_i hpos
    have hpos := mt (lt_zero_iff v).mpr hpos
    have hword := toNat_toUInt64 v
    rw [Int.emod_eq_of_lt (by omega) (by omega)] at hword
    omega

theorem countOn_eq (n : UInt64) (len : Nat) : countOn n len + 1 = Digits.count n.toNat + len := by
  have hten : UInt64.toNat 10 = 10 := rfl
  fun_induction countOn n len with
  | case1 n len h ih =>
      rw [UInt64.le_iff_toNat_le, hten] at h
      rw [ih, UInt64.toNat_div, hten, Digits.count.eq_def n.toNat, if_neg (Nat.not_lt.mpr h), Nat.add_right_comm]
      rfl
  | case2 n len h =>
      rw [UInt64.le_iff_toNat_le, hten] at h
      rw [Digits.count, if_pos (Nat.not_le.mp h), Nat.add_comm]

theorem width64_eq (v : Int64) : width64 v = width v := by
  have hcount (len : Nat) := countOn_eq (unsignedAbs v) len
  rw [toNat_unsignedAbs] at hcount
  unfold width64 width
  split
  · exact Nat.succ.inj (hcount 2)
  · exact Nat.succ.inj (hcount 1)

end Integer

end GraceStore
