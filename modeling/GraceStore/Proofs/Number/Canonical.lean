import GraceStore.Proofs.Number.Lawful
import Mathlib.Data.List.TakeWhile

/-!
# The canonical text of an integer

An integer and its canonical text determine each other, and the text is a decimal literal of the same
number, so it does not matter whether a string is kept as the integer it writes or as its bytes.
-/

namespace GraceStore

/-! ## Digits -/

namespace Digits

variable {n : Nat} {d : UInt8} {ds : Bytes}

theorem toNat_of_isDigit (h : isDigit d = true) : 48 ≤ d.toNat ∧ d.toNat ≤ 57 := by
  simpa [isDigit, UInt8.le_iff_toNat_le] using h

theorem digit_value (h : isDigit d = true) : digit (value d) = d := by
  have hd := toNat_of_isDigit h
  rw [digit, value, show 0x30 + (d.toNat - 0x30) = d.toNat by omega, UInt8.ofNat_toNat]

theorem value_lt (h : isDigit d = true) : value d < 10 := by
  have hd := toNat_of_isDigit h
  simp only [value]
  omega

theorem value_pos (h : isDigit d = true) (h0 : d ≠ 0x30) : 0 < value d := by
  have hd := toNat_of_isDigit h
  have hne : d.toNat ≠ 48 := fun heq => h0 (UInt8.toNat_inj.mp heq)
  simp only [value]
  omega

theorem ofNat_append_digit (hn : 0 < n) (hd : isDigit d = true) :
    ofNat (10 * n + value d) = ofNat n ++ [d] := by
  have hlt := value_lt hd
  rw [ofNat, if_neg (by omega), show (10 * n + value d) / 10 = n by omega,
    show (10 * n + value d) % 10 = value d by omega, digit_value hd]

theorem ofNat_readOn (hn : 0 < n) (hds : ds.all isDigit = true) : ofNat (readOn n ds) = ofNat n ++ ds := by
  induction ds generalizing n with
  | nil => simp [readOn]
  | cons d ds ih =>
      simp only [List.all_cons, Bool.and_eq_true] at hds
      rw [show readOn n (d :: ds) = readOn (10 * n + value d) ds from rfl, ih (by omega) hds.2,
        ofNat_append_digit hn hds.1, List.append_assoc, List.singleton_append]

/-- Digits without a leading zero are the digits of their number. -/
theorem ofNat_toNat (h0 : d ≠ 0x30) (hds : (d :: ds).all isDigit = true) :
    ofNat (toNat (d :: ds)) = d :: ds := by
  simp only [List.all_cons, Bool.and_eq_true] at hds
  have hpos := value_pos hds.1 h0
  have hstart : toNat (d :: ds) = readOn (value d) ds := by
    simp only [toNat, readOn, List.foldl_cons, Nat.mul_zero, Nat.zero_add]
  rw [hstart, ofNat_readOn hpos hds.2, ofNat, if_pos (value_lt hds.1), digit_value hds.1]
  rfl

theorem toNat_pos (h0 : d ≠ 0x30) (hds : (d :: ds).all isDigit = true) : 0 < toNat (d :: ds) := by
  simp only [List.all_cons, Bool.and_eq_true] at hds
  have hle := le_readOn (10 * 0 + value d) ds
  have hpos := value_pos hds.1 h0
  have hstart : toNat (d :: ds) = readOn (10 * 0 + value d) ds := rfl
  omega

/-- A number has a first digit, which is a zero only for zero. -/
theorem ofNat_cons (n : Nat) : ∃ d ds, ofNat n = d :: ds ∧ isDigit d = true ∧ (0 < n → d ≠ 0x30) := by
  induction n using Nat.strongRecOn with
  | ind n ih =>
      rw [ofNat]
      split
      · rename_i hlt
        have all : ∀ m < 10, 0 < m → digit m ≠ 0x30 := by decide
        exact ⟨digit n, [], rfl, isDigit_digit hlt, all n hlt⟩
      · rename_i hge
        obtain ⟨d, ds, hds, hd, h0⟩ := ih (n / 10) (by omega)
        rw [hds]
        exact ⟨d, ds ++ [digit (n % 10)], rfl, hd, fun _ => h0 (by omega)⟩

end Digits

/-! ## Integers -/

namespace Integer

variable {v : Int64} {s ds : Bytes} {n : Nat}

theorem natAbs_le (v : Int64) : v.toInt.natAbs ≤ bound := by
  have h₁ := Int64.le_toInt v
  have h₂ := Int64.toInt_lt v
  simp only [bound]
  omega

theorem lt_zero_iff (v : Int64) : v < 0 ↔ v.toInt < 0 := by
  rw [Int64.lt_iff_toInt_lt]
  rfl

theorem toNatBelow?_ofNat {limit : Nat} (h : n < limit) : Digits.toNatBelow? limit (Digits.ofNat n) = some n := by
  rw [Digits.toNatBelow?_eq, Digits.toNat_ofNat, if_pos h]

theorem magnitude?_ofNat (hpos : 0 < n) (hn : n ≤ bound) : magnitude? (Digits.ofNat n) = some n := by
  obtain ⟨d, ds, h, _, h0⟩ := Digits.ofNat_cons n
  have hall := Digits.all_isDigit_ofNat n
  have hval := toNatBelow?_ofNat (show n < bound + 1 from Nat.lt_succ_of_le hn)
  rw [h] at hall hval ⊢
  simp only [magnitude?, hall, bne_iff_ne, ne_eq, h0 hpos, not_false_iff, Bool.and_true, hval,
    if_true]

theorem parse?_render (v : Int64) : parse? (render v) = some v := by
  have hle := natAbs_le v
  have hv : Int64.ofInt v.toInt = v := Int64.ofInt_toInt v
  obtain ⟨d, ds, hds, hd, h0⟩ := Digits.ofNat_cons v.toInt.natAbs
  have hdigit := Digits.toNat_of_isDigit hd
  by_cases hneg : v < 0
  · have hlt := (lt_zero_iff v).mp hneg
    have hint : -(v.toInt.natAbs : Int) = v.toInt := by omega
    simp only [render, hneg, if_true, parse?, List.cons.injEq, show (0x2d : UInt8) ≠ 0x30 by decide,
      false_and, if_false, magnitude?_ofNat (by omega) hle, Option.bind_some, ofMagnitude?, hle, hint, hv]
  · have hge : 0 ≤ v.toInt := Int.not_lt.mp (mt (lt_zero_iff v).mpr hneg)
    have hint : (v.toInt.natAbs : Int) = v.toInt := by omega
    have hbound : v.toInt.natAbs < bound := by
      have := Int64.toInt_lt v
      simp only [bound]
      omega
    have hrender : render v = Digits.ofNat v.toInt.natAbs := by rw [render, if_neg hneg]
    by_cases h0' : v.toInt.natAbs = 0
    · have hzero : v = 0 := by
        rw [← hv, show v.toInt = 0 by omega]
        rfl
      rw [hrender, h0', Digits.ofNat, if_pos (by omega), hzero]
      rfl
    · have hpos : 0 < v.toInt.natAbs := by omega
      rw [hrender, hds]
      unfold parse?
      rw [if_neg (by simpa using fun hd _ => h0 hpos hd)]
      split
      · rename_i heq
        cases heq
        simp at hdigit
      · rw [← hds, magnitude?_ofNat hpos hle]
        simp only [Option.bind_some, ofMagnitude?, Bool.false_eq_true, if_false, hbound, if_true, hint, hv]

theorem magnitude?_eq_some (h : magnitude? ds = some n) :
    Digits.ofNat n = ds ∧ 0 < n ∧ n ≤ bound := by
  cases ds with
  | nil => simp [magnitude?] at h
  | cons d ds =>
      simp only [magnitude?] at h
      split at h
      · rename_i hd
        simp only [Bool.and_eq_true, bne_iff_ne, ne_eq] at hd
        rw [Digits.toNatBelow?_eq] at h
        split at h
        · rename_i hlt
          cases h
          exact ⟨Digits.ofNat_toNat hd.1 hd.2, Digits.toNat_pos hd.1 hd.2, Nat.le_of_lt_succ hlt⟩
        · cases h
      · cases h

theorem render_ofInt_neg (hpos : 0 < n) (hn : n ≤ bound) :
    render (Int64.ofInt (-(n : Int))) = 0x2d :: Digits.ofNat n := by
  have hint : (Int64.ofInt (-(n : Int))).toInt = -(n : Int) := by
    simp only [bound] at hn
    exact Int64.toInt_ofInt_of_le (by omega) (by omega)
  rw [render, if_pos ((lt_zero_iff _).mpr (by omega)), hint, Int.natAbs_neg, Int.natAbs_natCast]

theorem toInt_ofInt (hn : n < bound) : (Int64.ofInt (n : Int)).toInt = n := by
  simp only [bound] at hn
  exact Int64.toInt_ofInt_of_le (by omega) (by omega)

theorem render_ofInt (hn : n < bound) : render (Int64.ofInt (n : Int)) = Digits.ofNat n := by
  have hint : (Int64.ofInt (n : Int)).toInt = n := toInt_ofInt hn
  rw [render, if_neg (fun h => by have := (lt_zero_iff _).mp h; omega), hint, Int.natAbs_natCast]

theorem render_of_parse? (h : parse? s = some v) : render v = s := by
  unfold parse? at h
  split at h
  · rename_i hs
    cases h
    rw [hs, render, if_neg (by decide), show (0 : Int64).toInt.natAbs = 0 from rfl, Digits.ofNat,
      if_pos (by omega)]
    rfl
  · split at h
    · obtain ⟨n, hm, hn⟩ := Option.bind_eq_some_iff.mp h
      obtain ⟨hds, hpos, hle⟩ := magnitude?_eq_some hm
      simp only [ofMagnitude?, if_true, hle, Option.some.injEq] at hn
      rw [← hn, render_ofInt_neg hpos hle, hds]
    · obtain ⟨n, hm, hn⟩ := Option.bind_eq_some_iff.mp h
      obtain ⟨hds, _, _⟩ := magnitude?_eq_some hm
      simp only [ofMagnitude?, Bool.false_eq_true, if_false] at hn
      split at hn
      · rename_i hlt
        cases hn
        rw [render_ofInt hlt, hds]
      · cases hn

end Integer

/-! ## Long floats -/

namespace Literal

theorem span_ofNat (n : Nat) : Digits.span (Digits.ofNat n) = (Digits.ofNat n, []) := by
  have hall := Digits.all_isDigit_ofNat n
  rw [List.all_eq_true] at hall
  simp only [Digits.span, Prod.mk.injEq, List.takeWhile_eq_self_iff, List.dropWhile_eq_nil_iff]
  exact ⟨hall, hall⟩

theorem unsigned?_ofNat (negative : Bool) (n : Nat) :
    unsigned? negative (Digits.ofNat n) = some ⟨negative, Digits.ofNat n, [], none⟩ := by
  obtain ⟨d, ds, hds, _, _⟩ := Digits.ofNat_cons n
  have hne : (Digits.ofNat n).isEmpty = false := by rw [hds]; rfl
  simp only [unsigned?, span_ofNat, hne, Bool.false_and, Bool.false_eq_true, if_false, exponent?,
    Option.map_some]

end Literal

/-- A text that begins with a digit has no sign. -/
theorem Integer.splitSign_cons {d : UInt8} {rest : Bytes} (hd : Digits.isDigit d = true) :
    splitSign (d :: rest) = (false, d :: rest) := by
  rw [splitSign]
  · rintro _ ⟨⟩
    exact absurd hd (by decide)
  · rintro _ ⟨⟩
    exact absurd hd (by decide)

theorem Integer.splitSign_render (v : Int64) :
    splitSign (render v) = (decide (v < 0), Digits.ofNat v.toInt.natAbs) := by
  by_cases h : v < 0
  · simp [render, h, splitSign]
  · obtain ⟨d, ds, hds, hd, _⟩ := Digits.ofNat_cons v.toInt.natAbs
    rw [render, if_neg h, hds, splitSign_cons hd, decide_eq_false h]

theorem Literal.isExponentMark_of_isDigit {d : UInt8} (hd : Digits.isDigit d = true) : isExponentMark d = false := by
  have hlt := (Digits.toNat_of_isDigit hd).2
  rw [isExponentMark, Bool.or_eq_false_iff, decide_eq_false_iff_not, decide_eq_false_iff_not]
  constructor <;> (rintro rfl; exact absurd hlt (by decide))

/-- A text that has no exponent mark. -/
def Literal.Unscaled (s : Bytes) : Prop := ∀ b ∈ s, isExponentMark b = false

theorem Integer.unscaled_render (v : Int64) : Literal.Unscaled (render v) := by
  have hdigits : Literal.Unscaled (Digits.ofNat v.toInt.natAbs) := fun b hb =>
    Literal.isExponentMark_of_isDigit (List.all_eq_true.mp (Digits.all_isDigit_ofNat _) b hb)
  unfold render
  split
  · exact List.forall_mem_cons.mpr ⟨rfl, hdigits⟩
  · exact hdigits

namespace LongFloat

variable [Decimals] {s : Bytes} {x : Binary64} {d : Decimals.Decimal}

theorem decimal?_of_unscaled (hs : Literal.Unscaled s) : decimal? s = Decimals.parse? s := by
  have hany : s.any Literal.isExponentMark = false := List.any_eq_false.mpr fun b hb => by simp [hs b hb]
  rw [decimal?, hany, if_neg Bool.false_ne_true]

theorem parse?_of_decimal (hs : Literal.Unscaled s) (hx : Binary64.parse? s = some x)
    (hd : Decimals.parse? s = some d) : parse? s = some (.decimal d) := by
  rw [parse?, hx, decimal?_of_unscaled hs, hd]
  rfl

theorem parse?_of_float (hs : Literal.Unscaled s) (hx : Binary64.parse? s = some x)
    (hd : Decimals.parse? s = none) : parse? s = some (.float x) := by
  rw [parse?, hx, decimal?_of_unscaled hs, hd]
  rfl

/-- The text of an integer is read as that integer. -/
theorem parse?_render [Decimals.Lawful] (v : Int64) : parse? (Integer.render v) = some (ofInt64 v) := by
  have hlit : Literal.parse? (Integer.render v) =
      some ⟨decide (v < 0), Digits.ofNat v.toInt.natAbs, [], none⟩ := by
    simp only [Literal.parse?, Integer.splitSign_render, Literal.unsigned?_ofNat]
  have hfloat : (Binary64.parse? (Integer.render v)).isSome := by
    simp only [Binary64.parse?, Integer.splitSign_render, Literal.unsigned?_ofNat]
    split <;> rfl
  have hparts : Literal.parts ⟨decide (v < 0), Digits.ofNat v.toInt.natAbs, [], none⟩ =
      Decimals.parts (Decimals.ofInt64 v) := by
    rw [Decimals.Lawful.parts_ofInt64, Literal.parts]
    simp only [List.append_nil, Digits.toNat_ofNat, List.length_nil, DecimalParts.mk.injEq, and_true]
    by_cases h0 : v.toInt.natAbs = 0
    · have hneg : ¬ v < 0 := fun h => by
        have := (Integer.lt_zero_iff v).mp h
        omega
      simp [h0, hneg]
    · simp [h0]
  obtain ⟨x, hx⟩ := Option.isSome_iff_exists.mp hfloat
  have hread := Decimals.Lawful.parse?_of_fits hlit rfl (hparts ▸ Decimals.Lawful.mantissa_lt _)
    (hparts ▸ Decimals.Lawful.scale_le _)
  obtain ⟨d, hd, hdparts⟩ := Option.map_eq_some_iff.mp hread
  rw [parse?_of_decimal (Integer.unscaled_render v) hx hd, ofInt64, Decimals.Lawful.ext (hdparts.trans hparts)]

end LongFloat

end GraceStore
