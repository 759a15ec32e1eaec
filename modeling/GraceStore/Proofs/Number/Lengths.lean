import GraceStore.Proofs.Number.Canonical
import GraceStore.Proofs.Number.Normal

/-!
# How long the texts of numbers are

A 64-bit integer has at most twenty characters, a decimal fewer than sixty. The text of a double precision number
has no exponent, and so it may run to a few thousand.
-/

namespace GraceStore

theorem Bytes.length_trimRight_le (b : UInt8) (s : Bytes) : (Bytes.trimRight b s).length ≤ s.length := by
  have hreverse : (s.reverse.dropWhile (· == b)).length ≤ s.reverse.length := (List.dropWhile_sublist _).length_le
  rwa [List.length_reverse, ← List.length_reverse] at hreverse

namespace Digits

variable {n k places : Nat}

theorem count_le (hk : 0 < k) (h : n < 10 ^ k) : count n ≤ k := by
  induction k generalizing n with
  | zero => exact absurd hk (Nat.lt_irrefl 0)
  | succ k ih =>
      rw [count]
      split
      · exact hk
      · rename_i hn
        have hrest : n / 10 < 10 ^ k := Nat.div_lt_of_lt_mul (by rwa [← Nat.pow_succ'])
        refine Nat.succ_le_succ (ih ?_ hrest)
        exact Nat.pos_of_ne_zero fun hzero => hn (by rwa [hzero] at h)

theorem length_padded (h : n < 10 ^ places) (hp : 0 < places) : (padded places n).length = places := by
  have hcount : count n ≤ places := count_le hp h
  simp only [padded, List.length_append, List.length_replicate, length_ofNat]
  omega

/-- A number below `10 ^ k` by `k` digits, leading zeros included. -/
def fixed (k n : Nat) : Bytes := if k = 0 then [] else padded k n

theorem length_fixed (h : n < 10 ^ k) : (fixed k n).length = k := by
  unfold fixed
  split
  · exact ‹k = 0›.symm
  · exact length_padded h (Nat.pos_of_ne_zero ‹_›)

theorem length_fixedPoint_le (hk : 0 < k) (h : n < 10 ^ k) (places : Nat) :
    (fixedPoint n places).length ≤ k + places + 1 := by
  have hone : 0 < Nat.pow 10 places := Nat.pow_pos (by decide)
  have hwhole : (ofNat (n / Nat.pow 10 places)).length ≤ k := by
    rw [length_ofNat]
    exact count_le hk (Nat.lt_of_le_of_lt (Nat.div_le_self _ _) h)
  have hfraction : (Bytes.trimRight 0x30 (if places = 0 then [] else padded places (n % Nat.pow 10 places))).length ≤
      places := (Bytes.length_trimRight_le _ _).trans (length_fixed (Nat.mod_lt _ hone)).le
  unfold fixedPoint
  simp only
  generalize Bytes.trimRight 0x30 (if places = 0 then [] else padded places (n % Nat.pow 10 places)) = fraction at *
  split
  · omega
  · simp only [List.length_append, List.length_singleton]
    omega

end Digits

theorem Integer.length_render_le (v : Int64) : (Integer.render v).length ≤ 20 := by
  have hmagnitude : v.toInt.natAbs < 10 ^ 19 := Nat.lt_of_le_of_lt (Integer.natAbs_le v) (by decide)
  have hcount : Digits.count v.toInt.natAbs ≤ 19 := Digits.count_le (by decide) hmagnitude
  rw [Integer.length_render, Integer.width]
  split <;> omega

theorem DecimalParts.length_text_le {p : DecimalParts} (hm : p.mantissa < 2 ^ 96) (hs : p.scale ≤ 28) :
    p.text.length ≤ 59 := by
  have hone : 0 < Nat.pow 10 p.scale := Nat.pow_pos (by decide)
  have hwhole : (Digits.ofNat (p.mantissa / Nat.pow 10 p.scale)).length ≤ 29 := by
    rw [Digits.length_ofNat]
    have hlt : p.mantissa < 10 ^ 29 := Nat.lt_trans hm (by decide)
    exact Digits.count_le (by decide) (Nat.lt_of_le_of_lt (Nat.div_le_self _ _) hlt)
  have hfraction (h : p.scale ≠ 0) : (Digits.padded p.scale (p.mantissa % Nat.pow 10 p.scale)).length = p.scale :=
    Digits.length_padded (Nat.mod_lt _ hone) (Nat.pos_of_ne_zero h)
  have hunsigned : (if p.scale = 0 then Digits.ofNat (p.mantissa / Nat.pow 10 p.scale) else
      Digits.ofNat (p.mantissa / Nat.pow 10 p.scale) ++ [0x2e] ++
        Digits.padded p.scale (p.mantissa % Nat.pow 10 p.scale)).length ≤ 58 := by
    split
    · omega
    · rename_i h
      simp only [List.length_append, List.length_singleton, hfraction h]
      omega
  unfold text
  simp only
  split
  · rw [List.length_cons]
    omega
  · omega

theorem LongFloat.length_render_decimal_le [Decimals] [Decimals.Lawful] (d : Decimals.Decimal) :
    (render (.decimal d)).length ≤ 59 := by
  unfold render
  simp only
  split
  · decide
  · rw [Decimals.Lawful.render_eq]
    exact DecimalParts.length_text_le (Decimals.Lawful.mantissa_lt _) (Decimals.Lawful.scale_le _)

namespace Binary64

variable {m n : Nat} {q k : Int}

theorem mul_two_pow_lt {a b r : Nat} (h : n < 2 ^ a) (hr : a + b ≤ 3 * r) : n * 2 ^ b < 10 ^ r :=
  calc n * 2 ^ b < 2 ^ a * 2 ^ b := Nat.mul_lt_mul_of_pos_right h (Nat.pow_pos (by decide))
    _ = 2 ^ (a + b) := (Nat.pow_add 2 a b).symm
    _ ≤ 2 ^ (3 * r) := Nat.pow_le_pow_right (by decide) hr
    _ = 8 ^ r := Nat.pow_mul 2 3 r
    _ ≤ 10 ^ r := Nat.pow_le_pow_left (by decide) r

theorem mul_ten_pow_lt {a b r : Nat} (h : n < 10 ^ a) (hr : a + b ≤ r) : n * 10 ^ b < 10 ^ r :=
  calc n * 10 ^ b < 10 ^ a * 10 ^ b := Nat.mul_lt_mul_of_pos_right h (Nat.pow_pos (by decide))
    _ = 10 ^ (a + b) := (Nat.pow_add 10 a b).symm
    _ ≤ 10 ^ r := Nat.pow_le_pow_right (by decide) hr

theorem decimalTop_bounds (hm : m < significandBound) (hq : q ≤ maxExponent) :
    -decimalReach < decimalTop m q ∧ decimalTop m q ≤ 342 := by
  have hvalue : m * 2 ^ q.toNat < 10 ^ 342 := mul_two_pow_lt (a := 53) hm (by simp only [maxExponent] at hq; omega)
  simp only [decimalTop, scaled, Nat.pow_eq]
  generalize decimalReach = r
  have hnumber : m * 2 ^ q.toNat * 10 ^ r / 2 ^ (-q).toNat < 10 ^ (342 + r) :=
    Nat.lt_of_le_of_lt (Nat.div_le_self _ _) (mul_ten_pow_lt hvalue (Nat.le_refl _))
  have hle := Digits.count_le (Nat.add_pos_left (by decide) r) hnumber
  have hpos (n : Nat) : 0 < Digits.count n := by
    rw [Digits.count]
    split
    · exact Nat.one_pos
    · exact Nat.succ_pos _
  have hpos := hpos (m * 2 ^ q.toNat * 10 ^ r / 2 ^ (-q).toNat)
  generalize Digits.count _ = c at hle hpos ⊢
  clear hvalue hnumber
  omega

theorem gridPoint?_lt {c : Nat} (hm : m < significandBound) (hq : q ≤ maxExponent) (h : gridPoint? m q k = some c) :
    c < 10 ^ (343 + (-k).toNat) := by
  have hfloor : ∃ unit, c ≤ 4 * m * (1 * Nat.pow 2 (q - 2).toNat) * Nat.pow 10 (-k).toNat / unit + 1 := by
    have hnearer (p : Prop) [Decidable p] (x : Nat) : (if p then x else x + 1) ≤ x + 1 := by
      split
      · exact Nat.le_succ _
      · exact Nat.le_refl _
    unfold gridPoint? at h
    simp only [scaled] at h
    split at h
    · cases h
      exact ⟨_, hnearer _ _⟩
    · cases h
      exact ⟨_, Nat.le_succ _⟩
    · cases h
      exact ⟨_, Nat.le_refl _⟩
    · cases h
  obtain ⟨unit, hunit⟩ := hfloor
  have hvalue : 4 * m * (1 * 2 ^ (q - 2).toNat) < 10 ^ 342 := by
    rw [Nat.one_mul]
    refine mul_two_pow_lt (a := 55) ?_ (by simp only [maxExponent] at hq; omega)
    simp only [significandBound] at hm
    omega
  have hhere : 4 * m * (1 * 2 ^ (q - 2).toNat) * 10 ^ (-k).toNat < 10 ^ (342 + (-k).toNat) :=
    mul_ten_pow_lt hvalue (Nat.le_refl _)
  have hpower : 10 ^ (343 + (-k).toNat) = 10 ^ (342 + (-k).toNat) * 10 := by rw [← Nat.pow_succ, Nat.succ_add]
  have hfloor := Nat.div_le_self (4 * m * (1 * Nat.pow 2 (q - 2).toNat) * Nat.pow 10 (-k).toNat) unit
  have hpos : 0 < 10 ^ (342 + (-k).toNat) := Nat.pow_pos (by decide)
  simp only [Nat.pow_eq] at hunit hfloor
  omega

/-- Whatever its digits are, a number in normal form is written with at most a thousand places before the point and
1074 after it. -/
theorem shortest_bounds (hm : m < significandBound) (hmin : minExponent ≤ q) (hq : q ≤ maxExponent) :
    (shortest m q).1 * 10 ^ (shortest m q).2.toNat < 10 ^ 1000 ∧ (-(shortest m q).2).toNat ≤ 1074 := by
  obtain ⟨hlow, hhigh⟩ := decimalTop_bounds hm hq
  unfold shortest
  simp only
  simp only [decimalReach] at hlow
  generalize decimalTop m q = top at hlow hhigh ⊢
  cases hfound : (List.range 17).findSome? fun i =>
      (gridPoint? m q (top - (i + 1 : Nat))).map (·, top - (i + 1 : Nat)) with
  | none =>
      simp only [Option.getD_none, minExponent, maxExponent] at hmin hq ⊢
      exact ⟨mul_ten_pow_lt (a := 16) (Nat.lt_trans hm (by decide)) (by omega), by omega⟩
  | some found =>
      obtain ⟨i, hi, hgrid⟩ := List.exists_of_findSome?_eq_some hfound
      obtain ⟨c, hc, rfl⟩ := Option.map_eq_some_iff.mp hgrid
      have hi := List.mem_range.mp hi
      simp only [Option.getD_some]
      exact ⟨mul_ten_pow_lt (gridPoint?_lt hm hq hc) (by omega), by omega⟩

theorem length_render_le {x : Binary64} (h : x.Normal) : x.render.length ≤ 2076 := by
  cases x with
  | nan => decide
  | infinite a => cases a <;> decide
  | finite a m q =>
      obtain ⟨hm, hmin, hmax, -⟩ := h
      obtain ⟨hvalue, hplaces⟩ := shortest_bounds hm hmin hmax
      have htext := Digits.length_fixedPoint_le (by decide) hvalue (-(shortest m q).2).toNat
      simp only [render]
      split
      · exact Nat.le_add_left 1 2075
      · split
        · rw [List.length_cons]
          exact Nat.succ_le_succ (Nat.le_trans htext (by omega))
        · exact Nat.le_trans htext (by omega)

end Binary64

/-- However many digits its operands were written with, a sum has a short text. -/
theorem LongFloat.length_render_add [Decimals] [Decimals.Lawful] {a b sum : LongFloat} (h : a.add? b = some sum) :
    sum.render.length ≤ 2076 := by
  have hfloats {a b : LongFloat} (h : addFloats? a b = some sum) : sum.render.length ≤ 2076 := by
    unfold addFloats? at h
    simp only at h
    split at h
    · cases h
      exact Binary64.length_render_le (Binary64.normal_add _ _)
    · cases h
  unfold add? at h
  split at h
  · split at h
    · cases h
      exact Nat.le_trans (length_render_decimal_le _) (by decide)
    · exact hfloats h
  · exact hfloats h

end GraceStore
