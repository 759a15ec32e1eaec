import GraceStore.Number.Binary64
import Mathlib.Algebra.Order.Field.Power
import Mathlib.Data.Rat.Cast.Order
import Mathlib.Tactic.Linarith
import Mathlib.Tactic.Ring

/-!
# Normal forms of double precision numbers

Every quotient is rounded to a number in normal form. So every sum is in normal form, whatever its operands are.
-/

namespace GraceStore

namespace Rounding

variable {n d c : Nat}

theorem halfEven_le (hd : 0 < d) (h : n < c * d) : halfEven n d ≤ c := by
  have hnear := (halfEven_near n hd).2
  refine Nat.le_of_lt_succ (Nat.lt_of_mul_lt_mul_right (a := 2 * d) ?_)
  nlinarith

theorem le_halfEven (hd : 0 < d) (h : c * d ≤ n) : c ≤ halfEven n d := by
  have hnear := (halfEven_near n hd).1
  refine Nat.le_of_lt_succ (Nat.lt_of_mul_lt_mul_right (a := 2 * d) ?_)
  nlinarith

end Rounding

namespace Binary64

variable {n d : Nat} {q : Int}

/-! ## The size of a quotient -/

theorem zpow_eq_div {b : ℚ} (hb : b ≠ 0) (q : Int) : b ^ q = b ^ q.toNat / b ^ (-q).toNat := by
  have hq : q = (q.toNat : Int) - ((-q).toNat : Int) := by omega
  conv_lhs => rw [hq]
  rw [zpow_sub₀ hb, zpow_natCast, zpow_natCast]

theorem two_zpow (q : Int) : (2 : ℚ) ^ q = 2 ^ q.toNat / 2 ^ (-q).toNat := zpow_eq_div two_ne_zero q

theorem scaled_le_iff (hd : 0 < d) (n : Nat) (q : Int) (k : Nat) :
    2 ^ k * (d * Nat.pow 2 q.toNat) ≤ n * Nat.pow 2 (-q).toNat ↔ (2 : ℚ) ^ (q + k) ≤ n / d := by
  have hd' : (0 : ℚ) < d := Nat.cast_pos.mpr hd
  have hp : (0 : ℚ) < 2 ^ (-q).toNat := pow_pos two_pos _
  rw [le_div_iff₀ hd', zpow_add₀ two_ne_zero, zpow_natCast, two_zpow, div_mul_eq_mul_div, div_mul_eq_mul_div,
    div_le_iff₀ hp, Nat.pow_eq, Nat.pow_eq, ← Nat.cast_le (α := ℚ)]
  push_cast
  rw [show (2 : ℚ) ^ k * (d * 2 ^ q.toNat) = 2 ^ q.toNat * 2 ^ k * d by ring]

theorem floorLog_spec (hn : 0 < n) (hd : 0 < d) :
    (2 : ℚ) ^ floorLog n d ≤ n / d ∧ (n / d : ℚ) < 2 ^ (floorLog n d + 1) := by
  have hn' : (0 : ℚ) < n := Nat.cast_pos.mpr hn
  have hd' : (0 : ℚ) < d := Nat.cast_pos.mpr hd
  have hnlow : (2 : ℚ) ^ n.log2 ≤ n := by exact_mod_cast Nat.log2_self_le (Nat.pos_iff_ne_zero.mp hn)
  have hnhigh : (n : ℚ) < 2 ^ (n.log2 + 1) := by exact_mod_cast Nat.lt_log2_self
  have hdlow : (2 : ℚ) ^ d.log2 ≤ d := by exact_mod_cast Nat.log2_self_le (Nat.pos_iff_ne_zero.mp hd)
  have hdhigh : (d : ℚ) < 2 ^ (d.log2 + 1) := by exact_mod_cast Nat.lt_log2_self
  have hlow : (2 : ℚ) ^ ((n.log2 : Int) - d.log2 - 1) ≤ n / d := by
    rw [sub_sub, zpow_sub₀ two_ne_zero, zpow_natCast, show (d.log2 : Int) + 1 = ((d.log2 + 1 : Nat) : Int) from rfl,
      zpow_natCast]
    exact div_le_div₀ hn'.le hnlow hd' hdhigh.le
  have hhigh : (n / d : ℚ) < 2 ^ ((n.log2 : Int) - d.log2 + 1) := by
    rw [sub_add_eq_add_sub, zpow_sub₀ two_ne_zero, zpow_natCast,
      show (n.log2 : Int) + 1 = ((n.log2 + 1 : Nat) : Int) from rfl, zpow_natCast]
    exact div_lt_div₀ hnhigh hdlow (pow_nonneg two_pos.le _) (pow_pos two_pos _)
  have hiff := scaled_le_iff hd n ((n.log2 : Int) - d.log2) 0
  rw [pow_zero, Nat.one_mul, Nat.cast_zero, add_zero] at hiff
  unfold floorLog
  simp only
  split
  · rename_i h
    exact ⟨hiff.mp h, hhigh⟩
  · rename_i h
    exact ⟨hlow, by rw [sub_add_cancel]; exact not_le.mp (hiff.not.mp h)⟩

/-! ## Rounding -/

/-- A quotient is counted in units of a power of two; a significand that is full takes the next power, and what is too
large is infinite. -/
theorem ofRatio_cases (negative : Bool) (hn : 0 < n) (d : Nat) : ∃ m q, q = max (floorLog n d - 52) minExponent ∧
    m = Rounding.halfEven (n * Nat.pow 2 (-q).toNat) (d * Nat.pow 2 q.toNat) ∧
    (ofRatio negative n d = infinite negative ∨
      (m = significandBound ∧ q + 1 ≤ maxExponent ∧ ofRatio negative n d = finite negative hiddenBit (q + 1)) ∨
      (m ≠ significandBound ∧ q ≤ maxExponent ∧ ofRatio negative n d = finite negative m q)) := by
  refine ⟨_, _, rfl, rfl, ?_⟩
  unfold ofRatio
  rw [if_neg hn.ne']
  simp only
  generalize Rounding.halfEven _ _ = m
  generalize max (floorLog n d - 52) minExponent = q
  by_cases hfull : m = significandBound
  · rw [if_pos hfull]
    simp only
    split
    · exact .inl rfl
    · exact .inr (.inl ⟨hfull, not_lt.mp ‹_›, rfl⟩)
  · rw [if_neg hfull]
    simp only
    split
    · exact .inl rfl
    · exact .inr (.inr ⟨hfull, not_lt.mp ‹_›, rfl⟩)

theorem normal_ofRatio (negative : Bool) (n : Nat) (hd : 0 < d) : (ofRatio negative n d).Normal := by
  rcases Nat.eq_zero_or_pos n with rfl | hn
  · exact ⟨by decide, le_refl _, by decide, .inr rfl⟩
  · obtain ⟨hlow, hhigh⟩ := floorLog_spec hn hd
    obtain ⟨m, q, hq, hm, hcases⟩ := ofRatio_cases negative hn d
    have hmin : minExponent ≤ q := hq ▸ le_max_right _ _
    have hD : 0 < d * Nat.pow 2 q.toNat := Nat.mul_pos hd (Nat.pow_pos two_pos)
    have hle : m ≤ significandBound := by
      rw [hm]
      refine Rounding.halfEven_le hD ?_
      rw [show significandBound = 2 ^ 53 by decide, ← not_le, scaled_le_iff hd n q 53, not_le]
      have hle : floorLog n d - 52 ≤ q := hq ▸ le_max_left _ _
      exact lt_of_lt_of_le hhigh (zpow_le_zpow_right₀ one_le_two (by omega))
    have hfull : hiddenBit ≤ m ∨ q = minExponent := by
      rcases max_choice (floorLog n d - 52) minExponent with h | h
      · left
        rw [hm]
        refine Rounding.le_halfEven hD ?_
        rw [show hiddenBit = 2 ^ 52 by decide, scaled_le_iff hd n q 52, hq, h, Nat.cast_ofNat, sub_add_cancel]
        exact hlow
      · exact .inr (hq.trans h)
    rcases hcases with heq | ⟨-, hmax, heq⟩ | ⟨hne, hmax, heq⟩ <;> rw [heq]
    · trivial
    · exact ⟨show hiddenBit < significandBound by decide, Int.le_add_one hmin, hmax, .inl (le_refl _)⟩
    · exact ⟨lt_of_le_of_ne hle hne, hmin, hmax, hfull⟩

theorem normal_add (a b : Binary64) : (a.add b).Normal := by
  cases a <;> cases b <;> simp only [add]
  all_goals try trivial
  · split <;> trivial
  · split
    · exact ⟨by decide, le_refl _, by decide, .inr rfl⟩
    · exact normal_ofRatio _ _ (Nat.pow_pos two_pos)

end Binary64

end GraceStore
