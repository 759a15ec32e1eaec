import GraceStore.Proofs.Number.Normal
import Mathlib.Tactic.FieldSimp
import Mathlib.Tactic.NormNum

/-!
# What a quotient is rounded to

A double precision number in normal form is what the quotients near to it are rounded to: those up to half a unit
away from it, but only a quarter of a unit below it where the spacing of the numbers halves there.
-/

namespace GraceStore

theorem Rounding.halfEven_eq {n d c : Nat} (hd : 0 < d) (hlow : (c : ℚ) - 1 / 2 ≤ n / d)
    (hhigh : (n / d : ℚ) ≤ c + 1 / 2) (heven : (n / d : ℚ) = c - 1 / 2 ∨ (n / d : ℚ) = c + 1 / 2 → c % 2 = 0) :
    halfEven n d = c := by
  have hd' : (0 : ℚ) < d := Nat.cast_pos.mpr hd
  -- over the common denominator `2 * d` only whole numbers are compared
  replace hlow : 2 * c * d ≤ 2 * n + d := by
    rw [le_div_iff₀ hd'] at hlow
    have : (2 * c * d : ℚ) ≤ 2 * n + d := by linarith
    exact_mod_cast this
  replace hhigh : 2 * n ≤ (2 * c + 1) * d := by
    rw [div_le_iff₀ hd'] at hhigh
    have : (2 * n : ℚ) ≤ (2 * c + 1) * d := by linarith
    exact_mod_cast this
  replace heven : 2 * c * d = 2 * n + d ∨ 2 * n = (2 * c + 1) * d → c % 2 = 0 := by
    rintro (h | h)
    · refine heven (.inl ?_)
      have : (2 * c * d : ℚ) = 2 * n + d := by exact_mod_cast h
      rw [div_eq_iff hd'.ne']
      linarith
    · refine heven (.inr ?_)
      have : (2 * n : ℚ) = (2 * c + 1) * d := by exact_mod_cast h
      rw [div_eq_iff hd'.ne']
      linarith
  have hn : d * (n / d) + n % d = n := Nat.div_add_mod n d
  have hr : n % d < d := Nat.mod_lt n hd
  unfold halfEven
  simp only
  generalize n / d = q at hn ⊢
  generalize n % d = r at hn hr ⊢
  subst hn
  have hcq : c ≤ q + 1 := by
    by_contra hlt
    have : (q + 2) * d ≤ c * d := Nat.mul_le_mul_right d (by omega)
    linarith
  have hqc : q ≤ c := by
    by_contra hlt
    have : (c + 1) * d ≤ q * d := Nat.mul_le_mul_right d (by omega)
    linarith
  obtain rfl | rfl : c = q ∨ c = q + 1 := by omega
  · have hhalf : 2 * r ≤ d := by linarith
    rw [if_neg (show ¬ d < 2 * r by omega)]
    split
    · rfl
    · exact if_pos (heven (.inr (by linarith)))
  · have hhalf : d ≤ 2 * r := by linarith
    rw [if_neg (show ¬ 2 * r < d by omega)]
    split
    · rfl
    · refine if_neg fun hq => ?_
      have hodd := heven (.inl (by linarith))
      omega

namespace Binary64

variable {n d m : Nat} {q j : Int} {v : ℚ} {a b : Bool}

theorem cast_scaled (n d : Nat) (q : Int) :
    ((n * Nat.pow 2 (-q).toNat : Nat) : ℚ) / ((d * Nat.pow 2 q.toNat : Nat) : ℚ) = n / d / 2 ^ q := by
  rw [two_zpow, Nat.pow_eq, Nat.pow_eq, div_div, mul_div_assoc', div_div_eq_mul_div]
  push_cast
  rfl

/-! ## The size of a quotient -/

theorem floorLog_lt (hn : 0 < n) (hd : 0 < d) (h : (n / d : ℚ) < 2 ^ j) : floorLog n d < j :=
  (zpow_lt_zpow_iff_right₀ one_lt_two).mp (lt_of_le_of_lt (floorLog_spec hn hd).1 h)

theorem le_floorLog (hn : 0 < n) (hd : 0 < d) (h : (2 : ℚ) ^ j ≤ n / d) : j ≤ floorLog n d :=
  Int.lt_add_one_iff.mp ((zpow_lt_zpow_iff_right₀ one_lt_two).mp (lt_of_le_of_lt h (floorLog_spec hn hd).2))

theorem two_zpow_pos (q : Int) : (0 : ℚ) < 2 ^ q := zpow_pos two_pos q

theorem two_zpow_add (q : Int) (k : Nat) : (2 : ℚ) ^ (q + k) = 2 ^ k * 2 ^ q := by
  rw [zpow_add₀ two_ne_zero, zpow_natCast, mul_comm]

/-- Rounding does not take a quotient below a power of two. -/
theorem le_ofRatio (hn : 0 < n) (hd : 0 < d) (hj : minExponent ≤ j) (h : (2 : ℚ) ^ j ≤ n / d)
    (hx : ofRatio a n d = finite b m q) : (2 : ℚ) ^ j ≤ m * 2 ^ q := by
  obtain ⟨M, Q, hQ, hM, hcases⟩ := ofRatio_cases a hn d
  have hD : 0 < d * Nat.pow 2 Q.toNat := Nat.mul_pos hd (Nat.pow_pos two_pos)
  have hreach : (2 : ℚ) ^ j ≤ M * 2 ^ Q := by
    -- the significand reaches the largest power of two that is at most the quotient and a multiple of the unit
    obtain ⟨k, i, hk, hji, hi⟩ : ∃ (k : Nat) (i : Int), i = Q + k ∧ j ≤ i ∧ (2 : ℚ) ^ i ≤ n / d := by
      have hlog := le_floorLog hn hd h
      rcases max_choice (floorLog n d - 52) minExponent with hmax | hmax
      · exact ⟨52, floorLog n d, by omega, hlog, (floorLog_spec hn hd).1⟩
      · exact ⟨(j - Q).toNat, j, by omega, le_refl j, h⟩
    have hle : 2 ^ k ≤ M := hM ▸ Rounding.le_halfEven hD ((scaled_le_iff hd n Q k).mpr (hk ▸ hi))
    calc (2 : ℚ) ^ j ≤ 2 ^ (Q + k) := zpow_le_zpow_right₀ one_le_two (hk ▸ hji)
      _ = 2 ^ k * 2 ^ Q := two_zpow_add Q k
      _ ≤ M * 2 ^ Q := mul_le_mul_of_nonneg_right (by exact_mod_cast hle) (two_zpow_pos Q).le
  rcases hcases with heq | ⟨hfull, -, heq⟩ | ⟨-, -, heq⟩ <;> cases hx.symm.trans heq
  · rw [show Q + 1 = Q + (1 : Nat) from rfl, two_zpow_add]
    rw [hfull] at hreach
    refine hreach.trans (le_of_eq ?_)
    simp only [significandBound, hiddenBit]
    push_cast
    ring
  · exact hreach

/-! ## What rounds to a number -/

/-- How far below a number, in its units, the quotients that round to it begin. -/
def below (m : Nat) (q : Int) : ℚ := if m = hiddenBit ∧ minExponent < q then 1 / 4 else 1 / 2

/-- The quotients that round to `m * 2 ^ q`. Those farthest from it do so if the significand is even. -/
structure Near (v : ℚ) (m : Nat) (q : Int) : Prop where
  low : (m - below m q) * 2 ^ q ≤ v
  high : v ≤ (m + 1 / 2) * 2 ^ q
  even : v = (m - below m q) * 2 ^ q ∨ v = (m + 1 / 2) * 2 ^ q → m % 2 = 0

theorem below_le_half (m : Nat) (q : Int) : below m q ≤ 1 / 2 := by
  unfold below
  split <;> norm_num

theorem Near.pos (h : Near v m q) (hm : 0 < m) : 0 < v := by
  refine lt_of_lt_of_le (mul_pos ?_ (two_zpow_pos q)) h.low
  have hone : (1 : ℚ) ≤ m := by exact_mod_cast hm
  have hhalf := below_le_half m q
  linarith

theorem Near.lt_top (h : Near v m q) (hm : m < significandBound) : v < 2 ^ (q + (53 : Nat)) := by
  have hm' : (m : ℚ) + 1 ≤ 2 ^ 53 := by exact_mod_cast (show m + 1 ≤ 2 ^ 53 from hm)
  rw [two_zpow_add]
  exact lt_of_le_of_lt h.high (mul_lt_mul_of_pos_right (by linarith) (two_zpow_pos q))

/-- A quotient that is counted in the units of a number and is near to it. -/
theorem halfEven_of_near (hd : 0 < d) (h : Near (n / d) m q) :
    Rounding.halfEven (n * Nat.pow 2 (-q).toNat) (d * Nat.pow 2 q.toNat) = m := by
  have hu := two_zpow_pos q
  have hhalf := below_le_half m q
  have hlow : (m - 1 / 2 : ℚ) * 2 ^ q ≤ (m - below m q) * 2 ^ q := mul_le_mul_of_nonneg_right (by linarith) hu.le
  refine Rounding.halfEven_eq (Nat.mul_pos hd (Nat.pow_pos two_pos)) ?_ ?_ ?_ <;> rw [cast_scaled]
  · rw [le_div_iff₀ hu]
    exact hlow.trans h.low
  · rw [div_le_iff₀ hu]
    exact h.high
  · rw [div_eq_iff hu.ne', div_eq_iff hu.ne']
    rintro (heq | heq)
    · exact h.even (.inl (le_antisymm (heq ▸ hlow) h.low))
    · exact h.even (.inr heq)

/-- Below all numbers with the exponent of a number only the least of these is near, and the quotient is counted in
smaller units. -/
theorem Near.least (h : Near v m q) (hx : (finite a m q).Normal) (hlt : v < 2 ^ (q + (52 : Nat)))
    (hq : q ≠ minExponent) :
    m = hiddenBit ∧ (2 ^ 53 - 1 / 2) * 2 ^ (q - 1) ≤ v ∧ v < 2 ^ 53 * 2 ^ (q - 1) := by
  obtain ⟨-, hmin, -, hfull⟩ := hx
  have hu := two_zpow_pos q
  rw [two_zpow_add] at hlt
  have hm : m = hiddenBit := by
    by_contra hne
    have hge : (2 : ℚ) ^ 52 + 1 ≤ m := by
      exact_mod_cast (show 2 ^ 52 + 1 ≤ m from lt_of_le_of_ne (hfull.resolve_right hq) (Ne.symm hne))
    have hhalf := below_le_half m q
    have := lt_of_mul_lt_mul_right (lt_of_le_of_lt h.low hlt) hu.le
    linarith
  have hbelow : below m q = 1 / 4 := if_pos ⟨hm, lt_of_le_of_ne hmin (Ne.symm hq)⟩
  have hcast : (m : ℚ) = 2 ^ 52 := by
    rw [hm]
    norm_num [hiddenBit]
  have hhalf : (2 : ℚ) ^ q = 2 * 2 ^ (q - 1) := by
    have := two_zpow_add (q - 1) 1
    rwa [Nat.cast_one, sub_add_cancel, pow_one] at this
  have hlow := h.low
  rw [hbelow, hcast] at hlow
  rw [hhalf] at hlow hlt
  exact ⟨hm, by linarith, by linarith⟩

/-- A number in normal form is what the quotients near to it are rounded to. -/
theorem ofRatio_of_near (hx : (finite a m q).Normal) (hm : 0 < m) (hd : 0 < d) (h : Near (n / d) m q) :
    ofRatio a n d = finite a m q := by
  obtain ⟨hbound, hmin, hmax, -⟩ := id hx
  have hpos : (0 : ℚ) < n / d := h.pos hm
  have hn : 0 < n := Nat.pos_of_ne_zero fun hzero => by simp [hzero] at hpos
  unfold ofRatio
  rw [if_neg hn.ne']
  simp only
  by_cases hcase : (2 : ℚ) ^ (q + (52 : Nat)) ≤ n / d ∨ q = minExponent
  · have hQ : max (floorLog n d - 52) minExponent = q := by
      have hlt := floorLog_lt hn hd (h.lt_top hbound)
      rcases hcase with hle | hq
      · have hge := le_floorLog hn hd hle
        omega
      · omega
    rw [hQ, halfEven_of_near hd h, if_neg hbound.ne]
    exact if_neg (not_lt.mpr hmax)
  · rw [not_or, not_le] at hcase
    obtain ⟨hleast, hlow, hhigh⟩ := h.least hx hcase.1 hcase.2
    have hu := two_zpow_pos (q - 1)
    have hQ : max (floorLog n d - 52) minExponent = q - 1 := by
      have hge : q - 1 + (52 : Nat) ≤ floorLog n d := by
        refine le_floorLog hn hd ?_
        rw [two_zpow_add]
        exact le_trans (mul_le_mul_of_nonneg_right (by norm_num) hu.le) hlow
      have hlt : floorLog n d < q - 1 + (53 : Nat) := by
        refine floorLog_lt hn hd ?_
        rwa [two_zpow_add]
      omega
    -- half a unit or less is left to the next power of two
    have hM : Rounding.halfEven (n * Nat.pow 2 (-(q - 1)).toNat) (d * Nat.pow 2 (q - 1).toNat) = significandBound := by
      have hS : ((significandBound : Nat) : ℚ) = 2 ^ 53 := by norm_num [significandBound]
      refine Rounding.halfEven_eq (Nat.mul_pos hd (Nat.pow_pos two_pos)) ?_ ?_ (fun _ => by decide) <;>
        rw [cast_scaled, hS]
      · rw [le_div_iff₀ hu]
        exact hlow
      · rw [div_le_iff₀ hu]
        linarith
    rw [hQ, hM, if_pos rfl, hleast]
    simp only
    rw [sub_add_cancel, if_neg (not_lt.mpr hmax)]

end Binary64

end GraceStore
