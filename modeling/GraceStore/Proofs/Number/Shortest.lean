import GraceStore.Proofs.Number.Lengths
import GraceStore.Proofs.Number.Nearest

/-!
# The shortest text of a number

The shortest decimal of a double precision number has at most seventeen digits, and is among the quotients that round
to the number. So its text reads back as the number.
-/

namespace GraceStore

namespace Digits

variable {n : Nat}

theorem count_pos (n : Nat) : 0 < count n := by
  rw [count]
  split
  · exact Nat.one_pos
  · exact Nat.succ_pos _

theorem lt_pow_count (n : Nat) : n < 10 ^ count n := by
  induction n using Nat.strongRecOn with
  | ind n ih =>
      rw [count]
      split
      · assumption
      · have hrest := ih (n / 10) (by omega)
        rw [Nat.pow_succ]
        omega

theorem pow_count_le (hn : 0 < n) : 10 ^ (count n - 1) ≤ n := by
  induction n using Nat.strongRecOn with
  | ind n ih =>
      rw [count]
      split
      · exact hn
      · have hrest := ih (n / 10) (by omega) (by omega)
        have hpos := count_pos (n / 10)
        rw [show count (n / 10) + 1 - 1 = count (n / 10) - 1 + 1 by omega, Nat.pow_succ]
        omega

end Digits

namespace Binary64

variable {m c n : Nat} {q k : Int}

theorem ten_zpow_pos (k : Int) : (0 : ℚ) < 10 ^ k := zpow_pos (by norm_num) k

/-! ## The grid of decimals -/

/-- Multiples of `2 ^ (q - 2)` and of `10 ^ k` are compared over a common unit. -/
theorem grid_le_iff (x c : Nat) (q k : Int) :
    (x * (1 * Nat.pow 2 (q - 2).toNat) * Nat.pow 10 (-k).toNat ≤ c * (Nat.pow 2 (-(q - 2)).toNat * Nat.pow 10 k.toNat) ↔
      (x : ℚ) * 2 ^ (q - 2) ≤ c * 10 ^ k) ∧
    (c * (Nat.pow 2 (-(q - 2)).toNat * Nat.pow 10 k.toNat) ≤ x * (1 * Nat.pow 2 (q - 2).toNat) * Nat.pow 10 (-k).toNat ↔
      (c : ℚ) * 10 ^ k ≤ x * 2 ^ (q - 2)) := by
  have hten : (0 : ℚ) < 10 ^ (-k).toNat := by positivity
  have htwo : (0 : ℚ) < 2 ^ (-(q - 2)).toNat := by positivity
  rw [two_zpow, zpow_eq_div (show (10 : ℚ) ≠ 0 by norm_num) k, mul_div_assoc', mul_div_assoc',
    div_le_div_iff₀ htwo hten, div_le_div_iff₀ hten htwo]
  constructor <;> rw [← Nat.cast_le (α := ℚ)] <;> simp only [Nat.pow_eq, Nat.cast_mul, Nat.cast_pow, Nat.cast_ofNat,
    one_mul] <;> ring_nf

theorem quarter (q : Int) : (2 : ℚ) ^ q = 4 * 2 ^ (q - 2) := by
  have h := two_zpow_add (q - 2) 2
  rw [Nat.cast_ofNat, sub_add_cancel] at h
  rw [h]
  norm_num

/-- Which of the multiples of `10 ^ k` read back is told by whole numbers. -/
theorem near_iff (hm : 0 < m) (c : Nat) (q k : Int) :
    let gap := if m = hiddenBit ∧ minExponent < q then 1 else 2
    let times (x : Nat) := x * (1 * Nat.pow 2 (q - 2).toNat) * Nat.pow 10 (-k).toNat
    let unit := Nat.pow 2 (-(q - 2)).toNat * Nat.pow 10 k.toNat
    (if m % 2 = 0 then decide (times (4 * m - gap) ≤ c * unit) && decide (c * unit ≤ times (4 * m + 2))
      else decide (times (4 * m - gap) < c * unit) && decide (c * unit < times (4 * m + 2))) = true ↔
      Near (c * 10 ^ k) m q := by
  intro gap times unit
  have hgap : gap ≤ 4 * m := by
    have : gap ≤ 2 := by
      simp only [gap]
      split <;> omega
    omega
  have hlow : ((4 * m - gap : Nat) : ℚ) * 2 ^ (q - 2) = (m - below m q) * 2 ^ q := by
    have hbelow : below m q = gap / 4 := by
      simp only [below, gap]
      split <;> norm_num
    rw [quarter q, hbelow, Nat.cast_sub hgap]
    push_cast
    ring
  have hhigh : ((4 * m + 2 : Nat) : ℚ) * 2 ^ (q - 2) = (m + 1 / 2) * 2 ^ q := by
    rw [quarter q]
    push_cast
    ring
  have hle := (grid_le_iff (4 * m - gap) c q k).1
  have hle' := (grid_le_iff (4 * m + 2) c q k).2
  have hge := (grid_le_iff (4 * m - gap) c q k).2
  have hge' := (grid_le_iff (4 * m + 2) c q k).1
  rw [hlow] at hle hge
  rw [hhigh] at hle' hge'
  split
  · rename_i heven
    rw [Bool.and_eq_true, decide_eq_true_eq, decide_eq_true_eq]
    exact ⟨fun h => ⟨hle.mp h.1, hle'.mp h.2, fun _ => heven⟩, fun h => ⟨hle.mpr h.low, hle'.mpr h.high⟩⟩
  · rename_i hodd
    rw [Bool.and_eq_true, decide_eq_true_eq, decide_eq_true_eq]
    constructor
    · rintro ⟨h₁, h₂⟩
      have h₁ : ¬ (c * 10 ^ k : ℚ) ≤ _ := hge.not.mp (Nat.not_le.mpr h₁)
      have h₂ : ¬ _ ≤ (c * 10 ^ k : ℚ) := hge'.not.mp (Nat.not_le.mpr h₂)
      exact ⟨(not_le.mp h₁).le, (not_le.mp h₂).le, fun h => h.elim (fun h => absurd h.le h₁) fun h => absurd h.ge h₂⟩
    · intro h
      refine ⟨Nat.not_le.mp (hge.not.mpr fun hle => hodd (h.even (.inl (le_antisymm hle h.low)))), ?_⟩
      exact Nat.not_le.mp (hge'.not.mpr fun hge => hodd (h.even (.inr (le_antisymm h.high hge))))

/-- Of the two neighbours of a number on the grid one is taken that reads back, if there is one. -/
theorem gridPoint?_spec (hm : 0 < m) (q k : Int) : ∃ c : Nat, (c : ℚ) * 10 ^ k ≤ m * 2 ^ q ∧
    (m * 2 ^ q : ℚ) < (c + 1) * 10 ^ k ∧
    ((gridPoint? m q k = none ∧ ¬ Near (c * 10 ^ k) m q ∧ ¬ Near ((c + 1 : Nat) * 10 ^ k) m q) ∨
      ∃ n, gridPoint? m q k = some n ∧ (n = c ∨ n = c + 1) ∧ Near (n * 10 ^ k) m q) := by
  have hunit : 0 < Nat.pow 2 (-(q - 2)).toNat * Nat.pow 10 k.toNat :=
    Nat.mul_pos (Nat.pow_pos (by decide)) (Nat.pow_pos (by decide))
  have hwhole : ((4 * m : Nat) : ℚ) * 2 ^ (q - 2) = m * 2 ^ q := by
    rw [quarter q]
    push_cast
    ring
  have hgrid (c : Nat) := grid_le_iff (4 * m) c q k
  rw [hwhole] at hgrid
  have hread (c : Nat) := near_iff hm c q k
  have hfloor := Nat.div_mul_le_self (4 * m * (1 * Nat.pow 2 (q - 2).toNat) * Nat.pow 10 (-k).toNat)
    (Nat.pow 2 (-(q - 2)).toNat * Nat.pow 10 k.toNat)
  have hceil := Nat.lt_mul_div_succ (4 * m * (1 * Nat.pow 2 (q - 2).toNat) * Nat.pow 10 (-k).toNat) hunit
  rw [Nat.mul_comm (Nat.pow 2 _ * _) (_ + 1)] at hceil
  simp only at hread
  refine ⟨_, (hgrid _).2.mp hfloor, ?_, ?_⟩
  · have hlt := (hgrid _).2.not.mp (Nat.not_le.mpr hceil)
    rwa [not_le, Nat.cast_succ] at hlt
  · unfold gridPoint?
    simp only [scaled]
    split
    · rename_i hc hc'
      -- both read back, and the nearer is taken
      rcases ite_eq_or_eq (2 * _ < _) _ _ with he | he
      · exact .inr ⟨_, congrArg some he, .inl rfl, (hread _).mp hc⟩
      · exact .inr ⟨_, congrArg some he, .inr rfl, (hread _).mp hc'⟩
    · exact .inr ⟨_, rfl, .inl rfl, (hread _).mp ‹_›⟩
    · exact .inr ⟨_, rfl, .inr rfl, (hread _).mp ‹_›⟩
    · rename_i hc hc'
      exact .inl ⟨rfl, fun hnear => Bool.false_ne_true (hc.symm.trans ((hread _).mpr hnear)),
        fun hnear => Bool.false_ne_true (hc'.symm.trans ((hread _).mpr hnear))⟩

/-- One neighbour reads back if the grid is finer than twice what rounds to the number from below. -/
theorem gridPoint?_ne_none (hm : 0 < m) (hfine : (10 : ℚ) ^ k < 2 * below m q * 2 ^ q) : gridPoint? m q k ≠ none := by
  have hhalf : below m q * 2 ^ q ≤ 1 / 2 * 2 ^ q := mul_le_mul_of_nonneg_right (below_le_half m q) (two_zpow_pos q).le
  obtain ⟨c, hfloor, hceil, ⟨-, hdown, hup⟩ | ⟨n, hn, -⟩⟩ := gridPoint?_spec hm q k
  · exfalso
    by_cases hnearer : m * 2 ^ q - (c : ℚ) * 10 ^ k ≤ 10 ^ k / 2
    · refine hdown ⟨by linarith, by linarith, fun hends => ?_⟩
      rcases hends with hends | hends <;> linarith [two_zpow_pos q]
    · rw [not_le] at hnearer
      have hstep : ((c + 1 : Nat) : ℚ) * 10 ^ k = c * 10 ^ k + 10 ^ k := by
        push_cast
        ring
      rw [hstep] at hup
      refine hup ⟨by linarith, by linarith, fun hends => ?_⟩
      rcases hends with hends | hends <;> linarith
  · rw [hn]
    exact Option.some_ne_none n

/-! ## Seventeen digits -/

/-- A number lies between the powers of ten around its first digit. -/
theorem decimalTop_spec (hm : 0 < m) (hq : minExponent ≤ q) :
    (10 : ℚ) ^ (decimalTop m q - 1) ≤ m * 2 ^ q ∧ (m * 2 ^ q : ℚ) < 10 ^ decimalTop m q := by
  have hten : (10 : ℚ) ≠ 0 := by norm_num
  have hden : 0 < Nat.pow 2 (-q).toNat := Nat.pow_pos (by decide)
  have hden' : (0 : ℚ) < Nat.pow 2 (-q).toNat := Nat.cast_pos.mpr hden
  have hvalue : (m * 2 ^ q : ℚ) = (m * Nat.pow 2 q.toNat : Nat) / (Nat.pow 2 (-q).toNat : Nat) := by
    rw [two_zpow, Nat.pow_eq, Nat.pow_eq]
    push_cast
    rw [mul_div_assoc']
  simp only [decimalTop, scaled]
  generalize hr : decimalReach = r
  -- the digits are counted before the point of the number times a large power of ten
  have hfloor := Nat.div_mul_le_self (m * Nat.pow 2 q.toNat * Nat.pow 10 r) (Nat.pow 2 (-q).toNat)
  have hceil := Nat.lt_mul_div_succ (m * Nat.pow 2 q.toNat * Nat.pow 10 r) hden
  have hpos : 0 < m * Nat.pow 2 q.toNat * Nat.pow 10 r / Nat.pow 2 (-q).toNat := by
    refine Nat.div_pos ?_ hden
    have hle : Nat.pow 2 (-q).toNat ≤ Nat.pow 10 r := by
      calc 2 ^ (-q).toNat ≤ 2 ^ (3 * r) := Nat.pow_le_pow_right (by decide) (by
            simp only [minExponent] at hq
            simp only [← hr, decimalReach]
            omega)
        _ = 8 ^ r := Nat.pow_mul 2 3 r
        _ ≤ 10 ^ r := Nat.pow_le_pow_left (by decide) r
    exact Nat.le_trans hle (Nat.le_mul_of_pos_left _ (Nat.mul_pos hm (Nat.pow_pos (by decide))))
  generalize m * Nat.pow 2 q.toNat * Nat.pow 10 r / Nat.pow 2 (-q).toNat = n at hfloor hceil hpos ⊢
  have hlow := Digits.pow_count_le hpos
  have hhigh := Digits.lt_pow_count n
  have hcount := Digits.count_pos n
  have hreach : (0 : ℚ) < 10 ^ r := by positivity
  rw [hvalue, show (Digits.count n : Int) - r - 1 = ((Digits.count n - 1 : Nat) : Int) - r by omega, zpow_sub₀ hten,
    zpow_sub₀ hten, zpow_natCast, zpow_natCast, zpow_natCast, div_le_div_iff₀ hreach hden',
    div_lt_div_iff₀ hden' hreach]
  constructor
  · exact_mod_cast Nat.le_trans (Nat.mul_le_mul_right _ hlow) hfloor
  · have hlt := Nat.lt_of_lt_of_le hceil (Nat.mul_le_mul_left _ hhigh)
    rw [Nat.mul_comm (Nat.pow 2 _)] at hlt
    exact_mod_cast hlt

/-- Seventeen digits are enough to read back. -/
theorem gridPoint?_seventeen {a : Bool} (hx : (finite a m q).Normal) (hm : 0 < m) :
    gridPoint? m q (decimalTop m q - (16 + 1 : Nat)) ≠ none := by
  obtain ⟨hbound, hmin, -, -⟩ := hx
  have hten : (10 : ℚ) ≠ 0 := by norm_num
  refine gridPoint?_ne_none hm ?_
  have hsplit : (10 : ℚ) ^ (decimalTop m q - (16 + 1 : Nat)) = 10 ^ (decimalTop m q - 1) / 10 ^ 16 := by
    rw [← zpow_natCast, ← zpow_sub₀ hten]
    congr 1
    omega
  have hdigits : (m : ℚ) < 2 * below m q * 10 ^ 16 := by
    unfold below
    split
    · rename_i h
      rw [h.1]
      norm_num [hiddenBit]
    · have : (m : ℚ) < 2 ^ 53 := by exact_mod_cast (show m < 2 ^ 53 from hbound)
      linarith
  rw [hsplit, div_lt_iff₀ (by positivity)]
  calc (10 : ℚ) ^ (decimalTop m q - 1) ≤ m * 2 ^ q := (decimalTop_spec hm hmin).1
    _ < 2 * below m q * 10 ^ 16 * 2 ^ q := mul_lt_mul_of_pos_right hdigits (two_zpow_pos q)
    _ = 2 * below m q * 2 ^ q * 10 ^ 16 := by ring

/-- The shortest decimal of a number is near to it, and has at most seventeen digits. -/
theorem shortest_spec {a : Bool} (hx : (finite a m q).Normal) (hm : 0 < m) : ∃ i : Nat, i ≤ 17 ∧
    (shortest m q).2 = decimalTop m q - i ∧ (shortest m q).1 ≤ 10 ^ i ∧
    Near ((shortest m q).1 * 10 ^ (shortest m q).2) m q := by
  have hhigh := (decimalTop_spec hm hx.2.1).2
  have hlast := gridPoint?_seventeen hx hm
  unfold shortest
  simp only
  generalize decimalTop m q = top at hhigh hlast ⊢
  cases hfound : (List.range 17).findSome? fun i =>
      (gridPoint? m q (top - (i + 1 : Nat))).map (·, top - (i + 1 : Nat)) with
  | none =>
      have h := List.findSome?_eq_none_iff.mp hfound 16 (by decide)
      exact absurd (Option.map_eq_none_iff.mp h) hlast
  | some found =>
      obtain ⟨i, hi, hgrid⟩ := List.exists_of_findSome?_eq_some hfound
      obtain ⟨n, hn, rfl⟩ := Option.map_eq_some_iff.mp hgrid
      have hi := List.mem_range.mp hi
      obtain ⟨c, hfloor, -, ⟨hnone, -⟩ | ⟨n', hn', hnc, hnear⟩⟩ := gridPoint?_spec hm q (top - (i + 1 : Nat))
      · cases hn.symm.trans hnone
      cases hn.symm.trans hn'
      refine ⟨i + 1, hi, rfl, ?_, hnear⟩
      have hc : (c : ℚ) < 10 ^ (i + 1) := by
        have hlt := lt_of_le_of_lt hfloor hhigh
        rw [zpow_sub₀ (by norm_num), zpow_natCast, mul_div_assoc', div_lt_iff₀ (by positivity), mul_comm] at hlt
        exact lt_of_mul_lt_mul_left hlt (ten_zpow_pos top).le
      have hc : c < 10 ^ (i + 1) := by exact_mod_cast hc
      simp only [Option.getD_some]
      omega

end Binary64

end GraceStore
