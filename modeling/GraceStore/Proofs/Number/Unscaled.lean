import GraceStore.Proofs.Number.Resum

/-!
# Sums of numbers that are decimal or large

A text without an exponent is read as a decimal, or is that of a large number. What is added to a large number does not
leave a small one but zero, so the text of the sum has at most seventeen digits after its point.
-/

namespace GraceStore

/-! ## Texts without an exponent -/

namespace Literal

variable {negative : Bool} {s : Bytes} {l : Literal}

/-- A literal is made of digits; it has an exponent only if its text has a mark. -/
structure Unmarked (l : Literal) : Prop where
  whole : ∀ d ∈ l.whole, Digits.isDigit d = true
  fraction : ∀ d ∈ l.fraction, Digits.isDigit d = true
  exponent : l.exponent = none

theorem Unscaled.subset {r : Bytes} (h : Unscaled s) (hr : r ⊆ s) : Unscaled r := fun b hb => h b (hr hb)

theorem exponent?_unscaled {tail : Bytes} {e : Option Int} (h : Unscaled tail) (he : exponent? tail = some e) :
    e = none := by
  cases tail with
  | nil => exact (Option.some.inj he).symm
  | cons b r =>
      have hb := h b List.mem_cons_self
      simp only [exponent?, hb, Bool.false_eq_true, if_false] at he
      cases he

/-- A literal is read from its digits, and from what follows them. -/
theorem exists_tail (negative : Bool) (s : Bytes) : ∃ fraction tail : Bytes,
    (∀ d ∈ fraction, Digits.isDigit d = true) ∧ tail ⊆ s ∧
    unsigned? negative s = if (Digits.span s).1.isEmpty && fraction.isEmpty then none
      else (exponent? tail).map fun e => ⟨negative, (Digits.span s).1, fraction, e⟩ := by
  have hdrop (t : Bytes) : t.dropWhile Digits.isDigit ⊆ t := (List.dropWhile_sublist _).subset
  have hrest : (Digits.span s).2 ⊆ s := hdrop s
  unfold unsigned?
  split
  rename_i whole r hspan
  rw [hspan] at hrest ⊢
  split
  rename_i fraction tail hpoint
  split at hpoint
  · rename_i r
    cases hpoint
    refine ⟨_, _, fun d hd => List.mem_takeWhile_imp hd, fun b hb => ?_, rfl⟩
    exact hrest (List.mem_cons_of_mem _ (hdrop r hb))
  · cases hpoint
    exact ⟨[], _, fun d hd => absurd hd List.not_mem_nil, hrest, rfl⟩

theorem unmarked_of_unsigned? (h : Unscaled s) (hl : unsigned? negative s = some l) : l.Unmarked := by
  obtain ⟨fraction, tail, hfraction, htail, heq⟩ := exists_tail negative s
  rw [heq] at hl
  split at hl
  · cases hl
  · obtain ⟨e, he, rfl⟩ := Option.map_eq_some_iff.mp hl
    exact ⟨fun d hd => List.mem_takeWhile_imp hd, hfraction, exponent?_unscaled (h.subset htail) he⟩

theorem toNat_digits (l : Literal) : Digits.toNat l.digits =
    Digits.toNat l.whole * 10 ^ l.fraction.length + Digits.toNat l.fraction := by
  have hdrop (ds : Bytes) : Digits.toNat (ds.dropWhile (· == 0x30)) = Digits.toNat ds := by
    induction ds with
    | nil => rfl
    | cons d ds ih =>
        rw [List.dropWhile_cons]
        split
        · rename_i hd
          rw [ih, eq_of_beq hd]
          rfl
        · rfl
  exact (hdrop _).trans (Digits.toNat_append _ _)

/-- A whole part that is not zero has digits that are left. -/
theorem Unmarked.length_lt (h : l.Unmarked) (hw : 0 < Digits.toNat l.whole) : l.fraction.length < l.digits.length := by
  have hdigits : ∀ d ∈ l.digits, Digits.isDigit d = true := fun d hd => by
    rcases List.mem_append.mp ((List.dropWhile_sublist _).subset hd) with hd | hd
    · exact h.whole d hd
    · exact h.fraction d hd
  have hle : 10 ^ l.fraction.length ≤ Digits.toNat l.digits := by
    rw [toNat_digits]
    exact Nat.le_add_right_of_le (Nat.le_mul_of_pos_left _ hw)
  exact (Nat.pow_lt_pow_iff_right (by decide)).mp (Nat.lt_of_le_of_lt hle (Digits.toNat_lt hdigits))

theorem Unmarked.power (h : l.Unmarked) : l.power = -(l.fraction.length : Int) := by
  rw [Literal.power, h.exponent]
  exact Int.zero_sub _

end Literal

/-! ## Large numbers -/

namespace Binary64

variable {a : Bool} {m n : Nat} {q : Int} {x y : Binary64} {l : Literal}

/-- A number of at least `2 ^ 94`, if it is finite. -/
def Large (x : Binary64) : Prop := ∀ a m q, x = finite a m q → (2 : ℚ) ^ (94 : Int) ≤ m * 2 ^ q

theorem large_ofRatio {d : Nat} (hd : 0 < d) (h : (2 : ℚ) ^ (94 : Int) ≤ n / d) : (ofRatio a n d).Large := by
  intro b m q hx
  have hn : 0 < n := Nat.pos_of_ne_zero fun hzero => by
    rw [hzero, Nat.cast_zero, zero_div] at h
    exact absurd h (not_le.mpr (two_zpow_pos 94))
  exact le_ofRatio hn hd (by decide) h hx

/-- A literal with a large whole part is read as a large number. -/
theorem large_ofLiteral (hl : l.Unmarked) (h : 2 ^ 96 ≤ Digits.toNat l.whole + 1) : (ofLiteral l).Large := by
  have hlength := hl.length_lt (by omega)
  have hempty : l.digits.isEmpty = false := by
    rw [List.isEmpty_eq_false_iff, ← List.length_pos_iff]
    omega
  unfold ofLiteral
  simp only [hempty, hl.power, Bool.false_eq_true, if_false]
  split
  · intro b m q hx
    cases hx
  · rw [if_neg (by omega), Digits.toNatBalanced_eq, Literal.toNat_digits, ofDecimal, Int.neg_neg, Int.toNat_natCast,
      show (-(l.fraction.length : Int)).toNat = 0 by omega]
    refine large_ofRatio (Nat.pow_pos (by decide)) ?_
    have hten : (0 : ℚ) < 10 ^ l.fraction.length := by positivity
    have hwhole : (2 : ℚ) ^ (94 : Int) ≤ Digits.toNat l.whole := by
      have : 2 ^ 94 ≤ Digits.toNat l.whole := by omega
      exact_mod_cast this
    have hfraction : (0 : ℚ) ≤ Digits.toNat l.fraction := Nat.cast_nonneg _
    rw [show Nat.pow 10 0 = 1 from rfl, Nat.mul_one, Nat.pow_eq]
    push_cast
    rw [le_div_iff₀ hten]
    have hscaled := mul_le_mul_of_nonneg_right hwhole hten.le
    linarith

/-! ## Normal forms -/

theorem normal_zero (a : Bool) : (zero a).Normal := ⟨by decide, le_refl _, by decide, .inr rfl⟩

theorem normal_div (x y : Binary64) : (x.div y).Normal := by
  cases x <;> cases y <;> simp only [div]
  all_goals try trivial
  · split
    · split <;> trivial
    · rename_i hn
      exact normal_ofRatio _ _ (Nat.mul_pos (Nat.pow_pos two_pos) (Nat.pos_of_ne_zero hn))

theorem Normal.withSign (hx : x.Normal) (a : Bool) : (x.withSign a).Normal := by
  cases x <;> exact hx

theorem normal_ofLiteral (l : Literal) : (ofLiteral l).Normal := by
  unfold ofLiteral
  simp only
  split
  · exact normal_zero _
  · split
    · trivial
    · split
      · exact normal_zero _
      · exact normal_ofRatio _ _ (Nat.pow_pos (by decide))

/-! ## Sums with a large number -/

theorem add_comm (x y : Binary64) : x.add y = y.add x := by
  cases x <;> cases y <;> simp only [add]
  · rename_i a b
    by_cases h : a = b
    · rw [h]
    · rw [if_neg h, if_neg (Ne.symm h)]
  · rename_i a m p b n q
    rw [Int.min_comm, Int.add_comm, Bool.and_comm]

/-- The significand of a large number is short, so it is a whole number. -/
theorem Large.whole (h : (finite a m q).Large) (hx : (finite a m q).Normal) : 0 ≤ q ∧ 2 ^ 94 ≤ m * 2 ^ q.toNat := by
  obtain ⟨hm, -, -, -⟩ := hx
  have hlarge : (2 : ℚ) ^ (94 : Int) ≤ m * 2 ^ q := h _ _ _ rfl
  have hq : 0 ≤ q := by
    by_contra hneg
    have hle : (2 : ℚ) ^ q ≤ 2 ^ (0 : Int) := zpow_le_zpow_right₀ one_le_two (by omega)
    have hm' : (m : ℚ) < 2 ^ (53 : Int) := by exact_mod_cast hm
    have hlt : (2 : ℚ) ^ (53 : Int) < 2 ^ (94 : Int) := by norm_num
    nlinarith [two_zpow_pos q]
  rw [← Int.toNat_of_nonneg hq, zpow_natCast] at hlarge
  exact ⟨hq, by exact_mod_cast hlarge⟩

/-- A whole multiple of a power of two below one is at least one if a large number and a short one sum to it. -/
theorem one_le_signed_add {b : Bool} {p : Int} (hlarge : 2 ^ 94 ≤ m * 2 ^ p.toNat) (hp : 0 ≤ p) (hq : q < 0)
    (hn : n < significandBound) :
    2 ^ (-q).toNat ≤ (signed a (m * 2 ^ (p - q).toNat) + signed b n).natAbs := by
  have hsplit : m * 2 ^ (p - q).toNat = m * 2 ^ p.toNat * 2 ^ (-q).toNat := by
    rw [Nat.mul_assoc, ← Nat.pow_add]
    congr 2
    omega
  have hhuge : 2 ^ 94 * 2 ^ (-q).toNat ≤ m * 2 ^ (p - q).toNat := hsplit ▸ Nat.mul_le_mul_right _ hlarge
  have hfirst := natAbs_signed a (m * 2 ^ (p - q).toNat)
  have hsecond := natAbs_signed b n
  have hpos : 0 < 2 ^ (-q).toNat := Nat.pow_pos two_pos
  simp only [significandBound] at hn
  omega

/-- What is added to a large number leaves zero or at least one. -/
theorem one_le_of_add (hlarge : x.Large) (hx : x.Normal) (hy : y.Normal) (h : x.add y = finite a m q) (hm : 0 < m) :
    (1 : ℚ) ≤ m * 2 ^ q := by
  cases x with
  | nan => cases y <;> cases h
  | infinite => cases y <;> simp only [add] at h <;> (try split at h) <;> cases h
  | finite a' k p =>
      cases y with
      | nan | infinite => cases h
      | finite b n r =>
          obtain ⟨hp, hwhole⟩ := hlarge.whole hx
          simp only [add] at h
          split at h
          · cases h
            exact absurd hm (lt_irrefl 0)
          · rename_i hsum
            simp only [scaled] at h
            generalize he : min p r = e at h hsum
            generalize hS : signed a' (k * Nat.pow 2 (p - e).toNat) + signed b (n * Nat.pow 2 (r - e).toNat) = S
              at h hsum
            have hS0 : 0 < S.natAbs := Int.natAbs_pos.mpr hsum
            refine le_ofRatio (j := 0) (Nat.mul_pos hS0 (Nat.pow_pos two_pos)) (Nat.pow_pos two_pos) (by decide) ?_ h
            rw [zpow_zero, le_div_iff₀ (Nat.cast_pos.mpr (Nat.pow_pos two_pos)), one_mul, Nat.cast_le]
            -- a number with a fraction is short, and else both are whole
            rcases Int.lt_or_le r 0 with hr | hr
            · obtain rfl : e = r := by omega
              rw [show e.toNat = 0 by omega, Nat.pow_zero, Nat.mul_one, ← hS, Int.sub_self]
              exact one_le_signed_add hwhole hp hr (Nat.lt_of_le_of_lt (Nat.mul_one n).le hy.1)
            · rw [show (-e).toNat = 0 by omega]
              exact Nat.mul_pos hS0 (Nat.pow_pos two_pos)

/-- The text of zero, and of a number that is at least one, has at most seventeen digits after its point. -/
theorem exists_text (hx : (finite a m q).Normal) (hone : 0 < m → (1 : ℚ) ≤ m * 2 ^ q) :
    ∃ p : Positional, (finite a m q).render = p.text ∧ p.fraction.length ≤ 17 := by
  obtain rfl | hm := Nat.eq_zero_or_pos m
  · exact ⟨.ofParts false 0 0, render_zero, Nat.le_trans Positional.length_fraction_ofParts_le (by decide)⟩
  · obtain ⟨i, hi, hplace, -, -⟩ := shortest_spec hx hm
    have htop : 0 < decimalTop m q := by
      have hlt := lt_of_le_of_lt (hone hm) (decimalTop_spec hm hx.2.1).2
      rwa [← zpow_zero (10 : ℚ), zpow_lt_zpow_iff_right₀ (by norm_num)] at hlt
    exact ⟨_, render_finite hx hm, Nat.le_trans Positional.length_fraction_ofParts_le (by omega)⟩

end Binary64

/-! ## Long floats -/

namespace LongFloat

open Literal (Unscaled)

variable [Decimals] {s t : Bytes} {x y sum : LongFloat} {z : Binary64} {d d' : Decimals.Decimal}

theorem float_of_parse? (h : parse? s = some (.float z)) :
    (∃ a, z = .infinite a) ∨ ∃ l, Literal.parse? s = some l ∧ decimal? s = none ∧ z = .ofLiteral l := by
  obtain ⟨z', hz', hfloat⟩ := Option.map_eq_some_iff.mp h
  have hnone : decimal? s = none ∧ z' = z := by
    cases hd : decimal? s with
    | none =>
        rw [hd] at hfloat
        exact ⟨rfl, LongFloat.float.inj hfloat⟩
    | some d =>
        rw [hd] at hfloat
        cases hfloat
  obtain ⟨hnone, rfl⟩ := hnone
  simp only [Binary64.parse?] at hz'
  split at hz'
  · exact .inl ⟨_, (Option.some.inj hz').symm⟩
  · obtain ⟨l, hl, rfl⟩ := Option.map_eq_some_iff.mp hz'
    exact .inr ⟨l, hl, hnone, rfl⟩

/-- A text that is read as a decimal, as an infinity or as a large number. -/
def Tame (s : Bytes) : Prop := ∀ z, parse? s = some (.float z) → z.Large

theorem tame_of_decimal? (h : (decimal? s).isSome = true) : Tame s := by
  intro z hz
  rcases float_of_parse? hz with ⟨a, rfl⟩ | ⟨l, -, hnone, -⟩
  · exact fun _ _ _ hfinite => nomatch hfinite
  · rw [hnone] at h
    cases h

section Laws

variable [Decimals.Lawful]

/-- A text without an exponent that is not read as a decimal is that of a large number. -/
theorem tame_of_unscaled (hs : Unscaled s) : Tame s := by
  intro z h
  rcases float_of_parse? h with ⟨a, rfl⟩ | ⟨l, hl, hnone, rfl⟩
  · intro _ _ _ hfinite
    cases hfinite
  · have hsplit : (Integer.splitSign s).2 ⊆ s := by
      unfold Integer.splitSign
      split
      all_goals first | exact List.subset_cons_self _ _ | exact List.Subset.refl _
    have hunmarked := Literal.unmarked_of_unsigned? (hs.subset hsplit) hl
    refine Binary64.large_ofLiteral hunmarked (Nat.not_lt.mp fun hlt => ?_)
    have hsome := Decimals.Lawful.parse?_isSome hl hunmarked.exponent hlt
    rw [← decimal?_of_unscaled hs, hnone] at hsome
    cases hsome

theorem normal_decimal (d : Decimals.Decimal) : (decimal d).toBinary64.Normal := by
  rw [toBinary64]
  cases hd : Decimals.toBinary64? d with
  | none => trivial
  | some x => exact Decimals.Lawful.normal_toBinary64? hd

theorem large_decimal (hs : (Decimals.parts d).scale = 0) (h : 2 ^ 94 ≤ (Decimals.parts d).mantissa) :
    (decimal d).toBinary64.Large := by
  rw [toBinary64, Decimals.Lawful.toBinary64?_of_whole hs, Option.getD_some]
  refine Binary64.large_ofRatio Nat.one_pos ?_
  rw [Nat.cast_one, div_one]
  exact_mod_cast h

/-- A decimal that is half of what is out of range has no fraction. -/
theorem large_of_lt {s : Nat} (hs : (Decimals.parts d).scale ≤ s)
    (h : (2 ^ 96 - 1) * 10 ^ s < 2 * ((Decimals.parts d).atScale s).natAbs) : (decimal d).toBinary64.Large := by
  have hlt : (Decimals.parts d).mantissa < 2 ^ 96 := Decimals.Lawful.mantissa_lt d
  have hsplit : 10 ^ s = 10 ^ (Decimals.parts d).scale * 10 ^ (s - (Decimals.parts d).scale) := by
    rw [← Nat.pow_add, Nat.add_sub_cancel' hs]
  have hscaled : (2 ^ 96 - 1) * 10 ^ (Decimals.parts d).scale < 2 * (Decimals.parts d).mantissa := by
    refine Nat.lt_of_mul_lt_mul_right (a := 10 ^ (s - (Decimals.parts d).scale)) ?_
    rw [DecimalParts.atScale, Binary64.natAbs_signed, Nat.pow_eq, hsplit] at h
    rwa [Nat.mul_assoc, Nat.mul_assoc]
  rcases Nat.eq_zero_or_pos (Decimals.parts d).scale with hzero | hpos
  · rw [hzero] at hscaled
    exact large_decimal hzero (by omega)
  · have hten : 10 ≤ 10 ^ (Decimals.parts d).scale := Nat.le_self_pow hpos.ne' 10
    omega

/-- Of two decimals with a sum that is out of range, one is large. -/
theorem large_of_add?_none (h : Decimals.add? d d' = none) :
    (decimal d).toBinary64.Large ∨ (decimal d').toBinary64.Large := by
  have hlt := Decimals.Lawful.lt_of_add?_none h
  have hs : (Decimals.parts d).scale ≤ (Decimals.parts d).common (Decimals.parts d') := Nat.le_max_left _ _
  have hs' : (Decimals.parts d').scale ≤ (Decimals.parts d).common (Decimals.parts d') := Nat.le_max_right _ _
  rw [DecimalParts.sum] at hlt
  generalize (Decimals.parts d).common (Decimals.parts d') = s at hlt hs hs'
  have habs := Int.natAbs_add_le ((Decimals.parts d).atScale s) ((Decimals.parts d').atScale s)
  rcases Nat.le_total ((Decimals.parts d).atScale s).natAbs ((Decimals.parts d').atScale s).natAbs with hle | hle
  · exact .inr (large_of_lt hs' (by omega))
  · exact .inl (large_of_lt hs (by omega))

theorem normal_of_parse? (h : parse? s = some x) : x.toBinary64.Normal := by
  cases x with
  | decimal d => exact normal_decimal d
  | float z =>
      rcases float_of_parse? h with ⟨a, rfl⟩ | ⟨l, -, -, rfl⟩
      · trivial
      · exact Binary64.normal_ofLiteral l

/-- Of two numbers that are not summed as decimals, one is large. -/
theorem large_or_large (hs : Tame s) (ht : Tame t) (hx : parse? s = some x) (hy : parse? t = some y)
    (h : x.add? y = some (.float z)) : x.toBinary64.Large ∨ y.toBinary64.Large := by
  cases x with
  | float => exact .inl (hs _ hx)
  | decimal d =>
      cases y with
      | float => exact .inr (ht _ hy)
      | decimal d' =>
          refine large_of_add?_none ?_
          cases hsum : Decimals.add? d d' with
          | none => rfl
          | some _ =>
              simp only [add?, hsum] at h
              cases h

/-- The text of a sum of tame numbers has at most seventeen digits after its point. -/
theorem Tame.exists_text (hs : Tame s) (ht : Tame t) (hx : parse? s = some x) (hy : parse? t = some y)
    (h : x.add? y = some sum) : ∃ p : Positional, sum.render = p.text ∧ p.fraction.length ≤ 17 := by
  cases sum with
  | decimal d =>
      obtain ⟨p, -, -, hp⟩ := exists_plain d
      exact ⟨p.positional, hp, p.fraction_le⟩
  | float z =>
      obtain ⟨hz, hfinite⟩ := float_of_add? h
      have hnormal : z.Normal := hz ▸ Binary64.normal_add _ _
      cases z with
      | nan | infinite => cases hfinite
      | finite a m q =>
          refine Binary64.exists_text hnormal fun hm => ?_
          rcases large_or_large hs ht hx hy h with hlarge | hlarge
          · exact Binary64.one_le_of_add hlarge (normal_of_parse? hx) (normal_of_parse? hy) hz hm
          · rw [Binary64.add_comm] at hz
            exact Binary64.one_le_of_add hlarge (normal_of_parse? hy) (normal_of_parse? hx) hz hm

/-- The text `p` of a sum of two numbers, and the text `r` that is left of it once zero is added. -/
structure SumText (s t : Bytes) (p : Positional) (r : Plain) : Prop where
  resums : Resums p.text r.text
  same : r.text = p.text ↔ p.fraction.length ≤ 17
  tame : Tame s → Tame t → p.fraction.length ≤ 17

theorem exists_sumText (hx : parse? s = some x) (hy : parse? t = some y) (h : x.add? y = some sum) :
    ∃ p r, sum.render = p.text ∧ SumText s t p r := by
  obtain ⟨p, r, htext, hresums, hstays⟩ := exists_settles h
  refine ⟨p, r, htext, hresums, ⟨fun hsame => ?_, hstays⟩, fun hs ht => ?_⟩
  · cases Positional.text_inj (show r.positional.text = p.text from hsame)
    exact r.fraction_le
  · obtain ⟨p', hp', hlength⟩ := hs.exists_text ht hx hy h
    cases Positional.text_inj (htext.symm.trans hp')
    exact hlength

end Laws

end LongFloat

end GraceStore
