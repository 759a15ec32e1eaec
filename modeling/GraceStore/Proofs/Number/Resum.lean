import GraceStore.Proofs.Number.Plain
import GraceStore.Proofs.Number.Shortest

/-!
# Adding zero to what was written

The text of a sum is positional. If it has at most seventeen digits after its point, it is read as a number that is
written as the same text. If it has more, it is read as a decimal, and that is written with at most seventeen.
-/

namespace GraceStore

/-! ## Decimals -/

namespace Decimals

variable [Decimals] [Lawful]

/-- A decimal plus zero is not out of range. -/
theorem exists_add?_zero (d : Decimal) : ∃ d', add? d zero = some d' := by
  cases hadd : add? d zero with
  | some d' => exact ⟨d', rfl⟩
  | none =>
      have hlt := Lawful.lt_of_add?_none hadd
      have hm := Lawful.mantissa_lt d
      have hcommon : (parts d).common (parts zero) = (parts d).scale := by
        rw [DecimalParts.common, Lawful.parts_zero]
        exact Nat.max_eq_left (Nat.zero_le _)
      have hzero (s : Nat) : (parts zero).atScale s = 0 := by
        rw [Lawful.parts_zero, DecimalParts.atScale, Nat.zero_mul]
        rfl
      have hself : ((parts d).sum (parts zero)).natAbs = (parts d).mantissa := by
        rw [DecimalParts.sum, hzero, Int.add_zero, hcommon, DecimalParts.atScale, Nat.sub_self, Binary64.natAbs_signed]
        exact Nat.mul_one _
      rw [hself] at hlt
      have hpos : 0 < 10 ^ (parts d).common (parts zero) := Nat.pow_pos (by decide)
      have hle := Nat.le_mul_of_pos_right (2 ^ 96 - 1) hpos
      omega

end Decimals

/-! ## Double precision numbers -/

namespace Binary64

variable {a : Bool} {m n : Nat} {q : Int}

theorem below_pos (m : Nat) (q : Int) : 0 < below m q := by
  unfold below
  split <;> norm_num

theorem Near.refl (m : Nat) (q : Int) : Near (m * 2 ^ q) m q := by
  have hlow : (m - below m q) * 2 ^ q < m * 2 ^ q :=
    mul_lt_mul_of_pos_right (sub_lt_self _ (below_pos m q)) (two_zpow_pos q)
  have hhigh : (m * 2 ^ q : ℚ) < (m + 1 / 2) * 2 ^ q :=
    mul_lt_mul_of_pos_right (lt_add_of_pos_right _ (by norm_num)) (two_zpow_pos q)
  exact ⟨hlow.le, hhigh.le, fun h => h.elim (fun h => absurd h hlow.ne') fun h => absurd h hhigh.ne⟩

/-- A number is what its multiple of any smaller power of two is rounded to. -/
theorem ofRatio_rescaled {e : Int} (hx : (finite a m q).Normal) (hm : 0 < m) (he : e ≤ q) :
    ofRatio a (m * Nat.pow 2 (q - e).toNat * Nat.pow 2 e.toNat) (Nat.pow 2 (-e).toNat) = finite a m q := by
  have hvalue : ((m * Nat.pow 2 (q - e).toNat * Nat.pow 2 e.toNat : Nat) : ℚ) / (Nat.pow 2 (-e).toNat : Nat) =
      m * 2 ^ q := by
    have hone := cast_scaled (m * Nat.pow 2 (q - e).toNat) 1 (-e)
    rw [neg_neg, Nat.one_mul] at hone
    rw [hone, Nat.cast_one, div_one, zpow_neg, div_inv_eq_mul, Nat.pow_eq]
    push_cast
    rw [mul_assoc, ← zpow_natCast, ← zpow_add₀ two_ne_zero]
    congr 2
    omega
  refine ofRatio_of_near hx hm (Nat.pow_pos two_pos) ?_
  rw [hvalue]
  exact Near.refl m q

/-- A number is not changed by adding zero. -/
theorem add_positiveZero (hx : (finite a m q).Normal) (hm : 0 < m) :
    (finite a m q).add (zero false) = finite a m q := by
  obtain ⟨-, hmin, -, -⟩ := id hx
  have hzero : signed false 0 = 0 := rfl
  have hsum : signed a (m * Nat.pow 2 (q - minExponent).toNat) ≠ 0 := by
    rw [Ne, ← Int.natAbs_eq_zero, natAbs_signed]
    exact Nat.mul_ne_zero hm.ne' (Nat.pow_pos two_pos).ne'
  have hsign : decide (signed a (m * Nat.pow 2 (q - minExponent).toNat) < 0) = a := by
    cases a <;> simp only [signed, if_true, Bool.false_eq_true, if_false, decide_eq_true_eq,
      decide_eq_false_iff_not] at * <;> omega
  simp only [add, zero, Int.min_eq_right hmin, Nat.zero_mul]
  rw [hzero, Int.add_zero, if_neg hsum]
  simp only [scaled, natAbs_signed, hsign]
  exact ofRatio_rescaled (e := minExponent) hx hm hmin

/-- A whole number is read from its digits and rounded once. -/
theorem ofLiteral_ofNat (hn : 0 < n) (hlength : Digits.count n ≤ decimalReach) :
    ofLiteral ⟨a, Digits.ofNat n, [], none⟩ = ofRatio a n 1 := by
  obtain ⟨d, ds, hds, -, h0⟩ := Digits.ofNat_cons n
  have hdigits : Literal.digits ⟨a, Digits.ofNat n, [], none⟩ = Digits.ofNat n := by
    simp [Literal.digits, hds, h0 hn]
  have hempty : (Digits.ofNat n).isEmpty = false := by
    rw [hds]
    rfl
  have hpower : Literal.power ⟨a, Digits.ofNat n, [], none⟩ = 0 := rfl
  simp only [ofLiteral, hdigits, hempty, hpower, Digits.length_ofNat, Bool.false_eq_true, if_false]
  rw [if_neg (by omega), if_neg (by omega), Digits.toNatBalanced_eq, Digits.toNat_ofNat]
  simp only [ofDecimal, Int.toNat_zero, Int.neg_zero]
  rw [show Nat.pow 10 0 = 1 from rfl, Nat.mul_one]

theorem render_zero : (finite a 0 q).render = (Positional.ofParts false 0 0).text := by
  rw [render, if_pos rfl, Positional.text_ofParts, Bool.false_and, if_neg Bool.false_ne_true]
  decide +kernel

/-- The text of a number is that of its shortest decimal. -/
theorem render_finite (hx : (finite a m q).Normal) (hm : 0 < m) : (finite a m q).render =
    (Positional.ofParts a ((shortest m q).1 * Nat.pow 10 (shortest m q).2.toNat) (-(shortest m q).2).toNat).text := by
  obtain ⟨i, -, -, -, hnear⟩ := shortest_spec hx hm
  have hpos : 0 < (shortest m q).1 * Nat.pow 10 (shortest m q).2.toNat := by
    refine Nat.mul_pos (Nat.pos_of_ne_zero fun hzero => ?_) (Nat.pow_pos (by decide))
    have hlt := hnear.pos hm
    rw [hzero, Nat.cast_zero, zero_mul] at hlt
    exact lt_irrefl _ hlt
  rw [Positional.text_ofParts, bne_iff_ne.mpr hpos.ne', Bool.and_true, render, if_neg hm.ne']

/-- A large number is read back from its text. -/
theorem ofLiteral_shortest (hx : (finite a m q).Normal) (hm : 0 < m) (hk : 0 ≤ (shortest m q).2) :
    ofLiteral ⟨a, Digits.ofNat ((shortest m q).1 * Nat.pow 10 (shortest m q).2.toNat), [], none⟩ = finite a m q := by
  obtain ⟨i, hi, hplace, hdigits, hnear⟩ := shortest_spec hx hm
  obtain ⟨hbound, -, hmax, -⟩ := id hx
  obtain ⟨-, htop⟩ := decimalTop_bounds hbound hmax
  generalize hn : (shortest m q).1 * Nat.pow 10 (shortest m q).2.toNat = n
  have hvalue : ((shortest m q).1 * 10 ^ (shortest m q).2 : ℚ) = n := by
    rw [← hn, Nat.pow_eq]
    push_cast
    rw [← zpow_natCast, Int.toNat_of_nonneg hk]
  rw [hvalue] at hnear
  have hpos : 0 < n := by exact_mod_cast hnear.pos hm
  have hlt : n < 10 ^ decimalReach := by
    rw [← hn]
    refine Nat.lt_of_le_of_lt (Nat.mul_le_mul_right _ hdigits) ?_
    rw [Nat.pow_eq, ← Nat.pow_add]
    refine Nat.pow_lt_pow_right (by decide) ?_
    simp only [decimalReach]
    omega
  rw [ofLiteral_ofNat hpos (Digits.count_le (by decide) hlt)]
  refine ofRatio_of_near hx hm Nat.one_pos ?_
  rwa [Nat.cast_one, div_one]

end Binary64

/-! ## Long floats -/

namespace LongFloat

variable [Decimals] {a : Bool} {m : Nat} {q : Int}

/-- Zero is added to the number that a text writes, and the sum is written. -/
def Resums (text text' : Bytes) : Prop :=
  ∃ x y, parse? text = some x ∧ x.add? zero = some y ∧ y.render = text'

section Decimals

variable [Decimals.Lawful]

theorem parts_zero : Decimals.parts Decimals.zero = Plain.zero.parts := Decimals.Lawful.parts_zero

theorem parse?_zero : parse? [0x30] = some zero := by
  obtain ⟨d, hd, hparts⟩ := parse?_plain (p := .zero) (by decide)
  exact hd.trans (congrArg (some ∘ decimal) (Decimals.Lawful.ext (hparts.trans parts_zero.symm)))

theorem resums_plain {p : Plain} (hp : p.Canonical) (h : p.magnitude < 2 ^ 96) : Resums p.text p.text := by
  have hfits : p.Fits .zero := by
    have hscale : max p.scale Plain.zero.scale = p.scale := Nat.max_eq_left (Nat.zero_le _)
    have hzero : Plain.zero.atScale p.scale = 0 := Int.zero_mul _
    have hself : (p.atScale p.scale).natAbs < 2 ^ 96 := by
      rw [Plain.atScale_scale, Binary64.natAbs_signed]
      exact h
    constructor <;> rw [hscale]
    · exact hself
    · rw [hzero]
      decide
    · rw [hzero, Int.add_zero]
      exact hself
  obtain ⟨d, hread, hparts⟩ := parse?_plain h
  obtain ⟨y, sum, hadd, hrender, hcanonical, hvalue⟩ := add?_plain hfits hparts parts_zero
  refine ⟨_, y, hread, hadd, ?_⟩
  have hzero : Plain.zero.value = 0 := Plain.value_eq_zero.mpr rfl
  rw [hrender, hcanonical.eq hp (by rw [hvalue, hzero, add_zero])]

/-- The text of a decimal is canonical, and what it writes fits again. -/
theorem exists_plain (d : Decimals.Decimal) :
    ∃ p : Plain, p.Canonical ∧ p.magnitude < 2 ^ 96 ∧ render (.decimal d) = p.text := by
  obtain ⟨q, hs, hm, hrender, -⟩ := exists_render_decimal d
  refine ⟨_, Plain.canonical_ofParts, ?_, hrender⟩
  exact Nat.lt_of_le_of_lt (Positional.magnitude_ofParts_le q.negative q.mantissa q.scale) hm

/-- A text that is read as a decimal is left with at most seventeen digits after its point. -/
theorem resums_decimal {text : Bytes} {d : Decimals.Decimal} (h : parse? text = some (.decimal d)) :
    ∃ r : Plain, Resums text r.text := by
  obtain ⟨d', hd'⟩ := Decimals.exists_add?_zero d
  obtain ⟨r, -, -, hrender⟩ := exists_plain d'
  refine ⟨r, _, .decimal d', h, ?_, hrender⟩
  simp only [zero, add?, hd']

theorem toBinary64_zero : toBinary64 zero = Binary64.zero false := by
  have hparts := Decimals.Lawful.parts_zero
  have hwhole := Decimals.Lawful.toBinary64?_of_whole (d := Decimals.zero) (by rw [hparts])
  rw [hparts] at hwhole
  rw [zero, toBinary64, hwhole]
  rfl

end Decimals

theorem addFloats?_of_add {x y : LongFloat} {sum : Binary64} (h : x.toBinary64.add y.toBinary64 = sum)
    (hsum : sum.isFinite = true) : addFloats? x y = some (.float sum) := by
  subst h
  exact if_pos hsum

/-- A number whose text is too large for a decimal stays as it is. -/
theorem resums_large [Decimals.Lawful] (hx : (Binary64.finite a m q).Normal) (hm : 0 < m)
    (hk : 0 ≤ (Binary64.shortest m q).2)
    (hlarge : 2 ^ 96 ≤ (Binary64.shortest m q).1 * Nat.pow 10 (Binary64.shortest m q).2.toNat) :
    Resums (Binary64.finite a m q).render (Binary64.finite a m q).render := by
  have hread := Binary64.ofLiteral_shortest hx hm hk
  have htext := Binary64.render_finite hx hm
  rw [show (-(Binary64.shortest m q).2).toNat = 0 by omega] at htext
  generalize (Binary64.shortest m q).1 * Nat.pow 10 (Binary64.shortest m q).2.toNat = n at hlarge hread htext
  refine ⟨.float (.finite a m q), .float (.finite a m q), ?_, ?_, rfl⟩
  · have hn : (n != 0) = true := bne_iff_ne.mpr (by omega)
    have hwhole : (Positional.ofParts a n 0).whole = Digits.ofNat n := congrArg Digits.ofNat (Nat.div_one n)
    have hliteral : (⟨(Positional.ofParts a n 0).negative, (Positional.ofParts a n 0).whole,
        (Positional.ofParts a n 0).fraction, none⟩ : Literal) = ⟨a, Digits.ofNat n, [], none⟩ := by
      rw [hwhole, show (Positional.ofParts a n 0).negative = (a && n != 0) from rfl, hn, Bool.and_true]
      rfl
    have hfloat := (Positional.ofParts a n 0).floatParse?_text
    rw [hliteral, hread] at hfloat
    rw [htext]
    refine parse?_of_float (Positional.unscaled _) hfloat (Decimals.Lawful.parse?_of_le Positional.parse?_text rfl ?_)
    rw [hwhole, Digits.toNat_ofNat]
    exact hlarge
  · refine addFloats?_of_add ?_ rfl
    rw [toBinary64_zero]
    exact Binary64.add_positiveZero hx hm

theorem exists_parse? [Decimals.Lawful] {p : Positional} (hw : Digits.toNat p.whole + 1 < 2 ^ 96) :
    ∃ d, parse? p.text = some (.decimal d) := by
  obtain ⟨d, hd⟩ := Option.isSome_iff_exists.mp (Decimals.Lawful.parse?_isSome p.parse?_text rfl hw)
  exact ⟨d, parse?_of_decimal p.unscaled p.floatParse?_text hd⟩

/-- What is left of a text to which zero is added. -/
structure Settles (text : Bytes) (p : Positional) (r : Plain) : Prop where
  text : text = p.text
  resums : Resums p.text r.text
  stays : p.fraction.length ≤ 17 → r.text = p.text

/-- A decimal that fits is read as a decimal. -/
theorem exists_settles_of_lt [Decimals.Lawful] (negative : Bool) {n s : Nat} (hn : n < 2 ^ 96) :
    ∃ r : Plain, Settles (Positional.ofParts negative n s).text (.ofParts negative n s) r := by
  -- at most seventeen digits are written back as they are read; more of them leave room in the whole part
  by_cases hlength : (Positional.ofParts negative n s).fraction.length ≤ 17
  · let r := Plain.ofPositional (.ofParts negative n s) hlength
    have hmagnitude : r.magnitude < 2 ^ 96 := Nat.lt_of_le_of_lt (Positional.magnitude_ofParts_le negative n s) hn
    have hr : r.Canonical := Plain.canonical_of_positional (p := r) rfl
    exact ⟨r, rfl, resums_plain hr hmagnitude, fun _ => rfl⟩
  · have hs : 17 < s := lt_of_lt_of_le (not_le.mp hlength) Positional.length_fraction_ofParts_le
    have hten : 10 ≤ Nat.pow 10 s := Nat.le_self_pow (by omega) 10
    have hdiv : n / Nat.pow 10 s ≤ n / 10 := Nat.div_le_div_left hten (by decide)
    have hwhole : Digits.toNat (Positional.ofParts negative n s).whole = n / Nat.pow 10 s := Digits.toNat_ofNat _
    obtain ⟨d, hd⟩ := exists_parse? (p := .ofParts negative n s) (by
      rw [hwhole]
      omega)
    obtain ⟨r, hresums⟩ := resums_decimal hd
    exact ⟨r, rfl, hresums, fun h => absurd h hlength⟩

theorem exists_settles_float [Decimals.Lawful] {x : Binary64} (hx : x.Normal) (hfinite : x.isFinite = true) :
    ∃ (p : Positional) (r : Plain), Settles x.render p r := by
  cases x with
  | nan | infinite => cases hfinite
  | finite a m q =>
      obtain rfl | hm := Nat.eq_zero_or_pos m
      · rw [Binary64.render_zero]
        exact ⟨_, exists_settles_of_lt false (show 0 < 2 ^ 96 by decide)⟩
      · obtain ⟨i, hi, -, hdigits, -⟩ := Binary64.shortest_spec hx hm
        have htext := Binary64.render_finite hx hm
        by_cases hlarge : (Binary64.shortest m q).1 * Nat.pow 10 (Binary64.shortest m q).2.toNat < 2 ^ 96
        · rw [htext]
          exact ⟨_, exists_settles_of_lt a hlarge⟩
        · -- seventeen digits do not reach so far without zeros at the end, so there is no fraction
          have hk : 0 ≤ (Binary64.shortest m q).2 := by
            by_contra hneg
            rw [show (Binary64.shortest m q).2.toNat = 0 by omega] at hlarge
            have hle : (10 : Nat) ^ i ≤ 10 ^ 17 := Nat.pow_le_pow_right (by decide) hi
            rw [show Nat.pow 10 0 = 1 from rfl, Nat.mul_one] at hlarge
            omega
          have hresums := resums_large hx hm hk (Nat.not_lt.mp hlarge)
          rw [htext] at hresums ⊢
          exact ⟨_, .ofPositional _ (Nat.le_trans Positional.length_fraction_ofParts_le (by omega)), rfl, hresums,
            fun _ => rfl⟩

theorem float_of_add? {x y : LongFloat} {z : Binary64} (h : x.add? y = some (.float z)) :
    x.toBinary64.add y.toBinary64 = z ∧ z.isFinite = true := by
  have hfloats (h : addFloats? x y = some (.float z)) : x.toBinary64.add y.toBinary64 = z ∧ z.isFinite = true := by
    unfold addFloats? at h
    simp only at h
    split at h
    · cases h
      exact ⟨rfl, ‹_›⟩
    · cases h
  unfold add? at h
  split at h
  · split at h
    · cases h
    · exact hfloats h
  · exact hfloats h

/-- Whatever is added, the text of the sum is positional. To add zero then leaves at most seventeen digits after the
point, and the same text if it had no more. -/
theorem exists_settles [Decimals.Lawful] {x y sum : LongFloat} (h : x.add? y = some sum) :
    ∃ (p : Positional) (r : Plain), Settles sum.render p r := by
  cases sum with
  | decimal d =>
      obtain ⟨r, hr, hlt, hrender⟩ := exists_plain d
      exact ⟨r.positional, r, hrender, resums_plain hr hlt, fun _ => rfl⟩
  | float z =>
      obtain ⟨hz, hfinite⟩ := float_of_add? h
      exact exists_settles_float (hz ▸ Binary64.normal_add _ _) hfinite

end LongFloat

end GraceStore
