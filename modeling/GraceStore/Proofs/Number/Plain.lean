import GraceStore.Proofs.Number.Positional
import Mathlib.Data.Rat.Cast.Order
import Mathlib.Tactic.FieldSimp
import Mathlib.Tactic.Ring

/-!
# Plain decimal numbers

A plain text has no exponent and at most seventeen digits after its point. Among the plain texts of a number one is
canonical. Numbers whose mantissas fit are read, added and written without rounding, and what is written is canonical.
-/

namespace GraceStore

namespace Binary64

theorem natAbs_signed (b : Bool) (n : Nat) : (signed b n).natAbs = n := by
  cases b <;> simp [signed]

theorem signed_natAbs (n : Int) : signed (decide (n < 0)) n.natAbs = n := by
  by_cases h : n < 0 <;> simp only [signed, h, decide_true, decide_false, if_true, Bool.false_eq_true, if_false] <;>
    omega

/-- Only a zero has the same number with either sign. -/
theorem signed_inj {a b : Bool} {n : Nat} (hn : n ≠ 0) (h : signed a n = signed b n) : a = b := by
  cases a with
  | false =>
      cases b with
      | false => rfl
      | true => simp only [signed, if_true, Bool.false_eq_true, if_false] at h; omega
  | true =>
      cases b with
      | false => simp only [signed, if_true, Bool.false_eq_true, if_false] at h; omega
      | true => rfl

end Binary64

/-! ## Plain numbers -/

/-- A plain text: an optional minus sign, one or more digits, and where there are digits of a fraction, at most
seventeen, a point before them. -/
@[ext]
structure Plain where
  negative : Bool
  whole : Bytes
  fraction : Bytes
  whole_run : Digits.Run whole
  fraction_digits : ∀ d ∈ fraction, Digits.isDigit d = true
  fraction_le : fraction.length ≤ 17

namespace Plain

def unsigned (p : Plain) : Bytes := if p.fraction.isEmpty then p.whole else p.whole ++ [0x2e] ++ p.fraction

def text (p : Plain) : Bytes := if p.negative then 0x2d :: p.unsigned else p.unsigned

def zero : Plain := ⟨false, [0x30], [], ⟨nofun, List.all_eq_true.mp rfl⟩, nofun, Nat.zero_le _⟩

def positional (p : Plain) : Positional := ⟨p.negative, p.whole, p.fraction, p.whole_run, p.fraction_digits⟩

def ofPositional (p : Positional) (h : p.fraction.length ≤ 17) : Plain :=
  ⟨p.negative, p.whole, p.fraction, p.whole_run, p.fraction_digits, h⟩

def scale (p : Plain) : Nat := p.fraction.length

def magnitude (p : Plain) : Nat := Digits.toNat (p.whole ++ p.fraction)

/-- The number as a whole multiple of `10 ^ -s`, for a scale `s` at least its own. -/
def atScale (p : Plain) (s : Nat) : Int := Binary64.signed p.negative p.magnitude * 10 ^ (s - p.scale)

def value (p : Plain) : ℚ := p.atScale p.scale / 10 ^ p.scale

/-- The numbers and their sum are whole multiples that a mantissa can be, at the larger scale of the two. -/
structure Fits (p q : Plain) : Prop where
  left : (p.atScale (max p.scale q.scale)).natAbs < 2 ^ 96
  right : (q.atScale (max p.scale q.scale)).natAbs < 2 ^ 96
  sum : (p.atScale (max p.scale q.scale) + q.atScale (max p.scale q.scale)).natAbs < 2 ^ 96

instance {p q : Plain} : Decidable (p.Fits q) :=
  decidable_of_iff (_ ∧ _ ∧ _) ⟨fun ⟨hleft, hright, hsum⟩ => ⟨hleft, hright, hsum⟩, fun h => ⟨h.left, h.right, h.sum⟩⟩

/-- A text with no zero at its end that could be left out, no zero before other digits, and no sign before a zero. -/
structure Canonical (p : Plain) : Prop where
  fraction : ∀ ds, p.fraction ≠ ds ++ [0x30]
  whole : ∀ ds, p.whole = 0x30 :: ds → ds = []
  sign : p.negative = true → p.value ≠ 0

variable {p q : Plain} {s : Nat}

theorem atScale_scale : p.atScale p.scale = Binary64.signed p.negative p.magnitude := by
  rw [atScale, Nat.sub_self, pow_zero, mul_one]

theorem natAbs_atScale : (p.atScale s).natAbs = p.magnitude * 10 ^ (s - p.scale) := by
  rw [atScale, Int.natAbs_mul, Binary64.natAbs_signed, Int.natAbs_pow]
  rfl

theorem value_eq (h : p.scale ≤ s) : p.value = p.atScale s / 10 ^ s := by
  obtain ⟨k, rfl⟩ := Nat.exists_eq_add_of_le h
  rw [value, atScale_scale, atScale, Nat.add_sub_cancel_left, pow_add]
  push_cast
  field_simp

theorem value_eq_zero : p.value = 0 ↔ p.magnitude = 0 := by
  rw [value, div_eq_zero_iff, or_iff_left (pow_ne_zero _ (by norm_num)), Int.cast_eq_zero, ← Int.natAbs_eq_zero,
    atScale_scale, Binary64.natAbs_signed]

/-! ### One canonical text -/

/-- A canonical text has no more digits after its point than any other text of the number. -/
theorem Canonical.scale_le (hq : q.Canonical) (h : p.value = q.value) : q.scale ≤ p.scale := by
  by_contra hlt
  obtain ⟨k, hk⟩ := Nat.exists_eq_add_of_lt (not_le.mp hlt)
  -- so the magnitude ends in a zero, and so does the fraction
  rw [value_eq (show p.scale ≤ q.scale by omega), value, div_left_inj' (pow_ne_zero _ (by norm_num)), Int.cast_inj] at h
  have habs := congrArg Int.natAbs h
  rw [natAbs_atScale, atScale_scale, Binary64.natAbs_signed, hk, show p.scale + k + 1 - p.scale = k + 1 by omega,
    Nat.pow_succ, ← Nat.mul_assoc] at habs
  obtain ⟨ds, d, hds⟩ := (List.eq_nil_or_concat' q.fraction).resolve_left fun hnil => by
    rw [scale, hnil] at hk
    cases hk
  have hd : Digits.isDigit d = true := q.fraction_digits d (by simp [hds])
  rw [show q.magnitude = Digits.toNat (q.whole ++ q.fraction) from rfl, hds, ← List.append_assoc,
    Digits.toNat_append] at habs
  have hzero : Digits.value d = 0 := by
    have hlt := Digits.value_lt hd
    simp only [Digits.toNat, Digits.readOn, List.foldl_cons, List.foldl_nil, List.length_singleton, Nat.pow_eq] at habs
    omega
  have hdigit := Digits.digit_value hd
  rw [hzero] at hdigit
  exact hq.fraction ds (by rw [hds, ← hdigit]; rfl)

theorem Canonical.whole_eq (hp : p.Canonical) : p.whole = Digits.ofNat (Digits.toNat p.whole) := by
  obtain ⟨d, ds, hds⟩ := List.exists_cons_of_ne_nil p.whole_run.ne_nil
  by_cases h0 : d = 0x30
  · have hnil := hp.whole ds (by rw [hds, h0])
    rw [hds, h0, hnil, show Digits.toNat [0x30] = 0 from rfl, Digits.ofNat]
    rfl
  · have hall : (d :: ds).all Digits.isDigit = true := List.all_eq_true.mpr fun b hb => p.whole_run.digits b (hds ▸ hb)
    rw [hds, Digits.ofNat_toNat h0 hall]

/-- Two canonical texts of one number are equal. -/
theorem Canonical.eq (hp : p.Canonical) (hq : q.Canonical) (h : p.value = q.value) : p = q := by
  have hscale : p.scale = q.scale := Nat.le_antisymm (hp.scale_le h.symm) (hq.scale_le h)
  have hsigned : Binary64.signed p.negative p.magnitude = Binary64.signed q.negative q.magnitude := by
    rw [value, value, hscale, div_left_inj' (pow_ne_zero _ (by norm_num)), Int.cast_inj, atScale_scale, ← hscale,
      atScale_scale] at h
    exact h
  have hmagnitude : p.magnitude = q.magnitude := by
    rw [← Binary64.natAbs_signed p.negative p.magnitude, hsigned, Binary64.natAbs_signed]
  obtain ⟨hwhole, hfraction⟩ := Digits.toNat_append_inj p.fraction_digits q.fraction_digits hscale hmagnitude
  refine Plain.ext ?_ ?_ ?_
  · by_cases hzero : p.magnitude = 0
    · have hpn : p.negative = false := by simpa using fun hn => hp.sign hn (value_eq_zero.mpr hzero)
      have hqn : q.negative = false := by simpa using fun hn => hq.sign hn (value_eq_zero.mpr (hmagnitude ▸ hzero))
      rw [hpn, hqn]
    · rw [hmagnitude] at hsigned hzero
      exact Binary64.signed_inj hzero hsigned
  · rw [hp.whole_eq, hq.whole_eq, hwhole]
  · exact Digits.toNat_inj p.fraction_digits q.fraction_digits hscale hfraction

/-! ### Writing -/

/-- The text of `± m / 10 ^ s`. -/
def ofParts (negative : Bool) (m s : Nat) (h : s ≤ 17) : Plain where
  negative := negative && m != 0
  whole := Digits.ofNat (m / Nat.pow 10 s)
  fraction := Bytes.trimRight 0x30 (Digits.fixed s (m % Nat.pow 10 s))
  whole_run := Digits.run_ofNat _
  fraction_digits d hd := Digits.isDigit_fixed d ((List.rdropWhile_prefix _ (_ : Bytes)).subset hd)
  fraction_le := by
    have hlt : m % 10 ^ s < 10 ^ s := Nat.mod_lt _ (Nat.pow_pos (by decide))
    have hle := Bytes.length_trimRight_le 0x30 (Digits.fixed s (m % 10 ^ s))
    rw [Digits.length_fixed hlt] at hle
    exact hle.trans h

variable {negative : Bool} {m : Nat} {hs : s ≤ 17}

theorem text_ofParts : (ofParts negative m s hs).text =
    if negative && m != 0 then 0x2d :: Digits.fixedPoint m s else Digits.fixedPoint m s := rfl

/-- The zeros at the end of a fraction are left out. -/
theorem magnitude_ofParts (negative : Bool) (m : Nat) (hs : s ≤ 17) : ∃ k, s = (ofParts negative m s hs).scale + k ∧
    m = (ofParts negative m s hs).magnitude * 10 ^ k := Positional.magnitude_ofParts negative m s

theorem value_ofParts : (ofParts negative m s hs).value = Binary64.signed negative m / 10 ^ s := by
  obtain ⟨k, hk, hm⟩ := magnitude_ofParts negative m hs
  have hsign : (ofParts negative m s hs).negative = (negative && m != 0) := rfl
  rw [value_eq (Nat.le.intro hk.symm), atScale, hsign]
  generalize (ofParts negative m s hs).magnitude = n at hm
  generalize (ofParts negative m s hs).scale = t at hk
  subst hk hm
  rw [Nat.add_sub_cancel_left]
  congr 2
  cases negative
  · simp [Binary64.signed]
  · by_cases hn : n = 0 <;> simp [Binary64.signed, hn]

/-- What is written of a number is canonical, wherever its point is. -/
theorem canonical_of_positional (h : p.positional = .ofParts negative m s) : p.Canonical where
  fraction ds hds := by
    have hfraction : p.fraction = (Digits.fixed s (m % 10 ^ s)).rdropWhile (· == 0x30) :=
      congrArg Positional.fraction h
    have hlast := List.rdropWhile_last_not (· == (0x30 : UInt8)) (Digits.fixed s (m % 10 ^ s))
    rw [← hfraction, hds] at hlast
    simpa using hlast (by simp)
  whole ds hds := by
    have hwhole : Digits.ofNat (m / 10 ^ s) = 0x30 :: ds := (congrArg Positional.whole h).symm.trans hds
    obtain ⟨d, ds', hds', -, h0⟩ := Digits.ofNat_cons (m / 10 ^ s)
    obtain hzero | hpos := Nat.eq_zero_or_pos (m / 10 ^ s)
    · rw [hzero, Digits.ofNat] at hwhole
      exact (List.cons.inj hwhole).2.symm
    · rw [hwhole] at hds'
      exact absurd (List.cons.inj hds').1.symm (h0 hpos)
  sign hn := by
    have hsign : p.negative = (negative && m != 0) := congrArg Positional.negative h
    have hm : m ≠ 0 := by simpa using ((Bool.and_eq_true _ _).mp (hsign.symm.trans hn)).2
    obtain ⟨k, -, hk⟩ := Positional.magnitude_ofParts negative m s
    rw [Ne, value_eq_zero]
    intro hzero
    rw [← h, show p.positional.magnitude = 0 from hzero, Nat.zero_mul] at hk
    exact hm hk

theorem canonical_ofParts : (ofParts negative m s hs).Canonical :=
  canonical_of_positional (p := ofParts negative m s hs) rfl

/-! ### Reading -/

theorem text_inj (h : p.text = q.text) : p = q := by
  have hsame : p.positional = q.positional := Positional.text_inj h
  simp only [positional, Positional.mk.injEq] at hsame
  exact Plain.ext hsame.1 hsame.2.1 hsame.2.2

/-- The parts of the number; a zero has no sign. -/
def parts (p : Plain) : DecimalParts := Literal.parts ⟨p.negative, p.whole, p.fraction, none⟩

theorem atScale_parts : p.parts.atScale s = p.atScale s := by
  rw [atScale]
  show Binary64.signed (p.negative && p.magnitude != 0) (p.magnitude * 10 ^ (s - p.scale)) = _
  by_cases h0 : p.magnitude = 0 <;> cases p.negative <;> simp [Binary64.signed, h0]

theorem fits_parts : p.parts.Fits q.parts ↔ p.Fits q := by
  have hcommon : p.parts.common q.parts = max p.scale q.scale := rfl
  constructor
  · intro h
    have hleft := h.left
    have hright := h.right
    have hsum := h.sum
    rw [DecimalParts.sum] at hsum
    simp only [hcommon, atScale_parts] at hleft hright hsum
    exact ⟨hleft, hright, hsum⟩
  · intro h
    constructor <;> simp only [DecimalParts.sum, hcommon, atScale_parts]
    · exact h.left
    · exact h.right
    · exact h.sum

end Plain

/-- A plain text that fits is read as a decimal with all its digits. -/
theorem LongFloat.parse?_plain [Decimals] [Decimals.Lawful] {p : Plain} (h : p.magnitude < 2 ^ 96) :
    ∃ d, LongFloat.parse? p.text = some (.decimal d) ∧ Decimals.parts d = p.parts := by
  have hscale : p.scale ≤ 28 := p.fraction_le.trans (by decide)
  have hread := Decimals.Lawful.parse?_of_fits p.positional.parse?_text rfl h hscale
  obtain ⟨d, hd, hparts⟩ := Option.map_eq_some_iff.mp hread
  exact ⟨d, parse?_of_decimal p.positional.unscaled p.positional.floatParse?_text hd, hparts⟩

/-! ### Adding -/

namespace DecimalParts

variable {p q : DecimalParts} {s : Nat}

/-- The number of the parts. -/
def value (p : DecimalParts) : ℚ := Binary64.signed p.negative p.mantissa / 10 ^ p.scale

theorem value_eq (h : p.scale ≤ s) : p.value = p.atScale s / 10 ^ s := by
  obtain ⟨k, rfl⟩ := Nat.exists_eq_add_of_le h
  rw [value, atScale, Nat.add_sub_cancel_left, Nat.pow_eq]
  cases p.negative <;> simp only [Binary64.signed, if_true, Bool.false_eq_true, if_false, pow_add] <;> push_cast <;>
    field_simp

/-- Zeros at the end of a fraction do not count. -/
theorem Strips.value_eq (h : p.Strips q) : p.value = q.value := by
  obtain ⟨k, hm, hs⟩ := h.zeros
  have hle : q.scale ≤ q.scale + k := Nat.le_add_right q.scale k
  rw [DecimalParts.value_eq hle, value, atScale, hm, hs, Nat.add_sub_cancel_left, Nat.pow_eq]
  by_cases h0 : q.mantissa = 0
  · simp [h0, Binary64.signed]
  · rw [h.sign h0]

theorem Strips.scale_le (h : p.Strips q) : q.scale ≤ p.scale := by
  obtain ⟨k, -, hs⟩ := h.zeros
  omega

end DecimalParts

/-! ### Writing decimals -/

theorem Digits.exists_ofNat_eq_append (n : Nat) : ∃ ds, ofNat n = ds ++ [digit (n % 10)] := by
  rw [ofNat]
  split
  · rename_i h
    exact ⟨[], by rw [Nat.mod_eq_of_lt h]; rfl⟩
  · exact ⟨_, rfl⟩

/-- A fraction that does not end in a zero is written with all its digits. -/
theorem Digits.trimRight_fixed {s m : Nat} (h : s = 0 ∨ m % 10 ≠ 0) :
    Bytes.trimRight 0x30 (fixed s (m % 10 ^ s)) = fixed s (m % 10 ^ s) := by
  unfold fixed
  split
  · rfl
  · rename_i hs
    have hlast : m % 10 ^ s % 10 = m % 10 := Nat.mod_mod_of_dvd m (dvd_pow_self 10 hs)
    obtain ⟨ds, hds⟩ := exists_ofNat_eq_append (m % 10 ^ s)
    have hne : ∀ n < 10, n ≠ 0 → digit n ≠ 0x30 := by decide
    rw [padded, hds, ← List.append_assoc, hlast]
    exact List.rdropWhile_concat_neg _ _ _ (by simpa using hne _ (Nat.mod_lt m (by decide)) (h.resolve_left hs))

/-- The text of parts without a zero at the end of their fraction. -/
theorem Plain.text_ofParts_eq {p : DecimalParts} (hs : p.scale ≤ 17) (hlast : p.scale = 0 ∨ p.mantissa % 10 ≠ 0)
    (hm : p.mantissa ≠ 0) : (Plain.ofParts p.negative p.mantissa p.scale hs).text = p.text := by
  have hsign : (p.negative && p.mantissa != 0) = p.negative := by rw [bne_iff_ne.mpr hm, Bool.and_true]
  rw [Plain.text, Plain.unsigned, Plain.ofParts, DecimalParts.text]
  simp only [hsign, Nat.pow_eq, Digits.trimRight_fixed hlast]
  by_cases h0 : p.scale = 0
  · simp [h0, Digits.fixed]
  · have hlength := Digits.length_fixed (Nat.mod_lt p.mantissa (Nat.pow_pos (n := p.scale) (show 0 < 10 by decide)))
    have hne : (Digits.fixed p.scale (p.mantissa % 10 ^ p.scale)).isEmpty = false := by
      rw [List.isEmpty_eq_false_iff, ← List.length_pos_iff]
      omega
    rw [Digits.fixed, if_neg h0] at hne ⊢
    simp only [hne, h0, Bool.false_eq_true, if_false]

namespace LongFloat

variable [Decimals] [Decimals.Lawful]

/-- Every decimal is written with at most seventeen digits after its point. -/
theorem exists_render_decimal (d : Decimals.Decimal) : ∃ (q : DecimalParts) (hs : q.scale ≤ 17),
    q.mantissa < 2 ^ 96 ∧ render (.decimal d) = (Plain.ofParts q.negative q.mantissa q.scale hs).text ∧
      ((Decimals.parts d).scale ≤ 17 → q.value = (Decimals.parts d).value) := by
  have hstrips := Decimals.Lawful.normalize_strips (Decimals.round textPlaces d)
  have hround : (Decimals.parts (Decimals.round textPlaces d)).scale ≤ 17 := Decimals.Lawful.scale_round_le _ _
  refine ⟨Decimals.parts (Decimals.normalize (Decimals.round textPlaces d)), hstrips.scale_le.trans hround,
    Decimals.Lawful.mantissa_lt _, ?_, fun hs => ?_⟩
  · unfold render
    simp only
    split
    · rename_i hzero
      have hm := (Decimals.Lawful.isZero_iff _).mp hzero
      have hscale := hstrips.last.resolve_right (by simp [hm])
      simp only [hm, hscale, Plain.text_ofParts, bne_self_eq_false, Bool.and_false, Bool.false_eq_true, if_false]
      decide +kernel
    · rename_i hzero
      rw [Decimals.Lawful.render_eq, Plain.text_ofParts_eq _ hstrips.last (mt (Decimals.Lawful.isZero_iff _).mpr hzero)]
  · rw [← hstrips.value_eq, Decimals.Lawful.round_of_le (show _ ≤ textPlaces from hs)]

end LongFloat

/-! ### Sums -/

namespace Plain

variable {p q : Plain}

theorem Fits.left_lt (h : p.Fits q) : p.magnitude < 2 ^ 96 := by
  have hleft := h.left
  rw [natAbs_atScale] at hleft
  exact Nat.lt_of_le_of_lt (Nat.le_mul_of_pos_right _ (Nat.pow_pos (by decide))) hleft

theorem Fits.right_lt (h : p.Fits q) : q.magnitude < 2 ^ 96 := by
  have hright := h.right
  rw [natAbs_atScale] at hright
  exact Nat.lt_of_le_of_lt (Nat.le_mul_of_pos_right _ (Nat.pow_pos (by decide))) hright

end Plain

/-- A sum of plain numbers that fit is exact, and its text is canonical. -/
theorem LongFloat.add?_plain [Decimals] [Decimals.Lawful] {p q : Plain} {a b : Decimals.Decimal} (h : p.Fits q)
    (ha : Decimals.parts a = p.parts) (hb : Decimals.parts b = q.parts) : ∃ x, ∃ sum : Plain,
      LongFloat.add? (.decimal a) (.decimal b) = some x ∧ x.render = sum.text ∧ sum.Canonical ∧
        sum.value = p.value + q.value := by
  obtain ⟨d, hd, hle, hsum⟩ := Decimals.Lawful.add?_of_fits (a := a) (b := b) (by
    rw [ha, hb]
    exact Plain.fits_parts.mpr h)
  have hcommon : (Decimals.parts a).common (Decimals.parts b) = max p.scale q.scale := by
    rw [ha, hb]
    rfl
  have hscale : max p.scale q.scale ≤ 17 := max_le p.fraction_le q.fraction_le
  have hvalue : (Decimals.parts d).value = p.value + q.value := by
    rw [DecimalParts.value_eq hle, hsum, DecimalParts.sum, hcommon, ha, hb, Plain.atScale_parts, Plain.atScale_parts,
      Plain.value_eq (le_max_left p.scale q.scale), Plain.value_eq (le_max_right p.scale q.scale), ← add_div,
      ← Int.cast_add]
  obtain ⟨parts, hs, -, hrender, hsame⟩ := exists_render_decimal d
  refine ⟨.decimal d, _, ?_, hrender, Plain.canonical_ofParts, ?_⟩
  · simp only [LongFloat.add?, hd]
  · rw [Plain.value_ofParts, ← hvalue, ← hsame (hle.trans (hcommon.le.trans hscale)), DecimalParts.value]

end GraceStore
