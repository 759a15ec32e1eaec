import GraceStore.Number.Decimal96
import GraceStore.Proofs.Number.Unscaled

/-!
# Decimals with a 96-bit mantissa are lawful

The decimals that the program runs with keep what a library of decimals promises.
-/

namespace GraceStore

namespace Decimal96

variable {negative : Bool} {m s : Nat} {ds : Bytes} {a b d : Decimal96} {l : Literal}

theorem ofParts?_of_lt (hm : m < mantissaBound) (hs : s ≤ maxScale) :
    ofParts? negative m s = some ⟨⟨negative, m, s⟩, hm, hs⟩ := dif_pos ⟨hm, hs⟩

theorem toDecimalParts_ofInt64 (v : Int64) : (ofInt64 v).toDecimalParts = ⟨v < 0, v.toInt.natAbs, 0⟩ := by
  have hlt : v.toInt.natAbs < mantissaBound := Nat.lt_of_le_of_lt (Integer.natAbs_le v) (by decide)
  rw [ofInt64, ofParts?_of_lt hlt (Nat.zero_le _), Option.getD_some]

/-! ## Reading -/

theorem readFraction_eq (hm : Digits.readOn m ds < mantissaBound) (hs : s + ds.length ≤ maxScale) :
    readFraction negative m s ds = ofParts? negative (Digits.readOn m ds) (s + ds.length) := by
  induction ds generalizing m s with
  | nil => rfl
  | cons d ds ih =>
      have hnext : 10 * m + Digits.value d < mantissaBound := Nat.lt_of_le_of_lt (Digits.le_readOn _ ds) hm
      rw [List.length_cons] at hs ⊢
      rw [readFraction, if_neg (by omega), ih hm (by omega), show s + 1 + ds.length = s + (ds.length + 1) by omega]
      rfl

theorem ofDigits?_of_fits (hm : l.parts.mantissa < mantissaBound) (hs : l.parts.scale ≤ maxScale) :
    (ofDigits? l.negative l.whole l.fraction).map toDecimalParts = some l.parts := by
  have hread : Digits.readOn (Digits.toNat l.whole) l.fraction = l.parts.mantissa := (Digits.readOn_append 0 _ _).symm
  have hbound : Digits.readOn (Digits.toNat l.whole) l.fraction < mantissaBound := hread ▸ hm
  have hwhole : Digits.toNat l.whole < mantissaBound := Nat.lt_of_le_of_lt (Digits.le_readOn _ _) hbound
  have hscale : 0 + l.fraction.length ≤ maxScale := (Nat.zero_add _).le.trans hs
  rw [ofDigits?, Digits.toNatBelow?_eq, if_pos hwhole, Option.bind_some, readFraction_eq hbound hscale, hread,
    Nat.zero_add, show l.fraction.length = l.parts.scale from rfl, ofParts?_of_lt hm hs, Option.map_some,
    Option.map_some, plainZero]
  have hsign : l.parts.negative = (l.negative && l.parts.mantissa != 0) := rfl
  split
  · rename_i h0
    rw [show l.parts.mantissa = 0 from h0, bne_self_eq_false, Bool.and_false] at hsign
    exact congrArg some (DecimalParts.ext hsign.symm rfl rfl)
  · rename_i h0
    rw [bne_iff_ne.mpr h0, Bool.and_true] at hsign
    exact congrArg some (DecimalParts.ext hsign.symm rfl rfl)

theorem exists_readFraction (hm : m < mantissaBound) (hs : s ≤ maxScale) (hnext : s ≠ 0 ∨ m + 1 < mantissaBound) :
    ∃ d, readFraction negative m s ds = some d := by
  -- what could not be rounded away is a whole part that is full, and after the first digit the scale is not zero
  induction ds generalizing m s with
  | nil => exact ⟨_, ofParts?_of_lt hm hs⟩
  | cons d ds ih =>
      rw [readFraction]
      split
      · unfold roundLast
        split
        · exact ⟨_, ofParts?_of_lt hm hs⟩
        · split
          · exact ⟨_, ofParts?_of_lt ‹_› hs⟩
          · rw [if_neg (hnext.resolve_right ‹_›)]
            exact ⟨_, ofParts?_of_lt (by omega) (by omega)⟩
      · exact ih (by omega) (by omega) (.inl (Nat.succ_ne_zero s))

theorem ofDigits?_isSome (hw : Digits.toNat l.whole + 1 < mantissaBound) :
    (ofDigits? l.negative l.whole l.fraction).isSome := by
  have hlt : Digits.toNat l.whole < mantissaBound := Nat.lt_of_succ_lt hw
  obtain ⟨d, hd⟩ : ∃ d, readFraction l.negative (Digits.toNat l.whole) 0 l.fraction = some d :=
    exists_readFraction hlt (Nat.zero_le maxScale) (.inr hw)
  rw [ofDigits?, Digits.toNatBelow?_eq, if_pos hlt, Option.bind_some, hd]
  rfl

theorem ofDigits?_of_le (hw : mantissaBound ≤ Digits.toNat l.whole) :
    ofDigits? l.negative l.whole l.fraction = none := by
  rw [ofDigits?, Digits.toNatBelow?_eq, if_neg (Nat.not_lt.mpr hw)]
  rfl

/-! ## Adding -/

theorem fit?_of_lt (hm : m < mantissaBound) (hs : s ≤ maxScale) :
    fit? negative m s = some ⟨⟨negative, m, s⟩, hm, hs⟩ := by
  have hwhole : Rounding.halfEven m (Nat.pow 10 0) = m := by simp [Rounding.halfEven, Nat.mod_one]
  rw [fit?, List.range_succ_eq_map, List.findSome?_cons, if_pos (by omega), hwhole, Nat.sub_zero, ofParts?_of_lt hm hs]

/-- A number that does not fit rounds to a mantissa that is too large. -/
theorem lt_of_fit?_none (h : fit? negative m s = none) : (2 ^ 96 - 1) * 10 ^ s < m := by
  have hlast := List.findSome?_eq_none_iff.mp h s (List.mem_range.mpr (Nat.lt_succ_self s))
  rw [if_pos (Nat.le_add_right s maxScale), Nat.sub_self, ofParts?, dite_eq_right_iff] at hlast
  have hle : mantissaBound ≤ Rounding.halfEven m (10 ^ s) := Nat.not_lt.mp fun hlt =>
    absurd (hlast ⟨hlt, Nat.zero_le _⟩) (Option.some_ne_none _)
  have hpos : 0 < 10 ^ s := Nat.pow_pos (by decide)
  have hnear := (Rounding.halfEven_near m hpos).2
  have hmul : 2 ^ 96 * 10 ^ s ≤ Rounding.halfEven m (10 ^ s) * 10 ^ s := Nat.mul_le_mul_right (10 ^ s) hle
  rw [Nat.mul_assoc] at hnear
  omega

theorem add?_of_fits (h : a.Fits b.toDecimalParts) : ∃ d, add? a b = some d ∧ d.scale ≤ a.common b.toDecimalParts ∧
    d.atScale (a.common b.toDecimalParts) = a.sum b.toDecimalParts := by
  have hzero {p : DecimalParts} (hp : p.mantissa = 0) (t : Nat) : p.atScale t = 0 := by
    rw [DecimalParts.atScale, hp, Nat.zero_mul]
    cases p.negative <;> rfl
  unfold add?
  split
  · rename_i ha
    refine ⟨b, rfl, Nat.le_max_right _ _, ?_⟩
    rw [DecimalParts.sum, hzero ha, Int.zero_add]
  · split
    · rename_i hb
      refine ⟨a, rfl, Nat.le_max_left _ _, ?_⟩
      rw [DecimalParts.sum, hzero hb, Int.add_zero]
    · have hscale : a.common b.toDecimalParts ≤ maxScale := max_le a.scale_le b.scale_le
      refine ⟨_, fit?_of_lt h.sum hscale, Nat.le_refl _, ?_⟩
      show Binary64.signed _ (_ * Nat.pow 10 (a.common b.toDecimalParts - a.common b.toDecimalParts)) = _
      rw [Nat.sub_self, Nat.pow_eq, Nat.pow_zero, Nat.mul_one]
      exact Binary64.signed_natAbs _

theorem lt_of_add?_none (h : add? a b = none) :
    (2 ^ 96 - 1) * 10 ^ a.common b.toDecimalParts < (a.sum b.toDecimalParts).natAbs := by
  unfold add? at h
  split at h
  · cases h
  · split at h
    · cases h
    · exact lt_of_fit?_none h

/-! ## Rounding -/

theorem scale_round_le (places : Nat) (d : Decimal96) : (round places d).scale ≤ places := by
  unfold round
  split
  · assumption
  · unfold ofParts?
    split
    · exact Nat.le_refl _
    · exact Nat.zero_le _

theorem trim_strips (negative : Bool) (h0 : m ≠ 0) (hm : m < mantissaBound) (hs : s ≤ maxScale) :
    ∃ d, trim negative m s = some d ∧ DecimalParts.Strips ⟨negative, m, s⟩ d.toDecimalParts := by
  induction s generalizing m with
  | zero => exact ⟨_, ofParts?_of_lt hm hs, ⟨⟨0, (Nat.mul_one m).symm, rfl⟩, .inl rfl, fun _ => rfl⟩⟩
  | succ s ih =>
      rw [trim]
      split
      · rename_i hlast
        obtain ⟨d, hd, hstrips⟩ := ih (m := m / 10) (by omega) (by omega) (by omega)
        obtain ⟨k, hmantissa, hscale⟩ := hstrips.zeros
        refine ⟨d, hd, ⟨⟨k + 1, ?_, ?_⟩, hstrips.last, hstrips.sign⟩⟩
        · rw [Nat.pow_succ, ← Nat.mul_assoc, ← hmantissa]
          exact (Nat.div_mul_cancel (Nat.dvd_of_mod_eq_zero hlast)).symm
        · exact congrArg Nat.succ hscale
      · exact ⟨_, ofParts?_of_lt hm hs, ⟨⟨0, (Nat.mul_one m).symm, rfl⟩, .inr ‹_›, fun _ => rfl⟩⟩

theorem normalize_strips (d : Decimal96) : d.Strips (normalize d).toDecimalParts := by
  unfold normalize
  split
  · rename_i h0
    exact ⟨⟨d.scale, h0.trans (Nat.zero_mul _).symm, (Nat.zero_add _).symm⟩, .inl rfl, absurd rfl⟩
  · rename_i h0
    obtain ⟨d', hd', hstrips⟩ := trim_strips d.negative h0 d.mantissa_lt d.scale_le
    rw [hd']
    exact hstrips

theorem normal_toBinary64 (d : Decimal96) : d.toBinary64.Normal := by
  unfold toBinary64
  split
  · exact Binary64.normal_ofRatio _ _ Nat.one_pos
  · simp only
    refine Binary64.Normal.withSign ?_ d.negative
    split
    · exact Binary64.normal_ofRatio _ _ Nat.one_pos
    · exact Binary64.normal_div _ _

scoped instance lawful : Decimals.Lawful where
  ext {a b} h := by
    cases a
    cases b
    cases h
    rfl
  mantissa_lt := mantissa_lt
  scale_le := scale_le
  parts_zero := rfl
  parts_ofInt64 := toDecimalParts_ofInt64
  parse?_of_fits {s l} h _ hm hs := by
    rw [show Decimals.parse? s = _ from congrArg (Option.bind · _) h]
    exact ofDigits?_of_fits hm hs
  parse?_isSome {s l} h _ hw := by
    rw [show Decimals.parse? s = _ from congrArg (Option.bind · _) h]
    exact ofDigits?_isSome hw
  parse?_of_le {s l} h _ hw := by
    rw [show Decimals.parse? s = _ from congrArg (Option.bind · _) h]
    exact ofDigits?_of_le hw
  add?_of_fits := add?_of_fits
  lt_of_add?_none := lt_of_add?_none
  scale_round_le := scale_round_le
  round_of_le h := if_pos h
  normalize_strips := normalize_strips
  isZero_iff _ := decide_eq_true_iff
  render_eq _ := rfl
  normal_toBinary64? {d _} h := Option.some.inj h ▸ normal_toBinary64 d
  toBinary64?_of_whole h := congrArg some (if_pos h)

end Decimal96

end GraceStore
