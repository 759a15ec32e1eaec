import GraceStore.Proofs.Number.Lengths
import GraceStore.Proofs.Number.Numeral
import Mathlib.Data.List.DropRight

/-!
# Positional numbers

A positional text has no exponent. It is read as the literal with its digits, and the digits of a number are written
without zeros that could be left out.
-/

namespace GraceStore

/-! ## Digits -/

namespace Digits

variable {a b ds : Bytes} {d : UInt8} {k n : Nat}

theorem toNat_lt (h : ∀ d ∈ ds, isDigit d = true) : toNat ds < 10 ^ ds.length := by
  induction ds using List.reverseRecOn with
  | nil => exact Nat.one_pos
  | append_singleton ds d ih =>
      have hd := value_lt (h d (by simp))
      have hds := ih fun d hd => h d (List.mem_append_left _ hd)
      rw [toNat_append, List.length_append, Nat.pow_add]
      simp only [toNat, readOn, List.foldl_cons, List.foldl_nil, List.length_singleton, Nat.pow_eq] at hds ⊢
      omega

/-- A number is written by two runs of digits in one way, if the length of the second is known. -/
theorem toNat_append_inj {a' b' : Bytes} (hb : ∀ d ∈ b, isDigit d = true) (hb' : ∀ d ∈ b', isDigit d = true)
    (hlength : b.length = b'.length) (h : toNat (a ++ b) = toNat (a' ++ b')) :
    toNat a = toNat a' ∧ toNat b = toNat b' := by
  have hlt := toNat_lt hb
  have hlt' := toNat_lt hb'
  rw [toNat_append, toNat_append, Nat.pow_eq, Nat.pow_eq, hlength] at h
  rw [hlength] at hlt
  have hrest : toNat b = toNat b' := by
    have hmod := congrArg (· % 10 ^ b'.length) h
    simpa only [Nat.mul_add_mod_of_lt hlt, Nat.mul_add_mod_of_lt hlt'] using hmod
  rw [hrest] at h
  exact ⟨Nat.eq_of_mul_eq_mul_right (Nat.pow_pos (by decide)) (Nat.add_right_cancel h), hrest⟩

/-- Runs of equally many digits that write one number are equal. -/
theorem toNat_inj (ha : ∀ d ∈ a, isDigit d = true) (hb : ∀ d ∈ b, isDigit d = true) (hlength : a.length = b.length)
    (h : toNat a = toNat b) : a = b := by
  induction a generalizing b with
  | nil => exact (List.length_eq_zero_iff.mp hlength.symm).symm
  | cons d a ih =>
      obtain ⟨d', b, rfl⟩ := List.exists_cons_of_length_eq_add_one hlength.symm
      simp only [List.forall_mem_cons] at ha hb
      have hlength : a.length = b.length := Nat.succ.inj hlength
      obtain ⟨hfirst, hrest⟩ := toNat_append_inj ha.2 hb.2 hlength (show toNat ([d] ++ a) = toNat ([d'] ++ b) from h)
      simp only [toNat, readOn, List.foldl_cons, List.foldl_nil, Nat.mul_zero, Nat.zero_add] at hfirst
      rw [← digit_value ha.1, hfirst, digit_value hb.1, ih ha.2 hb.2 hlength hrest]

theorem toNat_replicate (k : Nat) : toNat (List.replicate k 0x30) = 0 := by
  induction k with
  | zero => rfl
  | succ k ih =>
      rw [List.replicate_succ', toNat_append, ih]
      rfl

theorem span_append (rest : Bytes) (h : ∀ d ∈ ds, isDigit d = true) (hrest : ∀ d ∈ rest.head?, isDigit d = false) :
    span (ds ++ rest) = (ds, rest) := by
  rw [span, List.takeWhile_append_of_pos h, List.dropWhile_append_of_pos h]
  cases rest with
  | nil => simp
  | cons d rest =>
      have hd := hrest d rfl
      simp [hd]

theorem isDigit_fixed : ∀ d ∈ fixed k n, isDigit d = true := by
  intro d hd
  unfold fixed at hd
  split at hd
  · cases hd
  · rcases List.mem_append.mp hd with hzero | hdigit
    · rw [List.eq_of_mem_replicate hzero]
      rfl
    · exact (run_ofNat n).digits d hdigit

theorem toNat_fixed (h : n < 10 ^ k) : toNat (fixed k n) = n := by
  unfold fixed
  split
  · rename_i hk
    rw [hk, Nat.pow_zero, Nat.lt_one_iff] at h
    exact h.symm
  · rw [padded, toNat_append, toNat_replicate, toNat_ofNat, Nat.zero_mul, Nat.zero_add]

end Digits

/-- A positional text: an optional minus sign, one or more digits, and where there are digits of a fraction, a point
before them. -/
@[ext]
structure Positional where
  negative : Bool
  whole : Bytes
  fraction : Bytes
  whole_run : Digits.Run whole
  fraction_digits : ∀ d ∈ fraction, Digits.isDigit d = true

namespace Positional

def unsigned (p : Positional) : Bytes := if p.fraction.isEmpty then p.whole else p.whole ++ [0x2e] ++ p.fraction

def text (p : Positional) : Bytes := if p.negative then 0x2d :: p.unsigned else p.unsigned

def magnitude (p : Positional) : Nat := Digits.toNat (p.whole ++ p.fraction)

variable {p q : Positional}

/-! ## Reading -/

theorem exists_unsigned_cons (p : Positional) : ∃ d rest, p.unsigned = d :: rest ∧ Digits.isDigit d = true := by
  obtain ⟨d, ds, hds⟩ := List.exists_cons_of_ne_nil p.whole_run.ne_nil
  have hd : Digits.isDigit d = true := p.whole_run.digits d (by simp [hds])
  unfold unsigned
  split
  · exact ⟨d, ds, hds, hd⟩
  · exact ⟨d, ds ++ ([0x2e] ++ p.fraction), by rw [hds]; simp, hd⟩

theorem splitSign_text : Integer.splitSign p.text = (p.negative, p.unsigned) := by
  obtain ⟨d, rest, hrest, hd⟩ := p.exists_unsigned_cons
  unfold text
  cases p.negative with
  | true => rfl
  | false => rw [if_neg (by decide), hrest, Integer.splitSign_cons hd]

theorem unsigned?_unsigned (b : Bool) : Literal.unsigned? b p.unsigned = some ⟨b, p.whole, p.fraction, none⟩ := by
  have hwhole : p.whole.isEmpty = false := List.isEmpty_eq_false_iff.mpr p.whole_run.ne_nil
  unfold unsigned
  cases hfraction : p.fraction with
  | nil =>
      have hspan := Digits.span_append [] p.whole_run.digits nofun
      rw [List.append_nil] at hspan
      simp [Literal.unsigned?, hspan, hwhole, Literal.exponent?]
  | cons d ds =>
      have hspan := Digits.span_append (0x2e :: p.fraction) p.whole_run.digits (by simp; decide)
      have hrest := Digits.span_append [] p.fraction_digits nofun
      rw [hfraction] at hspan hrest
      rw [List.append_nil] at hrest
      simp [Literal.unsigned?, hspan, hrest, hwhole, Literal.exponent?]

theorem parse?_text : Literal.parse? p.text = some ⟨p.negative, p.whole, p.fraction, none⟩ := by
  rw [Literal.parse?, splitSign_text]
  exact unsigned?_unsigned _

theorem text_inj (h : p.text = q.text) : p = q := by
  have hparse := congrArg Literal.parse? h
  rw [parse?_text, parse?_text, Option.some.injEq, Literal.mk.injEq] at hparse
  exact Positional.ext hparse.1 hparse.2.1 hparse.2.2.1

/-- A positional text is none of the names of infinity. -/
theorem floatParse?_text : Binary64.parse? p.text = some (.ofLiteral ⟨p.negative, p.whole, p.fraction, none⟩) := by
  obtain ⟨d, rest, hrest, hd⟩ := p.exists_unsigned_cons
  have hdigit := Digits.toNat_of_isDigit hd
  have hlower : Bytes.lowerByte d = d := by
    have : ¬ (0x41 ≤ d ∧ d ≤ 0x5a) := by
      simp only [UInt8.le_iff_toNat_le]
      rintro ⟨h, -⟩
      exact absurd (Nat.le_trans h hdigit.2) (by decide)
    simp_all [Bytes.lowerByte]
  have hname (name : Bytes) (hname : name.head? = some 0x69) :
      Bytes.eqIgnoringCase p.unsigned name = false := by
    obtain ⟨tail, rfl⟩ := List.head?_eq_some_iff.mp hname
    have hne : (d == 0x69) = false := by
      rw [beq_eq_false_iff_ne]
      rintro rfl
      exact absurd hdigit.2 (by decide)
    rw [hrest, Bytes.eqIgnoringCase, hlower, show Bytes.lowerByte 0x69 = 0x69 by decide, hne, Bool.false_and]
  simp only [Binary64.parse?, splitSign_text, unsigned?_unsigned, hname (Bytes.ofString "inf") rfl,
    hname (Bytes.ofString "infinity") rfl, Bool.or_self, Bool.false_eq_true, if_false, Option.map_some]

theorem unscaled (p : Positional) : Literal.Unscaled p.text := by
  have hunsigned : Literal.Unscaled p.unsigned := by
    intro b hb
    unfold unsigned at hb
    split at hb
    · exact Literal.isExponentMark_of_isDigit (p.whole_run.digits b hb)
    · rcases List.mem_append.mp hb with hb | hb
      · rcases List.mem_append.mp hb with hb | hb
        · exact Literal.isExponentMark_of_isDigit (p.whole_run.digits b hb)
        · rw [List.mem_singleton.mp hb]
          rfl
      · exact Literal.isExponentMark_of_isDigit (p.fraction_digits b hb)
  unfold text
  split
  · rw [Literal.Unscaled, List.forall_mem_cons]
    exact ⟨rfl, hunsigned⟩
  · exact hunsigned

/-! ## Writing -/

variable {negative : Bool} {m s : Nat}

theorem run_whole (m s : Nat) : Digits.Run (Digits.ofNat (m / Nat.pow 10 s)) := Digits.run_ofNat _

theorem isDigit_fraction (m s : Nat) :
    ∀ d ∈ Bytes.trimRight 0x30 (Digits.fixed s (m % Nat.pow 10 s)), Digits.isDigit d = true :=
  fun d hd => Digits.isDigit_fixed d ((List.rdropWhile_prefix _ (_ : Bytes)).subset hd)

/-- The text of `± m / 10 ^ s`. -/
def ofParts (negative : Bool) (m s : Nat) : Positional where
  negative := negative && m != 0
  whole := Digits.ofNat (m / Nat.pow 10 s)
  fraction := Bytes.trimRight 0x30 (Digits.fixed s (m % Nat.pow 10 s))
  whole_run := run_whole m s
  fraction_digits := isDigit_fraction m s

theorem text_ofParts : (ofParts negative m s).text =
    if negative && m != 0 then 0x2d :: Digits.fixedPoint m s else Digits.fixedPoint m s := rfl

theorem length_fraction_ofParts_le : (ofParts negative m s).fraction.length ≤ s := by
  have hlt : m % 10 ^ s < 10 ^ s := Nat.mod_lt _ (Nat.pow_pos (by decide))
  have hle := Bytes.length_trimRight_le 0x30 (Digits.fixed s (m % 10 ^ s))
  rwa [Digits.length_fixed hlt] at hle

/-- The zeros at the end of a fraction are left out. -/
theorem magnitude_ofParts (negative : Bool) (m s : Nat) : ∃ k, s = (ofParts negative m s).fraction.length + k ∧
    m = (ofParts negative m s).magnitude * 10 ^ k := by
  have hlt : m % 10 ^ s < 10 ^ s := Nat.mod_lt _ (Nat.pow_pos (by decide))
  have hsplit := List.rdropWhile_append_rtakeWhile (p := (· == (0x30 : UInt8))) (l := Digits.fixed s (m % 10 ^ s))
  obtain ⟨k, hk⟩ : ∃ k, (Digits.fixed s (m % 10 ^ s)).rtakeWhile (· == 0x30) = List.replicate k 0x30 :=
    ⟨_, List.eq_replicate_of_mem fun b hb => by simpa using List.mem_rtakeWhile_imp hb⟩
  rw [hk] at hsplit
  refine ⟨k, ?_, ?_⟩
  · have hlength := congrArg List.length hsplit
    rw [List.length_append, List.length_replicate, Digits.length_fixed hlt] at hlength
    exact hlength.symm
  · have hnumber := congrArg (fun ds => Digits.toNat (Digits.ofNat (m / 10 ^ s) ++ ds)) hsplit
    simp only [← List.append_assoc] at hnumber
    rw [Digits.toNat_append, Digits.toNat_append _ (Digits.fixed _ _), Digits.toNat_replicate, Digits.toNat_ofNat,
      Digits.toNat_fixed hlt, Digits.length_fixed hlt, List.length_replicate, Nat.pow_eq, Nat.pow_eq, Nat.add_zero,
      Nat.div_add_mod'] at hnumber
    exact hnumber.symm

theorem magnitude_ofParts_le (negative : Bool) (m s : Nat) : (ofParts negative m s).magnitude ≤ m := by
  obtain ⟨k, -, hk⟩ := magnitude_ofParts negative m s
  exact (Nat.le_mul_of_pos_right _ (Nat.pow_pos (by decide))).trans hk.ge

end Positional

end GraceStore
