import GraceStore.Number.LongFloat
import Mathlib.Algebra.Group.Nat.Defs

/-!
# What a library of decimals promises

The laws are what the documentation of such a library says. A decimal is its sign, a mantissa of 96 bits and a scale of
at most 28. What fits is read and added exactly; of what does not, digits of the fraction are rounded away, and only a
number that is too large is refused. Nothing is said of how anything is rounded, or of texts with an exponent.
-/

namespace GraceStore

/-! ## Parts -/

namespace DecimalParts

/-- The parts `q` of the same number, without the zeros that end the fraction of `p`. -/
structure Strips (p q : DecimalParts) : Prop where
  zeros : ∃ k, p.mantissa = q.mantissa * 10 ^ k ∧ p.scale = q.scale + k
  last : q.scale = 0 ∨ q.mantissa % 10 ≠ 0
  sign : q.mantissa ≠ 0 → q.negative = p.negative

/-- The scale at which two numbers are summed. -/
def common (p q : DecimalParts) : Nat := max p.scale q.scale

def sum (p q : DecimalParts) : Int := p.atScale (p.common q) + q.atScale (p.common q)

/-- Two numbers and their sum are whole multiples that a mantissa can be, at the larger scale of the two. -/
structure Fits (p q : DecimalParts) : Prop where
  left : (p.atScale (p.common q)).natAbs < 2 ^ 96
  right : (q.atScale (p.common q)).natAbs < 2 ^ 96
  sum : (p.sum q).natAbs < 2 ^ 96

end DecimalParts

/-- The parts of the number that a literal without an exponent writes; a zero has no sign. -/
def Literal.parts (l : Literal) : DecimalParts where
  negative := l.negative && Digits.toNat (l.whole ++ l.fraction) != 0
  mantissa := Digits.toNat (l.whole ++ l.fraction)
  scale := l.fraction.length

/-! ## Laws -/

namespace Decimals

class Lawful [Decimals] : Prop where
  ext {a b : Decimal} (h : parts a = parts b) : a = b
  mantissa_lt (d : Decimal) : (parts d).mantissa < 2 ^ 96
  scale_le (d : Decimal) : (parts d).scale ≤ 28
  parts_zero : parts zero = ⟨false, 0, 0⟩
  parts_ofInt64 (v : Int64) : parts (ofInt64 v) = ⟨v < 0, v.toInt.natAbs, 0⟩
  /-- Digits that fit are all read. -/
  parse?_of_fits {s : Bytes} {l : Literal} (h : Literal.parse? s = some l) (he : l.exponent = none)
    (hm : l.parts.mantissa < 2 ^ 96) (hs : l.parts.scale ≤ 28) : (parse? s).map parts = some l.parts
  /-- A fraction may have any number of digits. -/
  parse?_isSome {s : Bytes} {l : Literal} (h : Literal.parse? s = some l) (he : l.exponent = none)
    (hw : Digits.toNat l.whole + 1 < 2 ^ 96) : (parse? s).isSome
  parse?_of_le {s : Bytes} {l : Literal} (h : Literal.parse? s = some l) (he : l.exponent = none)
    (hw : 2 ^ 96 ≤ Digits.toNat l.whole) : parse? s = none
  add?_of_fits {a b : Decimal} (h : (parts a).Fits (parts b)) :
    ∃ d, add? a b = some d ∧ (parts d).scale ≤ (parts a).common (parts b) ∧
      (parts d).atScale ((parts a).common (parts b)) = (parts a).sum (parts b)
  /-- Only a sum beyond the largest mantissa is out of range. -/
  lt_of_add?_none {a b : Decimal} (h : add? a b = none) :
    (2 ^ 96 - 1) * 10 ^ (parts a).common (parts b) < ((parts a).sum (parts b)).natAbs
  scale_round_le (places : Nat) (d : Decimal) : (parts (round places d)).scale ≤ places
  round_of_le {places : Nat} {d : Decimal} (h : (parts d).scale ≤ places) : round places d = d
  normalize_strips (d : Decimal) : (parts d).Strips (parts (normalize d))
  isZero_iff (d : Decimal) : isZero d = true ↔ (parts d).mantissa = 0
  render_eq (d : Decimal) : render d = (parts d).text
  normal_toBinary64? {d : Decimal} {x : Binary64} (h : toBinary64? d = some x) : x.Normal
  /-- A whole number is rounded once. -/
  toBinary64?_of_whole {d : Decimal} (h : (parts d).scale = 0) : toBinary64? d =
    some (.ofRatio ((parts d).negative && (parts d).mantissa != 0) (parts d).mantissa 1)

end Decimals

end GraceStore
