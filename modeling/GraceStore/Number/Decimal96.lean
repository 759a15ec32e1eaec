import GraceStore.Number.Decimals

/-!
# Decimal numbers with a 96-bit mantissa

The library of decimals that the program runs with. A decimal is a sign, a mantissa below `2 ^ 96` and a scale of
at most 28. Reading refuses what does not fit; a sum that does not fit at its scale drops the fewest digits that
make it fit, rounding halves to the even neighbour.
-/

namespace GraceStore

namespace Decimal96

/-- One above the largest mantissa, `2 ^ 96`. -/
def mantissaBound : Nat := 0x1000000000000000000000000

def maxScale : Nat := 28

end Decimal96

/-- A decimal number `± mantissa / 10 ^ scale`. -/
structure Decimal96 extends DecimalParts where
  mantissa_lt : mantissa < Decimal96.mantissaBound := by decide
  scale_le : scale ≤ Decimal96.maxScale := by decide
  deriving DecidableEq, Repr

namespace Decimal96

def zero : Decimal96 := { negative := false, mantissa := 0, scale := 0 }

def ofParts? (negative : Bool) (m s : Nat) : Option Decimal96 :=
  if h : m < mantissaBound ∧ s ≤ maxScale then some ⟨⟨negative, m, s⟩, h.1, h.2⟩ else none

/-- The decimal of a 64-bit integer. -/
def ofInt64 (v : Int64) : Decimal96 :=
  (ofParts? (v < 0) v.toInt.natAbs 0).getD zero

/-- `m / 10 ^ s` with the fewest digits dropped that make the mantissa fit. -/
def fit? (negative : Bool) (m s : Nat) : Option Decimal96 :=
  (List.range (s + 1)).findSome? fun k =>
    if s ≤ k + maxScale then ofParts? negative (Rounding.halfEven m (Nat.pow 10 k)) (s - k) else none

/-! ## Reading -/

/-- Ends the reading of a fraction at a digit that no longer fits: the digit rounds the mantissa,
halves up, and a mantissa that outgrows its bound gives up one digit of the fraction. -/
def roundLast (negative : Bool) (m s : Nat) (digit : UInt8) : Option Decimal96 :=
  if digit < 0x35 then ofParts? negative m s
  else if m + 1 < mantissaBound then ofParts? negative (m + 1) s
  else if s = 0 then none
  else ofParts? negative ((m + 5) / 10) (s - 1)

/-- Reads the digits of a fraction after the mantissa `m` at scale `s`. -/
def readFraction (negative : Bool) (m s : Nat) : Bytes → Option Decimal96
  | [] => ofParts? negative m s
  | d :: ds =>
    let next := 10 * m + Digits.value d
    if s = maxScale ∨ mantissaBound ≤ next then roundLast negative m s d
    else readFraction negative next (s + 1) ds

def plainZero (d : Decimal96) : Decimal96 :=
  if d.mantissa = 0 then { d with negative := false } else d

def ofDigits? (negative : Bool) (whole fraction : Bytes) : Option Decimal96 :=
  (Digits.toNatBelow? mantissaBound whole).bind fun m =>
    (readFraction negative m 0 fraction).map plainZero

def trim (negative : Bool) (m : Nat) : Nat → Option Decimal96
  | 0 => ofParts? negative m 0
  | s + 1 => if m % 10 = 0 then trim negative (m / 10) s else ofParts? negative m (s + 1)

/-- The number times `10 ^ e` for a positive exponent larger than its scale: in at most two steps,
each fitted. -/
def raise? (d : Decimal96) (e : Nat) : Option Decimal96 :=
  if e > maxScale then none
  else if d.mantissa = 0 then some zero
  else do
    let first := min e 19
    let d ← fit? d.negative (d.mantissa * Nat.pow 10 first) d.scale
    let d ←
      if first < e then fit? d.negative (d.mantissa * Nat.pow 10 (e - first)) d.scale else some d
    trim d.negative d.mantissa d.scale

/-- The number times `10 ^ e`, where it can be kept. -/
def shift? (d : Decimal96) (e : Int) : Option Decimal96 :=
  if e < 0 then ofParts? d.negative d.mantissa (d.scale + e.natAbs)
  else if e.natAbs ≤ d.scale then ofParts? d.negative d.mantissa (d.scale - e.natAbs)
  else raise? d e.natAbs

def parse? (s : Bytes) : Option Decimal96 :=
  (Literal.parse? s).bind fun l => ofDigits? l.negative l.whole l.fraction

def parseScientific? (s : Bytes) : Option Decimal96 := do
  let l ← Literal.parse? s
  let d ← ofDigits? l.negative l.whole l.fraction
  shift? d (l.exponent.getD 0)

/-! ## Sum, value and text -/

/-- The sum, if it can be kept; a zero operand leaves the other one as it is. -/
def add? (a b : Decimal96) : Option Decimal96 :=
  if a.mantissa = 0 then some b
  else if b.mantissa = 0 then some a
  else
    let s := max a.scale b.scale
    let sum := a.atScale s + b.atScale s
    fit? (sum < 0) sum.natAbs s

/-- The double precision number of a decimal. A decimal with a fraction is put together from its whole
part and its fraction and rounded to its own scale, so the result may be off by more than one
rounding. -/
def toBinary64 (d : Decimal96) : Binary64 :=
  if d.scale = 0 then Binary64.ofRatio (d.negative && d.mantissa != 0) d.mantissa 1
  else
    let p := Nat.pow 10 d.scale
    let whole := Binary64.ofNat (d.mantissa / p)
    let fraction := (Binary64.ofNat (d.mantissa % p)).div (Binary64.ofNat p)
    let magnitude :=
      if fraction.isZero then whole
      else
        let r := Binary64.powTen d.scale
        (((whole.add fraction).mul r).roundWhole).div r
    magnitude.withSign d.negative

/-- Rounds to a number of digits after the point, halves to even. -/
def round (places : Nat) (d : Decimal96) : Decimal96 :=
  if d.scale ≤ places then d
  else (ofParts? d.negative (Rounding.halfEven d.mantissa (Nat.pow 10 (d.scale - places))) places).getD zero

def normalize (d : Decimal96) : Decimal96 :=
  if d.mantissa = 0 then zero else (trim d.negative d.mantissa d.scale).getD d

scoped instance decimals : Decimals where
  Decimal := Decimal96
  parts := toDecimalParts
  zero := zero
  ofInt64 := ofInt64
  parse? := parse?
  parseScientific? := parseScientific?
  add? := add?
  round := round
  normalize := normalize
  isZero d := d.mantissa = 0
  render d := d.text
  toBinary64? d := some d.toBinary64

end Decimal96

end GraceStore
