import GraceStore.Number.Binary64

/-!
# Libraries of decimal numbers

The program does not compute with decimals itself but asks a library for them. A library keeps a decimal in a way of
its own; it tells the sign, the mantissa and the scale that make the number `± mantissa / 10 ^ scale`.
-/

namespace GraceStore

/-- What makes a decimal number. -/
@[ext]
structure DecimalParts where
  negative : Bool
  mantissa : Nat
  scale : Nat
  deriving DecidableEq, Repr

namespace DecimalParts

/-- The number as a whole multiple of `10 ^ -s`, for a scale `s` at least its own. -/
def atScale (p : DecimalParts) (s : Nat) : Int :=
  Binary64.signed p.negative (p.mantissa * Nat.pow 10 (s - p.scale))

/-- The text with as many digits after the point as the scale says. -/
def text (p : DecimalParts) : Bytes :=
  let one := Nat.pow 10 p.scale
  let whole := Digits.ofNat (p.mantissa / one)
  let text := if p.scale = 0 then whole else whole ++ [0x2e] ++ Digits.padded p.scale (p.mantissa % one)
  if p.negative then 0x2d :: text else text

end DecimalParts

/-- The decimals of a library, and what the program asks it to do with them. -/
class Decimals where
  Decimal : Type
  parts : Decimal → DecimalParts
  zero : Decimal
  ofInt64 : Int64 → Decimal
  /-- Reads a text without an exponent. -/
  parse? : Bytes → Option Decimal
  /-- Reads a text with an exponent. -/
  parseScientific? : Bytes → Option Decimal
  /-- The sum, unless it is out of range. -/
  add? : Decimal → Decimal → Option Decimal
  /-- Rounds to a number of digits after the point. -/
  round : Nat → Decimal → Decimal
  /-- Leaves out the zeros at the end of the fraction. -/
  normalize : Decimal → Decimal
  isZero : Decimal → Bool
  render : Decimal → Bytes
  toBinary64? : Decimal → Option Binary64

end GraceStore
