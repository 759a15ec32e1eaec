import GraceStore.Number.Integer

/-!
# Decimal literals

The written form of a decimal number: an optional sign, digits with an optional point and at least
one digit in all, and an optional exponent, which itself has an optional sign and at least one digit.
Only ASCII counts and nothing may surround the number. The digits of an exponent count only until it is
far outside the range of every format.
-/

namespace GraceStore

/-- A decimal number as it is written: `0.00fraction` is not `0.fraction`, and an exponent of zero is
not a missing exponent. -/
structure Literal where
  negative : Bool
  whole : Bytes
  fraction : Bytes
  exponent : Option Int
  deriving DecidableEq, Repr

namespace Literal

def isExponentMark (b : UInt8) : Bool := b = 0x65 || b = 0x45

/-- The exponent from which on its further digits are not read. -/
def exponentReach : Nat := 0x10000

/-- The magnitude of an exponent: once it reaches `exponentReach`, the digits that are left change
nothing. -/
def exponentMagnitude (ds : Bytes) : Nat :=
  ds.foldl (fun n d => if n < exponentReach then 10 * n + Digits.value d else n) 0

/-- Reads what may follow the digits: nothing, or an exponent. -/
def exponent? : Bytes → Option (Option Int)
  | [] => some none
  | b :: r =>
    if isExponentMark b then
      let (negative, ds) := Integer.splitSign r
      if Integer.isNumeral ds then
        let n := exponentMagnitude ds
        some (some (if negative then -(n : Int) else n))
      else none
    else none

def unsigned? (negative : Bool) (s : Bytes) : Option Literal :=
  let (whole, r) := Digits.span s
  let (fraction, tail) := match r with
    | 0x2e :: r => Digits.span r
    | r => ([], r)
  if whole.isEmpty && fraction.isEmpty then none
  else (exponent? tail).map fun e => ⟨negative, whole, fraction, e⟩

def parse? (s : Bytes) : Option Literal :=
  let (negative, r) := Integer.splitSign s
  unsigned? negative r

/-- All digits without leading zeros, to be scaled by `10 ^ power`. -/
def digits (l : Literal) : Bytes := (l.whole ++ l.fraction).dropWhile (· == 0x30)

/-- The power of ten that scales `digits`. -/
def power (l : Literal) : Int := l.exponent.getD 0 - l.fraction.length

end Literal

end GraceStore
