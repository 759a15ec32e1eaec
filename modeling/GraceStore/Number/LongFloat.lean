import GraceStore.Number.Decimals

/-!
# Long floats

The numbers that INCRBYFLOAT adds. An operand stays decimal whenever the library of decimals can keep it, so
that `0.1 + 0.2` is exactly `0.3`; infinities and what the decimals cannot keep are double precision numbers.
-/

namespace GraceStore

/-- A decimal where it fits, otherwise a double precision number. -/
inductive LongFloat [Decimals] where
  | decimal (d : Decimals.Decimal)
  | float (x : Binary64)

namespace LongFloat

variable [Decimals]

def zero : LongFloat := decimal Decimals.zero

/-- The long float of a 64-bit integer. -/
def ofInt64 (v : Int64) : LongFloat := decimal (Decimals.ofInt64 v)

/-- The decimal of a text, which is read apart if it has an exponent. -/
def decimal? (s : Bytes) : Option Decimals.Decimal :=
  if s.any Literal.isExponentMark then Decimals.parseScientific? s else Decimals.parse? s

/-- Reads what is the text of a double precision number. -/
def parse? (s : Bytes) : Option LongFloat :=
  (Binary64.parse? s).map fun x => (decimal? s).elim (float x) decimal

def toBinary64 : LongFloat → Binary64
  | decimal d => (Decimals.toBinary64? d).getD .nan
  | float x => x

/-- The sum of two double precision numbers, unless it is infinite or `nan`. -/
def addFloats? (a b : LongFloat) : Option LongFloat :=
  let sum := a.toBinary64.add b.toBinary64
  if sum.isFinite then some (float sum) else none

/-- The sum, unless it is infinite or `nan`: decimal where both operands and the sum are. -/
def add? : LongFloat → LongFloat → Option LongFloat
  | decimal a, decimal b =>
    match Decimals.add? a b with
    | some d => some (decimal d)
    | none => addFloats? (decimal a) (decimal b)
  | a, b => addFloats? a b

/-- How many digits after the point the text of a decimal has at most. -/
def textPlaces : Nat := 17

/-- The text: of a decimal without trailing zeros and, for zero, without a sign. -/
def render : LongFloat → Bytes
  | decimal d =>
    let d := Decimals.normalize (Decimals.round textPlaces d)
    if Decimals.isZero d then [0x30] else Decimals.render d
  | float x => x.render

end LongFloat

end GraceStore
