import GraceStore.Number.Digits

/-!
# Integers as text

A 64-bit signed integer has one canonical text: an optional minus sign, then its digits without a
leading zero. `parse?` reads that text and nothing else, so a value kept as an integer gives back the
bytes it was made from. `parseLoose?` also takes a plus sign and leading zeros, as the length fields
of the wire format and the options of the command line do.
-/

namespace GraceStore.Integer

/-- The largest magnitude of a negative 64-bit integer, `2 ^ 63`; positive ones stay below it. -/
def bound : Nat := 0x8000000000000000

/-- The integer of a sign and a magnitude, if it fits in 64 bits. -/
def ofMagnitude? (negative : Bool) (n : Nat) : Option Int64 :=
  if negative then
    if n ≤ bound then some (Int64.ofInt (-(n : Int))) else none
  else
    if n < bound then some (Int64.ofInt n) else none

/-- The magnitude of digits that are canonical for a number other than zero, if it can be that of an
integer. -/
def magnitude? (ds : Bytes) : Option Nat :=
  match ds with
  | [] => none
  | d :: _ =>
    if d != 0x30 && ds.all Digits.isDigit then Digits.toNatBelow? (bound + 1) ds else none

/-- Reads a canonical integer: no plus sign, no leading zero, no `-0`, nothing around it. -/
def parse? (s : Bytes) : Option Int64 :=
  if s = [0x30] then some 0
  else match s with
    | 0x2d :: ds => (magnitude? ds).bind (ofMagnitude? true)
    | ds => (magnitude? ds).bind (ofMagnitude? false)

def render (v : Int64) : Bytes :=
  if v < 0 then 0x2d :: Digits.ofNat v.toInt.natAbs else Digits.ofNat v.toInt.natAbs

/-- The length of the canonical text, counted without writing it. -/
def width (v : Int64) : Nat :=
  Digits.count v.toInt.natAbs + if v < 0 then 1 else 0

def splitSign : Bytes → Bool × Bytes
  | 0x2d :: r => (true, r)
  | 0x2b :: r => (false, r)
  | r => (false, r)

def isNumeral (s : Bytes) : Bool := !s.isEmpty && s.all Digits.isDigit

/-- The number of one or more digits, leading zeros allowed, if it is below `limit`. -/
def looseMagnitude? (limit : Nat) (ds : Bytes) : Option Nat :=
  if isNumeral ds then Digits.toNatBelow? limit ds else none

/-- Reads an optional sign and one or more digits, if the value fits in 64 bits. -/
def parseLoose? (s : Bytes) : Option Int64 :=
  let (negative, ds) := splitSign s
  (looseMagnitude? (bound + 1) ds).bind (ofMagnitude? negative)

/-- Reads an optional plus sign and one or more digits as a number below `limit`. -/
def parseUnsigned? (limit : Nat) (s : Bytes) : Option Nat :=
  let ds := match s with
    | 0x2b :: r => r
    | r => r
  looseMagnitude? limit ds

/-! ## Arithmetic with a bound -/

/-- An integer as 64 bits, if it fits. -/
def ofInt? (n : Int) : Option Int64 :=
  if -(bound : Int) ≤ n ∧ n < bound then some (Int64.ofInt n) else none

/-- The sum, if it fits in 64 bits. It can only be too large if both have one sign, and then the room that one of
them leaves is compared with the other, so that nothing wraps around. -/
def add? (a b : Int64) : Option Int64 :=
  if (b < 0 ∧ a < 0 ∧ b < Int64.minValue - a) ∨ (0 < b ∧ 0 < a ∧ Int64.maxValue - a < b) then none
  else some (a + b)

def neg? (a : Int64) : Option Int64 := ofInt? (-a.toInt)

theorem length_render (v : Int64) : (render v).length = width v := by
  unfold render width
  split <;> simp [Digits.length_ofNat]

end GraceStore.Integer
