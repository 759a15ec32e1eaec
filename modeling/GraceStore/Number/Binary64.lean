import GraceStore.Number.Literal
import GraceStore.Number.Rounding

/-!
# Double precision numbers

Binary floating point with a 53-bit significand, computed exactly: an operation forms its result as a
quotient of natural numbers and rounds it once, to the nearest representable number, halves to the
even significand. A finite number is kept as sign, significand and power of two in the normal form
`Normal`, so that equal numbers are equal data.

The text of a number is the shortest decimal that reads back as that number, written without an
exponent. Of two equally short ones the nearer is taken, and of two equally near ones the larger.
-/

namespace GraceStore

/-- A double precision number: `finite negative m q` is `m * 2 ^ q`, with its sign. -/
inductive Binary64 where
  | nan
  | infinite (negative : Bool)
  | finite (negative : Bool) (significand : Nat) (exponent : Int)
  deriving DecidableEq, Repr

namespace Binary64

def minExponent : Int := -1074

def maxExponent : Int := 971

/-- One above the largest significand, `2 ^ 53`. -/
def significandBound : Nat := 0x20000000000000

/-- The significand from which numbers above the smallest exponent start, `2 ^ 52`. -/
def hiddenBit : Nat := 0x10000000000000

/-- The finite numbers as they are kept: a full significand unless the exponent is the smallest. -/
def Normal : Binary64 → Prop
  | finite _ m q =>
    m < significandBound ∧ minExponent ≤ q ∧ q ≤ maxExponent ∧ (hiddenBit ≤ m ∨ q = minExponent)
  | _ => True

/-- `m * 2 ^ q` as a quotient. -/
def scaled (m : Nat) (q : Int) : Nat × Nat := (m * Nat.pow 2 q.toNat, Nat.pow 2 (-q).toNat)

def zero (negative : Bool) : Binary64 := finite negative 0 minExponent

/-- The greatest `e` with `2 ^ e ≤ n / d`, for positive `n` and `d`. -/
def floorLog (n d : Nat) : Int :=
  let e := (n.log2 : Int) - d.log2
  if d * Nat.pow 2 e.toNat ≤ n * Nat.pow 2 (-e).toNat then e else e - 1

/-- The number nearest to `n / d`, with a sign. -/
def ofRatio (negative : Bool) (n d : Nat) : Binary64 :=
  if n = 0 then zero negative
  else
    let q := max (floorLog n d - 52) minExponent
    let m := Rounding.halfEven (n * Nat.pow 2 (-q).toNat) (d * Nat.pow 2 q.toNat)
    let (m, q) := if m = significandBound then (hiddenBit, q + 1) else (m, q)
    if q > maxExponent then infinite negative else finite negative m q

def ofNat (n : Nat) : Binary64 := ofRatio false n 1

/-- A power of ten above every number of the format, and above the reciprocal of every one but zero. -/
def decimalReach : Nat := 400

/-- The number nearest to `n * 10 ^ power`. -/
def ofDecimal (negative : Bool) (n : Nat) (power : Int) : Binary64 :=
  ofRatio negative (n * Nat.pow 10 power.toNat) (Nat.pow 10 (-power).toNat)

/-- The number nearest to a decimal literal. Numbers far outside the range of the format are settled by
the count of digits alone. -/
def ofLiteral (l : Literal) : Binary64 :=
  let ds := l.digits
  let top := ds.length + l.power
  if ds.isEmpty then zero l.negative
  else if top > decimalReach then infinite l.negative
  else if top < -(decimalReach : Int) then zero l.negative
  else ofDecimal l.negative (Digits.toNatBalanced ds) l.power

/-- Reads a decimal literal or, in any case, `inf` or `infinity`; `nan` is not accepted. -/
def parse? (s : Bytes) : Option Binary64 :=
  let (negative, r) := Integer.splitSign s
  if Bytes.eqIgnoringCase r (Bytes.ofString "inf")
      || Bytes.eqIgnoringCase r (Bytes.ofString "infinity") then
    some (infinite negative)
  else (Literal.unsigned? negative r).map ofLiteral

/-! ## Arithmetic -/

/-- Whether a number is neither infinite nor `nan`. -/
def isFinite : Binary64 → Bool
  | finite .. => true
  | _ => false

def isZero : Binary64 → Bool
  | finite _ m _ => m = 0
  | _ => false

def signed (negative : Bool) (n : Nat) : Int := if negative then -(n : Int) else n

/-- The sum, rounded once. Opposite numbers sum to the positive zero. -/
def add : Binary64 → Binary64 → Binary64
  | nan, _ | _, nan => nan
  | infinite a, infinite b => if a = b then infinite a else nan
  | infinite a, finite .. => infinite a
  | finite .., infinite b => infinite b
  | finite a m p, finite b n q =>
    let e := min p q
    let sum := signed a (m * Nat.pow 2 (p - e).toNat) + signed b (n * Nat.pow 2 (q - e).toNat)
    if sum = 0 then zero (a && b)
    else
      let (num, den) := scaled sum.natAbs e
      ofRatio (sum < 0) num den

def mul : Binary64 → Binary64 → Binary64
  | nan, _ | _, nan => nan
  | infinite a, infinite b => infinite (a != b)
  | infinite a, finite b n _ => if n = 0 then nan else infinite (a != b)
  | finite a m _, infinite b => if m = 0 then nan else infinite (a != b)
  | finite a m p, finite b n q =>
    let (num, den) := scaled (m * n) (p + q)
    ofRatio (a != b) num den

def div : Binary64 → Binary64 → Binary64
  | nan, _ | _, nan => nan
  | infinite _, infinite _ => nan
  | infinite a, finite b _ _ => infinite (a != b)
  | finite a _ _, infinite b => zero (a != b)
  | finite a m p, finite b n q =>
    if n = 0 then (if m = 0 then nan else infinite (a != b))
    else
      let (num, den) := scaled m (p - q)
      ofRatio (a != b) num (den * n)

def roundWhole : Binary64 → Binary64
  | finite a m q =>
    let (num, den) := scaled m q
    ofRatio a (Rounding.halfUp num den) 1
  | x => x

def withSign (negative : Bool) : Binary64 → Binary64
  | nan => nan
  | infinite _ => infinite negative
  | finite _ m q => finite negative m q

/-- The loop of `powTen`: `r * a ^ n` by halving `n`, rounding at every product. -/
def powLoop (r a : Binary64) (n : Nat) : Binary64 :=
  if n = 0 then r
  else
    let r := if n % 2 = 1 then r.mul a else r
    if n / 2 = 0 then r else powLoop r (a.mul a) (n / 2)
termination_by n

def powTen (n : Nat) : Binary64 := powLoop (ofNat 1) (ofNat 10) n

def signBit (negative : Bool) : Nat := if negative then 0x8000000000000000 else 0

/-- The interchange bits: sign, biased exponent and the significand without its leading bit. -/
def toBits : Binary64 → Nat
  | nan => 0x7ff8000000000000
  | infinite a => signBit a + 0x7ff0000000000000
  | finite a m q =>
    let field := if m < hiddenBit then 0 else (q - minExponent).toNat + 1
    signBit a + field * hiddenBit + m % hiddenBit

/-! ## Shortest text -/

/-- The multiples of `10 ^ k` that neighbour `m * 2 ^ q`, filtered to those that read back as that
number; the nearer if both do, the upper if both are equally near.

All quantities are kept over the common unit `2 ^ (q - 2)`: the number is `4 * m` units, and the
numbers that round to it lie between two units below it (one, where the spacing halves) and two units
above it, ends included when the significand is even. -/
def gridPoint? (m : Nat) (q : Int) (k : Int) : Option Nat :=
  let gap := if m = hiddenBit ∧ minExponent < q then 1 else 2
  let (one, den) := scaled 1 (q - 2)
  let unit := den * Nat.pow 10 k.toNat
  let times (x : Nat) := x * one * Nat.pow 10 (-k).toNat
  let low := times (4 * m - gap)
  let high := times (4 * m + 2)
  let here := times (4 * m)
  let readsBack (c : Nat) :=
    if m % 2 = 0 then low ≤ c * unit && c * unit ≤ high else low < c * unit && c * unit < high
  let c := here / unit
  match readsBack c, readsBack (c + 1) with
  | true, true => some (if 2 * (here % unit) < unit then c else c + 1)
  | true, false => some c
  | false, true => some (c + 1)
  | false, false => none

/-- The least `p` with `m * 2 ^ q < 10 ^ p`, for a positive number. -/
def decimalTop (m : Nat) (q : Int) : Int :=
  let (num, den) := scaled m q
  (Digits.count (num * Nat.pow 10 decimalReach / den) : Int) - decimalReach

/-- The shortest decimal that reads back as `m * 2 ^ q`: digits and power of ten. Seventeen digits
always suffice. -/
def shortest (m : Nat) (q : Int) : Nat × Int :=
  let top := decimalTop m q
  ((List.range 17).findSome? fun i =>
    let k := top - (i + 1 : Nat)
    (gridPoint? m q k).map (·, k)).getD (m, q)

/-- The shortest text that reads back, without an exponent; zero has no sign. -/
def render : Binary64 → Bytes
  | nan => Bytes.ofString "NaN"
  | infinite a => Bytes.ofString (if a then "-inf" else "inf")
  | finite a m q =>
    if m = 0 then [0x30]
    else
      let (n, k) := shortest m q
      let text := Digits.fixedPoint (n * Nat.pow 10 k.toNat) (-k).toNat
      if a then 0x2d :: text else text

end Binary64

end GraceStore
