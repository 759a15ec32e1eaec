import GraceStore.Bytes

/-!
# Decimal digits

A natural number is written with its decimal digits and no leading zero, zero as one digit.
`toNat` reads any run of digits, leading zeros included, so that `toNat (ofNat n) = n`.
-/

namespace GraceStore.Digits

/-- Whether a byte is one of the ten ASCII digits. -/
def isDigit (b : UInt8) : Bool := 0x30 ≤ b && b ≤ 0x39

def value (b : UInt8) : Nat := b.toNat - 0x30

def digit (d : Nat) : UInt8 := UInt8.ofNat (0x30 + d)

/-- The number that a run of digits writes after `n`. -/
def readOn (n : Nat) (ds : Bytes) : Nat := ds.foldl (fun acc b => 10 * acc + value b) n

def toNat (ds : Bytes) : Nat := readOn 0 ds

/-- `readOn`, unless the number reaches `limit`; no digit is read after the one that reaches it. -/
def readBelow? (limit n : Nat) : Bytes → Option Nat
  | [] => if n < limit then some n else none
  | d :: ds => if n < limit then readBelow? limit (10 * n + value d) ds else none

/-- The number that a run of digits writes, if it is below `limit`. -/
def toNatBelow? (limit : Nat) (ds : Bytes) : Option Nat := readBelow? limit 0 ds

/-- The number that a run of digits writes, put together from its halves, so that the large numbers of
a long run are multiplied a few times and not once a digit. -/
def toNatBalanced (ds : Bytes) : Nat :=
  if ds.length ≤ 16 then toNat ds
  else
    let half := ds.length / 2
    toNatBalanced (ds.take half) * Nat.pow 10 (ds.length - half) + toNatBalanced (ds.drop half)
termination_by ds.length
decreasing_by all_goals simp only [List.length_take, List.length_drop]; omega

def ofNat (n : Nat) : Bytes :=
  if n < 10 then [digit n] else ofNat (n / 10) ++ [digit (n % 10)]
termination_by n

def count (n : Nat) : Nat :=
  if n < 10 then 1 else count (n / 10) + 1
termination_by n

/-- The digits of `n`, with leading zeros up to `width`. -/
def padded (width n : Nat) : Bytes :=
  let ds := ofNat n
  List.replicate (width - ds.length) 0x30 ++ ds

def span (s : Bytes) : Bytes × Bytes := (s.takeWhile isDigit, s.dropWhile isDigit)

/-- The text of `n / 10 ^ places`: positional, without trailing zeros in the fraction and without a
point when the fraction is zero. -/
def fixedPoint (n places : Nat) : Bytes :=
  let one := Nat.pow 10 places
  let fraction := Bytes.trimRight 0x30 (if places = 0 then [] else padded places (n % one))
  let whole := ofNat (n / one)
  if fraction.isEmpty then whole else whole ++ [0x2e] ++ fraction

/-! ## Small laws -/

theorem value_digit {d : Nat} (h : d < 10) : value (digit d) = d := by
  simp only [value, digit, UInt8.toNat_ofNat']
  omega

theorem isDigit_digit {d : Nat} (h : d < 10) : isDigit (digit d) = true := by
  have all : ∀ d < 10, isDigit (digit d) = true := by decide
  exact all d h

theorem readOn_append (n : Nat) (a b : Bytes) : readOn n (a ++ b) = readOn (readOn n a) b := by
  simp [readOn]

theorem readOn_eq (n : Nat) (ds : Bytes) : readOn n ds = n * Nat.pow 10 ds.length + toNat ds := by
  induction ds generalizing n with
  | nil => simp [readOn, toNat]
  | cons d ds ih =>
    have h (m : Nat) : readOn m (d :: ds) = readOn (10 * m + value d) ds := rfl
    have power : Nat.pow 10 (d :: ds).length = Nat.pow 10 ds.length * 10 := rfl
    rw [toNat, h, h, ih, ih (10 * 0 + value d), power]
    grind

theorem toNat_append (a b : Bytes) : toNat (a ++ b) = toNat a * Nat.pow 10 b.length + toNat b := by
  rw [toNat, readOn_append, readOn_eq]
  rfl

theorem le_readOn (n : Nat) (ds : Bytes) : n ≤ readOn n ds := by
  rw [readOn_eq]
  have positive : 0 < Nat.pow 10 ds.length := Nat.pow_pos (by decide)
  have := Nat.le_mul_of_pos_right n positive
  omega

theorem toNatBelow?_eq (limit : Nat) (ds : Bytes) :
    toNatBelow? limit ds = if toNat ds < limit then some (toNat ds) else none := by
  suffices h : ∀ n, readBelow? limit n ds = if readOn n ds < limit then some (readOn n ds) else none
    from h 0
  induction ds with
  | nil => intro n; rfl
  | cons d ds ih =>
    intro n
    have h := le_readOn n (d :: ds)
    rw [readBelow?, ih]
    split
    · rfl
    · rw [if_neg (by omega)]

theorem toNatBalanced_eq (ds : Bytes) : toNatBalanced ds = toNat ds := by
  fun_induction toNatBalanced ds with
  | case1 => rfl
  | case2 ds _ half first rest =>
    have length : (ds.drop half).length = ds.length - half := List.length_drop ..
    rw [first, rest, ← length, ← toNat_append, List.take_append_drop]

theorem toNat_ofNat (n : Nat) : toNat (ofNat n) = n := by
  induction n using Nat.strongRecOn with
  | ind n ih =>
    rw [ofNat]
    split
    · next h => simp [toNat, readOn, value_digit h]
    · next h =>
      have h' : readOn 0 (ofNat (n / 10)) = n / 10 := ih (n / 10) (by omega)
      rw [toNat, readOn_append, h']
      simp only [readOn, List.foldl_cons, List.foldl_nil, value_digit (Nat.mod_lt n (by omega))]
      omega

theorem length_ofNat (n : Nat) : (ofNat n).length = count n := by
  induction n using Nat.strongRecOn with
  | ind n ih =>
    rw [ofNat, count]
    split
    · rfl
    · next h => simp [ih (n / 10) (by omega)]

theorem all_isDigit_ofNat (n : Nat) : (ofNat n).all isDigit = true := by
  induction n using Nat.strongRecOn with
  | ind n ih =>
    rw [ofNat]
    split
    · next h => simp [isDigit_digit h]
    · next h => simp [ih (n / 10) (by omega), isDigit_digit (Nat.mod_lt n (by omega : 0 < 10))]

end GraceStore.Digits
