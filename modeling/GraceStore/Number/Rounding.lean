/-!
# Rounding a quotient

Two ways to round `n / d` to a whole number. They differ only at the exact halves: to the even
neighbour, or up.
-/

namespace GraceStore.Rounding

/-- `n / d` rounded to the nearest whole number, halves to the even neighbour. -/
def halfEven (n d : Nat) : Nat :=
  let q := n / d
  let twice := 2 * (n % d)
  if twice < d then q
  else if d < twice then q + 1
  else if q % 2 = 0 then q else q + 1

/-- `n / d` rounded to the nearest whole number, halves up. -/
def halfUp (n d : Nat) : Nat := (2 * n + d) / (2 * d)

/-- The rounded value is within half a unit of the quotient. -/
theorem halfEven_near (n : Nat) {d : Nat} (h : 0 < d) :
    2 * n ≤ (2 * halfEven n d + 1) * d ∧ 2 * halfEven n d * d ≤ 2 * n + d := by
  have hn := Nat.div_add_mod n d
  have hm := Nat.mod_lt n h
  have hc : d * (n / d) = n / d * d := Nat.mul_comm _ _
  unfold halfEven
  simp only []
  generalize n / d = q at *
  generalize n % d = r at *
  split
  · constructor <;> grind
  · split
    · constructor <;> grind
    · split <;> constructor <;> grind

end GraceStore.Rounding
