import GraceStore.Proofs.Number.Canonical
import GraceStore.Text.Utf8

/-!
# Numerals

An optional sign and one or more digits, any number of them leading zeros: the text of the counts on the wire.
Reading one gives the number it writes, if that fits in 64 bits, and nothing else is read.
-/

namespace GraceStore

/-- One or more digits. -/
structure Digits.Run (ds : Bytes) : Prop where
  ne_nil : ds ≠ []
  digits : ∀ d ∈ ds, Digits.isDigit d = true

/-- A text is an optional sign and one or more digits that write a number. -/
inductive Numeral : Bytes → Int → Prop
  | unsigned {ds : Bytes} (h : Digits.Run ds) : Numeral ds (Digits.toNat ds)
  | positive {ds : Bytes} (h : Digits.Run ds) : Numeral (0x2b :: ds) (Digits.toNat ds)
  | negative {ds : Bytes} (h : Digits.Run ds) : Numeral (0x2d :: ds) (-(Digits.toNat ds : Int))

variable {s ds : Bytes} {n : Int} {v : Int64}

theorem Digits.run_ofNat (n : Nat) : Run (ofNat n) where
  ne_nil := by
    obtain ⟨d, ds, hds, -, -⟩ := ofNat_cons n
    rw [hds]
    exact List.cons_ne_nil d ds
  digits := List.all_eq_true.mp (all_isDigit_ofNat n)

theorem Digits.Run.splitSign (h : Run ds) : Integer.splitSign ds = (false, ds) := by
  obtain ⟨d, ds, rfl⟩ := List.exists_cons_of_ne_nil h.ne_nil
  exact Integer.splitSign_cons (h.digits d List.mem_cons_self)

theorem Integer.isNumeral_iff : isNumeral ds = true ↔ Digits.Run ds := by
  have hempty : ds.isEmpty = false ↔ ds ≠ [] := by cases ds <;> simp
  rw [isNumeral, Bool.and_eq_true, Bool.not_eq_true', hempty, List.all_eq_true]
  exact ⟨fun h => ⟨h.1, h.2⟩, fun h => ⟨h.1, h.2⟩⟩

/-- The number of a sign and digits. -/
def Integer.signed (negative : Bool) (ds : Bytes) : Int :=
  if negative then -(Digits.toNat ds : Int) else Digits.toNat ds

theorem numeral_iff : Numeral s n ↔
    Digits.Run (Integer.splitSign s).2 ∧ n = Integer.signed (Integer.splitSign s).1 (Integer.splitSign s).2 := by
  constructor
  · rintro (h | h | h)
    · rw [h.splitSign]
      exact ⟨h, rfl⟩
    · exact ⟨h, rfl⟩
    · exact ⟨h, rfl⟩
  · rintro ⟨h, rfl⟩
    generalize hp : Integer.splitSign s = p at h ⊢
    unfold Integer.splitSign at hp
    split at hp <;> subst hp
    · exact .negative h
    · exact .positive h
    · exact .unsigned h

namespace Integer

theorem toInt_of_ofMagnitude? {negative : Bool} {m : Nat} (h : ofMagnitude? negative m = some v) :
    v.toInt = if negative then -(m : Int) else m := by
  unfold ofMagnitude? at h
  have hbound : bound = 2 ^ 63 := rfl
  split at h
  · split at h
    · cases h
      rw [Int64.toInt_ofInt_of_le (by omega) (by omega), if_pos ‹_›]
    · cases h
  · split at h
    · cases h
      rw [Int64.toInt_ofInt_of_le (by omega) (by omega), if_neg ‹_›]
    · cases h

theorem ofMagnitude?_toInt {negative : Bool} {m : Nat} (h : v.toInt = if negative then -(m : Int) else m) :
    m < bound + 1 ∧ ofMagnitude? negative m = some v := by
  have hlower := Int64.le_toInt v
  have hupper := Int64.toInt_lt v
  have hbound : bound = 2 ^ 63 := rfl
  cases negative with
  | true =>
      rw [if_pos rfl] at h
      refine ⟨by omega, ?_⟩
      rw [ofMagnitude?, if_pos rfl, if_pos (by omega), ← h, Int64.ofInt_toInt]
  | false =>
      rw [if_neg (by decide)] at h
      refine ⟨by omega, ?_⟩
      rw [ofMagnitude?, if_neg (by decide), if_pos (by omega), ← h, Int64.ofInt_toInt]

theorem parseLoose?_eq_some_iff : parseLoose? s = some v ↔ Numeral s v.toInt := by
  rw [numeral_iff]
  simp only [parseLoose?, looseMagnitude?, Digits.toNatBelow?_eq, ← isNumeral_iff, signed]
  constructor
  · intro h
    obtain ⟨m, hm, hv⟩ := Option.bind_eq_some_iff.mp h
    split at hm
    · split at hm
      · cases hm
        exact ⟨‹_›, toInt_of_ofMagnitude? hv⟩
      · cases hm
    · cases hm
  · rintro ⟨hds, hv⟩
    obtain ⟨hlt, hof⟩ := ofMagnitude?_toInt hv
    rw [if_pos hds, if_pos hlt, Option.bind_some, hof]

end Integer

/-! ## Characters -/

theorem Utf8.isWellFormed_of_ascii (h : ∀ b ∈ s, b < 0x80) : isWellFormed s = true := by
  induction s with
  | nil => rw [isWellFormed, pieces, List.all_nil]
  | cons b s ih =>
      have hlead : lead b = some (0, 0x80, 0xbf) := by rw [lead, if_pos (h b List.mem_cons_self)]
      rw [isWellFormed, pieces, first, hlead]
      simp only [continuation, List.length_nil, if_true, List.drop_zero, List.all_cons, Option.isSome_some,
        Bool.true_and]
      exact ih fun b' hb => h b' (List.mem_cons_of_mem _ hb)

namespace Numeral

/-- The characters of a numeral: a sign or a digit. -/
theorem characters (h : Numeral s n) : ∀ b ∈ s, b = 0x2b ∨ b = 0x2d ∨ Digits.isDigit b = true := by
  cases h with
  | unsigned h => exact fun b hb => .inr (.inr (h.digits b hb))
  | positive h | negative h =>
      intro b hb
      rcases List.mem_cons.mp hb with rfl | hb
      · simp
      · exact .inr (.inr (h.digits b hb))

theorem ne_carriageReturn (h : Numeral s n) : ∀ b ∈ s, b ≠ 0x0d := by
  rintro b hb rfl
  exact absurd (h.characters _ hb) (by decide)

theorem isWellFormed (h : Numeral s n) : Utf8.isWellFormed s = true := by
  refine Utf8.isWellFormed_of_ascii fun b hb => ?_
  rcases h.characters b hb with rfl | rfl | hd
  · decide
  · decide
  · exact UInt8.lt_iff_toNat_lt.mpr (Nat.lt_of_le_of_lt (Digits.toNat_of_isDigit hd).2 (by decide))

end Numeral

end GraceStore
