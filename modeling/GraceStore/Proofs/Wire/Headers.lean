import GraceStore.Proofs.Wire.Grammar

/-!
# Headers

Every frame begins with a line, and its first byte says which lines will do. `Frame.Kind.exists_heads_iff` tells from
the beginning of a line whether it can still become one of them, and `Frame.Heads.starts` says that every one of them
begins a frame.
-/

namespace GraceStore

/-! ## Beginnings of numerals -/

namespace Integer

variable {text more ds : Bytes} {n : Int}

theorem splitSign_append (h : text ≠ []) (more : Bytes) :
    splitSign (text ++ more) = ((splitSign text).1, (splitSign text).2 ++ more) := by
  obtain ⟨b, rest, rfl⟩ := List.exists_cons_of_ne_nil h
  by_cases hminus : b = 0x2d
  · subst hminus
    rfl
  · by_cases hplus : b = 0x2b
    · subst hplus
      rfl
    · have hplain (s : Bytes) : splitSign (b :: s) = (false, b :: s) := by
        unfold splitSign
        split
        · rename_i heq
          exact absurd (List.cons.inj heq).1 hminus
        · rename_i heq
          exact absurd (List.cons.inj heq).1 hplus
        · rfl
      rw [List.cons_append, hplain, hplain, List.cons_append]

/-- The number that the sign and the digits written so far make; without digits it is zero. -/
def soFar (text : Bytes) : Int := signed (splitSign text).1 (splitSign text).2

/-- More digits lead away from zero. -/
theorem soFar_between (h : Numeral (text ++ more) n) :
    0 ≤ soFar text ∧ soFar text ≤ n ∨ n ≤ soFar text ∧ soFar text ≤ 0 := by
  by_cases hnil : text = []
  · subst hnil
    have hzero : soFar [] = 0 := rfl
    omega
  · obtain ⟨-, hn⟩ := numeral_iff.mp h
    rw [splitSign_append hnil] at hn
    have hle : Digits.toNat (splitSign text).2 ≤ Digits.toNat ((splitSign text).2 ++ more) := by
      rw [Digits.toNat, Digits.toNat, Digits.readOn_append]
      exact Digits.le_readOn _ _
    simp only [hn, soFar, signed]
    split <;> omega

/-- A text begins a numeral of some range around zero if a sign and digits are all that it has, and what they write so
far is in the range. -/
theorem exists_numeral_append_iff {P : Int → Prop}
    (hP : ∀ m n, 0 ≤ m ∧ m ≤ n ∨ n ≤ m ∧ m ≤ 0 → P n → P m) :
    (∃ more n, Numeral (text ++ more) n ∧ P n) ↔ (splitSign text).2.all Digits.isDigit = true ∧ P (soFar text) := by
  constructor
  · rintro ⟨more, n, hn, hPn⟩
    refine ⟨?_, hP _ n (soFar_between hn) hPn⟩
    by_cases hnil : text = []
    · subst hnil
      rfl
    · obtain ⟨hrun, -⟩ := numeral_iff.mp hn
      rw [splitSign_append hnil] at hrun
      exact List.all_eq_true.mpr fun d hd => hrun.digits d (List.mem_append_left _ hd)
  · rintro ⟨hdigits, hPn⟩
    by_cases hnone : (splitSign text).2 = []
    · -- a zero is the first digit
      have hzero : Numeral (text ++ [0x30]) 0 := by
        by_cases hnil : text = []
        · subst hnil
          exact .unsigned ⟨nofun, List.forall_mem_singleton.mpr rfl⟩
        · refine numeral_iff.mpr ?_
          rw [splitSign_append hnil, hnone]
          refine ⟨⟨nofun, by simp [Digits.isDigit]⟩, ?_⟩
          cases (splitSign text).1 <;> rfl
      have hsoFar : soFar text = 0 := by
        unfold soFar
        rw [hnone]
        cases (splitSign text).1 <;> rfl
      exact ⟨[0x30], 0, hzero, hsoFar ▸ hPn⟩
    · refine ⟨[], soFar text, ?_, hPn⟩
      rw [List.append_nil]
      exact numeral_iff.mpr ⟨⟨hnone, List.all_eq_true.mp hdigits⟩, rfl⟩

end Integer

/-! ## Lines of a kind -/

namespace Frame

open Reply (line)

variable {k : Kind} {text field : Bytes} {n : Int}

/-- The lines that frames of a kind begin with. -/
inductive Heads : Kind → Bytes → Prop
  | simple {text : Bytes} (h : ∀ b ∈ text, b ≠ 0x0d) : Heads .simpleString text
  | simpleError {text : Bytes} (h : ∀ b ∈ text, b ≠ 0x0d) : Heads .simpleError text
  | integer {text : Bytes} {n : Int} (h : Numeral text n) : Heads .integer text
  | bulk {field : Bytes} {n : Int} (h : Count field n) (hmax : n ≤ maxString) : Heads .bulkString field
  | array {field : Bytes} {n : Int} (h : Count field n) : Heads .array field
  | null : Heads .null []

theorem Heads.ne_carriageReturn (h : Heads k text) : ∀ b ∈ text, b ≠ 0x0d := by
  cases h with
  | simple h | simpleError h => exact h
  | integer h => exact h.ne_carriageReturn
  | bulk h _ | array h => exact h.numeral.ne_carriageReturn
  | null => exact nofun

theorem heads_simpleString_iff : Heads .simpleString text ↔ ∀ b ∈ text, b ≠ 0x0d :=
  ⟨Heads.ne_carriageReturn, .simple⟩

theorem heads_simpleError_iff : Heads .simpleError text ↔ ∀ b ∈ text, b ≠ 0x0d :=
  ⟨Heads.ne_carriageReturn, .simpleError⟩

theorem heads_integer_iff : Heads .integer text ↔ ∃ n, Numeral text n := by
  constructor
  · rintro ⟨⟩
    exact ⟨_, ‹_›⟩
  · rintro ⟨n, h⟩
    exact .integer h

theorem heads_bulkString_iff : Heads .bulkString field ↔ ∃ n, Count field n ∧ n ≤ maxString := by
  constructor
  · rintro ⟨⟩
    exact ⟨_, ‹_›, ‹_›⟩
  · rintro ⟨n, h, hmax⟩
    exact .bulk h hmax

theorem heads_array_iff : Heads .array field ↔ ∃ n, Count field n := by
  constructor
  · rintro ⟨⟩
    exact ⟨_, ‹_›⟩
  · rintro ⟨n, h⟩
    exact .array h

theorem heads_null_iff : Heads .null text ↔ text = [] := by
  constructor
  · rintro ⟨⟩
    rfl
  · rintro rfl
    exact .null

/-! ## Beginnings of lines -/

/-- Whether a text is the beginning of a line that frames of a kind begin with. -/
def Kind.begins (k : Kind) (text : Bytes) : Bool :=
  let digits := (Integer.splitSign text).2.all Digits.isDigit
  let n := Integer.soFar text
  match k with
  | .simpleString | .simpleError => text.all (· != 0x0d)
  | .integer => digits
  | .bulkString => digits && decide (-2 ^ 63 ≤ n ∧ n ≤ maxString)
  | .array => digits && decide (-2 ^ 63 ≤ n ∧ n < 2 ^ 63)
  | .null => text.isEmpty
  | .unknown => false

theorem exists_ne_carriageReturn_append_iff :
    (∃ more : Bytes, ∀ b ∈ text ++ more, b ≠ 0x0d) ↔ text.all (· != 0x0d) = true := by
  simp only [List.all_eq_true, bne_iff_ne]
  constructor
  · rintro ⟨more, h⟩
    exact fun b hb => h b (List.mem_append_left _ hb)
  · intro h
    exact ⟨[], by simpa using h⟩

theorem Count.iff : Count field n ↔ Numeral field n ∧ -2 ^ 63 ≤ n ∧ n < 2 ^ 63 :=
  ⟨fun h => ⟨h.numeral, h.lower, h.upper⟩, fun h => ⟨h.1, h.2.1, h.2.2⟩⟩

/-- Whether more bytes can make a line of a kind is told by the bytes that are there. -/
theorem Kind.exists_heads_iff (k : Kind) (text : Bytes) : (∃ more, Heads k (text ++ more)) ↔ k.begins text = true := by
  cases k with
  | simpleString => simpa only [heads_simpleString_iff, Kind.begins] using exists_ne_carriageReturn_append_iff
  | simpleError => simpa only [heads_simpleError_iff, Kind.begins] using exists_ne_carriageReturn_append_iff
  | integer =>
      have h := @Integer.exists_numeral_append_iff text (fun _ => True) fun _ _ _ h => h
      simpa only [heads_integer_iff, Kind.begins, and_true] using h
  | bulkString =>
      have hnear (m n : Int) (hm : 0 ≤ m ∧ m ≤ n ∨ n ≤ m ∧ m ≤ 0) (hn : -2 ^ 63 ≤ n ∧ n ≤ maxString) :
          -2 ^ 63 ≤ m ∧ m ≤ maxString := by omega
      have hmax : (maxString : Int) < 2 ^ 63 := by decide
      simp only [heads_bulkString_iff, Kind.begins, Bool.and_eq_true, decide_eq_true_eq]
      refine Iff.trans (exists_congr fun more => exists_congr fun n => ?_) (Integer.exists_numeral_append_iff hnear)
      rw [Count.iff, and_assoc]
      exact and_congr_right fun _ => by omega
  | array =>
      have hnear (m n : Int) (hm : 0 ≤ m ∧ m ≤ n ∨ n ≤ m ∧ m ≤ 0) (hn : -2 ^ 63 ≤ n ∧ n < 2 ^ 63) :
          -2 ^ 63 ≤ m ∧ m < 2 ^ 63 := by omega
      simp only [heads_array_iff, Kind.begins, Bool.and_eq_true, decide_eq_true_eq, Count.iff]
      exact Integer.exists_numeral_append_iff hnear
  | null => simp [heads_null_iff, Kind.begins]
  | unknown => exact iff_of_false (fun ⟨_, h⟩ => nomatch h) Bool.false_ne_true

/-! ## Beginnings of frames -/

/-- Bytes that a frame begins with. -/
def Starts (d : Bytes) : Prop := ∃ f e, Spells f (d ++ e)

theorem SpellsAll.append {fs gs : List Frame} {v w : Bytes} (h : SpellsAll fs v) (h' : SpellsAll gs w) :
    SpellsAll (fs ++ gs) (v ++ w) := by
  induction fs generalizing v with
  | nil =>
      cases h
      exact h'
  | cons f fs ih =>
      cases h with
      | cons hf hfs =>
          rw [List.append_assoc]
          exact .cons hf (ih hfs)

theorem exists_spellsAll_nulls (n : Nat) : ∃ w, SpellsAll (List.replicate n .null) w := by
  induction n with
  | zero => exact ⟨[], .nil⟩
  | succ n ih =>
      obtain ⟨w, hw⟩ := ih
      exact ⟨_, .cons .null hw⟩

theorem Spells.starts {f : Frame} {w : Bytes} (h : Spells f w) : Starts w := ⟨f, [], by rwa [List.append_nil]⟩

/-- Items of an array begin it, if there are no more than announced. -/
theorem starts_array {size : Nat} {fs : List Frame} {items : Bytes} (h : Count field size) (hitems : SpellsAll fs items)
    (hle : fs.length ≤ size) : Starts (line 0x2a field ++ items) := by
  obtain ⟨w, hw⟩ := exists_spellsAll_nulls (size - fs.length)
  have hlength : (fs ++ List.replicate (size - fs.length) Frame.null).length = size := by
    rw [List.length_append, List.length_replicate]
    omega
  refine ⟨.array (fs ++ List.replicate (size - fs.length) .null), w, ?_⟩
  rw [List.append_assoc]
  exact .array (hlength.symm ▸ h) (hitems.append hw)

/-- Bytes of a string begin it, if there are no more than announced. -/
theorem starts_bulk {size : Nat} {payload : Bytes} (h : Count field size) (hmax : size ≤ maxString)
    (hle : payload.length ≤ size) : Starts (line 0x24 field ++ payload) := by
  have hlength : (payload ++ List.replicate (size - payload.length) 0).length = size := by
    rw [List.length_append, List.length_replicate]
    omega
  refine ⟨.bulk (payload ++ List.replicate (size - payload.length) 0),
    List.replicate (size - payload.length) 0 ++ Bytes.crlf, ?_⟩
  rw [List.append_assoc, ← List.append_assoc payload]
  exact .bulk (hlength.symm ▸ h) (hlength.symm ▸ hmax)

/-- Every such line begins a frame. -/
theorem Heads.starts (h : Heads k text) : Starts (line k.mark text) := by
  cases h with
  | simple h => exact (Spells.simple h).starts
  | simpleError h => exact (Spells.simpleError h).starts
  | integer h => exact (Spells.integer h).starts
  | null => exact Spells.null.starts
  | @bulk _ n h hmax =>
      by_cases hn : n < 0
      · exact (Spells.nullBulk h hn).starts
      · obtain ⟨size, rfl⟩ := Int.eq_ofNat_of_zero_le (Int.not_lt.mp hn)
        have hstarts : Starts (line 0x24 _ ++ []) := starts_bulk h (Int.ofNat_le.mp hmax) (Nat.zero_le size)
        rwa [List.append_nil] at hstarts
  | @array _ n h =>
      by_cases hn : n < 0
      · exact (Spells.nullArray h hn).starts
      · obtain ⟨size, rfl⟩ := Int.eq_ofNat_of_zero_le (Int.not_lt.mp hn)
        have hstarts := starts_array h .nil (Nat.zero_le size)
        rwa [List.append_nil] at hstarts

end Frame

end GraceStore
