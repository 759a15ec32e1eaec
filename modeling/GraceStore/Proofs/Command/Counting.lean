import GraceStore.Proofs.Command.Outcomes
import GraceStore.Proofs.Number.Canonical
import GraceStore.Proofs.Number.Decimal96

/-!
# Counting

INCR, DECR, INCRBY and DECRBY add to the integer that a key holds as its canonical text. Whether the sum is stored
in place, in a shared object or in a new one, and however the old value was kept, the key then holds the exact
sum for as long as before; a sum outside 64 bits, and a value that is no such text, change nothing.
-/

namespace GraceStore

/-! ## The counter of a key -/

/-- A key that holds nothing counts from zero, and one that holds the canonical text of an integer from there. -/
def Contents.Counter (c : Contents) (key : Bytes) (a : Int64) : Prop :=
  (c key = none ∧ a = 0) ∨ ∃ expiry, c key = some ⟨.string (Integer.render a), expiry⟩

/-- Where a counter starts, as the commands read it. -/
def Contents.start (c : Contents) (key : Bytes) : Except Error Int64 :=
  c.operand key 0 fun data => (StringValue.raw data).toInt64

theorem Contents.start_eq_ok {c : Contents} {key : Bytes} {a : Int64} : c.start key = .ok a ↔ c.Counter key a := by
  unfold start operand string? Counter
  cases c key with
  | none =>
      constructor
      · intro h
        exact .inl ⟨rfl, (Except.ok.inj h).symm⟩
      · rintro (⟨-, rfl⟩ | ⟨_, h⟩)
        · rfl
        · cases h
  | some item =>
      obtain ⟨data | items, expiry⟩ := item
      · show (StringValue.raw data).toInt64 = _ ↔ _
        simp only [StringValue.toInt64]
        constructor
        · intro h
          split at h
          · rename_i v hv
            cases h
            exact .inr ⟨expiry, by rw [Integer.render_of_parse? hv]⟩
          · cases h
        · rintro (⟨h, -⟩ | ⟨_, h⟩)
          · cases h
          · cases h
            rw [Integer.parse?_render]
      · constructor
        · intro h
          cases h
        · rintro (⟨h, -⟩ | ⟨_, h⟩) <;> cases h

/-! ## What is added -/

namespace Integer

/-- The integers that 64 bits hold. -/
def InRange (n : Int) : Prop := -(bound : Int) ≤ n ∧ n < bound

instance {n : Int} : Decidable (InRange n) := inferInstanceAs (Decidable (_ ∧ _))

theorem ofInt?_of_inRange {n : Int} (h : InRange n) : ∃ v, ofInt? n = some v ∧ v.toInt = n := by
  refine ⟨_, if_pos h, ?_⟩
  simp only [InRange, bound] at h
  exact Int64.toInt_ofInt_of_le (by omega) (by omega)

theorem ofInt?_of_not_inRange {n : Int} (h : ¬ InRange n) : ofInt? n = none := if_neg h

/-- The sum is refused exactly if it leaves the 64 bits: what is compared instead of it does not. -/
theorem add?_eq (a b : Int64) : add? a b = ofInt? (a.toInt + b.toInt) := by
  have hmin : Int64.minValue.toInt = -9223372036854775808 := by decide
  have hmax : Int64.maxValue.toInt = 9223372036854775807 := by decide
  have hzero : Int64.toInt 0 = 0 := rfl
  have ha := a.le_toInt
  have ha' := a.toInt_lt
  have hb := b.le_toInt
  have hb' := b.toInt_lt
  have hlow (h : a.toInt < 0) : (Int64.minValue - a).toInt = -9223372036854775808 - a.toInt := by
    rw [Int64.toInt_sub, hmin]
    exact Int.bmod_eq_of_le (by omega) (by omega)
  have hhigh (h : 0 < a.toInt) : (Int64.maxValue - a).toInt = 9223372036854775807 - a.toInt := by
    rw [Int64.toInt_sub, hmax]
    exact Int.bmod_eq_of_le (by omega) (by omega)
  have hover : (b < 0 ∧ a < 0 ∧ b < Int64.minValue - a) ∨ (0 < b ∧ 0 < a ∧ Int64.maxValue - a < b) ↔
      ¬ InRange (a.toInt + b.toInt) := by
    simp only [Int64.lt_iff_toInt_lt, hzero, InRange, bound]
    by_cases hneg : a.toInt < 0
    · rw [hlow hneg]
      omega
    · by_cases hpos : 0 < a.toInt
      · rw [hhigh hpos]
        omega
      · omega
  have hsum : a + b = Int64.ofInt (a.toInt + b.toInt) := by
    rw [Int64.ofInt_add, Int64.ofInt_toInt, Int64.ofInt_toInt]
  unfold add?
  rw [hsum]
  by_cases h : InRange (a.toInt + b.toInt)
  · rw [if_neg fun ho => hover.mp ho h]
    exact (if_pos h).symm
  · rw [if_pos (hover.mpr h), ofInt?_of_not_inRange h]

theorem eq_add_of_add? {a b sum : Int64} (h : add? a b = some sum) : sum = a + b := by
  unfold add? at h
  split at h
  · cases h
  · exact (Option.some.inj h).symm

/-- The negative of an integer fits unless it is the least one. -/
theorem neg?_eq (n : Int64) : (neg? n).map (·.toInt) =
    if n.toInt = -(bound : Int) then none else some (-n.toInt) := by
  have hle := Int64.le_toInt n
  have hlt := Int64.toInt_lt n
  by_cases hn : n.toInt = -(bound : Int)
  · rw [if_pos hn, neg?, ofInt?_of_not_inRange (by simp only [InRange]; omega)]
    rfl
  · have hrange : InRange (-n.toInt) := by
      simp only [InRange, bound] at hn ⊢
      omega
    obtain ⟨v, hv, htoInt⟩ := ofInt?_of_inRange hrange
    rw [if_neg hn, neg?, hv, Option.map_some, htoInt]

end Integer

theorem Script.ofExcept_ok {α β : Type} {a : α} {f : α → Script β} : ofExcept (.ok a) >>= f = f a := rfl

namespace Command

variable {c : Command}

/-- Whether a command counts by an integer. -/
def counts : Command → Bool
  | .incr | .decr | .incrBy | .decrBy => true
  | _ => false

theorem isWrite_of_counts (hc : c.counts = true) : c.isWrite = true := by
  cases c with
  | incr | decr | incrBy | decrBy => rfl
  | _ => cases hc

theorem keys_of_counts {key : Bytes} {words : List Bytes} (hc : c.counts = true) : c.keys (key :: words) = [key] := by
  cases c with
  | incr | decr | incrBy | decrBy => rfl
  | _ => cases hc

/-- How much a command adds to a counter, by its words after the key. -/
def increment? : Command → List Bytes → Option Int
  | .incr, [] => some 1
  | .decr, [] => some (-1)
  | .incrBy, [n] => (Integer.parse? n).map (·.toInt)
  | .decrBy, [n] => (Integer.parse? n).bind fun n => if n.toInt = -(Integer.bound : Int) then none else some (-n.toInt)
  | _, _ => none

/-- A command that counts adds its increment, and is an error if it has none. -/
theorem script_of_counts [Decimals] (key : Bytes) (words : List Bytes) (hc : c.counts = true) :
    (∃ d, c.increment? words = some d.toInt ∧ Script.ofCommand c (key :: words) = Script.addInteger key d) ∨
    (c.increment? words = none ∧ ∃ e, Script.ofCommand c (key :: words) = .failed e) := by
  cases c with
  | incr =>
      cases words with
      | nil => exact .inl ⟨1, rfl, rfl⟩
      | cons _ _ => exact .inr ⟨rfl, _, rfl⟩
  | decr =>
      cases words with
      | nil => exact .inl ⟨-1, rfl, rfl⟩
      | cons _ _ => exact .inr ⟨rfl, _, rfl⟩
  | incrBy =>
      rcases words with _ | ⟨n, _ | ⟨_, _⟩⟩
      · exact .inr ⟨rfl, _, rfl⟩
      · simp only [increment?, Script.ofCommand, Script.incrByOf, Script.integerArgument, integerOf]
        cases Integer.parse? n with
        | none => exact .inr ⟨rfl, _, rfl⟩
        | some d => exact .inl ⟨d, rfl, rfl⟩
      · exact .inr ⟨rfl, _, rfl⟩
  | decrBy =>
      rcases words with _ | ⟨n, _ | ⟨_, _⟩⟩
      · exact .inr ⟨rfl, _, rfl⟩
      · simp only [increment?, Script.ofCommand, Script.decrByOf, Script.integerArgument, integerOf]
        cases Integer.parse? n with
        | none => exact .inr ⟨rfl, _, rfl⟩
        | some n =>
            simp only [Script.ofExcept_ok, Option.bind_some, ← Integer.neg?_eq]
            cases Integer.neg? n with
            | none => exact .inr ⟨rfl, _, rfl⟩
            | some d => exact .inl ⟨d, rfl, rfl⟩
      · exact .inr ⟨rfl, _, rfl⟩
  | _ => cases hc

end Command

/-! ## What the commands do to a ledger -/

theorem Script.run_addInteger {now : UInt64} {l : Ledger} {key : Bytes} {d : Int64} :
    (addInteger key d).run now l = match (l.live now).start key with
      | .error e => (.error e, l.check now key)
      | .ok a => match Integer.add? a d with
        | none => (.error (.refused .counterOverflow), l.check now key)
        | some sum => (.ok { reply := .integer sum }, l.steps now (revision "incrby" key (Integer.render sum))) := by
  rw [addInteger, run_operand, Contents.start]
  cases (l.live now).operand key 0 fun data => (StringValue.raw data).toInt64 with
  | error e => rfl
  | ok a =>
      dsimp only
      cases Integer.add? a d <;> rfl

/-! ## In reachable states -/

namespace Multistore

variable {m : Multistore} {i : DomainId} {now : UInt64} {s : Store} {name key : Bytes} {words : List Bytes}
  {c : Command}

/-- Counters are exact in every reachable state where no other domain owns the string of the key. -/
theorem Reachable.counters_exact [Decimals] [Decimals.Lawful] (h : m.Reachable) (hs : m.store? i = some s)
    (hr : s.Reads key) (hc : Request.command? (name :: key :: words) = .ok c) (hcounts : c.counts = true) :
    (∀ a n, (s.ledger.live now).Counter key a → c.increment? words = some n → Integer.InRange (a.toInt + n) →
      ∃ sum, sum.toInt = a.toInt + n ∧
        m.Leaves i now (name :: key :: words) (.integer sum)
          ((s.ledger.live now).revise key (Integer.render sum)) ∧
        (m.after i now (name :: key :: words)).get i now key = some (.ok (.bulk (Integer.render sum)))) ∧
    ((∀ a n, (s.ledger.live now).Counter key a → c.increment? words = some n → ¬ Integer.InRange (a.toInt + n)) →
      ∃ e, m.LeavesAlone i now (name :: key :: words) (.ofError e) s.ledger) := by
  have hw : c.isWrite = true := Command.isWrite_of_counts hcounts
  have hkeys : ∀ k ∈ c.keys (key :: words), s.Reads k := hr.of_keys (Command.keys_of_counts hcounts)
  rcases Command.script_of_counts key words hcounts with ⟨d, hd, hscript⟩ | ⟨hnone, e, hscript⟩
  · have hrun := congrArg (Script.run now · s.ledger) hscript
    simp only [Script.run_addInteger] at hrun
    refine ⟨fun a n ha hn hrange => ?_, fun hnot => ?_⟩
    · cases hd.symm.trans hn
      obtain ⟨sum, hsum, htoInt⟩ := Integer.ofInt?_of_inRange hrange
      rw [Contents.start_eq_ok.mpr ha] at hrun
      simp only [Integer.add?_eq, hsum] at hrun
      have hleaves := h.leaves hs hc hw hkeys hrun
      rw [Ledger.live_revision] at hleaves
      exact ⟨sum, htoInt, hleaves, h.get_after hs hr hleaves Contents.string?_revise⟩
    · have hcheck := Ledger.purged_check s.ledger now key
      cases ha : (s.ledger.live now).start key with
      | error e =>
          rw [ha] at hrun
          exact ⟨e, h.leavesAlone hs hc hw hkeys hrun hcheck⟩
      | ok a =>
          have hout := Integer.ofInt?_of_not_inRange (hnot a _ (Contents.start_eq_ok.mp ha) hd)
          rw [ha] at hrun
          simp only [Integer.add?_eq, hout] at hrun
          exact ⟨_, h.leavesAlone hs hc hw hkeys hrun hcheck⟩
  · refine ⟨fun a n _ hn => (nomatch hnone.symm.trans hn), fun _ => ⟨e, ?_⟩⟩
    exact h.leavesAlone hs hc hw hkeys (congrArg (Script.run now · s.ledger) hscript) .refl

open scoped Decimal96

/-- A counter that expires at 10 leaves the shared integers at 5. -/
theorem counters_exact_9999 :
    let m := (create List.length [0]).after 0 0 [Bytes.ofString "PSETEX", [0x6b], [0x31, 0x30], Integer.render 9999]
    let argv := [Bytes.ofString "INCR", [0x6b]]
    (m.after 0 5 argv).get 0 5 [0x6b] = some (.ok (.bulk (Integer.render 10000))) ∧ ∃ live,
      m.Leaves 0 5 argv (.integer 10000) live ∧
      live [0x6b] = some ⟨.string (Integer.render 10000), some 10⟩ := by
  intro m argv
  obtain ⟨h, s, hs, hr, hl⟩ :=
    exists_store?_first List.length 0 0 [Bytes.ofString "PSETEX", [0x6b], [0x31, 0x30], Integer.render 9999]
  have hlive : s.ledger.live 5 [0x6b] = some ⟨.string (Integer.render 9999), some 10⟩ := by
    rw [hl]
    decide +kernel
  have hc : Request.command? argv = .ok .incr := rfl
  obtain ⟨sum, hsum, hleaves, hget⟩ :=
    (h.counters_exact hs (hr [0x6b]) hc rfl).1 9999 1 (.inr ⟨_, hlive⟩) rfl (by decide)
  obtain rfl : sum = 10000 := Int64.toInt_inj.mp hsum
  refine ⟨hget, _, hleaves, ?_⟩
  rw [Contents.revise, Contents.set_self, hlive]
  rfl

end Multistore

end GraceStore
