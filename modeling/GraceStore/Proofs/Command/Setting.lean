import GraceStore.Proofs.Command.Counting
import GraceStore.Proofs.Command.SeveralKeys
import GraceStore.Proofs.Command.SetOptions

/-!
# Setting a key

What SET, SETNX, SETEX, PSETEX and GETSET do to a ledger. They fail where the options ask for a time to live that
there is not; else they set the key if the condition on it holds, and the key then counts for the time asked for.
-/

namespace GraceStore

open Script (Step)

variable {l : Ledger} {now : UInt64} {key value arg : Bytes} {c c' : Command} {o : SetOptions} {ttl : Option Nat}
  {r a r' a' : Reply}

/-! ## What options ask for -/

/-- The word is the canonical text of a positive integer of 64 bits, and as many units are `ms` milliseconds, which
fit in 64 bits as well. -/
def TimeUnit.Gives (u : TimeUnit) (arg : Bytes) (ms : Nat) : Prop :=
  ∃ n : Int64, arg = Integer.render n ∧ 0 < n.toInt ∧ (ms : Int) = n.toInt * u.factor ∧ ms < Integer.bound

theorem TimeUnit.Gives.unique {u : TimeUnit} {ms ms' : Nat} (h : u.Gives arg ms) (h' : u.Gives arg ms') :
    ms = ms' := by
  obtain ⟨n, rfl, _, hms, _⟩ := h
  obtain ⟨n', htext, _, hms', _⟩ := h'
  have hparse := Integer.parse?_render n
  rw [htext, Integer.parse?_render] at hparse
  cases hparse
  exact Int.ofNat.inj (hms.trans hms'.symm)

theorem Lifetime.toNat_later (t ms : UInt64) :
    (Command.later t ms).toNat = min (t.toNat + ms.toNat) (2 ^ 64 - 1) := by
  unfold Command.later
  split
  · rename_i hlt
    rw [UInt64.toNat_add, Nat.mod_eq_of_lt hlt]
    simp only [UInt64.size] at hlt
    omega
  · rename_i hge
    have hlast : Command.latest.toNat = 2 ^ 64 - 1 := rfl
    simp only [UInt64.size] at hge
    omega

namespace SetOptions

/-- How many milliseconds options ask for, if any. -/
inductive Lasts : SetOptions → Option Nat → Prop
  | forever {condition : SetCondition} : Lasts ⟨condition, none⟩ none
  | within {condition : SetCondition} {arg : Bytes} {u : TimeUnit} {ms : Nat} (h : u.Gives arg ms) :
      Lasts ⟨condition, some (arg, u)⟩ (some ms)

theorem Lasts.unique {ttl' : Option Nat} (h : o.Lasts ttl) (h' : o.Lasts ttl') : ttl = ttl' := by
  cases h with
  | forever =>
      cases h'
      rfl
  | within hgives =>
      cases h' with
      | within hgives' => exact congrArg some (hgives.unique hgives')

/-- A key that is set for some time is due after that time, or after the last time that there is. -/
theorem Lasts.toNat_expiry (h : o.Lasts ttl) : ((ttl.map UInt64.ofNat).map (Command.later now)).map UInt64.toNat =
    ttl.map fun ms => min (now.toNat + ms) (2 ^ 64 - 1) := by
  cases h with
  | forever => rfl
  | @within _ _ _ ms hgives =>
      obtain ⟨_, _, _, _, hlt⟩ := hgives
      simp only [Integer.bound] at hlt
      have hms : (UInt64.ofNat ms).toNat = ms := by
        rw [UInt64.toNat_ofNat', Nat.mod_eq_of_lt (by omega)]
      simp only [Option.map_some, Lifetime.toNat_later, hms]

end SetOptions

namespace SetCondition

def Holds (condition : SetCondition) (item : Option Item) : Prop :=
  match condition with
  | .always => True
  | .ifMissing => item = none
  | .ifPresent => item ≠ none

instance (condition : SetCondition) (item : Option Item) : Decidable (condition.Holds item) := by
  unfold Holds
  cases condition <;> infer_instance

/-- The keys that are looked at for a condition. -/
def looks (condition : SetCondition) (key : Bytes) : List Bytes := if condition = .always then [] else [key]

theorem eq_of_mem_looks {condition : SetCondition} {k : Bytes} (h : k ∈ condition.looks key) : k = key := by
  unfold looks at h
  split at h
  · cases h
  · exact List.mem_singleton.mp h

end SetCondition

namespace Script

/-! ## Times to live -/

theorem timeToLive_of_parse {u : TimeUnit} {n : Int64} (h : Integer.parse? arg = some n) :
    timeToLive c arg u = (Integer.ofInt? (n.toInt * u.factor)).elim (failed (.refused (.badExpiry c.name)))
      fun ms => if 0 < n then pure ms.toUInt64 else failed (.refused (.badExpiry c.name)) := by
  have hn : integerArgument arg = pure n := by
    unfold integerArgument integerOf
    rw [h]
    rfl
  unfold timeToLive
  rw [hn, pure_bind]
  cases Integer.ofInt? (n.toInt * u.factor) <;> rfl

theorem timeToLive_of_gives {u : TimeUnit} {ms : Nat} (h : u.Gives arg ms) :
    timeToLive c arg u = pure (UInt64.ofNat ms) := by
  obtain ⟨n, rfl, hpos, hms, hlt⟩ := h
  obtain ⟨v, hv, hvn⟩ := Integer.ofInt?_of_inRange (n := n.toInt * u.factor) (by
    simp only [Integer.InRange]
    omega)
  have hn : 0 < n := Int64.lt_iff_toInt_lt.mpr hpos
  have hle : 0 ≤ v := Int64.le_iff_toInt_le.mpr (by rw [hvn, ← hms]; exact Int.natCast_nonneg ms)
  have hcast : v.toUInt64 = UInt64.ofNat ms := by
    rw [← UInt64.toNat_inj, Int64.toNat_toUInt64_of_le hle, Int64.toNatClampNeg, hvn, ← hms, UInt64.toNat_ofNat']
    simp only [Integer.bound] at hlt
    omega
  rw [timeToLive_of_parse (Integer.parse?_render n), hv, Option.elim_some, if_pos hn, hcast]

theorem timeToLive_of_not_gives {u : TimeUnit} (h : ¬ ∃ ms, u.Gives arg ms) :
    ∃ e, timeToLive c arg u = failed (.refused e) ∧ (e = .notAnInteger ∨ e = .badExpiry c.name) := by
  cases hparse : Integer.parse? arg with
  | none =>
      refine ⟨.notAnInteger, ?_, .inl rfl⟩
      unfold timeToLive integerArgument integerOf
      rw [hparse]
      rfl
  | some n =>
      refine ⟨.badExpiry c.name, ?_, .inr rfl⟩
      rw [timeToLive_of_parse hparse]
      cases hms : Integer.ofInt? (n.toInt * u.factor) with
      | none => rfl
      | some ms =>
          refine if_neg fun hn => h ⟨(n.toInt * u.factor).toNat, n, (Integer.render_of_parse? hparse).symm, ?_⟩
          have hpos : 0 < n.toInt := Int64.lt_iff_toInt_lt.mp hn
          have hfactor : 0 < u.factor := by cases u <;> decide
          have hprod : 0 < n.toInt * u.factor := Int.mul_pos hpos hfactor
          have hlt := (Option.ite_none_right_eq_some.mp hms).1.2
          omega

theorem expire_of_lasts (h : o.Lasts ttl) : (o.expire.mapM fun (arg, u) => timeToLive c arg u) =
    pure (ttl.map UInt64.ofNat) := by
  cases h with
  | forever => rfl
  | @within _ arg u ms hgives =>
      show (some <$> timeToLive c arg u) = _
      rw [timeToLive_of_gives hgives]
      rfl

theorem expire_of_not_lasts (h : ¬ ∃ ttl, o.Lasts ttl) :
    ∃ e, (o.expire.mapM fun (arg, u) => timeToLive c arg u) = failed (.refused e) ∧
      (e = .notAnInteger ∨ e = .badExpiry c.name) := by
  obtain ⟨condition, _ | ⟨arg, u⟩⟩ := o
  · exact absurd ⟨none, .forever⟩ h
  · have hno : ¬ ∃ ms, u.Gives arg ms := fun ⟨ms, hgives⟩ => h ⟨some ms, .within hgives⟩
    obtain ⟨e, hfailed, he⟩ := timeToLive_of_not_gives (c := c) hno
    refine ⟨e, ?_, he⟩
    show (some <$> timeToLive c arg u) = _
    rw [hfailed]
    rfl

/-! ## Running -/

theorem run_conditionHolds {condition : SetCondition} : (conditionHolds condition key).run now l =
    (.ok (decide (condition.Holds (l.live now key))), l.steps now ((condition.looks key).map .look)) := by
  cases condition with
  | always => rfl
  | ifMissing =>
      show ((Except.ok _ : Except Error Bool), _) = _
      cases l.live now key <;> rfl
  | ifPresent =>
      show ((Except.ok _ : Except Error Bool), _) = _
      cases l.live now key <;> rfl

/-- The steps of a command that sets a key. -/
def setting (key value : Bytes) (ttl : Option Nat) : List Step :=
  [.deed (.put key (.string value) ((ttl.map UInt64.ofNat).elim .forever .within)), .deed (.count 1),
    .deed (.report .string "set" key)] ++ if ttl.isSome then [.deed (.report .generic "expire" key)] else []

theorem run_setGeneric (h : o.Lasts ttl) : (setGeneric c o key value r a).run now l =
    if o.condition.Holds (l.live now key) then
      (.ok { reply := r }, (l.steps now ((o.condition.looks key).map .look)).steps now (setting key value ttl))
    else (.ok { reply := a }, l.steps now ((o.condition.looks key).map .look)) := by
  unfold setGeneric
  rw [expire_of_lasts h, pure_bind, run_bind_ok run_conditionHolds]
  by_cases hholds : o.condition.Holds (l.live now key)
  · rw [if_pos hholds, decide_eq_true hholds]
    cases ttl <;> rfl
  · rw [if_neg hholds, decide_eq_false hholds]
    rfl

theorem run_setGeneric_of_not_lasts (h : ¬ ∃ ttl, o.Lasts ttl) : ∃ e,
    (setGeneric c o key value r a).run now l = (.error (.refused e), l) ∧
      (e = .notAnInteger ∨ e = .badExpiry c.name) := by
  obtain ⟨e, hfailed, he⟩ := expire_of_not_lasts (c := c) h
  refine ⟨e, ?_, he⟩
  unfold setGeneric
  rw [hfailed]
  rfl

/-- What is left does not depend on the command nor on its replies. -/
theorem snd_run_setGeneric :
    ((setGeneric c o key value r a).run now l).2 = ((setGeneric c' o key value r' a').run now l).2 := by
  by_cases h : ∃ ttl, o.Lasts ttl
  · obtain ⟨ttl, h⟩ := h
    rw [run_setGeneric h, run_setGeneric h]
    split <;> rfl
  · have hleft {c : Command} {r a : Reply} : ((setGeneric c o key value r a).run now l).2 = l := by
      obtain ⟨_, hrun, _⟩ := run_setGeneric_of_not_lasts h
      rw [hrun]
    rw [hleft, hleft]

theorem live_setting : ((l.steps now (setting key value ttl)).live now) =
    (l.live now).set key (some ⟨.string value, (ttl.map UInt64.ofNat).map (Command.later now)⟩) := by
  have hput : (l.steps now (setting key value ttl)).live now =
      (l.perform now (.put key (.string value) ((ttl.map UInt64.ofNat).elim .forever .within))).live now := by
    cases ttl <;> rfl
  rw [hput, Ledger.live_put]
  cases ttl <;> rfl

theorem items_setting : (l.steps now (setting key value ttl)).items key =
    some ⟨.string value, (ttl.map UInt64.ofNat).map (Command.later now)⟩ := by
  have hlive : (l.steps now (setting key value ttl)).live now key = _ := congrFun live_setting key
  rw [Contents.set_self] at hlive
  exact (Contents.live_eq_some.mp hlive).1

/-- GETSET leaves what SET leaves once the key has been looked at. -/
theorem run_getSetKey {old : Option Bytes} (hold : (l.live now).string? key = .ok old) :
    (getSetKey key value).run now l = (.ok { reply := old.elim .null .bulk },
      ((setGeneric .set {} key value .ok .null).run now (l.check now key)).2) := by
  unfold getSetKey
  rw [run_bind, run_string, hold]
  rfl

end Script

end GraceStore
