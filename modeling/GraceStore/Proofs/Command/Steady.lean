import GraceStore.Proofs.Command.Carried
import GraceStore.Proofs.Command.Composition
import GraceStore.Proofs.Command.Within
import GraceStore.Proofs.Store.Steady

/-!
# Requests under a steady clock

A request looks at the clock for the keys that it names and no others. Where these keys are steady it is carried
out as if the clock stood still: all looks come before anything is set, and a removal leaves nothing to be due. Where
a key falls due between two looks, a request may go by neither.
-/

namespace GraceStore

open GraceStore.Action

variable {env : Env} {s : Store} {named : Bytes → Prop} {key value : Bytes}

namespace Action

theorem abides_lookupString (hs : s.Steady env.clock named) (hkey : named key) :
    (lookupString key).Abides env s named := by
  refine (abides_expireIfNeeded hs hkey 0).bind fun _ s₁ hs₁ => (abides_getKey hs₁ hkey 1).bind fun found s₂ hs₂ => ?_
  cases found with
  | none => exact .pure hs₂
  | some o =>
      refine MadeOf.abides (.bind (.load rfl o) fun value => ?_) hs₂
      cases value with
      | none => exact .fail _
      | some value => exact .pure _

theorem rests_editInPlace (hs : s.Steady env.clock named) (hkey : named key) (edit : Bytes → Bytes) :
    (editInPlace key edit).Rests env s := by
  refine (rests_unshareString hs hkey 2).bind fun token s' _ => ?_
  cases token with
  | none => rfl
  | some token => exact (madeOf_editThrough nofun nofun nofun edit token).rests

end Action

namespace Command

/-! ## Setting and removing -/

theorem abides_conditionHolds (hs : s.Steady env.clock named) (hkey : named key) (condition : SetCondition) :
    (conditionHolds condition key).Abides env s named := by
  cases condition with
  | always => exact .pure hs
  | ifMissing | ifPresent =>
      exact (abides_expireIfNeeded hs hkey 0).bind fun _ _ hs₁ => (abides_getKey hs₁ hkey 1).bind fun _ _ => .pure

theorem rests_setGeneric (hs : s.Steady env.clock named) (hkey : named key) (command : Command)
    (options : SetOptions) (okReply abortReply : Reply) :
    (setGeneric command options key value okReply abortReply).Rests env s := by
  refine ((madeOf_expire command options.expire).abides hs).then fun ttl s₁ hs₁ => ?_
  refine (abides_conditionHolds hs₁ hkey options.condition).then fun holds s₂ _ => ?_
  cases holds with
  | false => rfl
  | true => exact (madeOf_setFor nofun ttl okReply).rests

theorem abides_countPresent {keys : List Bytes} (hs : s.Steady env.clock named) (hkeys : ∀ key ∈ keys, named key)
    (i : Nat) : (countPresent i keys).Abides env s named := by
  induction keys generalizing s i with
  | nil => exact .pure hs
  | cons key keys ih =>
      have hkey := hkeys key List.mem_cons_self
      exact (abides_expireIfNeeded hs hkey i).bind fun _ _ hs₁ => (abides_getKey hs₁ hkey _).bind fun _ _ hs₂ =>
        (ih hs₂ (fun k hk => hkeys k (List.mem_cons_of_mem _ hk)) _).bind fun _ _ => .pure

theorem rests_setMany {args : List Bytes} (hs : s.Steady env.clock named)
    (hkeys : ∀ key ∈ ((pairs? args).getD []).map (·.1), named key) (onlyMissing : Bool) :
    (setMany onlyMissing args).Rests env s := by
  unfold setMany
  cases hp : pairs? args with
  | none => rfl
  | some kvs =>
      rw [hp, Option.getD_some] at hkeys
      cases onlyMissing with
      | false => exact (madeOf_setUnlessBusy nofun false kvs 0).rests
      | true =>
          exact (abides_countPresent hs hkeys 0).then fun busy _ _ => (madeOf_setUnlessBusy nofun true kvs busy).rests

theorem abides_removeAll {keys : List Bytes} (hs : s.Steady env.clock named) (hkeys : ∀ key ∈ keys, named key)
    (i : Nat) : (removeAll i keys).Abides env s named := by
  induction keys generalizing s i with
  | nil => exact .pure hs
  | cons key keys ih =>
      have hrest {s' : Store} (hs' : s'.Steady env.clock named) : (removeAll (i + 1) keys).Abides env s' named :=
        ih hs' (fun k hk => hkeys k (List.mem_cons_of_mem _ hk)) _
      refine (abides_remove hs (hkeys key List.mem_cons_self) i).bind fun removed s₁ hs₁ => ?_
      cases removed with
      | false => exact (hrest hs₁).bind fun _ _ => .pure
      | true =>
          exact (abides_markDirty hs₁ 1).bind fun _ _ hs₂ => (abides_notify hs₂ .generic "del" key).bind fun _ _ hs₃ =>
            (hrest hs₃).bind fun _ _ => .pure

theorem rests_delKeys {keys : List Bytes} (hs : s.Steady env.clock named) (hkeys : ∀ key ∈ keys, named key) :
    (delKeys keys).Rests env s :=
  (abides_removeAll hs hkeys 0).then fun _ _ _ => rfl

/-! ## Going by the old string -/

theorem rests_getSetKey (hs : s.Steady env.clock named) (hkey : named key) : (getSetKey key value).Rests env s := by
  refine (abides_lookupString hs hkey).then fun old s' _ => ?_
  cases old with
  | none | some => exact (madeOf_setNew nofun _).rests

theorem rests_edit_then (hs : s.Steady env.clock named) (hkey : named key) (total : Nat) (edit : Bytes → Bytes)
    (name : String) : Rests (do
      let _ ← checkLength total
      let total ← editInPlace key edit
      update (·.notify .string name key)
      return ({ reply := .integer (Int64.ofNat total) } : Executed)) env s :=
  ((madeOf_checkLength total).abides hs).then fun _ _ hs' => (rests_editInPlace hs' hkey edit).bind fun _ _ _ => rfl

theorem rests_setRangeOf (hs : s.Steady env.clock named) (hkey : named key) (offset : Bytes) :
    (setRangeOf key offset value).Rests env s := by
  refine ((madeOf_integerArgument offset).abides hs).then fun n s₁ hs₁ => ?_
  split
  · rfl
  refine (abides_lookupString hs₁ hkey).then fun old s₂ hs₂ => ?_
  split
  · split
    · rfl
    · exact (MadeOf.bind (madeOf_checkLength _) fun _ => madeOf_addNew nofun _ _ _).rests
  · split
    · rfl
    · exact rests_edit_then hs₂ hkey _ _ _

theorem rests_appendTo (hs : s.Steady env.clock named) (hkey : named key) : (appendTo key value).Rests env s := by
  refine (abides_lookupString hs hkey).then fun old s' hs' => ?_
  split
  · split
    · rfl
    · exact (madeOf_addNew nofun _ _ _).rests
  · exact rests_edit_then hs' hkey _ _ _

theorem rests_addInteger (hs : s.Steady env.clock named) (hkey : named key) (increment : Int64) :
    (addInteger key increment).Rests env s := by
  refine (abides_lookupString hs hkey).then fun old s' _ => MadeOf.rests ?_
  cases old with
  | none =>
      simp only [pure_bind]
      split
      · exact .fail _
      · exact madeOf_putInteger nofun false _
  | some value =>
      refine .bind (.ofExcept _) fun start => ?_
      dsimp only
      split
      · exact .fail _
      · exact madeOf_putInteger nofun true _

theorem rests_incrByOf (hs : s.Steady env.clock named) (hkey : named key) (increment : Bytes) :
    (incrByOf key increment).Rests env s :=
  ((madeOf_integerArgument increment).abides hs).then fun n _ hs' => rests_addInteger hs' hkey n

theorem rests_decrByOf (hs : s.Steady env.clock named) (hkey : named key) (decrement : Bytes) :
    (decrByOf key decrement).Rests env s := by
  refine ((madeOf_integerArgument decrement).abides hs).then fun n _ hs' => ?_
  split
  · exact rests_addInteger hs' hkey _
  · rfl

theorem rests_addFloat [Decimals] (hs : s.Steady env.clock named) (hkey : named key) (increment : Bytes) :
    (addFloat key increment).Rests env s := by
  refine (abides_lookupString hs hkey).then fun old s' _ => MadeOf.rests ?_
  cases old with
  | none =>
      simp only [pure_bind]
      exact madeOf_putFloat nofun false .zero increment
  | some value => exact .bind (.ofExcept _) fun start => madeOf_putFloat nofun true start increment

end Command

namespace Request

open Command

theorem rests_execute [Decimals] {c : Command} {args : List Bytes} (hs : s.Steady env.clock named)
    (hkeys : ∀ key ∈ c.keys args, named key) : (execute c args).Rests env s := by
  unfold execute
  split
  · exact (MadeOf.abides (.ofExcept _) hs).then fun options _ hs' =>
      rests_setGeneric hs' (hkeys _ List.mem_cons_self) _ options _ _
  · exact rests_setGeneric hs (hkeys _ List.mem_cons_self) _ _ _ _
  · exact rests_setGeneric hs (hkeys _ List.mem_cons_self) _ _ _ _
  · exact rests_setGeneric hs (hkeys _ List.mem_cons_self) _ _ _ _
  · exact rests_getSetKey hs (hkeys _ List.mem_cons_self)
  · exact rests_appendTo hs (hkeys _ List.mem_cons_self)
  · exact rests_setRangeOf hs (hkeys _ List.mem_cons_self) _
  · exact rests_setMany hs hkeys _
  · exact rests_setMany hs hkeys _
  · exact rests_addInteger hs (hkeys _ List.mem_cons_self) _
  · exact rests_addInteger hs (hkeys _ List.mem_cons_self) _
  · exact rests_incrByOf hs (hkeys _ List.mem_cons_self) _
  · exact rests_decrByOf hs (hkeys _ List.mem_cons_self) _
  · exact rests_addFloat hs (hkeys _ List.mem_cons_self) _
  · exact rests_delKeys hs hkeys
  · rfl

/-- A request whose keys are steady ends as it does if the clock stands still, and leaves the same store. -/
theorem rests_processWrite [Decimals] {argv : List Bytes} (hs : s.Steady env.clock (· ∈ keys argv)) :
    (processWrite argv).Rests env s := by
  unfold keys at hs
  unfold processWrite
  cases hc : command? argv with
  | error e => rfl
  | ok c =>
      simp only [hc] at hs ⊢
      split
      · exact (rests_execute hs fun _ hk => hk).reporting _
      · exact (MadeOf.bind (.reporting (madeOf_answer nofun nofun c argv.tail) _) fun _ => .pure _).rests

/-! ## Keys that are not steady -/

def setNx (key value : Bytes) : List Bytes := [Bytes.ofString "SETNX", key, value]

/-- A key that falls due between the two looks of SETNX is not expired at the first and counts as missing at the
second, so it is set and nothing tells that it had a value. -/
theorem carries_setNx_of_falls_due [Decimals] {held : ObjectId → Prop}
    (hfirst : ¬ s.keyspace.Lingers (env.clock.look 0) key) (hsecond : s.keyspace.Lingers (env.clock.look 1) key) :
    (processWrite (setNx key value)).Carries held env s
      (.deed (.put key (.string value) .forever) (.deed (.count 1) (.deed (.report .string "set" key)
        (.done { reply := .integer 1 })))) := by
  have hc : command? (setNx key value) = .ok .setNx := rfl
  have hholds : (conditionHolds .ifMissing key).run env s = (.ok true, s) := by
    have hexpire : (expireIfNeeded 0 key).run env s = (.ok false, s) := by
      rw [run_expireIfNeeded, Keyspace.expireIfNeeded_of_not_lingers hfirst]
    have hget : (get? 1 key).run env s = (.ok none, s) := by
      rw [run_getKey, Keyspace.get?_eq_none.mpr (.inr hsecond)]
    rw [conditionHolds, run_bind, hexpire]
    simp only
    rw [run_bind, hget]
    rfl
  have hset : (execute .setNx [key, value]).Carries held env s
      (.deed (.put key (.string value) .forever) (.deed (.count 1) (.deed (.report .string "set" key)
        (.done { reply := .integer 1 })))) := by
    refine Meets.bind_run (run_pure none) .refl fun _ => ?_
    refine Meets.bind_run hholds .refl fun _ => ?_
    exact carries_setCounted.bind fun _ _ _ _ => (does_notify .string "set").carries fun _ _ _ _ => .pure
  unfold processWrite
  rw [hc]
  exact carries_reporting hset

end Request

end GraceStore
