import GraceStore.Proofs.Command.Composition
import GraceStore.Proofs.Store.Refusals

/-!
# Requests that are refused

A request that comes upon the string of another domain has done nothing but look. Commands that only set or
remove keys never come upon one; the others read the old string of their key first, and what they do
afterwards is not refused any more.
-/

namespace GraceStore

open GraceStore.Action

variable {env : Env} {s : Store} {key value : Bytes}

namespace Action

variable {β : Type}

/-- What follows on the old string of a key is done in full. -/
theorem fares_lookup_then {f : Option StringValue → Action β} (hv : s.keyspace.table.Valid s.keyspace.hash)
    (hf : ∀ old s', (old.isSome → s'.Reads key) → (f old).Fares env s' (fun _ _ => True) fun _ => False) :
    (lookupString key >>= f).Fares env s (fun _ _ => True) (s.Bars key) :=
  Fares.bind ((fares_lookupString hv key).mono (fun _ _ h => h) fun _ ⟨hs', hshut⟩ => ⟨hs' ▸ .refl s, hshut⟩)
    fun old s' hopens => (hf old s' hopens).mono (fun _ _ h => h) fun _ h => h.elim

theorem fares_integerArgument (arg : Bytes) {R : Store → Prop} :
    (integerArgument arg).Fares env s (fun _ s' => s' = s) R := by
  unfold integerArgument
  split
  · exact .pure rfl
  · exact .fail _

theorem fares_checkLength (n : Nat) {R : Store → Prop} : (checkLength n).Fares env s (fun _ s' => s' = s) R := by
  unfold checkLength
  split
  · exact .pure rfl
  · exact .fail _

/-- An edit and its report. -/
theorem fares_edit_then (h : s.Reads key) (total : Nat) (edit : Bytes → Bytes) (name : String) :
    Fares (do
      let _ ← checkLength total
      let total ← editInPlace key edit
      update (·.notify .string name key)
      return ({ reply := .integer (Int64.ofNat total) } : Executed)) env s (fun _ _ => True) fun _ => False :=
  (fares_checkLength total).bind fun _ _ hs' => Fares.bind (fares_editInPlace (hs' ▸ h) edit) fun _ _ _ =>
    .bind_run (run_update _) (.pure trivial)

end Action

namespace Command

theorem fares_getSetKey (hv : s.keyspace.table.Valid s.keyspace.hash) :
    (getSetKey key value).Fares env s (fun _ _ => True) (s.Bars key) := by
  refine fares_lookup_then hv fun old s' _ => ?_
  cases old with
  | none | some => exact (madeOf_setNew (.inr rfl) _).fares env s'

theorem fares_setRangeOf (hv : s.keyspace.table.Valid s.keyspace.hash) (offset : Bytes) :
    (setRangeOf key offset value).Fares env s (fun _ _ => True) (s.Bars key) := by
  refine (fares_integerArgument offset).bind fun n s₁ hs₁ => ?_
  subst hs₁
  split
  · exact .fail _
  refine fares_lookup_then hv fun old s' hopens => ?_
  split
  · split
    · exact .pure trivial
    · exact (MadeOf.bind (madeOf_checkLength _) fun _ => madeOf_addNew (.inr rfl) _ _ _).fares env s'
  · rename_i hlength
    have hsome : old.isSome := by simpa using congrArg Option.isSome hlength
    split
    · exact .pure trivial
    · exact fares_edit_then (hopens hsome) _ _ _

theorem fares_appendTo (hv : s.keyspace.table.Valid s.keyspace.hash) :
    (appendTo key value).Fares env s (fun _ _ => True) (s.Bars key) := by
  refine fares_lookup_then hv fun old s' hopens => ?_
  split
  · split
    · exact .pure trivial
    · exact (madeOf_addNew (.inr rfl) _ _ _).fares env s'
  · rename_i hlength
    have hsome : old.isSome := by simpa using congrArg Option.isSome hlength
    exact fares_edit_then (hopens hsome) _ _ _

theorem fares_addInteger (hv : s.keyspace.table.Valid s.keyspace.hash) (increment : Int64) :
    (addInteger key increment).Fares env s (fun _ _ => True) (s.Bars key) := by
  refine fares_lookup_then hv fun old s' _ => MadeOf.fares ?_ env s'
  cases old with
  | none =>
      simp only [pure_bind]
      split
      · exact .fail _
      · exact madeOf_putInteger (.inr rfl) false _
  | some value =>
      refine .bind (.ofExcept _) fun start => ?_
      dsimp only
      split
      · exact .fail _
      · exact madeOf_putInteger (.inr rfl) true _

theorem fares_incrByOf (hv : s.keyspace.table.Valid s.keyspace.hash) (increment : Bytes) :
    (incrByOf key increment).Fares env s (fun _ _ => True) (s.Bars key) := by
  refine Fares.bind (fares_integerArgument increment) fun n s₁ hs₁ => ?_
  subst hs₁
  exact fares_addInteger hv n

theorem fares_decrByOf (hv : s.keyspace.table.Valid s.keyspace.hash) (decrement : Bytes) :
    (decrByOf key decrement).Fares env s (fun _ _ => True) (s.Bars key) := by
  refine Fares.bind (fares_integerArgument decrement) fun n s₁ hs₁ => ?_
  subst hs₁
  split
  · exact fares_addInteger hv _
  · exact .fail _

theorem fares_addFloat [Decimals] (hv : s.keyspace.table.Valid s.keyspace.hash) (increment : Bytes) :
    (addFloat key increment).Fares env s (fun _ _ => True) (s.Bars key) := by
  refine fares_lookup_then hv fun old s' _ => MadeOf.fares ?_ env s'
  cases old with
  | none =>
      simp only [pure_bind]
      exact madeOf_putFloat (.inr rfl) false .zero increment
  | some value => exact .bind (.ofExcept _) fun start => madeOf_putFloat (.inr rfl) true start increment

end Command

namespace Request

open Command

variable {α : Type} {a : Action α}

theorem fares_of_changes {R : Store → Prop} (h : a.MadeOf fun kind => kind = .look ∨ kind = .change) :
    a.Fares env s (fun _ _ => True) R :=
  (h.fares env s).mono (fun _ _ h => h) fun _ h => h.elim

theorem fares_of_looks (h : a.MadeOf fun kind => kind = .look ∨ kind = .count ∨ kind = .load) :
    a.Fares env s (fun _ _ => True) s.Spares :=
  (h.fares_browses (by simp) (by simp) env s).mono (fun _ _ h => h) fun _ h => h.spares

/-- A command comes upon the string of another domain under one of its keys at most. -/
theorem fares_execute [Decimals] (hv : s.keyspace.table.Valid s.keyspace.hash) (c : Command) (args : List Bytes) :
    (execute c args).Fares env s (fun _ _ => True) fun s' => ∃ key ∈ c.keys args, s.Bars key s' := by
  have hfirst {a : Action Executed} {key : Bytes} {keys : List Bytes}
      (h : a.Fares env s (fun _ _ => True) (s.Bars key)) :
      a.Fares env s (fun _ _ => True) fun s' => ∃ other ∈ key :: keys, s.Bars other s' :=
    h.mono (fun _ _ h => h) fun _ hbars => ⟨key, List.mem_cons_self, hbars⟩
  unfold execute
  split
  · exact fares_of_changes (.bind (.ofExcept _) fun options => madeOf_setGeneric (.inl rfl) (.inr rfl) _ options _ _)
  · exact fares_of_changes (madeOf_setGeneric (.inl rfl) (.inr rfl) _ _ _ _)
  · exact fares_of_changes (madeOf_setGeneric (.inl rfl) (.inr rfl) _ _ _ _)
  · exact fares_of_changes (madeOf_setGeneric (.inl rfl) (.inr rfl) _ _ _ _)
  · exact hfirst (fares_getSetKey hv)
  · exact hfirst (fares_appendTo hv)
  · exact hfirst (fares_setRangeOf hv _)
  · exact fares_of_changes (madeOf_setMany (.inl rfl) (.inr rfl) _ _)
  · exact fares_of_changes (madeOf_setMany (.inl rfl) (.inr rfl) _ _)
  · exact hfirst (fares_addInteger hv _)
  · exact hfirst (fares_addInteger hv _)
  · exact hfirst (fares_incrByOf hv _)
  · exact hfirst (fares_decrByOf hv _)
  · exact hfirst (fares_addFloat hv _)
  · exact fares_of_changes (madeOf_delKeys (.inl rfl) (.inr rfl) _)
  · exact .fail _

theorem fares_processWrite [Decimals] (hv : s.keyspace.table.Valid s.keyspace.hash) (argv : List Bytes) :
    (processWrite argv).Fares env s (fun _ _ => True) s.Spares := by
  unfold processWrite
  split
  · exact .pure trivial
  · split
    · exact ((fares_execute hv _ _).mono (fun _ _ h => h) fun _ ⟨_, _, hbars⟩ => hbars.spares).reporting _
    · refine fares_of_looks (.bind (.reporting ?_ _) fun _ => .pure _)
      exact madeOf_answer (.inr (.inl rfl)) (.inr (.inr rfl)) _ _

end Request

end GraceStore
