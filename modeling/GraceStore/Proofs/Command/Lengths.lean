import GraceStore.Proofs.Command.Ceiling
import GraceStore.Proofs.Command.Composition
import GraceStore.Proofs.Store.Lengths

/-!
# Requests make no long strings

A request that has no long argument to be stored unmeasured makes no long string of short ones, even if its keys fall
due while it is carried out. What an edit measured was the string that it edits: a key that is found again still has
the object it had.
-/

namespace GraceStore

variable {env : Env} {s : Store} {key value : Bytes}

namespace Action

theorem curbs_lookupString (key : Bytes) : (lookupString key).Curbs env s fun x s' =>
    ∀ value, x = some value → s'.Finds key value.toBytes := by
  refine .bind_run (run_expireIfNeeded 0 key) rfl (.bind_run (run_getKey 1 key) rfl ?_)
  generalize (s.keyspace.expireIfNeeded (env.clock.look 0) key).2 = k
  dsimp only
  cases hg : k.get? (env.clock.look 1) key with
  | none => exact .pure nofun
  | some o =>
      obtain ⟨e, he, rfl⟩ := Keyspace.entry?_of_get? hg
      refine (curbs_loadString e.object).bind fun value s' ⟨hb, hvalue⟩ => ?_
      cases value with
      | none => exact .fail _
      | some value =>
          refine .pure fun _ hx e' he' => ?_
          cases hx
          obtain ⟨_, _, hk⟩ := hb.keyspace
          rw [hk] at he'
          cases he.symm.trans he'
          exact hb.value? (hvalue value rfl)

theorem curbs_checkLength (n : Nat) : (checkLength n).Curbs env s fun _ _ => n ≤ maxString := by
  unfold checkLength
  split
  · exact .pure ‹_›
  · exact .fail _

theorem curbs_setCounted (h : value.length ≤ maxString) : (setCounted key value).Curbs env s fun _ _ => True :=
  (curbs_createString h).bind fun _ _ _ => .of_heap rfl

end Action

namespace Command

open GraceStore.Action

/-! ## Setting and removing -/

theorem curbs_setGeneric (h : value.length ≤ maxString) (command : Command) (options : SetOptions)
    (okReply abortReply : Reply) :
    (setGeneric command options key value okReply abortReply).Curbs env s fun _ _ => True := by
  refine (curbs_of_asks (madeOf_expire command options.expire)).bind fun ttl s₁ _ => ?_
  have hholds : (conditionHolds options.condition key).Curbs env s₁ fun _ _ => True :=
    .of_heap (by cases options.condition <;> rfl)
  refine hholds.bind fun holds s₂ _ => ?_
  cases holds with
  | false => exact .pure trivial
  | true => exact (curbs_setCounted h).bind fun _ _ _ => .of_heap (by cases ttl <;> rfl)

theorem curbs_countPresent (i : Nat) (keys : List Bytes) : (countPresent i keys).Curbs env s fun _ _ => True := by
  induction keys generalizing s i with
  | nil => exact .pure trivial
  | cons key keys ih =>
      exact .bind_run (run_expireIfNeeded i key) rfl (.bind_run (run_getKey _ key) rfl
        ((ih _).bind fun _ _ _ => .pure trivial))

theorem curbs_setPairs {kvs : List (Bytes × Bytes)} (h : ∀ kv ∈ kvs, kv.2.length ≤ maxString) :
    (setPairs kvs).Curbs env s fun _ _ => True := by
  induction kvs generalizing s with
  | nil => exact .pure trivial
  | cons kv kvs ih =>
      refine (curbs_createString (h kv List.mem_cons_self)).bind fun _ _ _ => ?_
      exact .bind_run (run_update _) rfl (.bind_run (run_update _) rfl
        (ih fun other ho => h other (List.mem_cons_of_mem _ ho)))

theorem curbs_setMany {args : List Bytes} (h : ∀ v ∈ ((pairs? args).getD []).map (·.2), v.length ≤ maxString)
    (onlyMissing : Bool) : (setMany onlyMissing args).Curbs env s fun _ _ => True := by
  unfold setMany
  cases hp : pairs? args with
  | none => exact .fail _
  | some kvs =>
      rw [hp, Option.getD_some] at h
      have hset (busy : Nat) (s : Store) : Curbs (if 0 < busy then pure { reply := .integer 0 }
          else do
            setPairs kvs
            update (·.markDirty (UInt64.ofNat kvs.length))
            return { reply := if onlyMissing then .integer 1 else .ok } : Action Executed) env s fun _ _ => True := by
        split
        · exact .pure trivial
        · exact (curbs_setPairs fun kv hkv => h _ (List.mem_map_of_mem hkv)).bind fun _ _ _ => .of_heap rfl
      cases onlyMissing with
      | false => exact hset 0 s
      | true => exact (curbs_countPresent 0 _).bind fun busy s' _ => hset busy s'

theorem curbs_removeAll (i : Nat) (keys : List Bytes) : (removeAll i keys).Curbs env s fun _ _ => True := by
  induction keys generalizing s i with
  | nil => exact .pure trivial
  | cons key keys ih =>
      refine .bind_run (run_remove i key) rfl ?_
      split
      · exact .bind_run (run_update _) rfl (.bind_run (run_update _) rfl ((ih _).bind fun _ _ _ => .pure trivial))
      · exact (ih _).bind fun _ _ _ => .pure trivial

/-! ## Going by the old string -/

theorem curbs_getSetKey (h : value.length ≤ maxString) : (getSetKey key value).Curbs env s fun _ _ => True := by
  refine (curbs_lookupString key).bind fun old s' _ => ?_
  cases old with
  | none | some => exact (curbs_setCounted h).bind fun _ _ _ => .of_heap rfl

theorem curbs_addNew {data : Bytes} (h : data.length ≤ maxString) (name : String) (executed : Executed) :
    Curbs (do
      let object ← alloc (.ofBytes data)
      let _ ← apply (·.add key object)
      update (·.markDirty 1)
      update (·.notify .string name key)
      return executed) env s fun _ _ => True :=
  (curbs_alloc (Object.short_ofBytes h)).bind fun _ _ _ => .of_heap rfl

theorem curbs_setRangeOf (offset : Bytes) : (setRangeOf key offset value).Curbs env s fun _ _ => True := by
  refine (curbs_of_asks (madeOf_integerArgument offset)).bind fun n s₁ _ => ?_
  split
  · exact .fail _
  refine (curbs_lookupString key).bind fun old s₂ _ => ?_
  have hlength (data : Bytes) (hold : data.length ≤ maxString) (h : n.toInt.toNat + value.length ≤ maxString) :
      (Bytes.patchAt data n.toInt.toNat value).length ≤ maxString := by
    rw [Bytes.length_patchAt]
    exact Nat.max_le.mpr ⟨hold, h⟩
  cases old with
  | none =>
      simp only [Option.map_none]
      split
      · exact .pure trivial
      · exact (curbs_checkLength _).bind fun _ _ h => curbs_addNew (hlength [] (Nat.zero_le _) h) _ _
  | some old =>
      simp only [Option.map_some]
      split
      · exact .pure trivial
      · refine (curbs_checkLength _).bind fun _ _ h => ?_
        exact (curbs_editInPlace fun data hold _ => hlength data hold h).bind fun _ _ _ => .of_heap rfl

theorem curbs_appendTo (h : value.length ≤ maxString) : (appendTo key value).Curbs env s fun _ _ => True := by
  refine (curbs_lookupString key).bind fun old s₁ hold => ?_
  cases old with
  | none =>
      simp only [Option.map_none]
      split
      · exact .pure trivial
      · exact curbs_addNew h _ _
  | some old =>
      have hfinds := hold old rfl
      simp only [Option.map_some]
      unfold checkLength
      split
      · rename_i hsum
        refine .bind_run (run_pure _) rfl ?_
        refine (curbs_editInPlace fun data _ hle => ?_).bind fun _ _ _ => .of_heap rfl
        -- what is edited is no longer than what was measured
        have hmeasured := hle _ hfinds
        rw [StringValue.length_toBytes] at hmeasured
        rw [List.length_append]
        omega
      · exact .of_heap rfl

/-! ## Counting -/

theorem curbs_store (present : Bool) (o : ObjectId) : (store present key o).Curbs env s fun _ _ => True :=
  .of_heap (by cases present <;> rfl)

/-- The new integer of a key, in place or in another object. -/
theorem curbs_putInteger (present : Bool) (sum : Int64) : Curbs (do
    let inPlace ← if present && !isShared sum then setInPlace key sum else pure false
    if !inPlace then
      let object ← createInteger sum
      store present key object
    update (·.markDirty 1)
    update (·.notify .string "incrby" key)
    return ({ reply := .integer sum } : Executed)) env s fun _ _ => True := by
  have hcreate (s : Store) : Curbs (do
      let object ← createInteger sum
      store present key object
      update (·.markDirty 1)
      update (·.notify .string "incrby" key)
      return ({ reply := .integer sum } : Executed)) env s fun _ _ => True :=
    (curbs_createInteger sum).bind fun o _ _ => (curbs_store present o).bind fun _ _ _ => .of_heap rfl
  have hinPlace : (setInPlace key sum).Curbs env s fun _ _ => True := by
    refine .bind_run (run_exclusive key) rfl ?_
    split
    · exact curbs_setInteger _ sum
    · exact .pure trivial
  split
  · refine hinPlace.bind fun inPlace s' _ => ?_
    cases inPlace with
    | false => exact hcreate s'
    | true => exact .of_heap rfl
  · exact hcreate s

theorem curbs_addInteger (increment : Int64) : (addInteger key increment).Curbs env s fun _ _ => True := by
  refine (curbs_lookupString key).bind fun old s' _ => ?_
  cases old with
  | none =>
      simp only [pure_bind]
      split
      · exact .fail _
      · exact curbs_putInteger false _
  | some value =>
      refine (curbs_of_asks (.ofExcept _)).bind fun start _ _ => ?_
      dsimp only
      split
      · exact .fail _
      · exact curbs_putInteger true _

theorem curbs_incrByOf (increment : Bytes) : (incrByOf key increment).Curbs env s fun _ _ => True :=
  (curbs_of_asks (madeOf_integerArgument increment)).bind fun n _ _ => curbs_addInteger n

theorem curbs_decrByOf (decrement : Bytes) : (decrByOf key decrement).Curbs env s fun _ _ => True := by
  refine (curbs_of_asks (madeOf_integerArgument decrement)).bind fun n _ _ => ?_
  split
  · exact curbs_addInteger _
  · exact .fail _

/-- The text of a sum is put under a key. -/
theorem curbs_putFloat [Decimals] [Decimals.Lawful] (present : Bool) (start : LongFloat) (increment : Bytes) :
    Curbs (match LongFloat.parse? increment with
      | none => fail (.refused .notAFloat)
      | some n =>
        match start.add? n with
        | none => fail (.refused .sumNotFinite)
        | some sum => do
          let text := sum.render
          let object ← alloc (.ofBytes text)
          store present key object
          update (·.markDirty 1)
          update (·.notify .string "incrbyfloat" key)
          return ({ reply := .bulk text, rewrite := some [Bytes.ofString "SET", key, text] } : Executed)) env s
      fun _ _ => True := by
  split
  · exact .fail _
  · split
    · exact .fail _
    · rename_i sum hsum
      have hshort : sum.render.length ≤ maxString := Nat.le_trans (LongFloat.length_render_add hsum) (by decide)
      exact (curbs_alloc (Object.short_ofBytes hshort)).bind fun o _ _ =>
        (curbs_store present o).bind fun _ _ _ => .of_heap rfl

theorem curbs_addFloat [Decimals] [Decimals.Lawful] (increment : Bytes) :
    (addFloat key increment).Curbs env s fun _ _ => True := by
  refine (curbs_lookupString key).bind fun old s' _ => ?_
  cases old with
  | none =>
      simp only [pure_bind]
      exact curbs_putFloat false .zero increment
  | some value => exact (curbs_of_asks (.ofExcept _)).bind fun start _ _ => curbs_putFloat true start increment

end Command

namespace Request

open GraceStore.Action Command

theorem curbs_answer (c : Command) (args : List Bytes) :
    (reporting (answer c args) .ofError).Curbs env s fun _ _ => True := by
  have h : (answer c args).MadeOf fun kind => kind ≠ .change ∧ kind ≠ .publish :=
    madeOf_answer ⟨nofun, nofun⟩ ⟨nofun, nofun⟩ c args
  exact (h.curbs (absurd rfl ·.1) (absurd rfl ·.2) env s).reporting _

theorem curbs_processRead (argv : List Bytes) : (processRead argv).Curbs env s fun _ _ => True := by
  unfold processRead
  split
  · exact .pure trivial
  · split
    · exact .pure trivial
    · split
      · exact curbs_answer _ _
      · exact .pure trivial

variable [Decimals]

theorem curbs_execute [Decimals.Lawful] {c : Command} {args : List Bytes}
    (h : ∀ v ∈ c.unmeasured args, v.length ≤ maxString) : (execute c args).Curbs env s fun _ _ => True := by
  unfold execute
  split
  · refine (curbs_of_asks (.ofExcept _)).bind fun options _ _ => ?_
    exact curbs_setGeneric (h _ List.mem_cons_self) _ options _ _
  · exact curbs_setGeneric (h _ List.mem_cons_self) _ _ _ _
  · exact curbs_setGeneric (h _ List.mem_cons_self) _ _ _ _
  · exact curbs_setGeneric (h _ List.mem_cons_self) _ _ _ _
  · exact curbs_getSetKey (h _ List.mem_cons_self)
  · exact curbs_appendTo (h _ List.mem_cons_self)
  · exact curbs_setRangeOf _
  · exact curbs_setMany h _
  · exact curbs_setMany h _
  · exact curbs_addInteger _
  · exact curbs_addInteger _
  · exact curbs_incrByOf _
  · exact curbs_decrByOf _
  · exact curbs_addFloat _
  · exact (curbs_removeAll 0 _).bind fun _ _ _ => .pure trivial
  · exact .fail _

theorem curbs_processWrite [Decimals.Lawful] {argv : List Bytes}
    (h : ∀ v ∈ unmeasured argv, v.length ≤ maxString) : (processWrite argv).Curbs env s fun _ _ => True := by
  unfold processWrite
  cases hc : command? argv with
  | error e => exact .pure trivial
  | ok c =>
      rw [unmeasured_of_command hc] at h
      simp only
      split
      · exact (curbs_execute h).reporting _
      · exact (curbs_answer c argv.tail).bind fun _ _ _ => .pure trivial

end Request

end GraceStore
