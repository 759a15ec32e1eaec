import GraceStore.Proofs.Command.Footprint
import GraceStore.Proofs.Command.Readings
import GraceStore.Proofs.Store.Moves

/-!
# Requests keep to the keys they name

Whatever a request comes to, even when it breaks off at an object of another domain, all that it has done
are moves within the scope of the keys that it names.
-/

namespace GraceStore

namespace Action

variable {c : Scope} {key value : Bytes}

theorem within_integerArgument (arg : Bytes) : (integerArgument arg).Within c := by
  unfold integerArgument
  split
  · exact .pure _
  · exact .fail _

theorem within_checkLength (n : Nat) : (checkLength n).Within c := by
  unfold checkLength
  split
  · exact .pure _
  · exact .fail _

theorem within_lookupString (hk : c.named key) : (lookupString key).Within c := by
  refine (within_expireIfNeeded 0 hk).bind fun _ => (within_getKey 1 key).bind fun found => ?_
  cases found with
  | none => exact .pure _
  | some o =>
      refine (within_loadString o).bind fun value => ?_
      cases value with
      | none => exact .fail _
      | some value => exact .pure _

theorem within_setCounted (hk : c.named key) : (setCounted key value).Within c := fun _ =>
  (ends_createString value).bind fun _ _ _ ho => (ends_setKey hk ho).bind fun _ s' _ _ => within_markDirty 1 s'

/-- A new object is added under a key that was missing. -/
theorem within_addNew {β : Type} {f : Action β} (hk : c.named key) (a : Object) (hf : f.Within c) :
    (do let object ← alloc a
        let _ ← apply (·.add key object)
        f).Within c := fun _ =>
  (ends_alloc a).bind fun _ _ _ ho => (ends_add hk ho).bind fun _ s' _ _ => hf s'

end Action

namespace Command

open GraceStore.Action

variable {c : Scope} {key value : Bytes}

theorem within_timeToLive (command : Command) (arg : Bytes) (u : TimeUnit) :
    (timeToLive command arg u).Within c := by
  refine (within_integerArgument arg).bind fun n => ?_
  split
  · split
    · exact .pure _
    · exact .fail _
  · exact .fail _

theorem within_conditionHolds (condition : SetCondition) (hk : c.named key) :
    (conditionHolds condition key).Within c := by
  cases condition with
  | always => exact .pure _
  | ifMissing | ifPresent =>
      exact (within_expireIfNeeded 0 hk).bind fun _ => (within_getKey 1 key).bind fun _ => .pure _

theorem within_ttl (command : Command) (expire : Option (Bytes × TimeUnit)) :
    Within (expire.mapM fun (arg, u) => timeToLive command arg u) c := by
  cases expire with
  | none => exact .pure _
  | some p => exact (within_timeToLive command p.1 p.2).bind fun _ => .pure _

theorem within_setGeneric (command : Command) (options : SetOptions) (okReply abortReply : Reply)
    (hk : c.named key) : (setGeneric command options key value okReply abortReply).Within c := by
  refine (within_ttl command options.expire).bind fun ttl => ?_
  refine (within_conditionHolds options.condition hk).bind fun holds => ?_
  cases holds with
  | false => exact .pure _
  | true =>
      refine (within_setCounted hk).bind fun _ => ?_
      cases ttl with
      | none => exact (within_notify _ _ _).bind fun _ => .pure _
      | some ms =>
          exact within_now.bind fun t => (within_setExpiry _ hk).bind fun _ =>
            (within_notify _ _ _).bind fun _ => (within_notify _ _ _).bind fun _ => .pure _

theorem within_getSetKey (hk : c.named key) : (getSetKey key value).Within c := by
  refine (within_lookupString hk).bind fun old => ?_
  cases old with
  | none | some => exact (within_setCounted hk).bind fun _ => (within_notify _ _ _).bind fun _ => .pure _

theorem within_setRangeOf (offset : Bytes) (hk : c.named key) : (setRangeOf key offset value).Within c := by
  refine (within_integerArgument offset).bind fun n => ?_
  split
  · exact .fail _
  refine (within_lookupString hk).bind fun old => ?_
  split
  · split
    · exact .pure _
    · exact (within_checkLength _).bind fun _ => within_addNew hk _ <|
        (within_markDirty 1).bind fun _ => (within_notify _ _ _).bind fun _ => .pure _
  · split
    · exact .pure _
    · exact (within_checkLength _).bind fun _ => (within_editInPlace hk _).bind fun _ =>
        (within_notify _ _ _).bind fun _ => .pure _

theorem within_appendTo (hk : c.named key) : (appendTo key value).Within c := by
  refine (within_lookupString hk).bind fun old => ?_
  split
  · split
    · exact .pure _
    · exact within_addNew hk _ <| (within_markDirty 1).bind fun _ => (within_notify _ _ _).bind fun _ => .pure _
  · exact (within_checkLength _).bind fun _ => (within_editInPlace hk _).bind fun _ =>
      (within_notify _ _ _).bind fun _ => .pure _

/-! ## Several keys -/

theorem within_countPresent (i : Nat) {keys : List Bytes} (hk : ∀ key ∈ keys, c.named key) :
    (countPresent i keys).Within c := by
  induction keys generalizing i with
  | nil => exact .pure _
  | cons key keys ih =>
      refine (within_expireIfNeeded i (hk key List.mem_cons_self)).bind fun _ => (within_getKey _ key).bind fun _ => ?_
      exact (ih _ fun k h => hk k (List.mem_cons_of_mem _ h)).bind fun _ => .pure _

theorem within_setPairs {kvs : List (Bytes × Bytes)} (hk : ∀ kv ∈ kvs, c.named kv.1) :
    (setPairs kvs).Within c := by
  induction kvs with
  | nil => exact .pure _
  | cons kv kvs ih =>
      obtain ⟨key, value⟩ := kv
      have hrest : Within (do update (·.notify .string "set" key); setPairs kvs) c :=
        (within_notify _ _ _).bind fun _ => ih fun kv h => hk kv (List.mem_cons_of_mem _ h)
      exact fun _ => (ends_createString value).bind fun _ _ _ ho =>
        (ends_setKey (hk _ List.mem_cons_self) ho).bind fun _ s' _ _ => hrest s'

theorem within_setMany (onlyMissing : Bool) {args : List Bytes}
    (hk : ∀ key ∈ ((pairs? args).getD []).map (·.1), c.named key) : (setMany onlyMissing args).Within c := by
  unfold setMany
  cases hp : pairs? args with
  | none => exact .fail _
  | some kvs =>
      rw [hp, Option.getD_some] at hk
      have hset (busy : Nat) : Within (if 0 < busy then pure { reply := .integer 0 }
          else do
            setPairs kvs
            update (·.markDirty (UInt64.ofNat kvs.length))
            pure { reply := if onlyMissing then .integer 1 else .ok } : Action Executed) c := by
        split
        · exact .pure _
        · exact (within_setPairs fun kv h => hk kv.1 (List.mem_map_of_mem h)).bind fun _ =>
            (within_markDirty _).bind fun _ => .pure _
      cases onlyMissing with
      | false => exact hset 0
      | true => exact (within_countPresent 0 hk).bind hset

theorem within_removeAll (i : Nat) {keys : List Bytes} (hk : ∀ key ∈ keys, c.named key) :
    (removeAll i keys).Within c := by
  induction keys generalizing i with
  | nil => exact .pure _
  | cons key keys ih =>
      have hrest := ih (i + 1) fun k h => hk k (List.mem_cons_of_mem _ h)
      refine (within_remove i (hk key List.mem_cons_self)).bind fun removed => ?_
      cases removed with
      | false => exact hrest.bind fun _ => .pure _
      | true =>
          exact (within_markDirty 1).bind fun _ => (within_notify _ _ _).bind fun _ => hrest.bind fun _ => .pure _

theorem within_delKeys {keys : List Bytes} (hk : ∀ key ∈ keys, c.named key) : (delKeys keys).Within c :=
  (within_removeAll 0 hk).bind fun _ => .pure _

/-! ## Counting -/

theorem ends_storeObject {s : Store} {o : ObjectId} (present : Bool) (hk : c.named key) (ho : c.Lends s o) :
    (store present key o).Ends c s fun _ _ => True := by
  cases present with
  | false => exact (ends_add hk ho).bind fun _ s' _ _ => Within.pure _ s'
  | true => exact (ends_overwrite hk ho).bind fun _ s' _ _ => Within.pure _ s'

theorem within_setInPlace (hk : c.named key) (n : Int64) : (setInPlace key n).Within c := by
  intro s
  refine (ends_exclusive key).bind fun x s' _ hx => ?_
  cases x with
  | none => exact Within.pure _ s'
  | some token => exact ends_setInteger hk (hx token rfl) n

/-- The new integer of a key, in place or in another object. -/
theorem within_putInteger (present : Bool) (sum : Int64) (hk : c.named key) : Within (do
    let inPlace ← if present && !isShared sum then setInPlace key sum else pure false
    if !inPlace then
      let object ← createInteger sum
      store present key object
    update (·.markDirty 1)
    update (·.notify .string "incrby" key)
    return ({ reply := .integer sum } : Executed)) c := by
  have hreport : Within (do
      update (·.markDirty 1)
      update (·.notify .string "incrby" key)
      return ({ reply := .integer sum } : Executed)) c :=
    (within_markDirty 1).bind fun _ => (within_notify _ _ _).bind fun _ => .pure _
  have hcreate : Within (do
      let object ← createInteger sum
      store present key object
      update (·.markDirty 1)
      update (·.notify .string "incrby" key)
      return ({ reply := .integer sum } : Executed)) c := fun _ =>
    (ends_createInteger sum).bind fun _ _ _ ho => (ends_storeObject present hk ho).bind fun _ s' _ _ => hreport s'
  split
  · refine (within_setInPlace hk sum).bind fun inPlace => ?_
    cases inPlace with
    | false => exact hcreate
    | true => exact hreport
  · exact hcreate

theorem within_addInteger (increment : Int64) (hk : c.named key) : (addInteger key increment).Within c := by
  refine (within_lookupString hk).bind fun old => ?_
  cases old with
  | none =>
      simp only [pure_bind]
      split
      · exact .fail _
      · exact within_putInteger false _ hk
  | some value =>
      refine (Within.ofExcept _).bind fun start => ?_
      dsimp only
      split
      · exact .fail _
      · exact within_putInteger true _ hk

theorem within_incrByOf (increment : Bytes) (hk : c.named key) : (incrByOf key increment).Within c :=
  (within_integerArgument increment).bind fun n => within_addInteger n hk

theorem within_decrByOf (decrement : Bytes) (hk : c.named key) : (decrByOf key decrement).Within c := by
  refine (within_integerArgument decrement).bind fun n => ?_
  split
  · exact within_addInteger _ hk
  · exact .fail _

theorem within_putFloat [Decimals] (present : Bool) (start : LongFloat) (increment : Bytes) (hk : c.named key) :
    Within (match LongFloat.parse? increment with
      | none => fail (.refused .notAFloat)
      | some n =>
        match start.add? n with
        | none => fail (.refused .sumNotFinite)
        | some sum => do
          let text := sum.render
          let object ← alloc (.ofBytes text)
          store present key object
          update (·.markDirty 1)
          update (·.notify .string "incrbyfloat" key)
          return ({ reply := .bulk text, rewrite := some [Bytes.ofString "SET", key, text] } : Executed)) c := by
  split
  · exact .fail _
  · split
    · exact .fail _
    · exact fun _ => (ends_alloc _).bind fun _ _ _ ho => (ends_storeObject present hk ho).bind fun _ s' _ _ =>
        ((within_markDirty 1).bind fun _ => (within_notify _ _ _).bind fun _ => .pure _) s'

theorem within_addFloat [Decimals] (increment : Bytes) (hk : c.named key) : (addFloat key increment).Within c := by
  refine (within_lookupString hk).bind fun old => ?_
  cases old with
  | none =>
      simp only [pure_bind]
      exact within_putFloat false .zero increment hk
  | some value => exact (Within.ofExcept _).bind fun start => within_putFloat true start increment hk

/-! ## Reading -/

theorem within_readString (key : Bytes) : (readString key).Within c := by
  refine (within_lookup key).bind fun found => ?_
  cases found with
  | none => exact .pure _
  | some o =>
      refine (within_loadString o).bind fun value => ?_
      cases value with
      | none => exact .fail _
      | some value => exact .pure _

theorem within_getRangeOf (key first last : Bytes) : (getRangeOf key first last).Within c := by
  refine (within_integerArgument first).bind fun n => (within_integerArgument last).bind fun k => ?_
  refine (within_readString key).bind fun value => ?_
  cases value with
  | none | some => exact .pure _

theorem within_readAll (keys : List Bytes) : (readAll keys).Within c := by
  induction keys with
  | nil => exact .pure _
  | cons key keys ih =>
      refine (within_lookup key).bind fun found => ?_
      cases found with
      | none => exact ih.bind fun _ => .pure _
      | some o => exact (within_loadString o).bind fun _ => ih.bind fun _ => .pure _

theorem within_countFound (keys : List Bytes) : (countFound keys).Within c := by
  induction keys with
  | nil => exact .pure _
  | cons key keys ih => exact (within_lookup key).bind fun _ => ih.bind fun _ => .pure _

end Command

namespace Request

open GraceStore.Action Command

variable {c : Scope}

theorem within_execute [Decimals] (command : Command) (args : List Bytes)
    (hk : ∀ key ∈ command.keys args, c.named key) : (execute command args).Within c := by
  unfold execute
  split
  · exact (Within.ofExcept _).bind fun options => within_setGeneric _ options _ _ (hk _ List.mem_cons_self)
  · exact within_setGeneric _ _ _ _ (hk _ List.mem_cons_self)
  · exact within_setGeneric _ _ _ _ (hk _ List.mem_cons_self)
  · exact within_setGeneric _ _ _ _ (hk _ List.mem_cons_self)
  · exact within_getSetKey (hk _ List.mem_cons_self)
  · exact within_appendTo (hk _ List.mem_cons_self)
  · exact within_setRangeOf _ (hk _ List.mem_cons_self)
  · exact within_setMany _ hk
  · exact within_setMany _ hk
  · exact within_addInteger _ (hk _ List.mem_cons_self)
  · exact within_addInteger _ (hk _ List.mem_cons_self)
  · exact within_incrByOf _ (hk _ List.mem_cons_self)
  · exact within_decrByOf _ (hk _ List.mem_cons_self)
  · exact within_addFloat _ (hk _ List.mem_cons_self)
  · exact within_delKeys hk
  · exact .fail _

theorem within_answer (command : Command) (args : List Bytes) : (answer command args).Within c := by
  unfold answer
  split
  · exact (within_readString _).bind fun _ => .pure _
  · exact within_getRangeOf _ _ _
  · exact within_getRangeOf _ _ _
  · exact (within_readAll _).bind fun _ => .pure _
  · exact (within_readString _).bind fun _ => .pure _
  · exact (within_countFound _).bind fun _ => .pure _
  · exact within_keyspace.bind fun _ => within_now.bind fun _ => .pure _
  · exact within_keyspace.bind fun _ => within_now.bind fun _ => .pure _
  · exact .fail _

theorem within_reporting {α : Type} {a : Action α} (h : a.Within c) (report : Error → α) :
    (reporting a report).Within c := by
  intro s hs
  have hp := (h s hs).1
  rw [run_reporting]
  revert hp
  generalize a.run c.env s = r
  obtain ⟨(e | why) | x, s'⟩ := r <;> exact fun hp => ⟨hp, fun _ _ => trivial⟩

/-- The keys that a request names: none if it is no command or has too few or too many arguments. -/
def keys (argv : List Bytes) : List Bytes :=
  match command? argv with
  | .ok command => command.keys argv.tail
  | .error _ => []

/-- The keys that a request may write to: none if it only reads. -/
def written (argv : List Bytes) : List Bytes :=
  match command? argv with
  | .ok command => if command.isWrite then command.keys argv.tail else []
  | .error _ => []

theorem mem_keys_of_mem_written {argv : List Bytes} {key : Bytes} (h : key ∈ written argv) : key ∈ keys argv := by
  unfold written at h
  unfold keys
  cases hc : command? argv with
  | error e =>
      rw [hc] at h
      cases h
  | ok command =>
      rw [hc] at h
      simp only at h ⊢
      split at h
      · exact h
      · cases h

theorem within_processWrite_of_written [Decimals] {argv : List Bytes} (hk : ∀ key ∈ written argv, c.named key) :
    (processWrite argv).Within c := by
  unfold processWrite
  unfold written at hk
  cases hc : command? argv with
  | error e => exact .pure _
  | ok command =>
      simp only [hc] at hk ⊢
      split
      · rename_i hw
        simp only [hw, if_true] at hk
        exact within_reporting (within_execute command argv.tail hk) _
      · exact (within_reporting (within_answer command argv.tail) _).bind fun _ => .pure _

theorem within_processWrite [Decimals] {argv : List Bytes} (hk : ∀ key ∈ keys argv, c.named key) :
    (processWrite argv).Within c :=
  within_processWrite_of_written fun key h => hk key (mem_keys_of_mem_written h)

theorem within_processRead (argv : List Bytes) : (processRead argv).Within c := by
  unfold processRead
  split
  · exact .pure _
  · split
    · exact .pure _
    · split
      · exact within_reporting (within_answer _ argv.tail) _
      · exact .pure _

end Request

end GraceStore
