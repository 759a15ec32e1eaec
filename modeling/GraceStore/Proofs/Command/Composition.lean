import GraceStore.Proofs.Store.Composition

/-!
# What commands are made of

The steps that each command takes. A command that reads counts its lookups and reads strings. Commands that
set or remove keys read no bytes at all; those that go by the old string of a key read it first, and only an
edit in place publishes bytes.
-/

namespace GraceStore

namespace Action

variable {kinds : StepKind → Prop} {key value : Bytes}

theorem madeOf_integerArgument (arg : Bytes) : (integerArgument arg).MadeOf kinds := by
  unfold integerArgument
  split
  · exact .pure _
  · exact .fail _

theorem madeOf_checkLength (n : Nat) : (checkLength n).MadeOf kinds := by
  unfold checkLength
  split
  · exact .pure _
  · exact .fail _

theorem madeOf_lookupString (hk : kinds .look) (hl : kinds .load) (h : kinds .change) :
    (lookupString key).MadeOf kinds := by
  refine .bind (madeOf_expireIfNeeded hk h 0 key) fun _ => .bind (madeOf_getKey hk 1 key) fun found => ?_
  cases found with
  | none => exact .pure _
  | some o =>
      refine .bind (.load hl o) fun value => ?_
      cases value with
      | none => exact .fail _
      | some value => exact .pure _

theorem madeOf_setCounted (h : kinds .change) : (setCounted key value).MadeOf kinds :=
  .bind (madeOf_createString h value) fun object => .bind (madeOf_setKey h key object) fun _ => madeOf_markDirty h 1

/-- An edit, once there is a token for the string: the new bytes are published, or put into another object. -/
theorem madeOf_editThrough (hl : kinds .load) (h : kinds .change) (hp : kinds .publish) (edit : Bytes → Bytes)
    (token : Token) : MadeOf kinds (do
      let data := edit (((← loadString token.object).map StringValue.toBytes).getD [])
      match ← publishBytes token data with
      | some old =>
        update (·.markDirty 1)
        reclaim old
      | none =>
        let copy ← alloc (.ofBytes data)
        let _ ← apply (·.overwrite key copy)
        update (·.markDirty 1)
      return data.length) := by
  refine .bind (.load hl token.object) fun old => .bind (.publish hp token _) fun published => ?_
  cases published with
  | none =>
      exact .bind (.alloc h _ (admits_ofBytes _)) fun copy => .bind (madeOf_overwrite h key copy) fun _ =>
        .bind (madeOf_markDirty h 1) fun _ => .pure _
  | some old => exact .bind (madeOf_markDirty h 1) fun _ => .bind (madeOf_reclaim h old) fun _ => .pure _

theorem madeOf_editInPlace (hk : kinds .look) (hl : kinds .load) (h : kinds .change) (hp : kinds .publish)
    (edit : Bytes → Bytes) : (editInPlace key edit).MadeOf kinds := by
  refine .bind (madeOf_unshareString hk hl h 2 key) fun token => ?_
  cases token with
  | none => exact .fail _
  | some token => exact madeOf_editThrough hl h hp edit token

end Action

namespace Command

open GraceStore.Action

variable {kinds : StepKind → Prop} {key value : Bytes}

/-! ## Setting and removing -/

theorem madeOf_timeToLive (command : Command) (arg : Bytes) (u : TimeUnit) :
    (timeToLive command arg u).MadeOf kinds := by
  refine .bind (madeOf_integerArgument arg) fun n => ?_
  split
  · split
    · exact .pure _
    · exact .fail _
  · exact .fail _

theorem madeOf_expire (command : Command) (expire : Option (Bytes × TimeUnit)) :
    MadeOf kinds (expire.mapM fun (arg, u) => timeToLive command arg u) := by
  cases expire with
  | none => exact .pure _
  | some p => exact .bind (madeOf_timeToLive command p.1 p.2) fun _ => .pure _

theorem madeOf_conditionHolds (hk : kinds .look) (h : kinds .change) (condition : SetCondition) :
    (conditionHolds condition key).MadeOf kinds := by
  cases condition with
  | always => exact .pure _
  | ifMissing | ifPresent =>
      exact .bind (madeOf_expireIfNeeded hk h 0 key) fun _ => .bind (madeOf_getKey hk 1 key) fun _ => .pure _

/-- A key is set for as long as it is asked to, once its condition is known to hold. -/
theorem madeOf_setFor (h : kinds .change) (ttl : Option UInt64) (okReply : Reply) : MadeOf kinds (do
    setCounted key value
    match ttl with
    | some ms =>
      let t ← now
      let _ ← apply (·.setExpiry key (later t ms))
      update (·.notify .string "set" key)
      update (·.notify .generic "expire" key)
    | none => update (·.notify .string "set" key)
    return ({ reply := okReply } : Executed)) := by
  refine .bind (madeOf_setCounted h) fun _ => ?_
  cases ttl with
  | none => exact .bind (madeOf_notify h _ _ _) fun _ => .pure _
  | some ms =>
      exact .bind .now fun t => .bind (madeOf_apply h (.setExpiry key (later t ms)) fun _ => rfl) fun _ =>
        .bind (madeOf_notify h _ _ _) fun _ => .bind (madeOf_notify h _ _ _) fun _ => .pure _

theorem madeOf_setGeneric (hk : kinds .look) (h : kinds .change) (command : Command) (options : SetOptions)
    (okReply abortReply : Reply) : (setGeneric command options key value okReply abortReply).MadeOf kinds := by
  refine .bind (madeOf_expire command options.expire) fun ttl => ?_
  refine .bind (madeOf_conditionHolds hk h options.condition) fun holds => ?_
  cases holds with
  | false => exact .pure _
  | true => exact madeOf_setFor h ttl okReply

theorem madeOf_countPresent (hk : kinds .look) (h : kinds .change) (i : Nat) (keys : List Bytes) :
    (countPresent i keys).MadeOf kinds := by
  induction keys generalizing i with
  | nil => exact .pure _
  | cons key keys ih =>
      exact .bind (madeOf_expireIfNeeded hk h i key) fun _ => .bind (madeOf_getKey hk _ key) fun _ =>
        .bind (ih _) fun _ => .pure _

theorem madeOf_setPairs (h : kinds .change) (kvs : List (Bytes × Bytes)) : (setPairs kvs).MadeOf kinds := by
  induction kvs with
  | nil => exact .pure _
  | cons kv kvs ih =>
      exact .bind (madeOf_createString h kv.2) fun object => .bind (madeOf_setKey h kv.1 object) fun _ =>
        .bind (madeOf_notify h _ _ _) fun _ => ih

/-- Several keys are set, unless some of them are present and must not be. -/
theorem madeOf_setUnlessBusy (h : kinds .change) (onlyMissing : Bool) (kvs : List (Bytes × Bytes)) (busy : Nat) :
    MadeOf kinds (if 0 < busy then pure { reply := .integer 0 }
      else do
        setPairs kvs
        update (·.markDirty (UInt64.ofNat kvs.length))
        return { reply := if onlyMissing then .integer 1 else .ok } : Action Executed) := by
  split
  · exact .pure _
  · exact .bind (madeOf_setPairs h kvs) fun _ => .bind (madeOf_markDirty h _) fun _ => .pure _

theorem madeOf_setMany (hk : kinds .look) (h : kinds .change) (onlyMissing : Bool) (args : List Bytes) :
    (setMany onlyMissing args).MadeOf kinds := by
  unfold setMany
  cases pairs? args with
  | none => exact .fail _
  | some kvs =>
      cases onlyMissing with
      | false => exact madeOf_setUnlessBusy h false kvs 0
      | true => exact .bind (madeOf_countPresent hk h 0 _) (madeOf_setUnlessBusy h true kvs)

theorem madeOf_removeAll (hk : kinds .look) (h : kinds .change) (i : Nat) (keys : List Bytes) :
    (removeAll i keys).MadeOf kinds := by
  induction keys generalizing i with
  | nil => exact .pure _
  | cons key keys ih =>
      refine .bind (madeOf_remove hk h i key) fun removed => ?_
      cases removed with
      | false => exact .bind (ih _) fun _ => .pure _
      | true =>
          exact .bind (madeOf_markDirty h 1) fun _ => .bind (madeOf_notify h _ _ _) fun _ =>
            .bind (ih _) fun _ => .pure _

theorem madeOf_delKeys (hk : kinds .look) (h : kinds .change) (keys : List Bytes) : (delKeys keys).MadeOf kinds :=
  .bind (madeOf_removeAll hk h 0 keys) fun _ => .pure _

/-! ## After the old string has been read -/

/-- GETSET, once it is known what the key held. -/
theorem madeOf_setNew (h : kinds .change) (reply : Reply) : MadeOf kinds (do
    setCounted key value
    update (·.notify .string "set" key)
    return ({ reply } : Executed)) :=
  .bind (madeOf_setCounted h) fun _ => .bind (madeOf_notify h _ _ _) fun _ => .pure _

/-- A new object is added under a key that was missing. -/
theorem madeOf_addNew (h : kinds .change) (data : Bytes) (name : String) (executed : Executed) :
    MadeOf kinds (do
      let object ← alloc (.ofBytes data)
      let _ ← apply (·.add key object)
      update (·.markDirty 1)
      update (·.notify .string name key)
      return executed) :=
  .bind (.alloc h _ (admits_ofBytes data)) fun o => .bind (madeOf_add h key o) fun _ =>
    .bind (madeOf_markDirty h 1) fun _ => .bind (madeOf_notify h _ _ _) fun _ => .pure _

theorem madeOf_store (h : kinds .change) (present : Bool) (o : ObjectId) : (store present key o).MadeOf kinds := by
  cases present with
  | false => exact .bind (madeOf_add h key o) fun _ => .pure _
  | true => exact .bind (madeOf_overwrite h key o) fun _ => .pure _

theorem madeOf_setInPlace (h : kinds .change) (v : Int64) : (setInPlace key v).MadeOf kinds := by
  refine .bind (.exclusive h key) fun token => ?_
  cases token with
  | none => exact .pure _
  | some token => exact .setInteger h token v

/-- The new integer of a key, in place or in another object. -/
theorem madeOf_putInteger (h : kinds .change) (present : Bool) (sum : Int64) : MadeOf kinds (do
    let inPlace ← if present && !isShared sum then setInPlace key sum else pure false
    if !inPlace then
      let object ← createInteger sum
      store present key object
    update (·.markDirty 1)
    update (·.notify .string "incrby" key)
    return ({ reply := .integer sum } : Executed)) := by
  have hreport : MadeOf kinds (do
      update (·.markDirty 1)
      update (·.notify .string "incrby" key)
      return ({ reply := .integer sum } : Executed)) :=
    .bind (madeOf_markDirty h 1) fun _ => .bind (madeOf_notify h _ _ _) fun _ => .pure _
  have hcreate : MadeOf kinds (do
      let object ← createInteger sum
      store present key object
      update (·.markDirty 1)
      update (·.notify .string "incrby" key)
      return ({ reply := .integer sum } : Executed)) :=
    .bind (madeOf_createInteger h sum) fun o => .bind (madeOf_store h present o) fun _ => hreport
  split
  · refine .bind (madeOf_setInPlace h sum) fun inPlace => ?_
    cases inPlace with
    | false => exact hcreate
    | true => exact hreport
  · exact hcreate

theorem madeOf_putFloat [Decimals] (h : kinds .change) (present : Bool) (start : LongFloat) (increment : Bytes) :
    MadeOf kinds (match LongFloat.parse? increment with
      | none => fail (.refused .notAFloat)
      | some n =>
        match start.add? n with
        | none => fail (.refused .sumNotFinite)
        | some sum => do
          let text := sum.render
          let object ← alloc (.ofBytes text)
          store present key object
          update (·.markDirty 1)
          update (·.notify .string "incrbyfloat" key)
          return ({ reply := .bulk text, rewrite := some [Bytes.ofString "SET", key, text] } : Executed)) := by
  split
  · exact .fail _
  · split
    · exact .fail _
    · exact .bind (.alloc h _ (admits_ofBytes _)) fun o => .bind (madeOf_store h present o) fun _ =>
        .bind (madeOf_markDirty h 1) fun _ => .bind (madeOf_notify h _ _ _) fun _ => .pure _

/-! ## Commands that go by the old string -/

theorem madeOf_getSetKey (hk : kinds .look) (hl : kinds .load) (h : kinds .change) :
    (getSetKey key value).MadeOf kinds := by
  refine .bind (madeOf_lookupString hk hl h) fun old => ?_
  cases old with
  | none | some => exact madeOf_setNew h _

theorem madeOf_setRangeOf (hk : kinds .look) (hl : kinds .load) (h : kinds .change) (hp : kinds .publish)
    (offset : Bytes) : (setRangeOf key offset value).MadeOf kinds := by
  refine .bind (madeOf_integerArgument offset) fun n => ?_
  split
  · exact .fail _
  refine .bind (madeOf_lookupString hk hl h) fun old => ?_
  split
  · split
    · exact .pure _
    · exact .bind (madeOf_checkLength _) fun _ => madeOf_addNew h _ _ _
  · split
    · exact .pure _
    · exact .bind (madeOf_checkLength _) fun _ => .bind (madeOf_editInPlace hk hl h hp _) fun _ =>
        .bind (madeOf_notify h _ _ _) fun _ => .pure _

theorem madeOf_appendTo (hk : kinds .look) (hl : kinds .load) (h : kinds .change) (hp : kinds .publish) :
    (appendTo key value).MadeOf kinds := by
  refine .bind (madeOf_lookupString hk hl h) fun old => ?_
  split
  · split
    · exact .pure _
    · exact madeOf_addNew h _ _ _
  · exact .bind (madeOf_checkLength _) fun _ => .bind (madeOf_editInPlace hk hl h hp _) fun _ =>
      .bind (madeOf_notify h _ _ _) fun _ => .pure _

theorem madeOf_addInteger (hk : kinds .look) (hl : kinds .load) (h : kinds .change) (increment : Int64) :
    (addInteger key increment).MadeOf kinds := by
  refine .bind (madeOf_lookupString hk hl h) fun old => ?_
  cases old with
  | none =>
      simp only [pure_bind]
      split
      · exact .fail _
      · exact madeOf_putInteger h false _
  | some value =>
      refine .bind (.ofExcept _) fun start => ?_
      dsimp only
      split
      · exact .fail _
      · exact madeOf_putInteger h true _

theorem madeOf_incrByOf (hk : kinds .look) (hl : kinds .load) (h : kinds .change) (increment : Bytes) :
    (incrByOf key increment).MadeOf kinds :=
  .bind (madeOf_integerArgument increment) fun n => madeOf_addInteger hk hl h n

theorem madeOf_decrByOf (hk : kinds .look) (hl : kinds .load) (h : kinds .change) (decrement : Bytes) :
    (decrByOf key decrement).MadeOf kinds := by
  refine .bind (madeOf_integerArgument decrement) fun n => ?_
  split
  · exact madeOf_addInteger hk hl h _
  · exact .fail _

theorem madeOf_addFloat [Decimals] (hk : kinds .look) (hl : kinds .load) (h : kinds .change) (increment : Bytes) :
    (addFloat key increment).MadeOf kinds := by
  refine .bind (madeOf_lookupString hk hl h) fun old => ?_
  cases old with
  | none =>
      simp only [pure_bind]
      exact madeOf_putFloat h false .zero increment
  | some value => exact .bind (.ofExcept _) fun start => madeOf_putFloat h true start increment

/-! ## Reading -/

theorem madeOf_lookup (hc : kinds .count) (key : Bytes) : (lookup key).MadeOf kinds :=
  .bind .now fun t => .lookup hc t key

theorem madeOf_readString (hc : kinds .count) (hl : kinds .load) (key : Bytes) :
    (readString key).MadeOf kinds := by
  refine .bind (madeOf_lookup hc key) fun found => ?_
  cases found with
  | none => exact .pure _
  | some o =>
      refine .bind (.load hl o) fun value => ?_
      cases value with
      | none => exact .fail _
      | some value => exact .pure _

theorem madeOf_getRangeOf (hc : kinds .count) (hl : kinds .load) (key first last : Bytes) :
    (getRangeOf key first last).MadeOf kinds := by
  refine .bind (madeOf_integerArgument first) fun n => .bind (madeOf_integerArgument last) fun k => ?_
  refine .bind (madeOf_readString hc hl key) fun value => ?_
  cases value with
  | none | some => exact .pure _

theorem madeOf_readAll (hc : kinds .count) (hl : kinds .load) (keys : List Bytes) :
    (readAll keys).MadeOf kinds := by
  induction keys with
  | nil => exact .pure _
  | cons key keys ih =>
      refine .bind (madeOf_lookup hc key) fun found => ?_
      cases found with
      | none => exact .bind (.pure none) fun _ => .bind ih fun _ => .pure _
      | some o => exact .bind (.load hl o) fun _ => .bind ih fun _ => .pure _

theorem madeOf_countFound (hc : kinds .count) (keys : List Bytes) : (countFound keys).MadeOf kinds := by
  induction keys with
  | nil => exact .pure _
  | cons key keys ih => exact .bind (madeOf_lookup hc key) fun _ => .bind ih fun _ => .pure _

end Command

namespace Request

open GraceStore.Action Command

variable {kinds : StepKind → Prop}

/-! ## Requests -/

theorem madeOf_answer (hc : kinds .count) (hl : kinds .load) (c : Command) (args : List Bytes) :
    (answer c args).MadeOf kinds := by
  unfold answer
  split
  · exact .bind (madeOf_readString hc hl _) fun _ => .pure _
  · exact madeOf_getRangeOf hc hl _ _ _
  · exact madeOf_getRangeOf hc hl _ _ _
  · exact .bind (madeOf_readAll hc hl _) fun _ => .pure _
  · exact .bind (madeOf_readString hc hl _) fun _ => .pure _
  · exact .bind (madeOf_countFound hc _) fun _ => .pure _
  · exact .bind madeOf_keyspace fun _ => .bind .now fun _ => .pure _
  · exact .bind madeOf_keyspace fun _ => .bind .now fun _ => .pure _
  · exact .fail _

theorem madeOf_processRead (hc : kinds .count) (hl : kinds .load) (argv : List Bytes) :
    (processRead argv).MadeOf kinds := by
  unfold processRead
  split
  · exact .pure _
  · split
    · exact .pure _
    · split
      · exact .reporting (madeOf_answer hc hl _ argv.tail) _
      · exact .pure _

theorem madeOf_execute [Decimals] (hk : kinds .look) (hl : kinds .load) (h : kinds .change) (hp : kinds .publish)
    (c : Command) (args : List Bytes) : (execute c args).MadeOf kinds := by
  unfold execute
  split
  · exact .bind (.ofExcept _) fun options => madeOf_setGeneric hk h _ options _ _
  · exact madeOf_setGeneric hk h _ _ _ _
  · exact madeOf_setGeneric hk h _ _ _ _
  · exact madeOf_setGeneric hk h _ _ _ _
  · exact madeOf_getSetKey hk hl h
  · exact madeOf_appendTo hk hl h hp
  · exact madeOf_setRangeOf hk hl h hp _
  · exact madeOf_setMany hk h _ _
  · exact madeOf_setMany hk h _ _
  · exact madeOf_addInteger hk hl h _
  · exact madeOf_addInteger hk hl h _
  · exact madeOf_incrByOf hk hl h _
  · exact madeOf_decrByOf hk hl h _
  · exact madeOf_addFloat hk hl h _
  · exact madeOf_delKeys hk h _
  · exact .fail _

theorem madeOf_processWrite [Decimals] (hk : ∀ kind, kinds kind) (argv : List Bytes) :
    (processWrite argv).MadeOf kinds := by
  unfold processWrite
  split
  · exact .pure _
  · split
    · exact .reporting (madeOf_execute (hk _) (hk _) (hk _) (hk _) _ argv.tail) _
    · exact .bind (.reporting (madeOf_answer (hk _) (hk _) _ argv.tail) _) fun _ => .pure _

end Request

end GraceStore
