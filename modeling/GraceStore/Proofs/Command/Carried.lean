import GraceStore.Proofs.Command.Scripts
import GraceStore.Proofs.Store.Editing

/-!
# Requests carry out their scripts

Every command that writes does to the ledger of a sound store what its script does, and gives the same
result. From here on a request is its script.
-/

namespace GraceStore

/-- What a string that was looked up tells of a ledger. -/
def Ledger.Found (l : Ledger) (now : UInt64) (key : Bytes) : Option StringValue → Prop
  | none => l.items key = none
  | some value => ∃ expiry, l.live now key = some ⟨.string value.toBytes, expiry⟩

namespace Action

variable {β : Type} {env : Env} {s : Store} {held : ObjectId → Prop} {key value : Bytes}

/-! ## Arguments -/

theorem carries_integerArgument (arg : Bytes) :
    (integerArgument arg).Carries held env s (Script.integerArgument arg) := by
  unfold integerArgument Script.integerArgument integerOf
  cases Integer.parse? arg with
  | none => exact .fail
  | some v => exact .pure

theorem carries_checkLength (n : Nat) : (checkLength n).Carries held env s (Script.checkLength n) := by
  unfold checkLength Script.checkLength
  split
  · exact .pure
  · exact .fail

theorem eq_of_run_checkLength {n total : Nat} {now : UInt64} {l l' : Ledger}
    (h : (.ok total, l') = (Script.checkLength n).run now l) : total = n ∧ l' = l := by
  unfold Script.checkLength at h
  split at h
  · cases h
    exact ⟨rfl, rfl⟩
  · cases h

theorem eq_of_run_ofExcept {α : Type} {r : Except Error α} {x : α} {now : UInt64} {l l' : Ledger}
    (h : (.ok x, l') = (Script.ofExcept r).run now l) : l' = l := by
  cases r with
  | ok y => exact congrArg Prod.snd h
  | error e => cases h

theorem carries_timeToLive (command : Command) (arg : Bytes) (u : TimeUnit) :
    (Command.timeToLive command arg u).Carries held env s (Script.timeToLive command arg u) := by
  refine (carries_integerArgument arg).bind fun n s' _ _ => ?_
  cases Integer.ofInt? (n.toInt * u.factor) with
  | none => exact .fail
  | some ms =>
      by_cases hn : 0 < n
      · simp only [if_pos hn]
        exact .pure
      · simp only [if_neg hn]
        exact .fail

theorem carries_ttl (command : Command) (expire : Option (Bytes × TimeUnit)) :
    (expire.mapM fun (arg, u) => Command.timeToLive command arg u).Carries held env s
      (expire.mapM fun (arg, u) => Script.timeToLive command arg u) := by
  cases expire with
  | none => exact .pure
  | some p => exact (carries_timeToLive command p.1 p.2).bind fun ms s' _ _ => .pure

/-! ## Looking -/

theorem carries_lookupString [env.Still] {f : Option StringValue → Action β} {q : Option Bytes → Script β}
    (hnone : ∀ s', s.Advance held s' → s'.ledger.items key = none →
      (f none).Carries held env s' (q none))
    (hsome : ∀ s' value expiry, s.Advance held s' →
      s'.ledger.live env.now key = some ⟨.string value.toBytes, expiry⟩ →
      (f (some value)).Carries held env s' (q (some value.toBytes))) :
    (lookupString key >>= f).Carries held env s (Script.string key >>= q) := by
  simp only [lookupString, bind_assoc]
  refine carries_look (fun s' hadv hi => ?_) fun s' o a expiry hadv hg hnative hi => ?_
  · exact hnone s' hadv hi
  · simp only [bind_assoc]
    refine (yields_loadString hg hnative).carries fun x s₁ hadv₁ hl₁ hread => ?_
    obtain ⟨-, -, hx⟩ := hread
    cases hv : a.value with
    | string data =>
        rw [hv] at hx
        obtain ⟨value, rfl, rfl⟩ := hx
        exact hsome s₁ value expiry (hadv.trans hadv₁) (by rw [hl₁, hi, hv])
    | list items =>
        rw [hv] at hx
        cases hx
        exact .fail

theorem carries_lookupString_found [env.Still] {f : Option StringValue → Action β} {q : Option Bytes → Script β}
    (hf : ∀ s' old, s.Advance held s' → s'.ledger.Found env.now key old →
      (f old).Carries held env s' (q (old.map StringValue.toBytes))) :
    (lookupString key >>= f).Carries held env s (Script.string key >>= q) :=
  carries_lookupString (fun s' hadv hi => hf s' none hadv hi)
    fun s' value expiry hadv hi => hf s' (some value) hadv ⟨expiry, hi⟩

theorem carries_conditionHolds [env.Still] (condition : SetCondition) :
    (Command.conditionHolds condition key).Carries held env s (Script.conditionHolds condition key) := by
  cases condition with
  | always => exact .pure
  | ifMissing => exact carries_look (fun _ _ _ => .pure) fun _ _ _ _ _ _ _ _ => .pure
  | ifPresent => exact carries_look (fun _ _ _ => .pure) fun _ _ _ _ _ _ _ _ => .pure

/-! ## Setting -/

theorem carries_setCounted : (setCounted key value).Carries held env s
    (.deed (.put key (.string value) .forever) (.deed (.count 1) (.done ()))) :=
  (yields_createString value).carries fun _ _ _ _ ho => (does_setKey ho).carries fun _ _ _ _ =>
    (does_markDirty 1).carries (f := fun _ => Pure.pure ()) fun _ _ _ _ => .pure

/-- Setting a key and then its expiry is one deed. -/
theorem carries_setWithin {ms : UInt64} {rest : Action β} {p : Script β}
    (hrest : ∀ s', s.Advance held s' → rest.Carries held env s' p) :
    (do
      setCounted key value
      let t ← now
      let _ ← apply (·.setExpiry key (Command.later t ms))
      rest).Carries held env s (.deed (.put key (.string value) (.within ms)) (.deed (.count 1) p)) := by
  refine Meets.bind carries_setCounted (fun _ s₁ hadv₁ hl₁ => ?_) nofun
  replace hl₁ : s₁.ledger =
      (s.ledger.perform env.now (.put key (.string value) .forever)).perform env.now (.count 1) :=
    congrArg Prod.snd hl₁
  have hi : s₁.ledger.items key = some ⟨.string value, none⟩ := by
    rw [hl₁]
    exact Contents.set_self
  refine Meets.bind_run run_now .refl fun _ => ?_
  refine Meets.bind (meets_setExpiry hi) (fun _ s₂ hadv₂ ⟨_, hl₂⟩ => ?_) nofun
  refine Meets.mono (hrest s₂ (hadv₁.trans hadv₂)) fun r s₃ _ hr => ?_
  have hledger : s₂.ledger =
      (s.ledger.perform env.now (.put key (.string value) (.within ms))).perform env.now (.count 1) := by
    rw [hl₂, hl₁]
    simp only [Ledger.perform, Ledger.setItem, Contents.set_set]
    rfl
  rw [hr, hledger]
  rfl

end Action

namespace Command

variable {env : Env} {s : Store} {held : ObjectId → Prop} {key value : Bytes}

open GraceStore.Action

theorem carries_setGeneric [env.Still] (command : Command) (options : SetOptions) (okReply abortReply : Reply) :
    (setGeneric command options key value okReply abortReply).Carries held env s
      (Script.setGeneric command options key value okReply abortReply) := by
  refine (carries_ttl command options.expire).bind fun ttl s₁ _ _ => ?_
  refine (carries_conditionHolds options.condition).bind fun holds s₂ _ _ => ?_
  cases holds with
  | false => exact .pure
  | true =>
      simp only [if_true]
      cases ttl with
      | none =>
          exact carries_setCounted.bind fun _ _ _ _ => (does_notify .string "set").carries fun _ _ _ _ => .pure
      | some ms =>
          exact carries_setWithin fun _ _ => (does_notify .string "set").carries fun _ _ _ _ =>
            (does_notify .generic "expire").carries fun _ _ _ _ => .pure

theorem carries_getSetKey [env.Still] : (getSetKey key value).Carries held env s (Script.getSetKey key value) := by
  refine carries_lookupString (fun s₁ _ _ => ?_) fun s₁ old _ _ _ => ?_
  · exact carries_setCounted.bind fun _ _ _ _ => (does_notify .string "set").carries fun _ _ _ _ => .pure
  · exact carries_setCounted.bind fun _ _ _ _ => (does_notify .string "set").carries fun _ _ _ _ => .pure

/-! ## Editing -/

theorem carries_setRangeOf [env.Still] (offset : Bytes) :
    (setRangeOf key offset value).Carries held env s (Script.setRangeOf key offset value) := by
  refine (carries_integerArgument offset).bind fun n s₁ _ _ => ?_
  by_cases hn : n < 0
  · simp only [if_pos hn]
    exact .fail
  simp only [if_neg hn]
  refine carries_lookupString (fun s₂ _ hi => ?_) fun s₂ old expiry _ hi => ?_
  · by_cases hv : value.isEmpty = true
    · simp only [hv, Option.map_none, Option.getD_none, if_true]
      exact .pure
    simp only [Option.map_none, Option.getD_none, if_neg hv]
    refine (carries_checkLength _).bind fun total s₃ _ hrun => ?_
    obtain ⟨htotal, hl₃⟩ := eq_of_run_checkLength hrun
    refine (yields_alloc (admits_ofBytes _ _)).carries fun o s₄ _ hl₄ ho => ?_
    refine (does_add .kept ho (by rw [hl₄, hl₃, hi]) rfl).carries fun _ _ _ _ => ?_
    refine (does_markDirty 1).carries fun _ _ _ _ => (does_notify .string "setrange").carries fun _ _ _ _ => ?_
    have hlength : (Bytes.patchAt [] n.toInt.toNat value).length = total := by
      rw [Bytes.length_patchAt, htotal, List.length_nil, Nat.zero_max]
    rw [hlength]
    exact .pure
  · simp only [Option.map_some, Option.getD_some, StringValue.length_toBytes]
    by_cases hv : value.isEmpty = true
    · simp only [hv, if_true]
      exact .pure
    simp only [if_neg hv]
    refine (carries_checkLength _).bind fun total s₃ _ hrun => ?_
    obtain ⟨_, hl₃⟩ := eq_of_run_checkLength hrun
    rw [← hl₃] at hi
    exact carries_editInPlace_bind hi fun s₄ _ => (does_notify .string "setrange").carries fun _ _ _ _ => .pure

theorem carries_appendTo [env.Still] : (appendTo key value).Carries held env s (Script.appendTo key value) := by
  refine carries_lookupString (fun s₁ _ hi => ?_) fun s₁ old expiry _ hi => ?_
  · by_cases hv : value.isEmpty = true
    · simp only [hv, Option.map_none, if_true]
      exact .pure
    simp only [Option.map_none, if_neg hv]
    refine (yields_alloc (admits_ofBytes _ _)).carries fun o s₂ _ hl₂ ho => ?_
    refine (does_add .kept ho (by rw [hl₂, hi]) rfl).carries fun _ _ _ _ => ?_
    exact (does_markDirty 1).carries fun _ _ _ _ => (does_notify .string "append").carries fun _ _ _ _ => .pure
  · simp only [Option.map_some, StringValue.length_toBytes]
    refine (carries_checkLength _).bind fun total s₂ _ hrun => ?_
    obtain ⟨_, hl₂⟩ := eq_of_run_checkLength hrun
    rw [← hl₂] at hi
    exact carries_editInPlace_bind hi fun s₃ _ => (does_notify .string "append").carries fun _ _ _ _ => .pure

/-! ## Several keys -/

theorem carries_countPresent [env.Still] (i : Nat) (keys : List Bytes) :
    (countPresent i keys).Carries held env s (Script.countPresent keys) := by
  induction keys generalizing s i with
  | nil => exact .pure
  | cons key keys ih =>
      exact carries_look (fun s' _ _ => (ih _).bind fun n _ _ _ => .pure)
        fun s' o a _ _ _ _ _ => (ih _).bind fun n _ _ _ => .pure

theorem carries_setPairs (kvs : List (Bytes × Bytes)) :
    (setPairs kvs).Carries held env s (Script.setPairs kvs) := by
  induction kvs generalizing s with
  | nil => exact .pure
  | cons kv kvs ih =>
      obtain ⟨key, value⟩ := kv
      exact (yields_createString value).carries fun _ _ _ _ ho => (does_setKey ho).carries fun _ _ _ _ =>
        (does_notify .string "set").carries fun _ _ _ _ => ih

theorem carries_setMany [env.Still] (onlyMissing : Bool) (args : List Bytes) :
    (setMany onlyMissing args).Carries held env s (Script.setMany onlyMissing args) := by
  unfold setMany Script.setMany
  cases pairs? args with
  | none => exact .fail
  | some kvs =>
      have hset (b : Bool) (busy : Nat) (s : Store) : Carries (if 0 < busy then pure { reply := .integer 0 }
          else do
            setPairs kvs
            update (·.markDirty (UInt64.ofNat kvs.length))
            pure { reply := if b then .integer 1 else .ok }) held env s
          (if 0 < busy then pure { reply := .integer 0 }
          else do
            Script.setPairs kvs
            Script.act (.count (UInt64.ofNat kvs.length))
            pure { reply := if b then .integer 1 else .ok } : Script Executed) := by
        by_cases hb : 0 < busy
        · simp only [if_pos hb]
          exact .pure
        · simp only [if_neg hb]
          exact (carries_setPairs kvs).bind fun _ _ _ _ => (does_markDirty _).carries fun _ _ _ _ => .pure
      cases onlyMissing with
      | false => exact hset false 0 s
      | true => exact (carries_countPresent 0 _).bind fun busy s' _ _ => hset true busy s'

theorem carries_removeAll [env.Still] (i : Nat) (keys : List Bytes) :
    (removeAll i keys).Carries held env s (Script.removeAll keys) := by
  induction keys generalizing s i with
  | nil => exact .pure
  | cons key keys ih =>
      let rest (removed : Bool) : Script Nat := do
        let n ← Script.removeAll keys
        return (if removed then 1 else 0) + n
      have hscript : Script.removeAll (key :: keys) =
          (.look key fun v => if v.isSome then .deed (.erase key) (.done true) else .done false) >>= fun removed =>
            if removed then .deed (.count 1) (.deed (.report .generic "del" key) (rest true))
            else rest false :=
        congrArg (Script.look key) (funext fun v => by cases v <;> rfl)
      rw [hscript]
      refine carries_remove.bind fun removed s₁ _ _ => ?_
      cases removed with
      | false => exact (ih _).bind fun n _ _ _ => .pure
      | true =>
          exact (does_markDirty 1).carries fun _ _ _ _ => (does_notify .generic "del").carries fun _ _ _ _ =>
            (ih _).bind fun n _ _ _ => .pure

theorem carries_delKeys [env.Still] (keys : List Bytes) :
    (delKeys keys).Carries held env s (Script.delKeys keys) :=
  (carries_removeAll 0 keys).bind fun _ _ _ _ => .pure

/-! ## Counting -/

theorem does_store {o : ObjectId} {v : Value} {old : Option StringValue} (h : s.Offers o v)
    (hold : s.ledger.Found env.now key old) : (store old.isSome key o).Does held env s (.put key v .kept) := by
  cases old with
  | none =>
      refine Meets.bind (does_add .kept h hold rfl) (fun _ s' _ ⟨_, hl⟩ => ?_) nofun
      exact Meets.pure ⟨⟨_, rfl⟩, hl⟩
  | some value =>
      obtain ⟨expiry, hi⟩ := hold
      refine Meets.bind (does_overwrite h hi) (fun _ s' _ ⟨_, hl⟩ => ?_) nofun
      exact Meets.pure ⟨⟨_, rfl⟩, hl⟩

/-- The new integer of a key: in place, or in another object. -/
theorem carries_putInteger {old : Option StringValue} (hold : s.ledger.Found env.now key old) (sum : Int64) :
    Carries (do
      let inPlace ← if old.isSome && !isShared sum then setInPlace key sum else pure false
      if !inPlace then
        let object ← createInteger sum
        store old.isSome key object
      update (·.markDirty 1)
      update (·.notify .string "incrby" key)
      return { reply := .integer sum }) held env s (do
      Script.act (.put key (.string (Integer.render sum)) .kept)
      Script.act (.count 1)
      Script.act (.report .string "incrby" key)
      return ({ reply := .integer sum } : Executed)) := by
  have hreport (s' : Store) : Carries (do
      update (·.markDirty 1)
      update (·.notify .string "incrby" key)
      return ({ reply := .integer sum } : Executed)) held env s'
      (.deed (.count 1) (.deed (.report .string "incrby" key) (.done { reply := .integer sum }))) :=
    (does_markDirty 1).carries fun _ _ _ _ => (does_notify .string "incrby").carries fun _ _ _ _ => .pure
  have hcreate (s' : Store) (hold : s'.ledger.Found env.now key old) : Carries (do
      let object ← createInteger sum
      store old.isSome key object
      update (·.markDirty 1)
      update (·.notify .string "incrby" key)
      return ({ reply := .integer sum } : Executed)) held env s'
      (.deed (.put key (.string (Integer.render sum)) .kept)
        (.deed (.count 1) (.deed (.report .string "incrby" key) (.done { reply := .integer sum })))) :=
    (yields_createInteger sum).carries fun _ s₁ _ hl ho =>
      (does_store ho (hl ▸ hold)).carries fun _ _ _ _ => hreport _
  by_cases hin : (old.isSome && !isShared sum) = true
  · rw [if_pos hin]
    cases old with
    | none => cases hin
    | some value =>
        obtain ⟨expiry, hi⟩ := hold
        refine Meets.bind (meets_setInPlace hi) (fun inPlace s₁ _ hcases => ?_) nofun
        rcases hcases with ⟨hx, hl⟩ | ⟨hx, hl⟩
        · cases hx
          exact Meets.mono (hreport s₁) fun r s₂ _ hr => by rw [hr, hl]; rfl
        · cases hx
          exact Meets.mono (hcreate s₁ ⟨expiry, hl ▸ hi⟩) fun r s₂ _ hr => by rw [hr, hl]; rfl
  · rw [if_neg hin]
    exact hcreate s hold

theorem carries_addInteger [env.Still] (increment : Int64) :
    (addInteger key increment).Carries held env s (Script.addInteger key increment) := by
  refine carries_lookupString_found fun s₁ old _ hold => ?_
  cases old with
  | none =>
      simp only [pure_bind, Option.map_none, Option.elim_none, Script.pure_bind]
      cases Integer.add? 0 increment with
      | none => exact .fail
      | some sum => exact carries_putInteger hold sum
  | some value =>
      simp only [Option.map_some, Option.elim_some, StringValue.toInt64_toBytes]
      refine (Carries.ofExcept _).bind fun start s₂ _ hrun => ?_
      rw [← eq_of_run_ofExcept hrun] at hold
      cases Integer.add? start increment with
      | none => exact .fail
      | some sum => exact carries_putInteger hold sum

theorem carries_incrByOf [env.Still] (increment : Bytes) :
    (incrByOf key increment).Carries held env s (Script.incrByOf key increment) :=
  (carries_integerArgument increment).bind fun n _ _ _ => carries_addInteger n

theorem carries_decrByOf [env.Still] (decrement : Bytes) :
    (decrByOf key decrement).Carries held env s (Script.decrByOf key decrement) := by
  refine (carries_integerArgument decrement).bind fun n s₁ _ _ => ?_
  cases Integer.neg? n with
  | none => exact .fail
  | some n => exact carries_addInteger n

/-- The sum of INCRBYFLOAT is kept as bytes, whatever number its text writes. -/
theorem carries_putFloat [Decimals] {old : Option StringValue} (hold : s.ledger.Found env.now key old)
    (start : LongFloat) (increment : Bytes) : Carries
    (match LongFloat.parse? increment with
    | none => fail (.refused .notAFloat)
    | some n =>
      match start.add? n with
      | none => fail (.refused .sumNotFinite)
      | some sum => do
        let text := sum.render
        let object ← alloc (.ofBytes text)
        store old.isSome key object
        update (·.markDirty 1)
        update (·.notify .string "incrbyfloat" key)
        return ({ reply := .bulk text, rewrite := some [Bytes.ofString "SET", key, text] } : Executed))
    held env s
    (match LongFloat.parse? increment with
    | none => Script.failed (.refused .notAFloat)
    | some n =>
      match start.add? n with
      | none => Script.failed (.refused .sumNotFinite)
      | some sum => do
        Script.act (.put key (.string sum.render) .kept)
        Script.act (.count 1)
        Script.act (.report .string "incrbyfloat" key)
        return ({
          reply := .bulk sum.render
          rewrite := some [Bytes.ofString "SET", key, sum.render] } : Executed)) := by
  cases LongFloat.parse? increment with
  | none => exact .fail
  | some n =>
      dsimp only
      cases start.add? n with
      | none => exact .fail
      | some sum =>
          exact (yields_alloc (admits_ofBytes _ _)).carries fun _ s₁ _ hl ho =>
            (does_store ho (hl ▸ hold)).carries fun _ _ _ _ => (does_markDirty 1).carries fun _ _ _ _ =>
              (does_notify .string "incrbyfloat").carries fun _ _ _ _ => .pure

theorem carries_addFloat [Decimals] [Decimals.Lawful] [env.Still] (increment : Bytes) :
    (addFloat key increment).Carries held env s (Script.addFloat key increment) := by
  refine carries_lookupString_found fun s₁ old _ hold => ?_
  cases old with
  | none =>
      simp only [pure_bind, Option.map_none, Option.elim_none, Script.pure_bind]
      exact carries_putFloat hold .zero increment
  | some value =>
      simp only [Option.map_some, Option.elim_some, StringValue.toLongFloat_toBytes]
      refine (Carries.ofExcept _).bind fun start s₂ _ hrun => ?_
      rw [← eq_of_run_ofExcept hrun] at hold
      exact carries_putFloat hold start increment

end Command

/-! ## Requests -/

namespace Request

variable {env : Env} {s : Store} {held : ObjectId → Prop}

open GraceStore.Action Command

theorem carries_execute [Decimals] [Decimals.Lawful] [env.Still] (c : Command) (args : List Bytes) :
    (execute c args).Carries held env s (Script.ofCommand c args) := by
  unfold execute
  split
  · exact (Carries.ofExcept _).bind fun options _ _ _ => carries_setGeneric _ options _ _
  · exact carries_setGeneric _ _ _ _
  · exact carries_setGeneric _ _ _ _
  · exact carries_setGeneric _ _ _ _
  · exact carries_getSetKey
  · exact carries_appendTo
  · exact carries_setRangeOf _
  · exact carries_setMany _ _
  · exact carries_setMany _ _
  · exact carries_addInteger _
  · exact carries_addInteger _
  · exact carries_incrByOf _
  · exact carries_decrByOf _
  · exact carries_addFloat _
  · exact carries_delKeys _
  · have hscript : Script.ofCommand c args = .failed (.arity c.name) := by
      unfold Script.ofCommand
      split <;> simp_all
    rw [hscript]
    exact .fail

end Request

end GraceStore
