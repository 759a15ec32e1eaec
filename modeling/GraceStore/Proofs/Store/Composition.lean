import GraceStore.Proofs.Store.Frame

/-!
# What actions are made of

Every action is made of a few kinds of steps: a lookup that is counted, a string that is read through the
domain of the keyspace, a change of the keyspace or of an object that holds no bytes, and new bytes that are
published. `Action.MadeOf` says which kinds occur; what every step of these kinds does, the action does. An
action that only looks up and reads strings leaves the store as it is but for its counters and the cells that
it binds; one that reads and publishes no bytes never meets a foreign domain.
-/

namespace GraceStore

namespace Store

variable {s s' s'' : Store}

/-- All that looking at a store does to it: outcomes are counted, and the cells of strings that are read now
belong to its domain. -/
structure Browses (s s' : Store) : Prop where
  keyspace : ∃ hits misses, s'.keyspace = { s.keyspace with hits, misses }
  next : s'.heap.next = s.heap.next
  binds : ∀ o a, s.heap.get? o = some a → ∃ b, s'.heap.get? o = some b ∧ a.Binds s.keyspace.id b

namespace Browses

theorem refl (s : Store) : s.Browses s := ⟨⟨_, _, rfl⟩, rfl, fun _ a ha => ⟨a, ha, .inl rfl⟩⟩

theorem id (h : s.Browses s') : s'.keyspace.id = s.keyspace.id := by
  obtain ⟨hits, misses, hk⟩ := h.keyspace
  rw [hk]
  rfl

theorem trans (h : s.Browses s') (h' : s'.Browses s'') : s.Browses s'' where
  keyspace := by
    obtain ⟨_, _, hk⟩ := h.keyspace
    obtain ⟨hits, misses, hk'⟩ := h'.keyspace
    exact ⟨hits, misses, by rw [hk', hk]⟩
  next := h'.next.trans h.next
  binds := by
    intro o a ha
    obtain ⟨b, hb, hab⟩ := h.binds o a ha
    obtain ⟨b', hb', hbb'⟩ := h'.binds o b hb
    exact ⟨b', hb', hab.trans (h.id ▸ hbb')⟩

end Browses

end Store

namespace Action

variable {α β : Type} {a : Action α} {env : Env} {s : Store}

/-! ## Reading a string -/

/-- What an object holds without a cell is found without a trace. -/
theorem exists_run_loadString {o : ObjectId} (h : ∀ cell, s.heap.get? o ≠ some (.raw cell)) :
    ∃ x, ∀ t : Store, t.heap.get? o = s.heap.get? o → (loadString o).run env t = (.ok x, t) := by
  have hplain (x : Option StringValue)
      (h : ∀ t : Store, t.heap.get? o = s.heap.get? o → t.heap.loadString o t.keyspace.id = (.ok x, t.heap)) :
      ∃ x, ∀ t : Store, t.heap.get? o = s.heap.get? o → (loadString o).run env t = (.ok x, t) :=
    ⟨x, fun t ht => by rw [run_loadString, h t ht]⟩
  cases hg : s.heap.get? o with
  | none => exact hg ▸ hplain none fun t ht => by simp only [Heap.loadString, ht, hg]
  | some a =>
      cases a with
      | int v => exact hg ▸ hplain (some (.int v)) fun t ht => by simp only [Heap.loadString, ht, hg]
      | list items => exact hg ▸ hplain none fun t ht => by simp only [Heap.loadString, ht, hg]
      | raw cell => exact absurd hg (h cell)

theorem run_loadString_cases (env : Env) (s : Store) (o : ObjectId) :
    (∃ cell, s.heap.get? o = some (.raw cell) ∧ cell.admits s.keyspace.id = true ∧
      (loadString o).run env s =
        (.ok (some (.raw cell.value)), { s with heap := s.heap.set o (.raw (cell.bind s.keyspace.id)) })) ∨
    (∃ cell, s.heap.get? o = some (.raw cell) ∧ cell.admits s.keyspace.id = false ∧
      (loadString o).run env s = (.error (.foreignDomain .mk), s)) ∨
    (∀ cell, s.heap.get? o ≠ some (.raw cell)) ∧ ∃ x, ∀ t : Store, t.heap.get? o = s.heap.get? o →
      (loadString o).run env t = (.ok x, t) := by
  by_cases hraw : ∃ cell, s.heap.get? o = some (.raw cell)
  · obtain ⟨cell, hg⟩ := hraw
    have hrun : (loadString o).run env s = _ := run_loadString_raw hg
    cases hadm : cell.admits s.keyspace.id with
    | true => exact .inl ⟨cell, hg, hadm, by rw [hrun, if_pos hadm]⟩
    | false => exact .inr (.inl ⟨cell, hg, hadm, by rw [hrun, if_neg (Bool.eq_false_iff.mp hadm)]⟩)
  · exact .inr (.inr ⟨not_exists.mp hraw, exists_run_loadString (not_exists.mp hraw)⟩)

/-! ## Steps -/

/-- What a step of an action may do beside asking. -/
inductive StepKind where
  | look
  | count
  | load
  | change
  | publish
  deriving DecidableEq

/-- An action that is made of steps of some kinds. What it asks of the heap says nothing of the bytes in a cell,
nor of whom the cell belongs to, and the objects that it makes belong to nobody yet. -/
inductive MadeOf (kinds : StepKind → Prop) : {α : Type} → Action α → Prop
  | pure {α : Type} (x : α) : MadeOf kinds (pure x : Action α)
  | fail {α : Type} (e : Error) : MadeOf kinds (fail e : Action α)
  | bind {α β : Type} {a : Action α} {f : α → Action β} (ha : MadeOf kinds a) (hf : ∀ x, MadeOf kinds (f x)) :
      MadeOf kinds (a >>= f)
  | reporting {α : Type} {a : Action α} (ha : MadeOf kinds a) (report : Error → α) :
      MadeOf kinds (Request.reporting a report)
  | now : MadeOf kinds now
  | look (h : kinds .look) (i : Nat) : MadeOf kinds (look i)
  | ask {α : Type} (f : Store → α) (hf : ∀ (s : Store) o c c', s.heap.get? o = some (.raw c) →
      f { s with heap := s.heap.set o (.raw c') } = f s) : MadeOf kinds (do return f (← get))
  | lookup (h : kinds .count) (t : UInt64) (key : Bytes) : MadeOf kinds (apply (·.lookup t key))
  | load (h : kinds .load) (o : ObjectId) : MadeOf kinds (loadString o)
  | apply {α : Type} (h : kinds .change) (f : Keyspace → α × Keyspace) (hf : ∀ k, (f k).2.id = k.id) :
      MadeOf kinds (apply f)
  | exclusive (h : kinds .change) (key : Bytes) : MadeOf kinds (exclusive key)
  | alloc (h : kinds .change) (b : Object) (hb : ∀ d, b.Admits d) : MadeOf kinds (alloc b)
  | setInteger (h : kinds .change) (token : Token) (v : Int64) : MadeOf kinds (setInteger token v)
  | publish (h : kinds .publish) (token : Token) (data : Bytes) : MadeOf kinds (publishBytes token data)

variable {kinds : StepKind → Prop}

theorem MadeOf.map (h : a.MadeOf kinds) (g : α → β) : (g <$> a).MadeOf kinds := by
  rw [map_eq_pure_bind]
  exact .bind h fun x => .pure (g x)

theorem MadeOf.ofExcept (r : Except Error α) : (ofExcept r).MadeOf kinds := by
  cases r with
  | ok x => exact .pure x
  | error e => exact .fail e

/-! ## Steps of a keyspace -/

theorem madeOf_keyspace : keyspace.MadeOf kinds := .ask (·.keyspace) fun _ _ _ _ _ => rfl

theorem madeOf_getKey (hk : kinds .look) (i : Nat) (key : Bytes) : (get? i key).MadeOf kinds :=
  .bind madeOf_keyspace fun _ => .bind (.look hk i) fun _ => .pure _

theorem madeOf_apply (h : kinds .change) (op : KeyspaceOp) {g : Keyspace → α × Keyspace}
    (hg : ∀ k, (g k).2 = op.apply k) : (apply g).MadeOf kinds :=
  .apply h g fun k => hg k ▸ (Keyspace.turns_apply k op).id

theorem MadeOf.update (h : kinds .change) (f : Keyspace → Keyspace) (hf : ∀ k, (f k).id = k.id) :
    (update f).MadeOf kinds :=
  .apply h (fun k => ((), f k)) hf

theorem madeOf_update (h : kinds .change) (op : KeyspaceOp) {g : Keyspace → Keyspace} (hg : ∀ k, g k = op.apply k) :
    (update g).MadeOf kinds :=
  .update h g fun k => hg k ▸ (Keyspace.turns_apply k op).id

theorem madeOf_markDirty (h : kinds .change) (n : UInt64) : (update (·.markDirty n)).MadeOf kinds :=
  madeOf_update h (.markDirty n) fun _ => rfl

theorem madeOf_notify (h : kinds .change) (kind : EventClass) (name : String) (key : Bytes) :
    (update (·.notify kind name key)).MadeOf kinds :=
  madeOf_update h (.notify kind name key) fun _ => rfl

theorem madeOf_expireIfNeeded (hk : kinds .look) (h : kinds .change) (i : Nat) (key : Bytes) :
    (expireIfNeeded i key).MadeOf kinds :=
  .bind (.look hk i) fun t => madeOf_apply h (.expireIfNeeded t key) fun _ => rfl

theorem madeOf_remove (hk : kinds .look) (h : kinds .change) (i : Nat) (key : Bytes) : (remove i key).MadeOf kinds :=
  .bind (.look hk i) fun t => madeOf_apply h (.remove t key) fun _ => rfl

theorem madeOf_overwrite (h : kinds .change) (key : Bytes) (o : ObjectId) :
    (apply (·.overwrite key o)).MadeOf kinds :=
  madeOf_apply h (.overwrite key o) fun _ => rfl

theorem madeOf_add (h : kinds .change) (key : Bytes) (o : ObjectId) : (apply (·.add key o)).MadeOf kinds :=
  madeOf_apply h (.add key o) fun _ => rfl

theorem madeOf_setKey (h : kinds .change) (key : Bytes) (o : ObjectId) : (update (·.setKey key o)).MadeOf kinds :=
  madeOf_update h (.setKey key o) fun _ => rfl

/-! ## Steps on objects -/

/-- How an object is kept does not depend on the bytes in its cell. -/
theorem shape_set_cell {γ : Type} (g : Object → γ) (hg : ∀ c c', g (.raw c) = g (.raw c')) {h : Heap} {p : ObjectId}
    {c : Cell Bytes} (hc : h.get? p = some (.raw c)) (o : ObjectId) (c' : Cell Bytes) :
    ((h.set p (.raw c')).get? o).map g = (h.get? o).map g := by
  by_cases ho : o = p
  · subst ho
    rw [Heap.get?_set_self (Heap.lt_of_get? hc), hc, Option.map_some, Option.map_some, hg c c']
  · rw [Heap.get?_set_of_ne _ _ ho]

theorem madeOf_isRaw (o : ObjectId) : (isRaw o).MadeOf kinds :=
  .ask (fun s => (s.heap.get? o).any (·.encoding == .raw)) fun s p c c' hc => by
    have hshape := shape_set_cell (·.encoding) (fun _ _ => rfl) hc o c'
    have hany (x : Option Object) : x.any (·.encoding == .raw) = (x.map (·.encoding)).any (· == .raw) := by
      cases x <;> rfl
    rw [hany, hany, hshape]

theorem madeOf_isString (o : ObjectId) : (isString o).MadeOf kinds :=
  .ask (fun s => (s.heap.get? o).any (·.type == .string)) fun s p c c' hc => by
    have hshape := shape_set_cell (·.type) (fun _ _ => rfl) hc o c'
    have hany (x : Option Object) : x.any (·.type == .string) = (x.map (·.type)).any (· == .string) := by
      cases x <;> rfl
    rw [hany, hany, hshape]

theorem madeOf_createInteger (h : kinds .change) (v : Int64) : (createInteger v).MadeOf kinds := by
  unfold createInteger
  split
  · exact .bind madeOf_keyspace fun _ => .pure _
  · exact .alloc h _ (admits_int v)

theorem madeOf_createString (h : kinds .change) (data : Bytes) : (createString data).MadeOf kinds := by
  unfold createString
  split
  · exact madeOf_createInteger h _
  · exact .alloc h _ (admits_ofBytes data)

theorem madeOf_replaceByCopy (hl : kinds .load) (h : kinds .change) (key : Bytes) (o : ObjectId) :
    (replaceByCopy key o).MadeOf kinds := by
  refine .bind (.load hl o) fun value => ?_
  cases value with
  | none => exact .pure _
  | some value =>
      exact .bind (.alloc h _ (admits_ofBytes _)) fun copy => .bind (madeOf_overwrite h key copy) fun _ =>
        .bind madeOf_keyspace fun _ => .pure _

theorem madeOf_copyFound (hk : kinds .look) (hl : kinds .load) (h : kinds .change) (i : Nat) (key : Bytes) :
    (copyFound i key).MadeOf kinds := by
  refine .bind (madeOf_getKey hk i key) fun found => ?_
  cases found with
  | none => exact .pure _
  | some o => exact madeOf_replaceByCopy hl h key o

theorem madeOf_unshareString (hk : kinds .look) (hl : kinds .load) (h : kinds .change) (i : Nat) (key : Bytes) :
    (unshareString i key).MadeOf kinds := by
  refine .bind (madeOf_getKey hk i key) fun found => ?_
  cases found with
  | none => exact .pure _
  | some o =>
      refine .bind (madeOf_isString o) fun isString => ?_
      cases isString with
      | false => exact .pure _
      | true =>
          refine .bind (.exclusive h key) fun token => ?_
          cases token with
          | none => exact madeOf_copyFound hk hl h _ key
          | some token =>
              refine .bind (madeOf_isRaw token.object) fun isRaw => ?_
              cases isRaw with
              | false => exact madeOf_copyFound hk hl h _ key
              | true => exact .pure _

theorem madeOf_reclaim (h : kinds .change) (old : Retired Garbage) : (reclaim old).MadeOf kinds := by
  refine MadeOf.update h _ fun k => ?_
  simp only [Keyspace.id, Domain.freeAfter]
  split <;> rfl

/-- An object as it is shown, by how it is kept and the string that was read from it. -/
def shownAs (shape : ObjectType × Encoding × List Bytes) (value : Option StringValue) : ObjectView :=
  ⟨shape.1, shape.2.1, value.elim (.list shape.2.2) .string⟩

/-- What an object looks like is asked of the heap, but for its string, which is read. -/
theorem madeOf_view (hl : kinds .load) (o : ObjectId) : (view o).MadeOf kinds := by
  have hview : view o = (do return (((← get : Store).heap.get? o).map fun a => (a.type, a.encoding, a.items))) >>=
      fun shape => shape.elim (pure none) fun shape => (fun value => some (shownAs shape value)) <$> loadString o := by
    simp only [view, bind_assoc, pure_bind, map_eq_pure_bind]
    refine congrArg (bind get) (funext fun s => ?_)
    cases s.heap.get? o with
    | none => rfl
    | some a =>
        refine congrArg (bind (loadString o)) (funext fun value => ?_)
        cases value <;> rfl
  rw [hview]
  refine .bind (.ask (fun s => (s.heap.get? o).map fun a => (a.type, a.encoding, a.items)) fun s p c c' hc =>
    shape_set_cell _ (fun _ _ => rfl) hc o c') fun shape => ?_
  cases shape with
  | none => exact .pure _
  | some shape => exact .map (.load hl o) _

theorem madeOf_viewFound (hl : kinds .load) (found : Option ObjectId) : (viewFound found).MadeOf kinds := by
  cases found with
  | none => exact .pure _
  | some o => exact .bind (madeOf_view hl o) fun _ => .pure _

theorem madeOf_fromSource (h : kinds .change) (kept : Named ObjectId) (source : ObjectSource) :
    (fromSource kept source).MadeOf kinds := by
  cases source with
  | bytes data => exact .map (.alloc h _ (admits_ofBytes data)) _
  | integer v => exact .map (.alloc h _ (admits_int v)) _
  | list items => exact .map (.alloc h (.list items) nofun) _
  | sharedInteger v => exact .map (madeOf_createInteger h v) _
  | kept name => exact .pure _

theorem madeOf_sameObject (hk : kinds .look) (a b : Bytes) : (sameObject a b).MadeOf kinds := by
  refine .bind (madeOf_getKey hk 0 a) fun x => .bind (madeOf_getKey hk 1 b) fun y => ?_
  cases x with
  | none => exact .pure _
  | some x =>
      cases y with
      | none => exact .pure _
      | some y => exact .pure _

/-! ## Actions that only look -/

theorem browses_lookup (t : UInt64) (key : Bytes) : s.Browses ((apply (·.lookup t key)).run env s).2 := by
  rw [run_apply]
  refine ⟨?_, rfl, fun _ b hb => ⟨b, hb, .inl rfl⟩⟩
  simp only [Keyspace.lookup]
  split
  · exact ⟨s.keyspace.hits + 1, s.keyspace.misses, rfl⟩
  · exact ⟨s.keyspace.hits, s.keyspace.misses + 1, rfl⟩

theorem browses_loadString (o : ObjectId) : s.Browses ((loadString o).run env s).2 := by
  rcases run_loadString_cases env s o with ⟨cell, hg, hadm, hrun⟩ | ⟨_, _, _, hrun⟩ | ⟨_, x, hrun⟩
  · rw [hrun]
    refine ⟨⟨_, _, rfl⟩, Heap.next_set, fun p b hb => ?_⟩
    by_cases hp : p = o
    · subst hp
      cases hg.symm.trans hb
      exact ⟨_, Heap.get?_set_self (Heap.lt_of_get? hg), .inr ⟨cell, rfl, hadm, rfl⟩⟩
    · exact ⟨b, (Heap.get?_set_of_ne _ _ hp).trans hb, .inl rfl⟩
  · rw [hrun]
    exact .refl s
  · rw [hrun s rfl]
    exact .refl s

/-- Whatever comes of it, an action that counts and reads strings at most leaves everything else alone. -/
theorem MadeOf.browses (h : a.MadeOf kinds) (hchange : ¬ kinds .change) (hpublish : ¬ kinds .publish) (env : Env)
    (s : Store) : s.Browses (a.run env s).2 := by
  induction h generalizing s with
  | pure | fail | now | look | ask => exact .refl s
  | @bind _ _ a f _ _ iha ihf =>
      have ha := iha s
      rw [run_bind]
      generalize a.run env s = r at ha ⊢
      obtain ⟨e | x, s'⟩ := r
      · exact ha
      · exact ha.trans (ihf x s')
  | @reporting _ a _ report iha =>
      have ha := iha s
      rw [Request.run_reporting]
      generalize a.run env s = r at ha ⊢
      obtain ⟨(e | why) | x, s'⟩ := r <;> exact ha
  | lookup _ t key => exact browses_lookup t key
  | load _ o => exact browses_loadString o
  | apply hk | exclusive hk | alloc hk | setInteger hk => exact absurd hk hchange
  | publish hk => exact absurd hk hpublish

/-! ## Actions that touch no bytes -/

/-- An action that neither reads nor publishes bytes is not stopped by a foreign domain. -/
theorem MadeOf.not_foreign (h : a.MadeOf kinds) (hload : ¬ kinds .load) (hpublish : ¬ kinds .publish) (env : Env)
    (s : Store) (why : ForeignDomain) : (a.run env s).1 ≠ .error (.foreignDomain why) := by
  induction h generalizing s with
  | pure | fail | now | look | ask | lookup | apply | exclusive | alloc | setInteger => nofun
  | @bind _ _ a f _ _ iha ihf =>
      have ha := iha s
      rw [run_bind]
      generalize a.run env s = r at ha ⊢
      obtain ⟨e | x, s'⟩ := r
      · exact fun he => ha (congrArg Except.error (Except.error.inj he))
      · exact ihf x s'
  | @reporting _ a _ report iha =>
      have ha := iha s
      rw [Request.run_reporting]
      generalize a.run env s = r at ha ⊢
      obtain ⟨(e | why') | x, s'⟩ := r
      · nofun
      · exact fun he => ha (congrArg Except.error (Except.error.inj he))
      · nofun
  | load hk => exact absurd hk hload
  | publish hk => exact absurd hk hpublish

end Action

end GraceStore
