import GraceStore.Keyspace.Sharing
import GraceStore.Proofs.Keyspace.Table

/-!
# What updates of a keyspace change

Each update is described by the entry that every key has afterwards. `Keyspace.Turns` collects what an
update leaves alone: the identity of the keyspace, the order of its table, and the objects its entries
refer to, up to those that the update adds.
-/

namespace GraceStore.Keyspace

variable {k k' k'' : Keyspace} {key other : Bytes} {o : ObjectId} {policy : TtlPolicy} {now t : UInt64}
  {e : Entry} {added : ObjectId → Prop}

def events (k : Keyspace) : List Event := k.records.toList.filterMap Record.event?

/-- One keyspace turns into another, whose entries refer to the same objects or to those added. -/
structure Turns (added : ObjectId → Prop) (k k' : Keyspace) : Prop where
  id : k'.id = k.id
  db : k'.db = k.db
  hash : k'.hash = k.hash
  pool : k'.pool = k.pool
  valid : k.table.Valid k.hash → k'.table.Valid k'.hash
  objects : ∀ e' ∈ k'.table.entries, added e'.object ∨ ∃ e ∈ k.table.entries, e.object = e'.object

/-- Two keyspaces tell their users the same. -/
structure Same (k k' : Keyspace) : Prop where
  turns : k.Turns (fun _ => False) k'
  entry : k.table.Valid k.hash → ∀ key, k'.entry? key = k.entry? key
  dirty : k'.dirty = k.dirty
  expiredKeys : k'.expiredKeys = k.expiredKeys
  events : k'.events = k.events

theorem Turns.refl (k : Keyspace) : k.Turns added k :=
  ⟨rfl, rfl, rfl, rfl, fun hv => hv, fun e he => Or.inr ⟨e, he, rfl⟩⟩

theorem Turns.trans (h : k.Turns added k') (h' : k'.Turns added k'') : k.Turns added k'' where
  id := h'.id.trans h.id
  db := h'.db.trans h.db
  hash := h'.hash.trans h.hash
  pool := h'.pool.trans h.pool
  valid := fun hv => h'.valid (h.valid hv)
  objects := by
    intro e he
    rcases h'.objects e he with ha | ⟨d, hd, heq⟩
    · exact Or.inl ha
    · exact heq ▸ h.objects d hd

theorem Turns.mono {more : ObjectId → Prop} (h : k.Turns added k') (hm : ∀ o, added o → more o) :
    k.Turns more k' :=
  ⟨h.id, h.db, h.hash, h.pool, h.valid, fun e he => (h.objects e he).imp_left (hm _)⟩

/-- Everything but the table, the domain and the counters may be read off. -/
theorem Turns.of_table (hid : k'.id = k.id) (hdb : k'.db = k.db) (hhash : k'.hash = k.hash)
    (hpool : k'.pool = k.pool) (htable : k'.table = k.table) : k.Turns added k' :=
  ⟨hid, hdb, hhash, hpool, fun hv => by rwa [htable, hhash],
    fun e he => Or.inr ⟨e, htable ▸ he, rfl⟩⟩

theorem Same.of_table (hid : k'.id = k.id) (hdb : k'.db = k.db) (hhash : k'.hash = k.hash)
    (hpool : k'.pool = k.pool) (htable : k'.table = k.table) (hdirty : k'.dirty = k.dirty)
    (hexp : k'.expiredKeys = k.expiredKeys) (hrec : k'.records = k.records) : k.Same k' where
  turns := .of_table hid hdb hhash hpool htable
  entry := fun _ key => by rw [Keyspace.entry?, htable, hhash, Keyspace.entry?]
  dirty := hdirty
  expiredKeys := hexp
  events := by rw [Keyspace.events, hrec, Keyspace.events]

theorem Same.refl (k : Keyspace) : k.Same k := .of_table rfl rfl rfl rfl rfl rfl rfl rfl

theorem Same.trans (h : k.Same k') (h' : k'.Same k'') : k.Same k'' where
  turns := h.turns.trans h'.turns
  entry := fun hv key => (h'.entry (h.turns.valid hv) key).trans (h.entry hv key)
  dirty := h'.dirty.trans h.dirty
  expiredKeys := h'.expiredKeys.trans h.expiredKeys
  events := h'.events.trans h.events

/-! ## One bucket -/

section Bucket

variable {edit : Bucket → Bucket}

theorem entry?_modifyBucket_of_ne (hv : k.table.Valid k.hash)
    (hedit : ∀ b, (edit b).find? other = b.find? other) :
    Keyspace.entry? (k.modifyBucket key edit) other = k.entry? other := by
  simp only [Keyspace.entry?, modifyBucket, Table.find?_setBucket hv]
  split
  · rename_i hs
    rw [hedit, Table.find?, hs]
  · rfl

theorem entry?_modifyBucket_self (hv : k.table.Valid k.hash) {f : Option Entry → Option Entry}
    (hedit : ∀ b, (edit b).find? key = f (b.find? key)) :
    Keyspace.entry? (k.modifyBucket key edit) key = f (k.entry? key) := by
  simp only [Keyspace.entry?, modifyBucket, Table.find?_setBucket hv, if_true]
  exact hedit _

theorem turns_modifyBucket
    (hedit : ∀ b, ∀ e ∈ edit b, e.key = key ∧ added e.object ∨ ∃ d ∈ b, d.key = e.key ∧ d.object = e.object) :
    k.Turns added (k.modifyBucket key edit) where
  id := by
    simp only [id, modifyBucket]
    split <;> rfl
  db := rfl
  hash := rfl
  pool := rfl
  valid := by
    intro hv
    refine hv.setBucket fun e he => ?_
    rcases hedit _ e he with ⟨hk, _⟩ | ⟨d, hd, hk, _⟩
    · rw [hk]
    · rw [← hk]
      exact hv.placed _ d hd
  objects := by
    intro e he
    rcases Table.mem_entries_setBucket he with he | he
    · rcases hedit _ e he with ⟨_, ha⟩ | ⟨d, hd, _, ho⟩
      · exact Or.inl ha
      · exact Or.inr ⟨d, Table.mem_entries.mpr ⟨_, hd⟩, ho⟩
    · exact Or.inr ⟨e, he, rfl⟩

end Bucket

/-! ## Counting and growing -/

theorem events_record (r : Record) : (k.record r).events = k.events ++ r.event?.toList := by
  cases h : r.event? <;> simp [events, record, h]

theorem same_grow (k : Keyspace) : k.Same k.grow where
  turns := ⟨rfl, rfl, rfl, rfl, fun hv => hv.double,
    fun e he => Or.inr ⟨e, Table.mem_entries_double he, rfl⟩⟩
  entry := fun hv _ => hv.find?_double
  dirty := rfl
  expiredKeys := rfl
  events := (events_record _).trans (List.append_nil _)

theorem same_countAdded (k : Keyspace) : k.Same k.countAdded := by
  have hcount : k.Same { k with size := k.size + 1, keyCount := k.size + 1 } :=
    .of_table rfl rfl rfl rfl rfl rfl rfl rfl
  unfold countAdded
  simp only
  split
  · exact hcount.trans (same_grow _)
  · exact hcount

/-! ## Putting an object under a key -/

theorem same_install (k : Keyspace) (key : Bytes) (o : ObjectId) (policy : TtlPolicy) :
    (k.modifyBucket key (Bucket.put key o policy)).Same (k.install key o policy) := by
  unfold install
  simp only
  split
  · exact .refl _
  · exact same_countAdded _

theorem turns_put : k.Turns (· = o) (k.modifyBucket key (Bucket.put key o policy)) := by
  refine turns_modifyBucket fun b e he => ?_
  rcases Bucket.mem_put he with h | h
  · exact Or.inr ⟨e, h, rfl, rfl⟩
  · exact Or.inl h

theorem turns_install : k.Turns (· = o) (k.install key o policy) :=
  turns_put.trans ((same_install k key o policy).turns.mono nofun)

theorem entry?_install_self (hv : k.table.Valid k.hash) : Keyspace.entry? (k.install key o policy) key =
    some ⟨key, o, (k.entry? key).bind fun e => policy.apply e.expiresAt⟩ := by
  rw [(same_install k key o policy).entry (turns_put.valid hv)]
  exact entry?_modifyBucket_self (f := fun e? => some ⟨key, o, e?.bind fun e => policy.apply e.expiresAt⟩)
    hv fun b => Bucket.find?_put_self

theorem entry?_install_of_ne (hv : k.table.Valid k.hash) (h : other ≠ key) :
    Keyspace.entry? (k.install key o policy) other = k.entry? other := by
  rw [(same_install k key o policy).entry (turns_put.valid hv)]
  exact entry?_modifyBucket_of_ne hv fun b => Bucket.find?_put_of_ne h

@[simp] theorem dirty_install : (k.install key o policy).dirty = k.dirty :=
  (same_install k key o policy).dirty

@[simp] theorem expiredKeys_install : (k.install key o policy).expiredKeys = k.expiredKeys :=
  (same_install k key o policy).expiredKeys

@[simp] theorem events_install : (k.install key o policy).events = k.events :=
  (same_install k key o policy).events

/-! ## Removing a key -/

theorem turns_delete : k.Turns (fun _ => False) (k.delete key).2 := by
  unfold delete
  split
  · refine Turns.trans (turns_modifyBucket fun b e he => ?_) (.of_table rfl rfl rfl rfl rfl)
    exact Or.inr ⟨e, Bucket.mem_of_mem_erase he, rfl, rfl⟩
  · exact .refl k

theorem delete_fst : (k.delete key).1 = (k.entry? key).isSome := by
  unfold delete
  split <;> simp_all

theorem entry?_delete_self (hv : k.table.Valid k.hash) : Keyspace.entry? (k.delete key).2 key = none := by
  unfold delete
  split
  · exact entry?_modifyBucket_self (f := fun _ => none) hv fun b => Bucket.find?_erase_self
  · simp_all

theorem entry?_delete_of_ne (hv : k.table.Valid k.hash) (h : other ≠ key) :
    Keyspace.entry? (k.delete key).2 other = k.entry? other := by
  unfold delete
  split
  · exact entry?_modifyBucket_of_ne hv fun b => Bucket.find?_erase_of_ne h
  · rfl

@[simp] theorem dirty_delete : (k.delete key).2.dirty = k.dirty := by
  unfold delete
  split <;> rfl

@[simp] theorem expiredKeys_delete : (k.delete key).2.expiredKeys = k.expiredKeys := by
  unfold delete
  split <;> rfl

@[simp] theorem events_delete : (k.delete key).2.events = k.events := by
  unfold delete
  split <;> rfl

/-! ## Expiry -/

theorem turns_setExpiry : k.Turns (fun _ => False) (k.setExpiry key t).2 := by
  unfold setExpiry
  split
  · exact turns_modifyBucket fun b e he => Or.inr (Bucket.mem_setExpiry he)
  · exact .refl k

theorem entry?_setExpiry_self (hv : k.table.Valid k.hash) :
    Keyspace.entry? (k.setExpiry key t).2 key = (k.entry? key).map ({ · with expiresAt := some t }) := by
  unfold setExpiry
  split
  · exact entry?_modifyBucket_self (f := Option.map ({ · with expiresAt := some t })) hv
      fun b => Bucket.find?_setExpiry_self
  · simp_all

theorem entry?_setExpiry_of_ne (hv : k.table.Valid k.hash) (h : other ≠ key) :
    Keyspace.entry? (k.setExpiry key t).2 other = k.entry? other := by
  unfold setExpiry
  split
  · exact entry?_modifyBucket_of_ne hv fun b => Bucket.find?_setExpiry_of_ne h
  · rfl

@[simp] theorem dirty_setExpiry : (k.setExpiry key t).2.dirty = k.dirty := by
  unfold setExpiry
  split <;> rfl

@[simp] theorem expiredKeys_setExpiry : (k.setExpiry key t).2.expiredKeys = k.expiredKeys := by
  unfold setExpiry
  split <;> rfl

@[simp] theorem events_setExpiry : (k.setExpiry key t).2.events = k.events := by
  unfold setExpiry
  split <;> rfl

/-- A key that is not due is left alone; one that is due is removed, noted and reported. -/
theorem expireIfNeeded_cases (k : Keyspace) (now : UInt64) (key : Bytes) :
    ((k.entry? key).any (·.isDue now) = false ∧ k.expireIfNeeded now key = (false, k)) ∨
      ((k.entry? key).any (·.isDue now) = true ∧ (k.expireIfNeeded now key).1 = true ∧
        k.Turns (fun _ => False) (k.expireIfNeeded now key).2 ∧
        (∀ other, Keyspace.entry? (k.expireIfNeeded now key).2 other = Keyspace.entry? (k.delete key).2 other) ∧
        (k.expireIfNeeded now key).2.dirty = k.dirty ∧
        (k.expireIfNeeded now key).2.expiredKeys = k.expiredKeys.add key ∧
        (k.expireIfNeeded now key).2.events = k.events ++ [⟨.generic, "expired", key, k.db⟩]) := by
  unfold expireIfNeeded
  by_cases h : (k.entry? key).any (·.isDue now) = true
  · refine Or.inr ⟨h, ?_⟩
    have hturns : k.Turns (fun _ => False) (k.delete key).2 := turns_delete
    have hdirty : (k.delete key).2.dirty = k.dirty := dirty_delete
    have hexp : (k.delete key).2.expiredKeys = k.expiredKeys := expiredKeys_delete
    have hevents : (k.delete key).2.events = k.events := events_delete
    rw [if_pos h]
    generalize (k.delete key).2 = d at *
    refine ⟨rfl, hturns.trans (.of_table rfl rfl rfl rfl rfl), fun other => rfl, hdirty,
      congrArg (·.add key) hexp, ?_⟩
    simp only [notify, events_record, Record.event?, Option.toList, List.append_nil]
    rw [← hevents, ← hturns.db]
    rfl
  · exact Or.inl ⟨by simpa using h, if_neg h⟩

theorem turns_expireIfNeeded (k : Keyspace) (now : UInt64) (key : Bytes) :
    k.Turns (fun _ => False) (k.expireIfNeeded now key).2 := by
  rcases k.expireIfNeeded_cases now key with ⟨_, hk⟩ | ⟨_, _, ht, _⟩
  · rw [hk]
    exact .refl k
  · exact ht

theorem turns_remove (k : Keyspace) (now : UInt64) (key : Bytes) :
    k.Turns (fun _ => False) (k.remove now key).2 := by
  have ht := turns_expireIfNeeded k now key
  unfold remove
  split
  · rename_i k' hk
    rw [hk] at ht
    exact ht
  · rename_i k' hk
    rw [hk] at ht
    exact ht.trans turns_delete

theorem turns_expireAll (k : Keyspace) (looks : List (UInt64 × Bytes)) :
    k.Turns (fun _ => False) (k.expireAll looks).2 := by
  induction looks generalizing k with
  | nil => exact .refl k
  | cons look looks ih => exact (turns_expireIfNeeded k look.1 look.2).trans (ih _)

/-! ## Tokens -/

theorem same_synchronize (k : Keyspace) : k.Same k.synchronize := .of_table rfl rfl rfl rfl rfl rfl rfl rfl

/-- A token is granted on a count of one, which may take a grace period. -/
theorem exclusive_cases (k : Keyspace) (outside : ObjectId → Nat) (key : Bytes) :
    k.Same (k.exclusive outside key).2 ∧ ((k.exclusive outside key).1 = none ∨
      ∃ e, k.entry? key = some e ∧ Keyspace.entry? (k.exclusive outside key).2 key = some e ∧
        (k.exclusive outside key).1 = some ⟨e.object, k.id⟩ ∧
        (k.exclusive outside key).2.references e.object + outside e.object = 1) := by
  unfold exclusive
  cases he : k.entry? key with
  | none => exact ⟨.refl k, Or.inl rfl⟩
  | some e =>
      simp only
      split
      · rename_i h
        exact ⟨.refl k, Or.inr ⟨e, rfl, he, rfl, by simpa using h⟩⟩
      · split
        · exact ⟨.refl k, Or.inl rfl⟩
        · refine ⟨same_synchronize k, ?_⟩
          by_cases h : k.synchronize.references e.object + outside e.object = 1
          · simp only [h, decide_true, if_true]
            exact Or.inr ⟨e, rfl, he, rfl, h⟩
          · simp only [h, decide_false]
            exact Or.inl rfl

theorem exclusive_snd (k : Keyspace) (outside : ObjectId → Nat) (key : Bytes) :
    ∃ domain, (k.exclusive outside key).2 = { k with domain } ∧ domain.id = k.domain.id ∧
      domain.published = k.domain.published := by
  unfold exclusive
  split
  · exact ⟨k.domain, rfl, rfl, rfl⟩
  · simp only
    split
    · exact ⟨k.domain, rfl, rfl, rfl⟩
    · split
      · exact ⟨k.domain, rfl, rfl, rfl⟩
      · exact ⟨_, rfl, rfl, rfl⟩

end GraceStore.Keyspace
